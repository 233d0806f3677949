import SweGateway.Core.Payment.Equiv.Step
import Mathlib.Algebra.Order.BigOperators.Group.List
import Mathlib.Algebra.Order.Ring.Int

/-!
# The status that a sequence of refunds leaves

A payment is created successfully with a positive amount and from then on only refunded, while
anything may happen to other payments.  `issued` is what its refunds add up to, an absent amount
standing for the payment's own.  One would expect the status after each refund to tell whether
`issued` has reached the payment's amount (`StatusReflects`).

`createRefund` compares the amount of the latest refund alone with the payment's amount, and ignores
the refunds before it.  So the status is right after each refund exactly when every refund below the
payment's amount leaves the cumulative total below it as well (`refundStatus_iff`).
-/

namespace SweGateway.MockPaymentGateway

/-- What a refund asks for, of a payment with the amount `full`. -/
def refundAmount (full : ℤ) (refund : Refund) : ℤ := (refund.amount.map Money.amount).getD full

/-- What a call adds to the refunds of the payment `id`. -/
def issuedBy (id : String) (full : ℤ) : PaymentOp → ℤ
  | .createRefund _ refund => if refund.paymentId = id then refundAmount full refund else 0
  | _ => 0

/-- What the calls `ops` have refunded of the payment `id`, whose amount is `full`. -/
def issued (id : String) (full : ℤ) (ops : List PaymentOp) : ℤ := (ops.map (issuedBy id full)).sum

/-- All that the calls `ops` do to the payment `id` is to refund it, by positive amounts. -/
def OnlyRefunds (id : String) (ops : List PaymentOp) : Prop :=
  ∀ op ∈ ops, op.paymentId = id → ∃ now refund, op = .createRefund now refund ∧
    ∀ amount, refund.amount = some amount → 0 < amount.amount

/-- After the refund `op` of `payment`, the stored status tells whether the refunds issued so far
reach the payment's amount. -/
def StatusReflects (g : MockPaymentGateway) (payment : Payment) (pre : List PaymentOp)
    (op : PaymentOp) : Prop :=
  ∀ now refund, op = .createRefund now refund → refund.paymentId = payment.id →
    (g.after (pre ++ [op])).status payment.id =
      some (if payment.amount.amount ≤ issued payment.id payment.amount.amount (pre ++ [op]) then
        .refunded else .partiallyRefunded)

/-- If the refund `op` of `payment` is below the payment's amount, so are the refunds issued so
far. -/
def PartialStaysBelow (payment : Payment) (pre : List PaymentOp) (op : PaymentOp) : Prop :=
  ∀ now refund, op = .createRefund now refund → refund.paymentId = payment.id →
    refundAmount payment.amount.amount refund < payment.amount.amount →
      issued payment.id payment.amount.amount (pre ++ [op]) < payment.amount.amount

theorem OnlyRefunds.of_prefix {id : String} {pre ops : List PaymentOp} (h : OnlyRefunds id ops)
    (hpre : pre <+: ops) : OnlyRefunds id pre :=
  fun op hop => h op (hpre.subset hop)

theorem issuedBy_nonneg {id : String} {full : ℤ} (hpos : 0 < full) {op : PaymentOp}
    (h : op.paymentId = id → ∃ now refund, op = .createRefund now refund ∧
      ∀ amount, refund.amount = some amount → 0 < amount.amount) :
    0 ≤ issuedBy id full op := by
  cases op with
  | createRefund now refund =>
    simp only [issuedBy]
    split_ifs with hid
    · obtain ⟨_, _, heq, hamount⟩ := h hid
      obtain ⟨-, rfl⟩ := PaymentOp.createRefund.inj heq
      unfold refundAmount
      cases hr : refund.amount with
      | none => exact hpos.le
      | some amount => exact (hamount amount hr).le
    · exact le_rfl
  | _ => exact le_rfl

theorem issued_nonneg {id : String} {full : ℤ} (hpos : 0 < full) {ops : List PaymentOp}
    (h : OnlyRefunds id ops) : 0 ≤ issued id full ops := by
  refine List.sum_nonneg ?_
  intro x hx
  obtain ⟨op, hop, rfl⟩ := List.mem_map.mp hx
  exact issuedBy_nonneg hpos (h op hop)

theorem issued_concat (id : String) (full : ℤ) (ops : List PaymentOp) (op : PaymentOp) :
    issued id full (ops ++ [op]) = issued id full ops + issuedBy id full op := by
  simp [issued]

/-- The status that a refund leaves, by the amount it asks for. -/
theorem refundedStatus_eq (refund : Refund) (p : PaymentResult) :
    refundedStatus refund p =
      if refundAmount p.amount.amount refund < p.amount.amount then .partiallyRefunded
      else .refunded := by
  unfold refundedStatus refundAmount
  cases refund.amount with
  | none => simp
  | some amount => rfl

theorem amount_paymentOutcome {mode : Option MockFailureMode} {payment : Payment}
    (hok : shouldFail mode payment = none) (now : DateTime) (uuid : String) :
    (paymentOutcome mode now uuid payment).amount = payment.amount := by
  unfold paymentOutcome
  rw [hok]
  cases payment.customerId <;> rfl

/-- Refunds leave the amount of the payment alone. -/
theorem amount_after_refunds {g : MockPaymentGateway} {id : String} {amount : Money}
    (h : ∃ p, g.payments[id]? = some p ∧ p.amount = amount) {ops : List PaymentOp}
    (hops : OnlyRefunds id ops) :
    ∃ p, (g.after ops).payments[id]? = some p ∧ p.amount = amount := by
  induction ops using List.reverseRecOn with
  | nil => exact h
  | append_singleton ops op ih =>
    obtain ⟨p, hp, hamount⟩ := ih (hops.of_prefix (List.prefix_append ops [op]))
    rw [after_concat, payments_step]
    by_cases hid : op.paymentId = id
    · obtain ⟨now, refund, rfl, -⟩ := hops op (by simp) hid
      rw [if_pos hid, hp]
      exact ⟨_, rfl, hamount⟩
    · rw [if_neg hid]
      exact ⟨p, hp, hamount⟩

/-- **The status of a refunded payment.** For a payment created with a positive amount and only
refunded since, the status is right after every refund exactly when every refund below the payment's
amount leaves the cumulative total below it. -/
theorem refundStatus_iff (g : MockPaymentGateway) (now : DateTime) (uuid : String)
    (payment : Payment) (ops : List PaymentOp) (hok : shouldFail g.failureMode payment = none)
    (hpos : 0 < payment.amount.amount) (hops : OnlyRefunds payment.id ops) :
    Runs.EachStep (StatusReflects (g.step (.createPayment now uuid payment)) payment) ops ↔
      Runs.EachStep (PartialStaysBelow payment) ops := by
  set g' := g.step (.createPayment now uuid payment) with hg'
  have hcreated : ∃ p, g'.payments[payment.id]? = some p ∧ p.amount = payment.amount := by
    refine ⟨paymentOutcome g.failureMode now uuid payment, ?_, amount_paymentOutcome hok now uuid⟩
    rw [hg', payments_step]
    simp [PaymentOp.paymentId, PaymentOp.effect]
  refine forall₃_congr fun pre op hpre => ?_
  have hpre' : pre <+: ops := (List.prefix_append pre [op]).trans hpre
  refine forall₄_congr fun now refund hop hid => ?_
  subst hop
  obtain ⟨p, hp, hamount⟩ := amount_after_refunds hcreated (hops.of_prefix hpre')
  have hstatus : (g'.after (pre ++ [.createRefund now refund])).status payment.id =
      some (if refundAmount payment.amount.amount refund < payment.amount.amount then
        .partiallyRefunded else .refunded) := by
    rw [after_concat, status, payments_step]
    simp only [PaymentOp.paymentId, hid, if_true, hp, PaymentOp.effect, Option.map_some,
      refundedStatus_eq, hamount]
  have htotal : issued payment.id payment.amount.amount (pre ++ [.createRefund now refund]) =
      issued payment.id payment.amount.amount pre +
        refundAmount payment.amount.amount refund := by
    rw [issued_concat]
    simp only [issuedBy, hid, if_true]
  have hnonneg : 0 ≤ issued payment.id payment.amount.amount pre :=
    issued_nonneg hpos (hops.of_prefix hpre')
  rw [hstatus, htotal]
  by_cases hsmall : refundAmount payment.amount.amount refund < payment.amount.amount
  · by_cases hreach : payment.amount.amount ≤
        issued payment.id payment.amount.amount pre + refundAmount payment.amount.amount refund
    · simp [hsmall, hreach]
    · simp [hsmall, hreach, not_le.mp hreach]
  · -- a refund of the whole amount reaches it, whatever came before
    have hreach : payment.amount.amount ≤
        issued payment.id payment.amount.amount pre +
          refundAmount payment.amount.amount refund := by
      omega
    simp [hsmall, hreach]

/-- Two refunds of parts of the amount, and then one of the whole amount. -/
def partsAndWhole : List PaymentOp :=
  [.createRefund 1 { id := "re_1", paymentId := "pay_1", amount := some (Money.usd 40) },
    .createRefund 2 { id := "re_2", paymentId := "pay_1", amount := some (Money.usd 50) },
    .createRefund 3 { id := "re_3", paymentId := "pay_1" }]

/-- The parts stay below the amount, so the payment is refunded from the last refund on. -/
theorem refundStatus_partsAndWhole :
    Runs.EachStep (StatusReflects
        (new.step (.createPayment 0 "u1" { id := "pay_1", amount := Money.usd 100 }))
        { id := "pay_1", amount := Money.usd 100 }) partsAndWhole := by
  have hrefunds : OnlyRefunds "pay_1" partsAndWhole := by
    intro op hop _
    simp only [partsAndWhole, List.mem_cons, List.not_mem_nil, or_false] at hop
    rcases hop with rfl | rfl | rfl
    · exact ⟨1, _, rfl, fun amount hamount => Option.some.inj hamount ▸ by decide⟩
    · exact ⟨2, _, rfl, fun amount hamount => Option.some.inj hamount ▸ by decide⟩
    · exact ⟨3, _, rfl, nofun⟩
  have hparts : ∀ n < 2, issued "pay_1" (Money.usd 100).amount (partsAndWhole.take (n + 1)) <
      (Money.usd 100).amount := by decide
  refine (refundStatus_iff new 0 "u1" { id := "pay_1", amount := Money.usd 100 } _ rfl (by decide)
    hrefunds).mpr (Runs.eachStep_iff_getElem.mpr fun n hn => ?_)
  intro now refund hop _ hpart
  match n, hn with
  | 0, _ => exact hparts 0 (by decide)
  | 1, _ => exact hparts 1 (by decide)
  | 2, _ =>
    -- the whole amount is not below itself
    cases hop
    exact absurd hpart (by decide)

/-- Two refunds of half the amount leave the payment partially refunded. -/
theorem two_halves_partiallyRefunded :
    ¬ Runs.EachStep (StatusReflects
        (new.step (.createPayment 0 "u1" { id := "pay_1", amount := Money.usd 100 }))
        { id := "pay_1", amount := Money.usd 100 })
      [.createRefund 1 { id := "re_1", paymentId := "pay_1", amount := some (Money.usd 50) },
        .createRefund 2 { id := "re_2", paymentId := "pay_1", amount := some (Money.usd 50) }] := by
  intro h
  have hlast := h
    [.createRefund 1 { id := "re_1", paymentId := "pay_1", amount := some (Money.usd 50) }]
    (.createRefund 2 { id := "re_2", paymentId := "pay_1", amount := some (Money.usd 50) })
    List.prefix_rfl 2 _ rfl rfl
  exact absurd hlast (by decide)

end SweGateway.MockPaymentGateway

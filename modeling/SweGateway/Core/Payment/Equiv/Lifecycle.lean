import SweGateway.Core.Payment.Equiv.Step

/-!
# The life cycle of a payment

No operation of the mock looks at the status it overwrites, so what becomes of a failed, canceled or
refunded payment is up to the calls.  `Lifecycle g id` is the property one may want of a history:
once the payment `id` was in a terminal state it is not succeeded now, and once it had failed or
been canceled it is not (partially) refunded now.

A run keeps `Lifecycle` throughout exactly when every call respects it (`lifecycle_iff`): after a
terminal state of the payment no capture of it and no accepted new payment under its id, after a
failed or canceled state no refund of it.  Cancellations, failed payments and calls on other
payments are harmless.
-/

namespace SweGateway.MockPaymentGateway

/-- The terminal states of a payment. -/
def IsTerminal (s : PaymentStatus) : Prop := s = .failed ∨ s = .canceled ∨ s = .refunded

/-- The terminal states in which nothing was charged. -/
def IsUncharged (s : PaymentStatus) : Prop := s = .failed ∨ s = .canceled

/-- The refunded states. -/
def IsRefunded (s : PaymentStatus) : Prop := s = .refunded ∨ s = .partiallyRefunded

/-- The life cycle of the payment `id` after the history `late`: whatever state it was in at an
earlier point, or is in now, it is not succeeded now if that state was terminal, and not refunded
now if in that state nothing was charged. -/
def Lifecycle (g : MockPaymentGateway) (id : String) (late : List PaymentOp) : Prop :=
  ∀ early, early <+: late → ∀ s, (g.after early).status id = some s →
    ∀ s', (g.after late).status id = some s' →
      (IsTerminal s → s' ≠ .succeeded) ∧ (IsUncharged s → ¬ IsRefunded s')

/-- The calls that make the payment they name succeeded: a capture, and a new payment that the
failure mode lets through. -/
def PaymentOp.Succeeds (mode : Option MockFailureMode) : PaymentOp → Prop
  | .createPayment _ _ payment => shouldFail mode payment = none
  | .capturePayment _ _ => True
  | .cancelPayment _ => False
  | .createRefund _ _ => False

/-- The calls that make the payment they name refunded. -/
def PaymentOp.Refunds : PaymentOp → Prop
  | .createRefund _ _ => True
  | _ => False

/-- The call `op` respects the life cycle of `id` after the history `pre`: it does not make `id`
succeeded once `id` was in a terminal state, nor refunded once nothing was charged for it. -/
def RespectsLifecycle (g : MockPaymentGateway) (id : String) (pre : List PaymentOp)
    (op : PaymentOp) : Prop :=
  op.paymentId = id → ∀ early, early <+: pre → ∀ s, (g.after early).status id = some s →
    (IsTerminal s → ¬ op.Succeeds g.failureMode) ∧ (IsUncharged s → ¬ op.Refunds)

/-- A refund leaves a refunded status. -/
theorem isRefunded_refundedStatus (refund : Refund) (p : PaymentResult) :
    IsRefunded (refundedStatus refund p) := by
  unfold refundedStatus IsRefunded
  cases refund.amount with
  | none => exact Or.inl rfl
  | some amount =>
    dsimp only
    split_ifs
    · exact Or.inr rfl
    · exact Or.inl rfl

theorem status_paymentOutcome (mode : Option MockFailureMode) (now : DateTime) (uuid : String)
    (payment : Payment) :
    (paymentOutcome mode now uuid payment).status =
      if shouldFail mode payment = none then .succeeded else .failed := by
  unfold paymentOutcome
  cases shouldFail mode payment with
  | none => cases payment.customerId <;> rfl
  | some msg => rfl

/-- The status that an operation leaves on a stored payment: succeeded exactly by the calls that
succeed, refunded exactly by the calls that refund. -/
theorem status_effect {mode : Option MockFailureMode} {op : PaymentOp} {p p' : PaymentResult}
    (h : op.effect mode (some p) = some p') :
    (p'.status = .succeeded ↔ op.Succeeds mode) ∧ (IsRefunded p'.status ↔ op.Refunds) := by
  cases op with
  | createPayment now uuid payment =>
    obtain rfl := Option.some.inj h
    rw [status_paymentOutcome]
    by_cases hf : shouldFail mode payment = none <;>
      simp [PaymentOp.Succeeds, PaymentOp.Refunds, IsRefunded, hf]
  | capturePayment i amount =>
    obtain rfl := Option.some.inj h
    simp [PaymentOp.Succeeds, PaymentOp.Refunds, IsRefunded, captured]
  | cancelPayment i =>
    obtain rfl := Option.some.inj h
    simp [PaymentOp.Succeeds, PaymentOp.Refunds, IsRefunded]
  | createRefund now refund =>
    obtain rfl := Option.some.inj h
    have hr := isRefunded_refundedStatus refund p
    refine ⟨?_, iff_of_true hr trivial⟩
    rcases hr with hr | hr
    · simp [PaymentOp.Succeeds, hr]
    · simp [PaymentOp.Succeeds, hr]

/-- A terminal state is not the succeeded one, and an uncharged state is not a refunded one. -/
theorem terminal_self (s : PaymentStatus) :
    (IsTerminal s → s ≠ .succeeded) ∧ (IsUncharged s → ¬ IsRefunded s) := by
  cases s <;> simp [IsTerminal, IsUncharged, IsRefunded]

theorem status_eq_some_iff {g : MockPaymentGateway} {id : String} {s : PaymentStatus} :
    g.status id = some s ↔ ∃ p, g.payments[id]? = some p ∧ p.status = s :=
  Option.map_eq_some_iff

/-- A call on a payment that had a status at some earlier point leaves on it the status of its
effect. -/
theorem status_after_concat {g : MockPaymentGateway} {id : String} {pre early : List PaymentOp}
    {op : PaymentOp} {s : PaymentStatus} (hid : op.paymentId = id) (hearly : early <+: pre)
    (hs : (g.after early).status id = some s) :
    ∃ p p', op.effect g.failureMode (some p) = some p' ∧
      (g.after (pre ++ [op])).status id = some p'.status := by
  have hstored : (g.after pre).payments[id]?.isSome := by
    refine isSome_payments_of_prefix hearly ?_
    obtain ⟨p, hp, -⟩ := status_eq_some_iff.mp hs
    rw [hp, Option.isSome_some]
  obtain ⟨p, hp⟩ := Option.isSome_iff_exists.mp hstored
  obtain ⟨p', hp'⟩ := Option.isSome_iff_exists.mp (isSome_payments_step op hstored)
  refine ⟨p, p', ?_, ?_⟩
  · rw [← hp', payments_step, if_pos hid, failureMode_after, hp]
  · rw [after_concat]
    exact status_eq_some_iff.mpr ⟨p', hp', rfl⟩

/-- **One step of the life cycle**: after a history that kept it, a call keeps it exactly when it
respects it. -/
theorem lifecycle_step (g : MockPaymentGateway) (id : String) (pre : List PaymentOp)
    (op : PaymentOp) (hpre : Lifecycle g id pre) :
    Lifecycle g id (pre ++ [op]) ↔ RespectsLifecycle g id pre op := by
  by_cases hid : op.paymentId = id
  · constructor
    · intro h _ early hearly s hs
      obtain ⟨p, p', heff, hlate⟩ := status_after_concat hid hearly hs
      obtain ⟨hsucc, hrefund⟩ := status_effect heff
      have hearly' : early <+: pre ++ [op] := hearly.trans (List.prefix_append pre [op])
      obtain ⟨h1, h2⟩ := h early hearly' s hs p'.status hlate
      constructor
      · intro ht hop
        exact h1 ht (hsucc.mpr hop)
      · intro hu hop
        exact h2 hu (hrefund.mpr hop)
    · intro h early hearly s hs s' hs'
      rcases List.prefix_concat_iff.mp hearly with rfl | hearly
      · obtain rfl := Option.some.inj (hs.symm.trans hs')
        exact terminal_self s
      · obtain ⟨h1, h2⟩ := h hid early hearly s hs
        obtain ⟨p, p', heff, hlate⟩ := status_after_concat hid hearly hs
        obtain rfl := Option.some.inj (hlate.symm.trans hs')
        obtain ⟨hsucc, hrefund⟩ := status_effect heff
        constructor
        · intro ht hsucceeded
          exact h1 ht (hsucc.mp hsucceeded)
        · intro hu hrefunded
          exact h2 hu (hrefund.mp hrefunded)
  · -- a call on another payment leaves this one as it was
    have hsame : (g.after (pre ++ [op])).status id = (g.after pre).status id := by
      rw [after_concat, status, payments_step, if_neg hid, status]
    refine iff_of_true ?_ fun h => absurd h hid
    intro early hearly s hs s' hs'
    rcases List.prefix_concat_iff.mp hearly with rfl | hearly
    · obtain rfl := Option.some.inj (hs.symm.trans hs')
      exact terminal_self s
    · rw [hsame] at hs'
      exact hpre early hearly s hs s' hs'

/-- **The life cycle of a payment.** A run keeps the life cycle of a payment throughout exactly when
each of its calls respects it. -/
theorem lifecycle_iff (g : MockPaymentGateway) (id : String) (ops : List PaymentOp) :
    Runs.Always (Lifecycle g id) ops ↔ Runs.EachStep (RespectsLifecycle g id) ops := by
  refine Runs.always_iff_eachStep ?_ (lifecycle_step g id) ops
  intro early hearly s hs s' hs'
  rw [List.prefix_nil.mp hearly] at hs
  obtain rfl := Option.some.inj (hs.symm.trans hs')
  exact terminal_self s

/-- Two statuses on the way that show a run to break the life cycle. -/
theorem not_always_lifecycle {g : MockPaymentGateway} {id : String} {early late : List PaymentOp}
    {s s' : PaymentStatus} (hpre : early <+: late) (hs : (g.after early).status id = some s)
    (hs' : (g.after late).status id = some s')
    (h : IsTerminal s ∧ s' = .succeeded ∨ IsUncharged s ∧ IsRefunded s') :
    ¬ Runs.Always (Lifecycle g id) late := by
  intro hall
  obtain ⟨h1, h2⟩ := hall late List.prefix_rfl early hpre s hs s' hs'
  rcases h with ⟨ht, hsucc⟩ | ⟨hu, href⟩
  · exact h1 ht hsucc
  · exact h2 hu href

/-- A canceled payment succeeds again when it is captured or when a new payment takes its id, and it
becomes refunded when it is refunded. -/
theorem lifecycle_broken :
    (¬ Runs.Always (Lifecycle new "pay_1")
      [.createPayment 0 "u1" { id := "pay_1", amount := Money.usd 100 },
        .cancelPayment "pay_1", .capturePayment "pay_1" none]) ∧
    (¬ Runs.Always (Lifecycle new "pay_1")
      [.createPayment 0 "u1" { id := "pay_1", amount := Money.usd 100 },
        .cancelPayment "pay_1",
        .createPayment 1 "u2" { id := "pay_1", amount := Money.usd 100 }]) ∧
    ¬ Runs.Always (Lifecycle new "pay_1")
      [.createPayment 0 "u1" { id := "pay_1", amount := Money.usd 100 },
        .cancelPayment "pay_1", .createRefund 1 { id := "re_1", paymentId := "pay_1" }] := by
  have hcanceled : (new.after
      [.createPayment 0 "u1" { id := "pay_1", amount := Money.usd 100 },
        .cancelPayment "pay_1"]).status "pay_1" = some .canceled := by decide
  refine ⟨?_, ?_, ?_⟩
  · have hlate : (new.after
        [.createPayment 0 "u1" { id := "pay_1", amount := Money.usd 100 },
          .cancelPayment "pay_1", .capturePayment "pay_1" none]).status "pay_1" =
        some .succeeded := by decide
    exact not_always_lifecycle ⟨[.capturePayment "pay_1" none], rfl⟩ hcanceled hlate
      (Or.inl ⟨Or.inr (Or.inl rfl), rfl⟩)
  · have hlate : (new.after
        [.createPayment 0 "u1" { id := "pay_1", amount := Money.usd 100 },
          .cancelPayment "pay_1",
          .createPayment 1 "u2" { id := "pay_1", amount := Money.usd 100 }]).status "pay_1" =
        some .succeeded := by decide
    exact not_always_lifecycle ⟨[.createPayment 1 "u2" _], rfl⟩ hcanceled hlate
      (Or.inl ⟨Or.inr (Or.inl rfl), rfl⟩)
  · have hlate : (new.after
        [.createPayment 0 "u1" { id := "pay_1", amount := Money.usd 100 },
          .cancelPayment "pay_1",
          .createRefund 1 { id := "re_1", paymentId := "pay_1" }]).status "pay_1" =
        some .refunded := by decide
    exact not_always_lifecycle ⟨[.createRefund 1 _], rfl⟩ hcanceled hlate
      (Or.inr ⟨Or.inr rfl, Or.inl rfl⟩)

end SweGateway.MockPaymentGateway

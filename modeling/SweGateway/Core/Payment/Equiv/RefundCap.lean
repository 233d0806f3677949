import SweGateway.Core.Payment.Equiv.Lifecycle

/-!
# The refund cap

`RefundCap mode history` is the conservation law of refunds, after a history of calls on a new
gateway: the succeeded refunds of every payment are in its currency and add up to at most its
amount, and only payments that had once succeeded have any.

The mock checks none of this: a refund is stored whatever the payment's status and whatever was
refunded before, and a capture may lower the amount under the refunds already made.  What is true
is that a run keeps the cap throughout exactly when each of its calls respects it
(`refundCap_iff`).  `RespectsCap` says what that means for each operation.
-/

namespace SweGateway.MockPaymentGateway

/-- What a stored refund counts towards the refunds of the payment `id`. -/
def refundShare (id : String) (_ : String) (r : RefundResult) : ℤ :=
  if r.paymentId = id ∧ r.status = .succeeded then r.amount.amount else 0

/-- The sum of the succeeded refunds of the payment `id`. -/
def refundedTotal (refunds : HashMap String RefundResult) (id : String) : ℤ :=
  HashMap.total (refundShare id) refunds

/-- The succeeded refunds of the payment `id` are all in the currency `c`. -/
def InCurrency (refunds : HashMap String RefundResult) (id : String) (c : Currency) : Prop :=
  ∀ (rid : String) (r : RefundResult), refunds[rid]? = some r →
    r.paymentId = id → r.status = .succeeded → r.amount.currency = c

/-- The succeeded refunds of the payment `id` fit into `amount`. -/
def Fits (refunds : HashMap String RefundResult) (id : String) (amount : Money) : Prop :=
  InCurrency refunds id amount.currency ∧ refundedTotal refunds id ≤ amount.amount

/-- A new gateway with the given failure mode. -/
def start (mode : Option MockFailureMode) : MockPaymentGateway := { failureMode := mode }

/-- The payment `id` had succeeded at some point of the history `ops`. -/
def HadSucceeded (mode : Option MockFailureMode) (id : String) (ops : List PaymentOp) : Prop :=
  ∃ early, early <+: ops ∧ ((start mode).after early).status id = some .succeeded

/-- **The refund cap** after a history of calls on a new gateway. -/
structure RefundCap (mode : Option MockFailureMode) (ops : List PaymentOp) : Prop where
  /-- The succeeded refunds of each payment fit into its amount. -/
  fits : ∀ (id : String) (p : PaymentResult), ((start mode).after ops).payments[id]? = some p →
    Fits ((start mode).after ops).refunds id p.amount
  /-- Only payments that had succeeded have any. -/
  hadSucceeded : ∀ (rid : String) (r : RefundResult),
    ((start mode).after ops).refunds[rid]? = some r →
    r.status = .succeeded → HadSucceeded mode r.paymentId ops

/-- The call `op` respects the cap after the history `pre`. -/
def RespectsCap (mode : Option MockFailureMode) (pre : List PaymentOp) (op : PaymentOp) : Prop :=
  let g := (start mode).after pre
  match op with
  | .createPayment now uuid payment =>
    -- the refunds already stored under the id fit into the new payment
    Fits g.refunds payment.id (paymentOutcome mode now uuid payment).amount
  | .capturePayment id amount =>
    -- the refunds already made fit into the captured amount
    ∀ captured, amount = some captured → id ∈ g.payments → Fits g.refunds id captured
  | .cancelPayment _ => True
  | .createRefund _ refund =>
    ∀ p : PaymentResult, g.payments[refund.paymentId]? = some p →
      (refund.amount.getD p.amount).currency = p.amount.currency ∧
      -- what was refunded before under other refund ids leaves room for the amount
      refundedTotal (g.refunds.erase refund.id) refund.paymentId
        + (refund.amount.getD p.amount).amount ≤ p.amount.amount ∧
      HadSucceeded mode refund.paymentId pre ∧
      -- dropping a refund of another payment with the same refund id leaves that payment's cap
      ∀ (old : RefundResult) (q : PaymentResult), g.refunds[refund.id]? = some old →
        old.paymentId ≠ refund.paymentId →
        g.payments[old.paymentId]? = some q →
          refundedTotal (g.refunds.erase refund.id) old.paymentId ≤ q.amount.amount

/-! ### The total after a refund -/

theorem refundedTotal_insert (refunds : HashMap String RefundResult) (rid id : String)
    (r : RefundResult) :
    refundedTotal (refunds.insert rid r) id =
      refundShare id rid r + refundedTotal (refunds.erase rid) id :=
  HashMap.total_insert _ _ _ _

/-- Removing a refund of another payment does not change the total. -/
theorem refundedTotal_erase {refunds : HashMap String RefundResult} {rid id : String}
    (h : ∀ old : RefundResult, refunds[rid]? = some old → old.paymentId ≠ id) :
    refundedTotal (refunds.erase rid) id = refundedTotal refunds id := by
  cases hold : refunds[rid]? with
  | none => rw [HashMap.erase_of_getElem?_none hold]
  | some old =>
    have hshare : refundShare id rid old = 0 := by
      rw [refundShare, if_neg fun hid => h old hold hid.1]
    have := HashMap.total_erase_add (f := refundShare id) hold
    rw [hshare, zero_add] at this
    exact this

theorem refundShare_refundOutcome (id rid : String) (now : DateTime) (refund : Refund)
    (p : PaymentResult) :
    refundShare id rid (refundOutcome now refund p) =
      if refund.paymentId = id then (refund.amount.getD p.amount).amount else 0 := by
  simp [refundShare, refundOutcome, RefundResult.success]

theorem inCurrency_insert {refunds : HashMap String RefundResult} {rid id : String}
    {r : RefundResult} {c : Currency} (h : InCurrency refunds id c)
    (hr : r.paymentId = id → r.status = .succeeded → r.amount.currency = c) :
    InCurrency (refunds.insert rid r) id c := by
  intro rid' r' hr' hid hsucc
  rw [HashMap.getElem?_insert_ite] at hr'
  split_ifs at hr' with heq
  · obtain rfl := Option.some.inj hr'
    exact hr hid hsucc
  · exact h rid' r' hr' hid hsucc

/-! ### One step of the cap -/

theorem HadSucceeded.concat {mode : Option MockFailureMode} {id : String} {pre : List PaymentOp}
    (h : HadSucceeded mode id pre) (op : PaymentOp) : HadSucceeded mode id (pre ++ [op]) := by
  obtain ⟨early, hearly, hs⟩ := h
  exact ⟨early, hearly.trans (List.prefix_append pre [op]), hs⟩

/-- A call that leaves the refunds alone keeps the cap exactly when the refunds of the payment it
names fit into the amount it leaves. -/
theorem refundCap_concat_iff_of_refunds_eq {mode : Option MockFailureMode} {pre : List PaymentOp}
    {op : PaymentOp} (hpre : RefundCap mode pre)
    (hrefunds : ((start mode).after (pre ++ [op])).refunds = ((start mode).after pre).refunds) :
    RefundCap mode (pre ++ [op]) ↔
      ∀ p : PaymentResult,
        ((start mode).after (pre ++ [op])).payments[op.paymentId]? = some p →
        Fits ((start mode).after pre).refunds op.paymentId p.amount := by
  constructor
  · intro h p hp
    rw [← hrefunds]
    exact h.fits _ p hp
  · intro h
    refine ⟨fun id p hp => ?_, fun rid r hr hsucc => ?_⟩
    · rw [hrefunds]
      by_cases hid : op.paymentId = id
      · subst hid
        exact h p hp
      · rw [after_concat, payments_step, if_neg hid] at hp
        exact hpre.fits id p hp
    · rw [hrefunds] at hr
      exact (hpre.hadSucceeded rid r hr hsucc).concat op

section RefundStep

variable {mode : Option MockFailureMode} {pre : List PaymentOp} {now : DateTime} {refund : Refund}
  {p : PaymentResult}

/-- The refunds after a refund of a stored payment. -/
theorem refunds_after_refund (hp : ((start mode).after pre).payments[refund.paymentId]? = some p) :
    ((start mode).after (pre ++ [.createRefund now refund])).refunds =
      ((start mode).after pre).refunds.insert refund.id (refundOutcome now refund p) := by
  rw [after_concat, refunds_step hp]

/-- A refund leaves the amounts of all payments. -/
theorem amounts_after_refund (mode : Option MockFailureMode) (pre : List PaymentOp)
    (now : DateTime) (refund : Refund) (id : String) :
    ((start mode).after (pre ++ [.createRefund now refund])).payments[id]?.map
      PaymentResult.amount = ((start mode).after pre).payments[id]?.map PaymentResult.amount := by
  rw [after_concat, payments_step]
  split_ifs
  · simp only [PaymentOp.effect, Option.map_map]
    rfl
  · rfl

/-- A refund of a stored payment does not make it succeed. -/
theorem status_after_refund_ne_succeeded
    (hp : ((start mode).after pre).payments[refund.paymentId]? = some p) :
    ((start mode).after (pre ++ [.createRefund now refund])).status refund.paymentId ≠
      some .succeeded := by
  have hstatus : ((start mode).after (pre ++ [.createRefund now refund])).status refund.paymentId =
      some (refundedStatus refund p) := by
    rw [after_concat, status, payments_step]
    simp [PaymentOp.paymentId, PaymentOp.effect, hp]
  rw [hstatus]
  rcases isRefunded_refundedStatus refund p with hr | hr
  · simp [hr]
  · simp [hr]

/-- A refund of a stored payment after which the cap still holds respects it. -/
theorem RefundCap.respectsCap_of_refund
    (hp : ((start mode).after pre).payments[refund.paymentId]? = some p)
    (h : RefundCap mode (pre ++ [.createRefund now refund])) :
    RespectsCap mode pre (.createRefund now refund) := by
  set g := (start mode).after pre with hg
  have hrefunds : ((start mode).after (pre ++ [.createRefund now refund])).refunds =
      g.refunds.insert refund.id (refundOutcome now refund p) := refunds_after_refund hp
  intro p' hp'
  obtain rfl : p = p' := Option.some.inj (hp.symm.trans hp')
  have hfits : ∀ (id : String) (q : PaymentResult), g.payments[id]? = some q →
      Fits (g.refunds.insert refund.id (refundOutcome now refund p)) id q.amount := by
    intro id q hq
    have hamount := amounts_after_refund mode pre now refund id
    rw [← hg, hq, Option.map_some, Option.map_eq_some_iff] at hamount
    obtain ⟨q', hq', haq⟩ := hamount
    rw [← hrefunds, ← haq]
    exact h.fits id q' hq'
  obtain ⟨hcur, htot⟩ := hfits refund.paymentId p hp
  rw [refundedTotal_insert, refundShare_refundOutcome, if_pos rfl] at htot
  have hstored : ((start mode).after (pre ++ [.createRefund now refund])).refunds[refund.id]? =
      some (refundOutcome now refund p) := by
    rw [hrefunds, Std.ExtTreeMap.getElem?_insert_self]
  refine ⟨?_, ?_, ?_, ?_⟩
  · exact hcur refund.id (refundOutcome now refund p) Std.ExtTreeMap.getElem?_insert_self rfl rfl
  · rw [← hg]
    omega
  · obtain ⟨early, hearly, hs⟩ := h.hadSucceeded refund.id _ hstored rfl
    rcases List.prefix_concat_iff.mp hearly with rfl | hearly
    · exact absurd hs (status_after_refund_ne_succeeded hp)
    · exact ⟨early, hearly, hs⟩
  · intro old q hold hne hq
    obtain ⟨-, htot'⟩ := hfits old.paymentId q hq
    rw [refundedTotal_insert, refundShare_refundOutcome, if_neg (Ne.symm hne), zero_add] at htot'
    exact htot'

/-- A refund of a stored payment that respects the cap keeps it. -/
theorem RefundCap.concat_refund (hpre : RefundCap mode pre)
    (hp : ((start mode).after pre).payments[refund.paymentId]? = some p)
    (h : RespectsCap mode pre (.createRefund now refund)) :
    RefundCap mode (pre ++ [.createRefund now refund]) := by
  set g := (start mode).after pre with hg
  have hrefunds : ((start mode).after (pre ++ [.createRefund now refund])).refunds =
      g.refunds.insert refund.id (refundOutcome now refund p) := refunds_after_refund hp
  obtain ⟨hcur, htot, hsucc, hother⟩ := h p hp
  rw [← hg] at htot
  refine ⟨fun id q' hq' => ?_, fun rid r hr hs => ?_⟩
  · have hamount := amounts_after_refund mode pre now refund id
    rw [hq', Option.map_some, eq_comm, Option.map_eq_some_iff] at hamount
    obtain ⟨q, hq, haq⟩ := hamount
    rw [hrefunds, ← haq]
    obtain ⟨hqcur, hqtot⟩ := hpre.fits id q hq
    by_cases hid : refund.paymentId = id
    · -- the refunded payment
      subst hid
      obtain rfl : p = q := Option.some.inj (hp.symm.trans hq)
      refine ⟨inCurrency_insert hqcur fun _ _ => hcur, ?_⟩
      rw [refundedTotal_insert, refundShare_refundOutcome, if_pos rfl]
      omega
    · -- another payment, which may lose a refund with the same refund id
      refine ⟨inCurrency_insert hqcur fun heq _ => absurd heq hid, ?_⟩
      rw [refundedTotal_insert, refundShare_refundOutcome, if_neg hid, zero_add]
      by_cases hold : ∀ old : RefundResult, g.refunds[refund.id]? = some old → old.paymentId ≠ id
      · rw [refundedTotal_erase hold]
        exact hqtot
      · push Not at hold
        obtain ⟨old, hold, rfl⟩ := hold
        exact hother old q hold (Ne.symm hid) hq
  · rw [hrefunds, HashMap.getElem?_insert_ite] at hr
    split_ifs at hr with heq
    · obtain rfl := Option.some.inj hr
      exact hsucc.concat _
    · exact (hpre.hadSucceeded rid r hr hs).concat _

end RefundStep

/-- **One step of the cap**: after a history that kept it, a call keeps it exactly when it respects
it. -/
theorem refundCap_step (mode : Option MockFailureMode) (pre : List PaymentOp) (op : PaymentOp)
    (hpre : RefundCap mode pre) : RefundCap mode (pre ++ [op]) ↔ RespectsCap mode pre op := by
  have hmode : ((start mode).after pre).failureMode = mode := failureMode_after _ pre
  cases op with
  | createPayment now uuid payment =>
    have hrefunds : ((start mode).after (pre ++ [.createPayment now uuid payment])).refunds =
        ((start mode).after pre).refunds := by
      rw [after_concat, refunds_step_of_not_refund _ _ (by simp)]
    rw [refundCap_concat_iff_of_refunds_eq hpre hrefunds, after_concat, payments_step, hmode]
    simp [PaymentOp.paymentId, PaymentOp.effect, RespectsCap]
  | capturePayment id amount =>
    have hrefunds : ((start mode).after (pre ++ [.capturePayment id amount])).refunds =
        ((start mode).after pre).refunds := by
      rw [after_concat, refunds_step_of_not_refund _ _ (by simp)]
    rw [refundCap_concat_iff_of_refunds_eq hpre hrefunds, after_concat, payments_step]
    simp only [PaymentOp.paymentId, if_true, PaymentOp.effect, RespectsCap]
    cases hp : ((start mode).after pre).payments[id]? with
    | none => simp [← Std.ExtTreeMap.isSome_getElem?_iff_mem, hp]
    | some p =>
      have hfits := hpre.fits id p hp
      cases amount with
      | none => simpa [captured] using hfits
      | some captured =>
        simp [MockPaymentGateway.captured, ← Std.ExtTreeMap.isSome_getElem?_iff_mem, hp]
  | cancelPayment id =>
    have hrefunds : ((start mode).after (pre ++ [.cancelPayment id])).refunds =
        ((start mode).after pre).refunds := by
      rw [after_concat, refunds_step_of_not_refund _ _ (by simp)]
    rw [refundCap_concat_iff_of_refunds_eq hpre hrefunds]
    refine iff_of_true (fun p' hp' => ?_) trivial
    rw [after_concat, payments_step] at hp'
    simp only [PaymentOp.paymentId, if_true, PaymentOp.effect, Option.map_eq_some_iff] at hp'
    obtain ⟨p, hp, rfl⟩ := hp'
    exact hpre.fits id p hp
  | createRefund now refund =>
    cases hp : ((start mode).after pre).payments[refund.paymentId]? with
    | some p => exact ⟨fun h => h.respectsCap_of_refund hp, hpre.concat_refund hp⟩
    | none =>
      -- nothing happens, and there is nothing to respect
      have hsame :
          (start mode).after (pre ++ [.createRefund now refund]) = (start mode).after pre := by
        rw [after_concat, step_refund_of_none hp]
      refine iff_of_true ⟨?_, ?_⟩ fun p hp' => ?_
      · rw [hsame]
        exact hpre.fits
      · rw [hsame]
        intro rid r hr hs
        exact (hpre.hadSucceeded rid r hr hs).concat _
      · rw [hp] at hp'
        cases hp'

/-- **The refund cap.** A run on a new gateway keeps the refund cap throughout exactly when each of
its calls respects it. -/
theorem refundCap_iff (mode : Option MockFailureMode) (ops : List PaymentOp) :
    Runs.Always (RefundCap mode) ops ↔ Runs.EachStep (RespectsCap mode) ops := by
  refine Runs.always_iff_eachStep ⟨?_, ?_⟩ (refundCap_step mode) ops
  · intro id p hp
    simp [start] at hp
  · intro rid r hr
    simp [start] at hr

/-- Two full refunds of one payment exceed its amount. -/
theorem refundCap_broken :
    ¬ Runs.Always (RefundCap none)
      [.createPayment 0 "u1" { id := "pay_1", amount := Money.usd 100 },
        .createRefund 1 { id := "re_1", paymentId := "pay_1" },
        .createRefund 2 { id := "re_2", paymentId := "pay_1" }] := by
  intro h
  have hlast := h _ List.prefix_rfl
  have hp : ∃ p, ((start none).after
      [.createPayment 0 "u1" { id := "pay_1", amount := Money.usd 100 },
        .createRefund 1 { id := "re_1", paymentId := "pay_1" },
        .createRefund 2 { id := "re_2", paymentId := "pay_1" }]).payments["pay_1"]? = some p ∧
      p.amount = Money.usd 100 := ⟨_, rfl, by decide⟩
  obtain ⟨p, hp, hamount⟩ := hp
  obtain ⟨-, htot⟩ := hlast.fits "pay_1" p hp
  rw [hamount] at htot
  exact absurd htot (by decide)

end SweGateway.MockPaymentGateway

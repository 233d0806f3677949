import SweGateway.Core.Payment.Mock

/-!
# What one payment operation does

Every operation touches at most one payment, the one it names, and only `createRefund` touches the
refunds.  `PaymentOp.effect` is what it does to that payment; `payments_step` says that nothing else
happens to the payments, `refunds_step` and `refunds_step_of_not_refund` what happens to the
refunds, and `failureMode_after` that the failure mode stays.  The results about runs start from
these lemmas and never unfold an operation.
-/

namespace SweGateway.MockPaymentGateway

/-- What an operation does to the payment it names, under the failure mode `mode`. -/
def PaymentOp.effect (mode : Option MockFailureMode) :
    PaymentOp → Option PaymentResult → Option PaymentResult
  | .createPayment now uuid payment => fun _ => some (paymentOutcome mode now uuid payment)
  | .capturePayment _ amount => Option.map (captured amount)
  | .cancelPayment _ => Option.map fun p => { p with status := .canceled }
  | .createRefund _ refund => Option.map fun p => { p with status := refundedStatus refund p }

theorem getElem?_updateRefunded (refund : Refund) (payments : HashMap String PaymentResult)
    (id : String) :
    (updateRefunded refund payments)[id]? =
      if refund.paymentId = id then
        payments[id]?.map fun p => { p with status := refundedStatus refund p }
      else payments[id]? := by
  unfold updateRefunded
  by_cases hid : refund.paymentId = id
  · subst hid
    cases hp : payments[refund.paymentId]? <;> simp [hp]
  · rw [if_neg hid]
    cases payments[refund.paymentId]? with
    | none => rfl
    | some p => exact HashMap.getElem?_insert_of_ne hid

/-- **One step on the payments**: the payment that the operation names goes through
`PaymentOp.effect`, every other one stays. -/
theorem payments_step (g : MockPaymentGateway) (op : PaymentOp) (id : String) :
    (g.step op).payments[id]? =
      if op.paymentId = id then op.effect g.failureMode g.payments[id]? else g.payments[id]? := by
  by_cases hid : op.paymentId = id
  · rw [if_pos hid]
    cases op with
    | createPayment now uuid payment =>
      obtain rfl : payment.id = id := hid
      simp [step, PaymentOp.run, createPayment, PaymentOp.effect]
    | capturePayment i amount =>
      obtain rfl : i = id := hid
      cases hp : g.payments[i]? <;>
        simp [step, PaymentOp.run, capturePayment, PaymentOp.effect, hp]
    | cancelPayment i =>
      obtain rfl : i = id := hid
      cases hp : g.payments[i]? <;>
        simp [step, PaymentOp.run, cancelPayment, PaymentOp.effect, hp]
    | createRefund now refund =>
      obtain rfl : refund.paymentId = id := hid
      cases hp : g.payments[refund.paymentId]? <;>
        simp [step, PaymentOp.run, createRefund, PaymentOp.effect, getElem?_updateRefunded, hp]
  · rw [if_neg hid]
    cases op with
    | createPayment now uuid payment => exact HashMap.getElem?_insert_of_ne hid
    | capturePayment i amount =>
      simp only [step, PaymentOp.run, capturePayment]
      cases g.payments[i]? with
      | none => rfl
      | some p => exact HashMap.getElem?_insert_of_ne hid
    | cancelPayment i =>
      simp only [step, PaymentOp.run, cancelPayment]
      cases g.payments[i]? with
      | none => rfl
      | some p => exact HashMap.getElem?_insert_of_ne hid
    | createRefund now refund =>
      simp only [step, PaymentOp.run, createRefund]
      cases g.payments[refund.paymentId]? with
      | none => rfl
      | some p =>
        exact (getElem?_updateRefunded refund g.payments id).trans (if_neg hid)

theorem run_createRefund_of_some {g : MockPaymentGateway} {now : DateTime} {refund : Refund}
    {payment : PaymentResult} (h : g.payments[refund.paymentId]? = some payment) :
    (PaymentOp.createRefund now refund).run g =
      (.refund (.ok (refundOutcome now refund payment)),
        { g with
          refunds := g.refunds.insert refund.id (refundOutcome now refund payment)
          payments := updateRefunded refund g.payments }) := by
  simp [PaymentOp.run, createRefund, h]

theorem run_createRefund_of_none {g : MockPaymentGateway} {now : DateTime} {refund : Refund}
    (h : g.payments[refund.paymentId]? = none) :
    (PaymentOp.createRefund now refund).run g =
      (.refund (.error (paymentNotFound refund.paymentId)), g) := by
  simp [PaymentOp.run, createRefund, h]

/-- A refund of a stored payment is stored under the refund's id. -/
theorem refunds_step {g : MockPaymentGateway} {now : DateTime} {refund : Refund}
    {payment : PaymentResult} (h : g.payments[refund.paymentId]? = some payment) :
    (g.step (.createRefund now refund)).refunds =
      g.refunds.insert refund.id (refundOutcome now refund payment) := by
  rw [step, run_createRefund_of_some h]

/-- A refund of a payment that is not stored changes nothing. -/
theorem step_refund_of_none {g : MockPaymentGateway} {now : DateTime} {refund : Refund}
    (h : g.payments[refund.paymentId]? = none) : g.step (.createRefund now refund) = g := by
  rw [step, run_createRefund_of_none h]

/-- Only a refund changes the refunds. -/
theorem refunds_step_of_not_refund (g : MockPaymentGateway) (op : PaymentOp)
    (h : ∀ now refund, op ≠ .createRefund now refund) : (g.step op).refunds = g.refunds := by
  cases op with
  | createPayment now uuid payment => rfl
  | capturePayment i amount =>
    simp only [step, PaymentOp.run, capturePayment]
    cases g.payments[i]? <;> rfl
  | cancelPayment i =>
    simp only [step, PaymentOp.run, cancelPayment]
    cases g.payments[i]? <;> rfl
  | createRefund now refund => exact absurd rfl (h now refund)

@[simp] theorem failureMode_step (g : MockPaymentGateway) (op : PaymentOp) :
    (g.step op).failureMode = g.failureMode := by
  cases op with
  | createPayment now uuid payment => rfl
  | capturePayment i amount =>
    simp only [step, PaymentOp.run, capturePayment]
    cases g.payments[i]? <;> rfl
  | cancelPayment i =>
    simp only [step, PaymentOp.run, cancelPayment]
    cases g.payments[i]? <;> rfl
  | createRefund now refund =>
    simp only [step, PaymentOp.run, createRefund]
    cases g.payments[refund.paymentId]? <;> rfl

/-! ### Runs -/

@[simp] theorem after_nil (g : MockPaymentGateway) : g.after [] = g := rfl

@[simp] theorem after_concat (g : MockPaymentGateway) (ops : List PaymentOp) (op : PaymentOp) :
    g.after (ops ++ [op]) = (g.after ops).step op := by
  simp [after]

@[simp] theorem after_append (g : MockPaymentGateway) (ops ops' : List PaymentOp) :
    g.after (ops ++ ops') = (g.after ops).after ops' := by
  simp [after]

@[simp] theorem failureMode_after (g : MockPaymentGateway) (ops : List PaymentOp) :
    (g.after ops).failureMode = g.failureMode := by
  induction ops using List.reverseRecOn with
  | nil => rfl
  | append_singleton ops op ih => rw [after_concat, failureMode_step, ih]

/-- A stored payment stays stored. -/
theorem isSome_payments_step {g : MockPaymentGateway} {id : String} (op : PaymentOp)
    (h : g.payments[id]?.isSome) : (g.step op).payments[id]?.isSome := by
  rw [payments_step]
  split_ifs
  · cases op <;> simp [PaymentOp.effect, h]
  · exact h

theorem isSome_payments_of_prefix {g : MockPaymentGateway} {id : String}
    {early late : List PaymentOp} (hpre : early <+: late)
    (h : (g.after early).payments[id]?.isSome) : (g.after late).payments[id]?.isSome := by
  obtain ⟨ops, rfl⟩ := hpre
  rw [after_append]
  induction ops using List.reverseRecOn with
  | nil => exact h
  | append_singleton ops op ih => rw [after_concat]; exact isSome_payments_step op ih

end SweGateway.MockPaymentGateway

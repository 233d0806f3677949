import Mathlib.Data.List.Permutation
import SweGateway.Core.Payment.Concurrent
import SweGateway.Lib.TwoPhase

/-!
# Linearizability of the payment gateway

Refunds apart, every operation of the gateway takes all its locks before it releases one, but for
`createPayment`, which has released the failure mode when it locks the payments.  The failure mode
is a part that only `clear_failure_mode` writes.  So every finished run of calls without a refund is
linearizable, if it has no such call or no `createPayment` (`linearizable_calls`); with both, a
payment may be stored that fails although the mode has been cleared and the payment was not there
by then (`clear_between_not_linearizable`).
-/

namespace SweGateway.MockPaymentGateway

open Concurrent

/-! ### What the locks guard -/

/-- What is behind a lock. -/
def Part : PaymentLock → Type
  | .payments => HashMap String PaymentResult
  | .customers => HashMap String Customer
  | .paymentMethods => HashMap String (List PaymentMethod)
  | .refunds => HashMap String RefundResult
  | .failureMode => Option MockFailureMode

/-- The gateway is what is behind its locks. -/
def parts : MockPaymentGateway ≃ ((l : PaymentLock) → Part l) where
  toFun g
    | .payments => g.payments
    | .customers => g.customers
    | .paymentMethods => g.paymentMethods
    | .refunds => g.refunds
    | .failureMode => g.failureMode
  invFun v :=
    { payments := v .payments
      customers := v .customers
      paymentMethods := v .paymentMethods
      refunds := v .refunds
      failureMode := v .failureMode }
  left_inv _ := rfl
  right_inv v := by
    funext l
    cases l <;> rfl

/-! ### The discipline of the bodies -/

variable {frozen : Set PaymentLock}

/-- Only the failure mode may be frozen, and only if `createPayment` reads it. -/
theorem twoPhase_createPayment (hmode : .failureMode ∈ frozen) (hpayments : .payments ∉ frozen)
    (now : DateTime) (uuid : String) (payment : Payment) :
    TwoPhase parts frozen [] (createPaymentBody now uuid payment) := by
  refine ⟨⟨fun g g' h => ?_, fun g g' h => h, fun _ _ _ => rfl⟩, fun g => .inl ⟨hmode, ?_⟩⟩
  · have heq : g.failureMode = g'.failureMode := h .failureMode (.inl hmode)
    rw [heq]
  · refine OnPart.twoPhase (.of_setPart new fun g' => ?_) hpayments
    rfl

/-- The customer is deleted before the payment methods are locked, while it is locked itself. -/
theorem twoPhase_deleteCustomer (hcustomers : .customers ∉ frozen)
    (hmethods : .paymentMethods ∉ frozen) (id : String) :
    TwoPhase parts frozen [] (deleteCustomerBody id) := by
  have hfirst : OnPart parts .customers fun g : MockPaymentGateway =>
      ((), { g with customers := g.customers.erase id }) :=
    .of_setPart new fun g => rfl
  have hsecond : OnPart parts .paymentMethods fun g : MockPaymentGateway =>
      ((), { g with paymentMethods := g.paymentMethods.erase id }) :=
    .of_setPart new fun g => rfl
  refine ⟨hfirst.guarded_const hcustomers List.mem_cons_self, fun _ => ?_⟩
  refine ⟨hsecond.guarded_const hmethods List.mem_cons_self, fun _ => .inr ?_⟩
  exact ⟨.unit (.ok ()), .release _ _ _ .done⟩

/-- Capturing and cancelling a payment change the payment that they find. -/
theorem onPart_found (id : String) (f : PaymentResult → PaymentResult)
    {run : MockPaymentGateway → GatewayResult PaymentResult × MockPaymentGateway}
    (h : ∀ g, run g = match g.payments[id]? with
      | none => (.error (paymentNotFound id), g)
      | some payment => (.ok (f payment), { g with payments := g.payments.insert id (f payment) })) :
    OnPart parts .payments fun g => (run g).map Reply.payment fun g => g := by
  refine .of_setPart new fun g => ?_
  have hget : (setPart parts .payments (parts g .payments) new).payments[id]? =
      g.payments[id]? := rfl
  simp only [h, hget]
  cases g.payments[id]? with
  | none => rfl
  | some payment => rfl

/-- A customer is updated if there is one. -/
theorem onPart_updateCustomer (customer : Customer) :
    OnPart parts .customers fun g => (updateCustomer customer g).map Reply.customer fun g => g := by
  refine .of_setPart new fun g => ?_
  have hmem : customer.id ∈ (setPart parts .customers (parts g .customers) new).customers ↔
      customer.id ∈ g.customers := Iff.rfl
  simp only [updateCustomer, hmem]
  split
  · rfl
  · rfl

/-- **A call** other than a refund keeps to two-phase locking, if the failure mode is frozen where it
is read, and is not where it is cleared. -/
theorem Call.twoPhase {call : Call} (hrefund : ∀ now refund, call ≠ .op (.createRefund now refund))
    (hfrozen : ∀ l ∈ frozen, l = .failureMode)
    (hclear : call = .clearFailureMode → .failureMode ∉ frozen)
    (hcreate : ∀ now uuid payment, call = .op (.createPayment now uuid payment) →
      .failureMode ∈ frozen) :
    TwoPhase parts frozen [] call.prog := by
  have hpayments : .payments ∉ frozen := fun hmem => nomatch hfrozen _ hmem
  have hcustomers : .customers ∉ frozen := fun hmem => nomatch hfrozen _ hmem
  have hmethods : .paymentMethods ∉ frozen := fun hmem => nomatch hfrozen _ hmem
  cases call with
  | getPayment i => exact twoPhase_readSection frozen new fun g => rfl
  | listPayments it customerId limit offset => exact twoPhase_readSection frozen new fun g => rfl
  | getCustomer i => exact twoPhase_readSection frozen new fun g => rfl
  | listPaymentMethods i => exact twoPhase_readSection frozen new fun g => rfl
  | getRefund i => exact twoPhase_readSection frozen new fun g => rfl
  | op o =>
    cases o with
    | createPayment now uuid payment =>
      exact twoPhase_createPayment (hcreate now uuid payment rfl) hpayments now uuid payment
    | capturePayment i amount =>
      exact (onPart_found i (captured amount) fun _ => rfl).twoPhase hpayments
    | cancelPayment i =>
      exact (onPart_found i (fun p => { p with status := .canceled }) fun _ => rfl).twoPhase
        hpayments
    | createRefund now refund => exact absurd rfl (hrefund now refund)
  | createCustomer customer => exact OnPart.twoPhase (.of_setPart new fun g => rfl) hcustomers
  | updateCustomer customer => exact (onPart_updateCustomer customer).twoPhase hcustomers
  | deleteCustomer i => exact twoPhase_deleteCustomer hcustomers hmethods i
  | addCustomer customer => exact OnPart.twoPhase (.of_setPart new fun g => rfl) hcustomers
  | addPayment result => exact OnPart.twoPhase (.of_setPart new fun g => rfl) hpayments
  | clearFailureMode => exact OnPart.twoPhase (.of_setPart new fun g => rfl) (hclear rfl)

/-! ### Runs -/

section Runs

variable {ι : Type} [DecidableEq ι] [Fintype ι]

/-- **Linearizability.**  Every finished run of calls without a refund is linearizable, from any
gateway, unless the failure mode is cleared while payments are created. -/
theorem linearizable_calls {g : MockPaymentGateway} {calls : ι → Call} {schedule : List ι}
    {c : Running ι} (hrefund : ∀ i now refund, calls i ≠ .op (.createRefund now refund))
    (hmode : (∀ i, calls i ≠ .clearFailureMode) ∨
      ∀ i now uuid payment, calls i ≠ .op (.createPayment now uuid payment))
    (hrun : (launch g calls).run? schedule = some c)
    (hdone : ∀ i, (c.threads i).prog.isDone = true) :
    Linearizable (fun i => (calls i).run) g schedule c := by
  have hexec : (fun i => (calls i).prog.exec) = fun i => (calls i).run :=
    funext fun i => funext (calls i).exec_prog
  rw [← hexec]
  rcases hmode with hclear | hcreate
  · -- nobody writes the failure mode
    refine linearizable_of_twoPhase parts {.failureMode} (fun i => ?_) hrun hdone
    exact Call.twoPhase (hrefund i) (fun l hl => hl) (fun h => absurd h (hclear i))
      fun _ _ _ _ => rfl
  · -- nobody reads it
    refine linearizable_of_twoPhase parts ∅ (fun i => ?_) hrun hdone
    exact Call.twoPhase (hrefund i) (fun l hl => hl.elim) (fun _ h => h)
      fun _ _ _ h => absurd h (hcreate i _ _ _)

end Runs

/-- A payment is created while its customer is deleted. -/
def createAndDelete : Bool → Call
  | false => .op (.createPayment 0 "u" { id := "pay_1", amount := Money.usd 100 })
  | true => .deleteCustomer "cus_1"

/-- A schedule that mixes their critical sections. -/
def mixedSections : List Bool :=
  [false, true, false, true, true, false, false, true, false, true, true, false]

theorem createAndDelete_linearizable :
    ∃ c : Running Bool, (launch new createAndDelete).run? mixedSections = some c ∧
      Linearizable (fun i => (createAndDelete i).run) new mixedSections c := by
  have hfinishes : ((launch new createAndDelete).run? mixedSections).any
      (fun c => ∀ i, (c.threads i).prog.isDone = true) = true := by decide
  obtain ⟨c, hc, hdone⟩ := (Option.any_eq_true _ _).mp hfinishes
  refine ⟨c, hc, linearizable_calls ?_ (.inl ?_) hc (of_decide_eq_true hdone)⟩
  · intro i now refund h
    cases i <;> cases h
  · intro i h
    cases i <;> cases h

/-- A payment is created under a failure mode; the mode is cleared, and the payment looked up. -/
def createClearAndGet : Fin 3 → Call
  | 0 => .op (.createPayment 0 "u" { id := "pay_1", amount := Money.usd 100 })
  | 1 => .clearFailureMode
  | 2 => .getPayment "pay_1"

/-- The status of the payment that is returned. -/
def Reply.paymentStatus : Reply → Option PaymentStatus
  | .payment (.ok result) => some result.status
  | _ => none

/-- If the failure mode is cleared between the two critical sections of a creation, the payment may
fail after a look that has not found it after the mode was cleared. -/
theorem clear_between_not_linearizable :
    ∃ c : Running (Fin 3),
      (launch (new.withFailureMode (.failAllPayments "no")) createClearAndGet).run?
        [0, 0, 0, 1, 1, 1, 2, 2, 2, 0, 0, 0] = some c ∧
      (∀ i, (c.threads i).prog.isDone = true) ∧
      ¬ Linearizable (fun i => (createClearAndGet i).run)
        (new.withFailureMode (.failAllPayments "no")) [0, 0, 0, 1, 1, 1, 2, 2, 2, 0, 0, 0] c := by
  have hfinishes : ((launch (new.withFailureMode (.failAllPayments "no")) createClearAndGet).run?
      [0, 0, 0, 1, 1, 1, 2, 2, 2, 0, 0, 0]).any (fun c => (∀ i, (c.threads i).prog.isDone = true) ∧
        (c.threads 0).prog.result.bind Reply.paymentStatus = some .failed ∧
        (c.threads 2).prog.result.map Reply.paymentStatus = some none) = true := by decide
  obtain ⟨c, hc, hc'⟩ := (Option.any_eq_true _ _).mp hfinishes
  obtain ⟨hdone, hfailed, hmissing⟩ := of_decide_eq_true hc'
  refine ⟨c, hc, hdone, ?_⟩
  rintro ⟨order, hnodup, hall, hreal, -, hreplies⟩
  have hlooks : order.idxOf 1 < order.idxOf 2 := hreal 1 2 ⟨6, by decide, by decide⟩
  obtain ⟨r₀, hr₀, hstatus₀⟩ := Option.bind_eq_some_iff.mp hfailed
  obtain ⟨r₂, hr₂, hstatus₂⟩ := Option.map_eq_some_iff.mp hmissing
  have hperm : order.Perm [0, 1, 2] :=
    (List.perm_ext_iff_of_nodup hnodup (by decide)).mpr fun i => by
      simp only [hall i, true_iff]
      revert i
      decide
  -- a creation after the mode was cleared succeeds, and one before the look is found
  have hnone : ∀ order ∈ [0, 1, 2].permutations', order.idxOf 1 < order.idxOf 2 →
      ((inSequence (fun i => (createClearAndGet i).run)
        (new.withFailureMode (.failAllPayments "no")) order).1 0).bind Reply.paymentStatus =
          some .failed →
      ((inSequence (fun i => (createClearAndGet i).run)
        (new.withFailureMode (.failAllPayments "no")) order).1 2).map Reply.paymentStatus ≠
          some none := by decide
  refine hnone order (List.mem_permutations'.2 hperm) hlooks ?_ ?_
  · rw [hreplies 0 r₀ hr₀, Option.bind_some, hstatus₀]
  · rw [hreplies 2 r₂ hr₂, Option.map_some, hstatus₂]

end SweGateway.MockPaymentGateway

import SweGateway.Core.Payment.Equiv.Deadlock
import SweGateway.Lib.Linearizable

/-!
# Serializability of the payment operations

A refund locks the payments twice: it reads the payment's amount in its first critical section and
sets the payment's status in its second.  Between the two a capture may change the amount, and then
a full refund has refunded an amount that the payment no longer has, which no sequential order of
the calls explains (`refund_capture_not_serializable`).

`Undisturbed` says that this does not happen: the refund that a full refund has stored is of the
payment's amount when the payments are locked again.  Every finishing run of payment operations
whose steps are undisturbed is serializable (`serializable_of_undisturbed`): its replies and its
final state are those of the calls one after another, in the order in which they last wrote the
payments.

The proof follows the run with that order.  `At` says where a call is, given the state `σ` that the
calls before it lead to in sequence: the payments are those of `σ` throughout, and the refunds are,
too, but for the refund that the thread holding the refunds' lock has stored (`SerialInv`).
-/

namespace SweGateway.MockPaymentGateway

open Concurrent

variable {ι : Type} [DecidableEq ι]

/-- The calls of `order` one after another on the gateway `g`: their replies and the state they
leave. -/
def serial (calls : ι → PaymentOp) (g : MockPaymentGateway) (order : List ι) :
    (ι → Option Reply) × MockPaymentGateway :=
  Runs.exec (fun st i => (Function.update st.1 i (some ((calls i).run st.2).1),
    st.2.step (calls i))) (fun _ => none, g) order

/-- The payment operations before their first steps, on the gateway `g`. -/
def launchOps (g : MockPaymentGateway) (calls : ι → PaymentOp) : Running ι :=
  launch g fun i => .op (calls i)

/-- The replies and the state of `c` are those of all calls one after another in some order. -/
def Serializable (g : MockPaymentGateway) (calls : ι → PaymentOp) (c : Running ι) : Prop :=
  ∃ order : List ι, order.Nodup ∧ (∀ i, i ∈ order) ∧ (serial calls g order).2 = c.store ∧
    ∀ i r, (c.threads i).prog = .done r → (serial calls g order).1 i = some r

/-- When the call `i` steps in its second critical section as a full refund, the refund it has
stored is of the amount that the payment has now. -/
def Undisturbed (calls : ι → PaymentOp) (c : Running ι) (i : ι) : Prop :=
  ∀ now refund, calls i = .createRefund now refund → refund.amount = none →
    (.write, .payments) ∈ (c.threads i).held →
    ∀ (p : PaymentResult) (r : RefundResult), c.store.payments[refund.paymentId]? = some p →
      c.store.refunds[refund.id]? = some r → r.amount = p.amount

/-- A run all of whose steps are undisturbed. -/
def UndisturbedRun [Fintype ι] (calls : ι → PaymentOp) : Running ι → Running ι → Prop :=
  Relation.ReflTransGen fun c c' => ∃ i, Undisturbed calls c i ∧ c.step? i = some c'

/-! ### The sequential run -/

@[simp] theorem serial_nil (calls : ι → PaymentOp) (g : MockPaymentGateway) :
    serial calls g [] = (fun _ => none, g) := rfl

theorem serial_concat (calls : ι → PaymentOp) (g : MockPaymentGateway) (order : List ι) (i : ι) :
    serial calls g (order ++ [i]) =
      (Function.update (serial calls g order).1 i
          (some ((calls i).run (serial calls g order).2).1),
        (serial calls g order).2.step (calls i)) := by
  simp [serial]

/-- The calls without a reply are those outside the order. -/
theorem serial_eq_none_iff {calls : ι → PaymentOp} {g : MockPaymentGateway} {order : List ι}
    {i : ι} : (serial calls g order).1 i = none ↔ i ∉ order := by
  induction order using List.reverseRecOn with
  | nil => simp
  | append_singleton order j ih =>
    rw [serial_concat]
    by_cases hij : i = j
    · subst hij
      simp
    · simp [ih, hij]

/-! ### Where a call is -/

/-- The update `f` of a critical section on the payments is all that the operation `op` does. -/
def Writes (σ : MockPaymentGateway) (op : PaymentOp)
    (f : MockPaymentGateway → Reply × MockPaymentGateway) : Prop :=
  (∀ now refund, op ≠ .createRefund now refund) ∧
    ∀ g : MockPaymentGateway, g.failureMode = σ.failureMode → f g = op.run g

/-- Where the call `op` is, given the state `σ` after the calls before it in the order, the refunds
that are stored, and its reply if it is in the order already. -/
inductive At (σ : MockPaymentGateway) (refunds : HashMap String RefundResult) :
    PaymentOp → Option Reply → Thread PaymentLock MockPaymentGateway Reply → Prop
  | startPayment (now : DateTime) (uuid : String) (payment : Payment) :
    At σ refunds (.createPayment now uuid payment) none
      { prog := createPaymentBody now uuid payment }
  | readingMode (now : DateTime) (uuid : String) (payment : Payment) :
    At σ refunds (.createPayment now uuid payment) none
      { prog := .access id fun g => .release .read .failureMode <|
          .writeSection .payments
            (storePayment payment.id (paymentOutcome g.failureMode now uuid payment)),
        held := [(.read, .failureMode)] }
  | readMode (op : PaymentOp) (f : MockPaymentGateway → Reply × MockPaymentGateway)
    (hf : Writes σ op f) :
    At σ refunds op none
      { prog := .release .read .failureMode (.writeSection .payments f),
        held := [(.read, .failureMode)] }
  | waiting (op : PaymentOp) (f : MockPaymentGateway → Reply × MockPaymentGateway)
    (hf : Writes σ op f) :
    At σ refunds op none { prog := .writeSection .payments f }
  | writing (op : PaymentOp) (f : MockPaymentGateway → Reply × MockPaymentGateway)
    (hf : Writes σ op f) :
    At σ refunds op none
      { prog := .access (fun g => (f g).2) fun g => .release .write .payments (.done (f g).1),
        held := [(.write, .payments)] }
  | written (op : PaymentOp) (reply : Reply) :
    At σ refunds op (some reply)
      { prog := .release .write .payments (.done reply), held := [(.write, .payments)] }
  | startRefund (now : DateTime) (refund : Refund) :
    At σ refunds (.createRefund now refund) none { prog := createRefundBody now refund }
  | reading (now : DateTime) (refund : Refund) :
    At σ refunds (.createRefund now refund) none
      { prog := .access id (lookupRefundBody now refund), held := [(.read, .payments)] }
  | notFound (op : PaymentOp) (reply : Reply) :
    At σ refunds op (some reply)
      { prog := .release .read .payments (.done reply), held := [(.read, .payments)] }
  | found (now : DateTime) (refund : Refund) (payment : PaymentResult)
    (hp : σ.payments[refund.paymentId]? = some payment) :
    At σ refunds (.createRefund now refund) none
      { prog := storeRefundBody refund (refundOutcome now refund payment),
        held := [(.read, .payments)] }
  | storing (now : DateTime) (refund : Refund) (payment : PaymentResult)
    (hp : σ.payments[refund.paymentId]? = some payment) (hr : refunds = σ.refunds) :
    At σ refunds (.createRefund now refund) none
      { prog := .access
          (fun g => { g with
            refunds := g.refunds.insert refund.id (refundOutcome now refund payment) })
          fun _ => .release .read .payments
            (updateRefundedBody refund (refundOutcome now refund payment)),
        held := [(.write, .refunds), (.read, .payments)] }
  | stored (now : DateTime) (refund : Refund) (payment : PaymentResult)
    (hp : σ.payments[refund.paymentId]? = some payment)
    (hr : refunds = σ.refunds.insert refund.id (refundOutcome now refund payment)) :
    At σ refunds (.createRefund now refund) none
      { prog := .release .read .payments
          (updateRefundedBody refund (refundOutcome now refund payment)),
        held := [(.write, .refunds), (.read, .payments)] }
  | between (now : DateTime) (refund : Refund) (payment : PaymentResult)
    (hp : refund.paymentId ∈ σ.payments)
    (hr : refunds = σ.refunds.insert refund.id (refundOutcome now refund payment)) :
    At σ refunds (.createRefund now refund) none
      { prog := updateRefundedBody refund (refundOutcome now refund payment),
        held := [(.write, .refunds)] }
  | updating (now : DateTime) (refund : Refund) (payment : PaymentResult)
    (hp : refund.paymentId ∈ σ.payments)
    (hr : refunds = σ.refunds.insert refund.id (refundOutcome now refund payment)) :
    At σ refunds (.createRefund now refund) none
      { prog := .access (fun g => { g with payments := updateRefunded refund g.payments }) fun _ =>
          .release .write .payments <| .release .write .refunds <|
            .done (.refund (.ok (refundOutcome now refund payment))),
        held := [(.write, .payments), (.write, .refunds)] }
  | updated (op : PaymentOp) (reply : Reply) (hr : refunds = σ.refunds) :
    At σ refunds op (some reply)
      { prog := .release .write .payments <| .release .write .refunds <| .done reply,
        held := [(.write, .payments), (.write, .refunds)] }
  | finishing (op : PaymentOp) (reply : Reply) (hr : refunds = σ.refunds) :
    At σ refunds op (some reply)
      { prog := .release .write .refunds (.done reply), held := [(.write, .refunds)] }
  | returned (op : PaymentOp) (reply : Reply) :
    At σ refunds op (some reply) { prog := .done reply }

/-- A call is before its first step at the start. -/
theorem at_start (σ : MockPaymentGateway) (refunds : HashMap String RefundResult)
    (op : PaymentOp) : At σ refunds op none { prog := op.prog } := by
  cases op with
  | createPayment now uuid payment => exact .startPayment now uuid payment
  | capturePayment i amount => exact .waiting _ _ ⟨by simp, fun _ _ => rfl⟩
  | cancelPayment i => exact .waiting _ _ ⟨by simp, fun _ _ => rfl⟩
  | createRefund now refund => exact .startRefund now refund

/-- **Frame.** A call stays where it is when others change what it does not hold: the payments may
change if it does not hold them, and the refunds if it does not hold them for writing. -/
theorem At.frame {σ σ' : MockPaymentGateway} {refunds refunds' : HashMap String RefundResult}
    {op : PaymentOp} {q : Option Reply} {t : Thread PaymentLock MockPaymentGateway Reply}
    (hat : At σ refunds op q t) (hmode : σ'.failureMode = σ.failureMode)
    (hids : ∀ id, id ∈ σ.payments → id ∈ σ'.payments)
    (hpayments : ∀ m, (m, PaymentLock.payments) ∈ t.held → σ'.payments = σ.payments)
    (hrefunds : (Mode.write, PaymentLock.refunds) ∈ t.held →
      refunds' = refunds ∧ σ'.refunds = σ.refunds) :
    At σ' refunds' op q t := by
  have hwrites : ∀ {f}, Writes σ op f → Writes σ' op f := by
    rintro f ⟨hop, hf⟩
    refine ⟨hop, fun g hg => ?_⟩
    exact hf g (hg.trans hmode)
  cases hat with
  | startPayment now uuid payment => exact .startPayment now uuid payment
  | readingMode now uuid payment => exact .readingMode now uuid payment
  | readMode _ f hf => exact .readMode _ _ (hwrites hf)
  | waiting _ f hf => exact .waiting _ _ (hwrites hf)
  | writing _ f hf => exact .writing _ _ (hwrites hf)
  | written _ reply => exact .written _ _
  | startRefund now refund => exact .startRefund now refund
  | reading now refund => exact .reading now refund
  | notFound _ reply => exact .notFound _ _
  | found now refund payment hp =>
    have hpay : σ'.payments = σ.payments := hpayments .read (by simp)
    exact .found now refund payment (by rw [hpay, hp])
  | storing now refund payment hp hr =>
    have hpay : σ'.payments = σ.payments := hpayments .read (by simp)
    obtain ⟨hr', hσ⟩ := hrefunds (by simp)
    exact .storing now refund payment (by rw [hpay, hp]) (by rw [hr', hσ, hr])
  | stored now refund payment hp hr =>
    have hpay : σ'.payments = σ.payments := hpayments .read (by simp)
    obtain ⟨hr', hσ⟩ := hrefunds (by simp)
    exact .stored now refund payment (by rw [hpay, hp]) (by rw [hr', hσ, hr])
  | between now refund payment hp hr =>
    obtain ⟨hr', hσ⟩ := hrefunds (by simp)
    exact .between now refund payment (hids _ hp) (by rw [hr', hσ, hr])
  | updating now refund payment hp hr =>
    obtain ⟨hr', hσ⟩ := hrefunds (by simp)
    exact .updating now refund payment (hids _ hp) (by rw [hr', hσ, hr])
  | updated _ reply hr =>
    obtain ⟨hr', hσ⟩ := hrefunds (by simp)
    exact .updated _ _ (by rw [hr', hσ, hr])
  | finishing _ reply hr =>
    obtain ⟨hr', hσ⟩ := hrefunds (by simp)
    exact .finishing _ _ (by rw [hr', hσ, hr])
  | returned _ reply => exact .returned _ _

/-! ### One step -/

/-- What a step of the thread `i` does: it leaves the order as it is or appends the call to it, and
it changes only what the thread holds for writing. -/
structure Advance (σ : MockPaymentGateway) (c c' : Running ι) (i : ι) (op : PaymentOp)
    (q : Option Reply) (σ' : MockPaymentGateway) (q' : Option Reply) : Prop where
  order : (σ' = σ ∧ q' = q) ∨ (q = none ∧ σ' = σ.step op ∧ q' = some (op.run σ).1)
  at_self : At σ' c'.store.refunds op q' (c'.threads i)
  store : c'.store = { σ' with refunds := c'.store.refunds }
  payments : (Mode.write, PaymentLock.payments) ∉ (c.threads i).held → σ'.payments = σ.payments
  refunds : (Mode.write, PaymentLock.refunds) ∉ (c.threads i).held →
    c'.store.refunds = c.store.refunds ∧ σ'.refunds = σ.refunds
  unlocked : (Mode.write, PaymentLock.refunds) ∈ (c.threads i).held →
    (Mode.write, PaymentLock.refunds) ∉ (c'.threads i).held → c'.store.refunds = σ'.refunds

/-- A step that changes nothing but its thread. -/
theorem Advance.quiet {σ : MockPaymentGateway} {c : Running ι} {i : ι} {op : PaymentOp}
    {q : Option Reply} {t : Thread PaymentLock MockPaymentGateway Reply}
    (hstore : c.store = { σ with refunds := c.store.refunds }) (hat : At σ c.store.refunds op q t)
    (hunlocked : (Mode.write, PaymentLock.refunds) ∈ (c.threads i).held →
      (Mode.write, PaymentLock.refunds) ∉ t.held → c.store.refunds = σ.refunds) :
    Advance σ c (c.set i c.store t) i op q σ q where
  order := .inl ⟨rfl, rfl⟩
  at_self := by rwa [Config.threads_set_self]
  store := hstore
  payments _ := rfl
  refunds _ := ⟨rfl, rfl⟩
  unlocked h h' := hunlocked h (by rwa [Config.threads_set_self] at h')

/-- Only a refund looks at the refunds. -/
theorem PaymentOp.run_withRefunds {op : PaymentOp} (h : ∀ now refund, op ≠ .createRefund now refund)
    (g : MockPaymentGateway) (refunds : HashMap String RefundResult) :
    op.run { g with refunds := refunds } =
      ((op.run g).1, { (op.run g).2 with refunds := refunds }) := by
  cases op with
  | createPayment now uuid payment => rfl
  | capturePayment i amount =>
    simp only [PaymentOp.run, MockPaymentGateway.capturePayment]
    cases g.payments[i]? <;> rfl
  | cancelPayment i =>
    simp only [PaymentOp.run, MockPaymentGateway.cancelPayment]
    cases g.payments[i]? <;> rfl
  | createRefund now refund => exact absurd rfl (h now refund)

/-- A full refund is of the payment's amount. -/
theorem amount_refundOutcome_of_none {refund : Refund} (h : refund.amount = none)
    (now : DateTime) (payment : PaymentResult) :
    (refundOutcome now refund payment).amount = payment.amount := by
  simp [refundOutcome, RefundResult.success, h]

/-- What a refund stores depends on the payment only through the amount of a full refund. -/
theorem refundOutcome_congr {refund : Refund} {p p' : PaymentResult} (now : DateTime)
    (h : refund.amount = none → p.amount = p'.amount) :
    refundOutcome now refund p = refundOutcome now refund p' := by
  cases hamount : refund.amount with
  | some amount => simp [refundOutcome, hamount]
  | none => simp [refundOutcome, hamount, h hamount]

/-- What a refund has stored is what it would store of the payment that is there now, if a full refund
is still of the payment's amount. -/
theorem refundOutcome_eq_of_stored {store : MockPaymentGateway} {now : DateTime} {refund : Refund}
    {payment p : PaymentResult}
    (hstored : store.refunds[refund.id]? = some (refundOutcome now refund payment))
    (hsame : refund.amount = none → ∀ r, store.refunds[refund.id]? = some r → r.amount = p.amount) :
    refundOutcome now refund payment = refundOutcome now refund p := by
  apply refundOutcome_congr
  intro hamount
  rw [← hsame hamount _ hstored, amount_refundOutcome_of_none hamount]

variable [Fintype ι]

/-- **One step of a call.** -/
theorem at_step {σ : MockPaymentGateway} {c c' : Running ι} {i : ι} {op : PaymentOp}
    {q : Option Reply} (hat : At σ c.store.refunds op q (c.threads i))
    (hstore : c.store = { σ with refunds := c.store.refunds })
    (hfree : (∀ j, (Mode.write, PaymentLock.refunds) ∉ (c.threads j).held) →
      c.store.refunds = σ.refunds)
    (hsame : ∀ now refund, op = .createRefund now refund → refund.amount = none →
      (Mode.write, PaymentLock.payments) ∈ (c.threads i).held →
      ∀ (p : PaymentResult) (r : RefundResult), c.store.payments[refund.paymentId]? = some p →
        c.store.refunds[refund.id]? = some r → r.amount = p.amount)
    (h : c.step? i = some c') : ∃ σ' q', Advance σ c c' i op q σ' q' := by
  have hpayments : c.store.payments = σ.payments := by rw [hstore]
  have hmode : c.store.failureMode = σ.failureMode := by rw [hstore]
  generalize ht : c.threads i = t at hat
  cases hat with
  | startPayment now uuid payment =>
    obtain ⟨-, rfl⟩ := Config.of_step?_acquire ht h
    exact ⟨σ, none, .quiet hstore (.readingMode now uuid payment) (by simp [ht])⟩
  | readingMode now uuid payment =>
    obtain rfl := Config.of_step?_access ht h
    have hwrites : Writes σ (.createPayment now uuid payment)
        (storePayment payment.id (paymentOutcome c.store.failureMode now uuid payment)) := by
      refine ⟨by simp, fun g hg => ?_⟩
      rw [hmode, ← hg]
      rfl
    exact ⟨σ, none, .quiet hstore (.readMode _ _ hwrites) (by simp [ht])⟩
  | readMode _ f hf =>
    obtain rfl := Config.of_step?_release ht h
    exact ⟨σ, none, .quiet hstore (.waiting _ _ hf) (by simp [ht])⟩
  | waiting _ f hf =>
    obtain ⟨-, rfl⟩ := Config.of_step?_acquire ht h
    exact ⟨σ, none, .quiet hstore (.writing _ _ hf) (by simp [ht])⟩
  | writing _ f hf =>
    obtain rfl := Config.of_step?_access ht h
    have hrun : f c.store = ((op.run σ).1, { σ.step op with refunds := c.store.refunds }) := by
      rw [hf.2 _ hmode, hstore, PaymentOp.run_withRefunds hf.1]
      rfl
    refine ⟨σ.step op, some (op.run σ).1, .inr ⟨rfl, rfl, rfl⟩, ?_, ?_, ?_, ?_, ?_⟩
    · rw [Config.threads_set_self, hrun]
      exact .written _ _
    · rw [Config.store_set, hrun]
    · simp [ht]
    · rw [Config.store_set, hrun]
      exact fun _ => ⟨rfl, refunds_step_of_not_refund σ op hf.1⟩
    · simp [ht]
  | written _ reply =>
    obtain rfl := Config.of_step?_release ht h
    exact ⟨σ, some reply, .quiet hstore (.returned _ _) (by simp [ht])⟩
  | startRefund now refund =>
    obtain ⟨-, rfl⟩ := Config.of_step?_acquire ht h
    exact ⟨σ, none, .quiet hstore (.reading now refund) (by simp [ht])⟩
  | reading now refund =>
    obtain rfl := Config.of_step?_access ht h
    cases hp : σ.payments[refund.paymentId]? with
    | none =>
      rw [lookupRefundBody_of_none (hpayments ▸ hp)]
      -- the refund fails, and its place in the order is here
      refine ⟨σ, _, .inr ⟨rfl, ?_, rfl⟩, ?_, hstore, fun _ => rfl, fun _ => ⟨rfl, rfl⟩, ?_⟩
      · rw [step_refund_of_none hp]
      · rw [Config.threads_set_self, run_createRefund_of_none hp]
        exact .notFound _ _
      · simp [ht]
    | some payment =>
      rw [lookupRefundBody_of_some (hpayments ▸ hp)]
      exact ⟨σ, none, .quiet hstore (.found now refund payment hp) (by simp [ht])⟩
  | notFound _ reply =>
    obtain rfl := Config.of_step?_release ht h
    exact ⟨σ, some reply, .quiet hstore (.returned _ _) (by simp [ht])⟩
  | found now refund payment hp =>
    obtain ⟨hgrants, rfl⟩ := Config.of_step?_acquire ht h
    have hr : c.store.refunds = σ.refunds := by
      apply hfree
      intro j
      exact (hgrants j).1
    exact ⟨σ, none, .quiet hstore (.storing now refund payment hp hr) (by simp [ht])⟩
  | storing now refund payment hp hr =>
    obtain rfl := Config.of_step?_access ht h
    refine ⟨σ, none, .inl ⟨rfl, rfl⟩, ?_, ?_, fun _ => rfl, ?_, ?_⟩
    · rw [Config.threads_set_self]
      exact .stored now refund payment hp (by rw [Config.store_set, hr])
    · rw [Config.store_set, hstore]
    · simp [ht]
    · simp [ht]
  | stored now refund payment hp hr =>
    obtain rfl := Config.of_step?_release ht h
    have hmem : refund.paymentId ∈ σ.payments := by
      rw [← Std.ExtTreeMap.isSome_getElem?_iff_mem, hp]
      rfl
    exact ⟨σ, none, .quiet hstore (.between now refund payment hmem hr) (by simp [ht])⟩
  | between now refund payment hp hr =>
    obtain ⟨-, rfl⟩ := Config.of_step?_acquire ht h
    exact ⟨σ, none, .quiet hstore (.updating now refund payment hp hr) (by simp [ht])⟩
  | updating now refund payment hp hr =>
    obtain rfl := Config.of_step?_access ht h
    rw [← Std.ExtTreeMap.isSome_getElem?_iff_mem, Option.isSome_iff_exists] at hp
    obtain ⟨p, hp⟩ := hp
    -- in sequence, the refund would be of the same amount
    have houtcome : refundOutcome now refund payment = refundOutcome now refund p := by
      have hheld : (Mode.write, PaymentLock.payments) ∈ (c.threads i).held := by simp [ht]
      have hfound : c.store.payments[refund.paymentId]? = some p := by rw [hpayments, hp]
      have hstored : c.store.refunds[refund.id]? = some (refundOutcome now refund payment) := by
        rw [hr, Std.ExtTreeMap.getElem?_insert_self]
      refine refundOutcome_eq_of_stored hstored fun hamount r => ?_
      exact hsame now refund rfl hamount hheld p r hfound
    have hrun : (PaymentOp.createRefund now refund).run σ =
        (.refund (.ok (refundOutcome now refund p)),
          { σ with
            refunds := c.store.refunds
            payments := updateRefunded refund σ.payments }) := by
      rw [run_createRefund_of_some hp, hr, houtcome]
    refine ⟨σ.step _, _, .inr ⟨rfl, rfl, rfl⟩, ?_, ?_, ?_, ?_, ?_⟩
    · rw [Config.threads_set_self, houtcome, step, hrun]
      exact .updated _ _ rfl
    · rw [Config.store_set, step, hrun, hpayments, hstore]
    · simp [ht]
    · simp [ht]
    · simp [ht]
  | updated _ reply hr =>
    obtain rfl := Config.of_step?_release ht h
    exact ⟨σ, some reply, .quiet hstore (.finishing _ _ hr) (by simp [ht])⟩
  | finishing _ reply hr =>
    obtain rfl := Config.of_step?_release ht h
    exact ⟨σ, some reply, .quiet hstore (.returned _ _) fun _ _ => hr⟩
  | returned _ reply => exact absurd h (Config.not_step?_done ht)

/-! ### Runs -/

/-- The invariant of a run: the calls of `order`, one after another, explain the replies so far and
the state, but for the refund that the thread holding the refunds' lock has stored. -/
structure SerialInv (g : MockPaymentGateway) (calls : ι → PaymentOp) (c : Running ι)
    (order : List ι) : Prop where
  nodup : order.Nodup
  exclusive : c.Exclusive
  threads : ∀ i, At (serial calls g order).2 c.store.refunds (calls i) ((serial calls g order).1 i)
    (c.threads i)
  store : c.store = { (serial calls g order).2 with refunds := c.store.refunds }
  unlocked : (∀ j, (Mode.write, PaymentLock.refunds) ∉ (c.threads j).held) →
    c.store.refunds = (serial calls g order).2.refunds

omit [Fintype ι] in
theorem serialInv_start (g : MockPaymentGateway) (calls : ι → PaymentOp) :
    SerialInv g calls (launchOps g calls) [] where
  nodup := List.nodup_nil
  exclusive := Config.exclusive_start _ _
  threads _ := at_start _ _ _
  store := rfl
  unlocked _ := rfl

/-- **The step lemma.** An undisturbed step keeps the invariant, with the order as it is or with the
call appended to it. -/
theorem SerialInv.step {g : MockPaymentGateway} {calls : ι → PaymentOp} {c c' : Running ι}
    {order : List ι} {i : ι} (hinv : SerialInv g calls c order) (hok : Undisturbed calls c i)
    (h : c.step? i = some c') : ∃ order', SerialInv g calls c' order' := by
  obtain ⟨σ', q', hadv⟩ := at_step (hinv.threads i) hinv.store hinv.unlocked hok h
  -- the order that the new state belongs to
  obtain ⟨order', hnodup, hσ, hq, hothers⟩ : ∃ order' : List ι, order'.Nodup ∧
      (serial calls g order').2 = σ' ∧ (serial calls g order').1 i = q' ∧
      ∀ j, j ≠ i → (serial calls g order').1 j = (serial calls g order).1 j := by
    rcases hadv.order with ⟨rfl, rfl⟩ | ⟨hnone, rfl, rfl⟩
    · exact ⟨order, hinv.nodup, rfl, rfl, fun _ _ => rfl⟩
    · refine ⟨order ++ [i], ?_, ?_, ?_, ?_⟩
      · have hi : i ∉ order := serial_eq_none_iff.mp hnone
        rw [← List.concat_eq_append]
        exact hinv.nodup.concat hi
      · rw [serial_concat]
      · rw [serial_concat]
        exact Function.update_self ..
      · intro j hj
        rw [serial_concat]
        exact Function.update_of_ne hj ..
  have hids : ∀ id, id ∈ (serial calls g order).2.payments → id ∈ σ'.payments := by
    intro id hid
    rcases hadv.order with ⟨rfl, -⟩ | ⟨-, rfl, -⟩
    · exact hid
    · exact mem_payments_step.mpr (.inl hid)
  have hmode : σ'.failureMode = (serial calls g order).2.failureMode := by
    rcases hadv.order with ⟨rfl, -⟩ | ⟨-, rfl, -⟩
    · rfl
    · exact failureMode_step _ _
  refine ⟨order', hnodup, Config.exclusive_step hinv.exclusive h, fun j => ?_, ?_, fun hfree => ?_⟩
  · rw [hσ]
    by_cases hj : j = i
    · subst hj
      rw [hq]
      exact hadv.at_self
    · rw [hothers j hj, Config.threads_step?_of_ne h hj]
      refine (hinv.threads j).frame hmode hids (fun m hm => ?_) fun hm => ?_
      · exact hadv.payments fun hi => hinv.exclusive i j (Ne.symm hj) _ hi m hm
      · exact hadv.refunds fun hi => hinv.exclusive i j (Ne.symm hj) _ hi .write hm
  · rw [hσ]
    exact hadv.store
  · rw [hσ]
    by_cases hi : (Mode.write, PaymentLock.refunds) ∈ (c.threads i).held
    · exact hadv.unlocked hi (hfree i)
    · obtain ⟨hr, hσr⟩ := hadv.refunds hi
      rw [hr, hσr]
      refine hinv.unlocked fun j => ?_
      by_cases hj : j = i
      · rw [hj]
        exact hi
      · rw [← Config.threads_step?_of_ne h hj]
        exact hfree j

/-- **The run lemma.** -/
theorem exists_serialInv {g : MockPaymentGateway} {calls : ι → PaymentOp} {c : Running ι}
    (hrun : UndisturbedRun calls (launchOps g calls) c) : ∃ order, SerialInv g calls c order := by
  induction hrun with
  | refl => exact ⟨[], serialInv_start g calls⟩
  | tail _ h ih =>
    obtain ⟨order, hinv⟩ := ih
    obtain ⟨i, hok, hstep⟩ := h
    exact hinv.step hok hstep

/-- **Serializability.** In a run of payment operations whose steps are all undisturbed and in which
every call returns, the replies and the state are those of the calls one after another. -/
theorem serializable_of_undisturbed {g : MockPaymentGateway} {calls : ι → PaymentOp}
    {c : Running ι} (hrun : UndisturbedRun calls (launchOps g calls) c)
    (hdone : ∀ i, (c.threads i).prog.isDone = true) : Serializable g calls c := by
  obtain ⟨order, hinv⟩ := exists_serialInv hrun
  have hreturned : ∀ i, ∃ reply, c.threads i = { prog := .done reply } ∧
      (serial calls g order).1 i = some reply := by
    intro i
    have hi := hdone i
    have hat := hinv.threads i
    generalize c.threads i = t at hi hat ⊢
    generalize (serial calls g order).1 i = q at hat ⊢
    generalize calls i = op at hat
    cases hat with
    | returned _ reply => exact ⟨reply, rfl, rfl⟩
    | _ => cases hi
  refine ⟨order, hinv.nodup, fun i => ?_, ?_, fun i r hr => ?_⟩
  · obtain ⟨reply, -, hreply⟩ := hreturned i
    by_contra hi
    rw [serial_eq_none_iff.mpr hi] at hreply
    cases hreply
  · have hfree : ∀ j, (Mode.write, PaymentLock.refunds) ∉ (c.threads j).held := by
      intro j
      obtain ⟨reply, ht, -⟩ := hreturned j
      rw [ht]
      exact List.not_mem_nil
    rw [hinv.store, hinv.unlocked hfree]
  · obtain ⟨reply, ht, hreply⟩ := hreturned i
    rw [ht] at hr
    cases hr
    exact hreply

/-- A schedule whose steps are all undisturbed. -/
theorem undisturbedRun_of_run? {calls : ι → PaymentOp} {c c' : Running ι} {schedule : List ι}
    (hrun : c.run? schedule = some c')
    (h : Runs.EachStep (fun pre i => ∀ c₁ ∈ c.run? pre, Undisturbed calls c₁ i) schedule) :
    UndisturbedRun calls c c' := by
  induction schedule using List.reverseRecOn generalizing c' with
  | nil =>
    obtain rfl : c = c' := Option.some.inj hrun
    exact .refl
  | append_singleton schedule i ih =>
    obtain ⟨c₁, hpre, hstep⟩ := Config.run?_concat_eq_some hrun
    refine (ih hpre fun pre j hj => ?_).tail ⟨i, h schedule i List.prefix_rfl c₁ hpre, hstep⟩
    exact h pre j (hj.trans (List.prefix_append schedule [i]))

/-- A full refund of the payment of `onePayment`, next to a capture of `amount`. -/
def refundAndCapture (amount : Option Money) : Bool → PaymentOp
  | false => .createRefund 1 { id := "re_1", paymentId := "pay_1" }
  | true => .capturePayment "pay_1" amount

instance (amount : Option Money) (c : Running Bool) (i : Bool) :
    Decidable (Undisturbed (refundAndCapture amount) c i) :=
  match i with
  | true => isTrue nofun
  | false =>
    decidable_of_iff ((.write, .payments) ∈ (c.threads false).held →
        ∀ p ∈ c.store.payments["pay_1"]?, ∀ r ∈ c.store.refunds["re_1"]?, r.amount = p.amount) <| by
      constructor
      · rintro h now refund hcall - hheld p r hp hr
        cases hcall
        exact h hheld p hp r hr
      · intro h hheld p hp r hr
        exact h 1 _ rfl rfl hheld p r hp hr

/-- The schedule that runs the capture between the two critical sections of the refund. -/
def captureBetween : List Bool :=
  [false, false, false, false, false, true, true, true, false, false, false, false]

/-- A full refund is serializable with a capture that leaves the amount as it is, though the capture
comes between its critical sections. -/
theorem refund_wholeCapture_serializable :
    ∃ c : Running Bool,
      (launchOps onePayment (refundAndCapture none)).run? captureBetween = some c ∧
      Serializable onePayment (refundAndCapture none) c := by
  have hfinishes : ((launchOps onePayment (refundAndCapture none)).run? captureBetween).any
      (fun c => ∀ i, (c.threads i).prog.isDone = true) = true := by decide
  obtain ⟨c, hc, hdone⟩ := (Option.any_eq_true _ _).mp hfinishes
  have hundisturbed : Runs.EachStep (fun pre i =>
      ∀ c₁ ∈ (launchOps onePayment (refundAndCapture none)).run? pre,
        Undisturbed (refundAndCapture none) c₁ i) captureBetween :=
    Runs.eachStep_iff_getElem.mpr (by decide +kernel)
  exact ⟨c, hc, serializable_of_undisturbed (undisturbedRun_of_run? hc hundisturbed)
    (of_decide_eq_true hdone)⟩

/-- A full refund of 100 USD during which the payment is captured with 50 USD is not serializable:
the payment ends up refunded, and the refund is of the amount before the capture. -/
theorem refund_capture_not_serializable :
    ¬ ∀ c : Running Bool,
      (launchOps onePayment (refundAndCapture (some (Money.usd 50)))).Reaches c →
      (∀ i, (c.threads i).prog.isDone = true) →
      Serializable onePayment (refundAndCapture (some (Money.usd 50))) c := by
  intro h
  have hfinishes : ((launchOps onePayment (refundAndCapture (some (Money.usd 50)))).run?
      captureBetween).any (fun c => (∀ i, (c.threads i).prog.isDone = true) ∧
        c.store.status "pay_1" = some .refunded ∧
        c.store.refunds["re_1"]?.map RefundResult.amount = some (Money.usd 100)) = true := by
    decide
  obtain ⟨c, hc, hc'⟩ := (Option.any_eq_true _ _).mp hfinishes
  obtain ⟨hdone, hstatus, hamount⟩ := of_decide_eq_true hc'
  obtain ⟨order, hnodup, hall, hstore, -⟩ := h c (Config.reaches_of_run? hc) hdone
  rw [← hstore] at hstatus hamount
  rcases order_of_two hnodup hall with rfl | rfl
  · -- the capture comes last and leaves the payment succeeded
    exact absurd hstatus (by decide)
  · -- the refund comes last and is of the captured amount
    exact absurd hamount (by decide)

end SweGateway.MockPaymentGateway

import Mathlib.Data.Finset.SDiff
import SweGateway.Core.Payment.Concurrent
import SweGateway.Core.Payment.Equiv.Step

/-!
# When concurrent calls of the mock payment gateway can deadlock

`create_refund` stores the refund while it reads the payments, drops that guard, and then locks the
payments for writing while it still holds the refunds.  A second refund that has locked the payments
for reading by then waits for the refunds, and the first one waits for the payments.  A refund of a
payment that is not stored returns before it takes the refunds, and every other operation takes its
locks in one order (`obeys_ordered`).  So calls of the gateway can deadlock exactly when two of them
refund payments that may be found: payments that are stored at the start or by one of the calls
(`deadlockFree_iff`).
-/

namespace SweGateway.MockPaymentGateway

open Concurrent

/-- The order in which the operations other than a refund lock: the customers before the payment
methods. -/
def PaymentLock.level : PaymentLock → ℕ
  | .customers => 0
  | _ => 1

/-- The payment id under which the call stores a payment, if it does. -/
def Call.storedId : Call → Option String
  | .op (.createPayment _ _ payment) => some payment.id
  | .addPayment result => some result.paymentId
  | _ => none

/-- Only payment ids that satisfy `K` are stored. -/
def PaymentIds (K : String → Prop) (g : MockPaymentGateway) : Prop :=
  ∀ id, id ∈ g.payments → K id

/-- A payment with the id is stored on `g` or by one of the calls. -/
def Stored {ι : Type} (g : MockPaymentGateway) (calls : ι → Call) (id : String) : Prop :=
  id ∈ g.payments ∨ ∃ i, (calls i).storedId = some id

/-- The call `i` is a refund of a payment that may be found. -/
def RefundsStored {ι : Type} (g : MockPaymentGateway) (calls : ι → Call) (i : ι) : Prop :=
  ∃ now refund, calls i = .op (.createRefund now refund) ∧ Stored g calls refund.paymentId

/-! ### The payment ids -/

theorem mem_payments_step {g : MockPaymentGateway} {op : PaymentOp} {id : String} :
    id ∈ (g.step op).payments ↔ id ∈ g.payments ∨ (Call.op op).storedId = some id := by
  rw [← Std.ExtTreeMap.isSome_getElem?_iff_mem, payments_step,
    ← Std.ExtTreeMap.isSome_getElem?_iff_mem]
  by_cases hid : op.paymentId = id
  · rw [if_pos hid]
    cases op with
    | createPayment now uuid payment =>
      have hid' : payment.id = id := hid
      simp [PaymentOp.effect, Call.storedId, hid']
    | capturePayment i amount => simp [PaymentOp.effect, Call.storedId]
    | cancelPayment i => simp [PaymentOp.effect, Call.storedId]
    | createRefund now refund => simp [PaymentOp.effect, Call.storedId]
  · rw [if_neg hid]
    cases op with
    | createPayment now uuid payment =>
      have hid' : ¬ payment.id = id := hid
      simp [Call.storedId, hid']
    | capturePayment i amount => simp [Call.storedId]
    | cancelPayment i => simp [Call.storedId]
    | createRefund now refund => simp [Call.storedId]

/-- The payment ids that are stored after a call. -/
theorem Call.mem_payments_run {call : Call} {g : MockPaymentGateway} {id : String} :
    id ∈ (call.run g).2.payments ↔ id ∈ g.payments ∨ call.storedId = some id := by
  cases call with
  | op o => exact mem_payments_step
  | addPayment result =>
    simp only [Call.run, MockPaymentGateway.addPayment, Std.ExtTreeMap.mem_insert,
      Std.compare_eq_iff_eq, Call.storedId, Option.some.injEq]
    exact or_comm
  | updateCustomer customer =>
    simp only [Call.run, MockPaymentGateway.updateCustomer, Call.storedId]
    split_ifs <;> simp
  | _ => simp [Call.run, Call.storedId, MockPaymentGateway.createCustomer,
      MockPaymentGateway.deleteCustomer, MockPaymentGateway.addCustomer,
      MockPaymentGateway.clearFailureMode]

/-- A call that stores no payment id outside `K` keeps the payment ids inside `K`. -/
theorem PaymentIds.run {K : String → Prop} {call : Call} {g : MockPaymentGateway}
    (hg : PaymentIds K g) (hcall : ∀ id, call.storedId = some id → K id) :
    PaymentIds K (call.run g).2 := by
  intro id hid
  rcases Call.mem_payments_run.mp hid with h | h
  · exact hg id h
  · exact hcall id h

/-! ### The disciplines of the bodies -/

/-- Every body but that of a refund of a stored payment takes its locks in order. -/
theorem obeys_ordered {K : String → Prop} {call : Call}
    (hcall : ∀ id, call.storedId = some id → K id)
    (hrefund : ∀ now refund, call = .op (.createRefund now refund) → ¬ K refund.paymentId) :
    Obeys (PaymentIds K) (Ordered PaymentLock.level) [] call.prog := by
  have hnil : ∀ l, Ordered PaymentLock.level [] l := by
    intro l h hmem
    cases hmem
  have hrun : ∀ g, PaymentIds K g → PaymentIds K (call.run g).2 := by
    intro g hg
    exact hg.run hcall
  cases call with
  | op o =>
    cases o with
    | createPayment now uuid payment =>
      refine ⟨hnil _, fun g hg => ⟨hg, List.mem_singleton_self _, ?_⟩⟩
      rw [List.erase_cons_head]
      refine obeys_writeSection (hnil _) fun g' hg' id hid => ?_
      simp only [storePayment, Std.ExtTreeMap.mem_insert, Std.compare_eq_iff_eq] at hid
      rcases hid with rfl | hid
      · exact hcall payment.id rfl
      · exact hg' id hid
    | capturePayment i amount => exact obeys_writeSection (hnil _) hrun
    | cancelPayment i => exact obeys_writeSection (hnil _) hrun
    | createRefund now refund =>
      refine ⟨hnil _, fun g hg => ⟨hg, ?_⟩⟩
      -- the payment is not found, so that the refunds are never locked
      have hnone : g.payments[refund.paymentId]? = none := by
        apply Std.ExtTreeMap.getElem?_eq_none
        intro hmem
        exact hrefund now refund rfl (hg refund.paymentId hmem)
      rw [lookupRefundBody_of_none hnone]
      simp [Obeys]
  | deleteCustomer i =>
    refine ⟨hnil _, fun g hg => ⟨hg, ?_, fun g' hg' => ⟨hg', ?_⟩⟩⟩
    · intro h hmem
      rw [List.mem_singleton.mp hmem]
      decide
    · simp [Obeys]
  | getPayment | listPayments | getCustomer | listPaymentMethods | getRefund =>
    exact obeys_readSection (hnil _)
  | createCustomer | updateCustomer | addCustomer | addPayment | clearFailureMode =>
    exact obeys_writeSection (hnil _) hrun

/-- A refund takes only the payments and the refunds, and never one of them while it holds it. -/
theorem obeys_highest (K : String → Prop) (now : DateTime) (refund : Refund) :
    Obeys (PaymentIds K) (Highest PaymentLock.level) [] (createRefundBody now refund) := by
  have htop : ∀ l, PaymentLock.level l ≤ 1 := by
    intro l
    cases l <;> decide
  refine ⟨⟨htop, fun m => List.not_mem_nil⟩, fun g hg => ⟨hg, ?_⟩⟩
  cases hp : g.payments[refund.paymentId]? with
  | none =>
    rw [lookupRefundBody_of_none hp]
    simp [Obeys]
  | some payment =>
    rw [lookupRefundBody_of_some hp]
    have hrefunds : Fresh [(Mode.read, PaymentLock.payments)] .refunds := by simp [Fresh]
    have hpayments : Fresh [(Mode.write, PaymentLock.refunds)] .payments := by simp [Fresh]
    refine ⟨⟨htop, hrefunds⟩, fun g hg => ⟨hg, by simp, ⟨htop, hpayments⟩, ?_⟩⟩
    intro g hg
    have hids : PaymentIds K { g with payments := updateRefunded refund g.payments } := by
      intro id hid
      apply hg id
      rw [← Std.ExtTreeMap.isSome_getElem?_iff_mem, getElem?_updateRefunded] at hid
      rw [← Std.ExtTreeMap.isSome_getElem?_iff_mem]
      split_ifs at hid
      · simpa using hid
      · exact hid
    exact ⟨hids, by simp [Obeys]⟩

/-- No body asks for a lock that it holds. -/
theorem obeys_fresh (call : Call) : Obeys (PaymentIds fun _ => True) Fresh [] call.prog := by
  by_cases hrefund : ∃ now refund, call = .op (.createRefund now refund)
  · obtain ⟨now, refund, rfl⟩ := hrefund
    have hhighest := obeys_highest (fun _ => True) now refund
    exact hhighest.mono fun _ _ h => h.2
  · have hordered : Obeys (PaymentIds fun _ => True) (Ordered PaymentLock.level) [] call.prog := by
      apply obeys_ordered (fun _ _ => trivial)
      intro now refund hcall
      exact absurd ⟨now, refund, hcall⟩ hrefund
    exact hordered.mono fun _ _ h => h.fresh

variable {ι : Type} [Fintype ι] [DecidableEq ι]

/-- **At most one refund.** Calls of which at most one refunds a payment that may be found do not
deadlock. -/
theorem not_deadlocked_of_one_refund {g : MockPaymentGateway} {calls : ι → Call}
    (hone : ∀ i j, RefundsStored g calls i → RefundsStored g calls j → i = j) {c : Running ι}
    (hreach : (launch g calls).Reaches c) : ¬ c.Deadlocked := by
  refine Config.not_deadlocked (I := PaymentIds (Stored g calls)) PaymentLock.level hone
    (hreach.disciplined ⟨fun id hid => .inl hid, fun i => ?_⟩)
  by_cases hi : RefundsStored g calls i
  · -- the one refund is exempt from the lock order
    have ⟨now, refund, hcall, _⟩ := hi
    have hbody : ((launch g calls).threads i).prog = createRefundBody now refund := by
      simp [launch, Config.start, hcall, Call.prog, PaymentOp.prog]
    rw [hbody]
    apply (obeys_highest (Stored g calls) now refund).mono
    intro held l hhighest
    exact ⟨fun _ => hhighest, fun hn => absurd hi hn⟩
  · have hordered : Obeys (PaymentIds (Stored g calls)) (Ordered PaymentLock.level) []
        (calls i).prog := by
      apply obeys_ordered
      · intro id h
        exact .inr ⟨i, h⟩
      · intro now refund h hid
        exact hi ⟨now, refund, h, hid⟩
    apply hordered.mono
    intro held l hlock
    exact ⟨fun hn => absurd hn hi, fun _ => hlock⟩

/-! ### Two refunds -/

/-- The calls of `s` can run to their ends one after another while the others have not started. -/
theorem reaches_done (g : MockPaymentGateway) (calls : ι → Call) (s : Finset ι) :
    ∃ c : Running ι, (launch g calls).Reaches c ∧
      (∀ k ∈ s, ∃ r, c.threads k = { prog := .done r }) ∧
      (∀ k, k ∉ s → c.threads k = { prog := (calls k).prog }) ∧
      (∀ id, id ∈ g.payments → id ∈ c.store.payments) ∧
      ∀ k ∈ s, ∀ id, (calls k).storedId = some id → id ∈ c.store.payments := by
  induction s using Finset.induction_on with
  | empty =>
    refine ⟨launch g calls, .refl, ?_, fun _ _ => rfl, fun _ h => h, ?_⟩
    · intro k hk
      cases Finset.notMem_empty k hk
    · intro k hk
      cases Finset.notMem_empty k hk
  | insert i s hi ih =>
    obtain ⟨c, hreach, hdone, hnot, hkeep, hstored⟩ := ih
    have ht : c.threads i = { prog := (calls i).prog } := hnot i hi
    have hheld : ∀ j, j ≠ i → (c.threads j).held = [] := by
      intro j _
      by_cases hj : j ∈ s
      · obtain ⟨r, hr⟩ := hdone j hj
        rw [hr]
      · rw [hnot j hj]
    have hprog : (c.threads i).prog = (calls i).prog := by rw [ht]
    have hobeys : Obeys (PaymentIds fun _ => True) Fresh (c.threads i).held (calls i).prog := by
      rw [ht]
      exact obeys_fresh (calls i)
    have halone := Config.reaches_alone (calls i).prog hprog hheld (fun _ _ => trivial) hobeys
    rw [Call.exec_prog] at halone
    refine ⟨_, hreach.trans halone, ?_, ?_, ?_, ?_⟩
    · intro k hk
      by_cases hki : k = i
      · subst hki
        exact ⟨_, Config.threads_set_self ..⟩
      · rw [Config.threads_set_of_ne hki]
        exact hdone k (Finset.mem_of_mem_insert_of_ne hk hki)
    · intro k hk
      rw [Finset.mem_insert, not_or] at hk
      rw [Config.threads_set_of_ne hk.1]
      exact hnot k hk.2
    · intro id hid
      exact Call.mem_payments_run.mpr (.inl (hkeep id hid))
    · intro k hk id hid
      rcases Finset.mem_insert.mp hk with rfl | hk
      · exact Call.mem_payments_run.mpr (.inr hid)
      · exact Call.mem_payments_run.mpr (.inl (hstored k hk id hid))

/-- A refund that finds its payment can lock the payments for reading while nobody holds them for
writing, and then asks for the refunds. -/
theorem reaches_found {c : Running ι} {i : ι} {now : DateTime} {refund : Refund}
    {payment : PaymentResult} (ht : c.threads i = { prog := createRefundBody now refund })
    (hfree : ∀ j, (.write, .payments) ∉ (c.threads j).held)
    (hp : c.store.payments[refund.paymentId]? = some payment) :
    c.Reaches (c.set i c.store
      { prog := storeRefundBody refund (refundOutcome now refund payment)
        held := [(.read, .payments)] }) := by
  have hprog : (c.threads i).prog = createRefundBody now refund := by rw [ht]
  refine Config.Reaches.head (Config.step?_acquire hprog hfree) ?_
  refine Config.Reaches.head (Config.step?_access (by rw [Config.threads_set_self])) ?_
  simp only [Config.set_set, Config.store_set, Config.threads_set_self, id, ht,
    lookupRefundBody_of_some hp]
  exact .refl

/-- A refund that finds its payment can store the refund and unlock the payments while nobody else
holds a lock, and then asks for the payments. -/
theorem reaches_stored {c : Running ι} {i : ι} {now : DateTime} {refund : Refund}
    {payment : PaymentResult} (ht : c.threads i = { prog := createRefundBody now refund })
    (hfree : ∀ j, (c.threads j).held = [])
    (hp : c.store.payments[refund.paymentId]? = some payment) :
    c.Reaches (c.set i { c.store with
        refunds := c.store.refunds.insert refund.id (refundOutcome now refund payment) }
      { prog := updateRefundedBody refund (refundOutcome now refund payment)
        held := [(.write, .refunds)] }) := by
  have hunlocked : ∀ j, (.write, .payments) ∉ (c.threads j).held := by
    intro j
    rw [hfree j]
    exact List.not_mem_nil
  refine (reaches_found ht hunlocked hp).trans ?_
  have hgrants : (c.set i c.store
      { prog := storeRefundBody refund (refundOutcome now refund payment)
        held := [(.read, .payments)] }).Grants .write .refunds := by
    intro j
    by_cases hj : j = i
    · subst hj
      simp
    · rw [Config.threads_set_of_ne hj, hfree j]
      simp
  -- lock the refunds, store the refund, unlock the payments
  refine Config.Reaches.head
    (Config.step?_acquire (by rw [Config.threads_set_self]; rfl) hgrants) ?_
  refine Config.Reaches.head (Config.step?_access (by rw [Config.threads_set_self])) ?_
  refine Config.Reaches.head (Config.step?_release (by rw [Config.threads_set_self])) ?_
  simp only [Config.set_set, Config.store_set, Config.threads_set_self]
  exact .refl

/-- Of two refunds of payments that may be found and any other calls, the others can all have
returned, with the payments of the two refunds stored, before the two start. -/
theorem reaches_two_left {g : MockPaymentGateway} {calls : ι → Call} {i j : ι}
    {now now' : DateTime} {refund refund' : Refund}
    (hcall : calls i = .op (.createRefund now refund))
    (hcall' : calls j = .op (.createRefund now' refund'))
    (hstored : Stored g calls refund.paymentId) (hstored' : Stored g calls refund'.paymentId) :
    ∃ c : Running ι, (launch g calls).Reaches c ∧
      (∀ k, k ≠ i → k ≠ j → ∃ r, c.threads k = { prog := .done r }) ∧
      c.threads i = { prog := createRefundBody now refund } ∧
      c.threads j = { prog := createRefundBody now' refund' } ∧
      (∃ p, c.store.payments[refund.paymentId]? = some p) ∧
      ∃ p, c.store.payments[refund'.paymentId]? = some p := by
  obtain ⟨c, hreach, hdone, hnot, hkeep, hnew⟩ := reaches_done g calls (Finset.univ \ {i, j})
  -- neither of the two stores a payment
  have hpayment : ∀ id, Stored g calls id → ∃ p, c.store.payments[id]? = some p := by
    intro id hid
    rw [← Option.isSome_iff_exists, Std.ExtTreeMap.isSome_getElem?_iff_mem]
    rcases hid with hid | ⟨k, hk⟩
    · exact hkeep id hid
    · have hki : k ≠ i := by
        rintro rfl
        simp [hcall, Call.storedId] at hk
      have hkj : k ≠ j := by
        rintro rfl
        simp [hcall', Call.storedId] at hk
      exact hnew k (by simp [hki, hkj]) id hk
  refine ⟨c, hreach, ?_, ?_, ?_, hpayment _ hstored, hpayment _ hstored'⟩
  · intro k hki hkj
    exact hdone k (by simp [hki, hkj])
  · rw [hnot i (by simp), hcall]
    rfl
  · rw [hnot j (by simp), hcall']
    rfl

/-- **Two refunds.** Calls of which two refund payments that may be found can deadlock: one of them
has stored its refund and waits for the payments, the other has found its payment and waits for the
refunds. -/
theorem reaches_deadlock {g : MockPaymentGateway} {calls : ι → Call} {i j : ι} (hij : i ≠ j)
    (hi : RefundsStored g calls i) (hj : RefundsStored g calls j) :
    ∃ c : Running ι, (launch g calls).Reaches c ∧ c.Deadlocked := by
  obtain ⟨now, refund, hcall, hstored⟩ := hi
  obtain ⟨now', refund', hcall', hstored'⟩ := hj
  -- everybody else has returned
  obtain ⟨c, hreach, hrest, hti, htj, ⟨p, hp⟩, p', hp'⟩ :=
    reaches_two_left hcall hcall' hstored hstored'
  have hheld : ∀ k, (c.threads k).held = [] := by
    intro k
    by_cases hki : k = i
    · rw [hki, hti]
    · by_cases hkj : k = j
      · rw [hkj, htj]
      · obtain ⟨r, hr⟩ := hrest k hki hkj
        rw [hr]
  -- the first refund gets to the payments' second lock
  have hfirst := reaches_stored hti hheld hp
  set c₁ := c.set i { c.store with
      refunds := c.store.refunds.insert refund.id (refundOutcome now refund p) }
    { prog := updateRefundedBody refund (refundOutcome now refund p)
      held := [(.write, .refunds)] } with hc₁
  have hi₁ : c₁.threads i = { prog := updateRefundedBody refund (refundOutcome now refund p),
                              held := [(.write, .refunds)] } := Config.threads_set_self ..
  have hne₁ : ∀ k, k ≠ i → c₁.threads k = c.threads k := by
    intro k hk
    exact Config.threads_set_of_ne hk ..
  -- and the second one to the refunds' lock
  have hj₁ : c₁.threads j = { prog := createRefundBody now' refund' } := by
    rw [hne₁ j hij.symm, htj]
  have hfree₁ : ∀ k, (.write, .payments) ∉ (c₁.threads k).held := by
    intro k
    by_cases hk : k = i
    · rw [hk, hi₁]
      simp
    · rw [hne₁ k hk, hheld k]
      exact List.not_mem_nil
  have hsecond := reaches_found hj₁ hfree₁ hp'
  refine ⟨_, (hreach.trans hfirst).trans hsecond, ⟨j, ?_⟩, fun k hk => ?_⟩
  · rw [Config.threads_set_self]
    rfl
  · rw [Config.step?_eq_none_iff]
    right
    by_cases hkj : k = j
    · subst hkj
      refine ⟨.write, .refunds, _, by rw [Config.threads_set_self]; rfl, ?_⟩
      refine Config.not_grants_iff.mpr ⟨i, .write, ?_, .inl rfl⟩
      rw [Config.threads_set_of_ne hij, hi₁]
      exact List.mem_singleton_self _
    · by_cases hki : k = i
      · subst hki
        refine ⟨.write, .payments, _, by rw [Config.threads_set_of_ne hkj, hi₁]; rfl, ?_⟩
        refine Config.not_grants_iff.mpr ⟨j, .read, ?_, .inl rfl⟩
        rw [Config.threads_set_self]
        exact List.mem_singleton_self _
      · -- the others have returned
        obtain ⟨r, hr⟩ := hrest k hki hkj
        rw [Config.threads_set_of_ne hkj, hne₁ k hki, hr] at hk
        cases hk

/-- **Freedom from deadlock.** Concurrent calls of the gateway cannot deadlock exactly when at most
one of them is a refund of a payment that is stored at the start or by one of the calls. -/
theorem deadlockFree_iff (g : MockPaymentGateway) (calls : ι → Call) :
    (∀ c : Running ι, (launch g calls).Reaches c → ¬ c.Deadlocked) ↔
      ∀ i j, RefundsStored g calls i → RefundsStored g calls j → i = j := by
  constructor
  · intro h i j hi hj
    by_contra hij
    obtain ⟨c, hreach, hdead⟩ := reaches_deadlock hij hi hj
    exact h c hreach hdead
  · intro hone c hreach
    exact not_deadlocked_of_one_refund hone hreach

/-- A gateway with one payment of 100 USD. -/
def onePayment : MockPaymentGateway :=
  new.addPayment (PaymentResult.success "pay_1" "mock_pi_1" (Money.usd 100) 0)

/-- Two refunds of that payment. -/
def twoRefunds : Bool → Call
  | false => .op (.createRefund 1 { id := "re_1", paymentId := "pay_1" })
  | true => .op (.createRefund 2 { id := "re_2", paymentId := "pay_1" })

/-- Two refunds of one stored payment can deadlock. -/
theorem two_refunds_deadlock :
    ¬ ∀ c : Running Bool, (launch onePayment twoRefunds).Reaches c → ¬ c.Deadlocked := by
  intro h
  have hfirst : RefundsStored onePayment twoRefunds false := ⟨_, _, rfl, .inl (by decide)⟩
  have hsecond : RefundsStored onePayment twoRefunds true := ⟨_, _, rfl, .inl (by decide)⟩
  obtain ⟨c, hreach, hdead⟩ := reaches_deadlock (by decide) hfirst hsecond
  exact h c hreach hdead

end SweGateway.MockPaymentGateway

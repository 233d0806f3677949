import SweGateway.Core.Payment.Equiv.Step

/-!
# Which payments a customer is listed

`list_payments` finds a customer's payments by an entry of their metadata.  `createPayment` writes
it, and the other operations leave it alone, so it is that of the payment's last creation
(`linked_afterCalls`).  But a payment that fails for the failure mode is stored without metadata,
whoever it was for.

So after any run, in which the failure mode may change from call to call, a customer is listed
exactly the payments that were last created for them if none of these failed at its creation
(`listsExactly_iff`).
-/

namespace SweGateway.MockPaymentGateway

/-- A call, with the failure mode it is made under. -/
abbrev ModedOp := Option MockFailureMode × PaymentOp

/-- The state after a call under its failure mode. -/
def stepUnder (g : MockPaymentGateway) (call : ModedOp) : MockPaymentGateway :=
  ({ g with failureMode := call.1 } : MockPaymentGateway).step call.2

/-- The state that the calls lead to from a new gateway. -/
def afterCalls (calls : List ModedOp) : MockPaymentGateway := Runs.exec stepUnder new calls

/-- The payment that the call creates under the id, with the failure mode. -/
def createdBy (id : String) : ModedOp → Option (Option MockFailureMode × Payment)
  | (mode, .createPayment _ _ payment) => if payment.id = id then some (mode, payment) else none
  | _ => none

/-- The payment that was created last under the id, with the failure mode at that time. -/
def lastCreate (id : String) (calls : List ModedOp) : Option (Option MockFailureMode × Payment) :=
  (calls.filterMap (createdBy id)).getLast?

/-- After the calls, the customer is listed exactly the stored payments that were last created for
them, each once, whatever order the payments are visited in. -/
def ListsExactly (calls : List ModedOp) (customerId : String) : Prop :=
  ∀ (it : IterOrder String PaymentResult) (limit : ℕ),
    (afterCalls calls).payments.size ≤ limit →
    ∃ listed, (afterCalls calls).listPayments it customerId limit 0 = .ok listed ∧ listed.Nodup ∧
      ∀ p, p ∈ listed ↔ ∃ id mode payment, (afterCalls calls).payments[id]? = some p ∧
        lastCreate id calls = some (mode, payment) ∧ payment.customerId = some customerId

/-! ### The customer of a stored payment -/

/-- The id of a stored payment, and the customer that its metadata name. -/
def linked (p : PaymentResult) : String × Option String := (p.paymentId, p.metadata["customer_id"]?)

/-- The customer that a created payment is stored with: its own if it does not fail. -/
def keptCustomer (created : Option MockFailureMode × Payment) : Option String :=
  if shouldFail created.1 created.2 = none then created.2.customerId else none

theorem linked_paymentOutcome (mode : Option MockFailureMode) (now : DateTime) (uuid : String)
    (payment : Payment) :
    linked (paymentOutcome mode now uuid payment) = (payment.id, keptCustomer (mode, payment)) := by
  have hempty : (∅ : HashMap String String)["customer_id"]? = none :=
    Std.ExtTreeMap.getElem?_empty
  unfold paymentOutcome keptCustomer linked
  cases hfail : shouldFail mode payment with
  | some message => exact congrArg (Prod.mk payment.id) hempty
  | none =>
    rw [if_pos rfl]
    cases hcustomer : payment.customerId with
    | none => exact congrArg (Prod.mk payment.id) hempty
    | some customerId =>
      exact congrArg (Prod.mk payment.id) Std.ExtTreeMap.getElem?_insert_self

/-- What an operation does to the payment it names leaves its customer alone, unless it creates
it. -/
theorem linked_effect {op : PaymentOp}
    (h : ∀ now uuid payment, op ≠ .createPayment now uuid payment)
    (mode : Option MockFailureMode) (p : Option PaymentResult) :
    (op.effect mode p).map linked = p.map linked := by
  cases op with
  | createPayment now uuid payment => exact absurd rfl (h now uuid payment)
  | capturePayment id amount => cases p <;> rfl
  | cancelPayment id => cases p <;> rfl
  | createRefund now refund => cases p <;> rfl

theorem lastCreate_concat (id : String) (calls : List ModedOp) (call : ModedOp) :
    lastCreate id (calls ++ [call]) = (createdBy id call).or (lastCreate id calls) := by
  unfold lastCreate
  rw [List.filterMap_append, List.getLast?_append]
  cases hcall : createdBy id call with
  | none => rw [List.filterMap_cons_none hcall]; rfl
  | some created => rw [List.filterMap_cons_some hcall]; rfl

/-- **The customer of a stored payment** is that of its last creation, if it did not fail then. -/
theorem linked_afterCalls (calls : List ModedOp) (id : String) :
    (afterCalls calls).payments[id]?.map linked =
      (lastCreate id calls).map fun created => (id, keptCustomer created) := by
  induction calls using List.reverseRecOn with
  | nil =>
    have hnew : new.payments[id]? = none := Std.ExtTreeMap.getElem?_empty
    exact congrArg (Option.map linked) hnew
  | append_singleton calls call ih =>
    obtain ⟨mode, op⟩ := call
    have hstep : (afterCalls (calls ++ [(mode, op)])).payments[id]? =
        if op.paymentId = id then op.effect mode (afterCalls calls).payments[id]?
        else (afterCalls calls).payments[id]? := by
      rw [afterCalls, Runs.exec_append]
      exact payments_step { afterCalls calls with failureMode := mode } op id
    rw [hstep, lastCreate_concat]
    by_cases hcreate : ∃ now uuid payment, op = .createPayment now uuid payment
    · obtain ⟨now, uuid, payment, rfl⟩ := hcreate
      show Option.map linked (if payment.id = id then _ else _) = _
      simp only [createdBy]
      by_cases hid : payment.id = id
      · rw [if_pos hid, if_pos hid, ← hid]
        exact congrArg some (linked_paymentOutcome mode now uuid payment)
      · rw [if_neg hid, if_neg hid]
        exact ih
    · push Not at hcreate
      have hcreated : createdBy id (mode, op) = none := by
        cases op with
        | createPayment now uuid payment => exact absurd rfl (hcreate now uuid payment)
        | _ => rfl
      rw [hcreated, Option.none_or, ← ih]
      split
      · exact linked_effect hcreate mode _
      · rfl

/-! ### The list -/

/-- What is listed under a limit that is not reached: the stored payments whose metadata name the
customer. -/
theorem listPayments_eq {g : MockPaymentGateway} {limit : ℕ} (hlimit : g.payments.size ≤ limit)
    (it : IterOrder String PaymentResult) (customerId : String) :
    g.listPayments it customerId limit 0 = .ok ((HashMap.values it g.payments).filter fun p =>
      p.metadata["customer_id"]? == some customerId) := by
  have hlen : (HashMap.values it g.payments).length = g.payments.size := by
    rw [HashMap.values, List.length_map, HashMap.iter, (it.perm _).length_eq,
      Std.ExtTreeMap.length_toList]
  unfold listPayments
  rw [List.drop_zero, List.take_of_length_le]
  exact (List.length_filter_le _ _).trans (hlen.trans_le hlimit)

/-- A stored payment carries the id it is stored under. -/
theorem paymentId_of_stored {calls : List ModedOp} {id : String} {p : PaymentResult}
    (h : (afterCalls calls).payments[id]? = some p) : p.paymentId = id := by
  have hlinked := linked_afterCalls calls id
  rw [h, Option.map_some, eq_comm, Option.map_eq_some_iff] at hlinked
  obtain ⟨created, -, heq⟩ := hlinked
  exact (congrArg Prod.fst heq).symm

theorem nodup_values_afterCalls (it : IterOrder String PaymentResult) (calls : List ModedOp) :
    (HashMap.values it (afterCalls calls).payments).Nodup := by
  refine List.Nodup.of_map PaymentResult.paymentId ?_
  rw [HashMap.values, List.map_map]
  have hkeys : (HashMap.iter it (afterCalls calls).payments).map
      (PaymentResult.paymentId ∘ Prod.snd) =
      (HashMap.iter it (afterCalls calls).payments).map Prod.fst :=
    List.map_congr_left fun e he => paymentId_of_stored (HashMap.mem_iter.mp he)
  rw [hkeys]
  exact HashMap.nodup_keys_iter it _

/-- A stored payment names the customer if it was last created for them and did not fail then. -/
theorem customer_of_stored {calls : List ModedOp} {id customerId : String} {p : PaymentResult}
    (h : (afterCalls calls).payments[id]? = some p) :
    p.metadata["customer_id"]? = some customerId ↔
      ∃ mode payment, lastCreate id calls = some (mode, payment) ∧
        shouldFail mode payment = none ∧ payment.customerId = some customerId := by
  have hlinked := linked_afterCalls calls id
  rw [h, Option.map_some, eq_comm, Option.map_eq_some_iff] at hlinked
  obtain ⟨⟨mode, payment⟩, hlast, heq⟩ := hlinked
  have hmeta : p.metadata["customer_id"]? = keptCustomer (mode, payment) :=
    (congrArg Prod.snd heq).symm
  rw [hmeta, keptCustomer]
  constructor
  · intro hkept
    split at hkept
    · next hok => exact ⟨mode, payment, hlast, hok, hkept⟩
    · cases hkept
  · rintro ⟨mode', payment', hlast', hok, hcustomer⟩
    rw [hlast] at hlast'
    cases hlast'
    rw [if_pos hok]
    exact hcustomer

/-- **What a customer is listed.**  After any run, these are exactly the payments that were last
created for them if and only if none of them failed when it was last created. -/
theorem listsExactly_iff (calls : List ModedOp) (customerId : String) :
    ListsExactly calls customerId ↔
      ∀ id mode payment, lastCreate id calls = some (mode, payment) →
        payment.customerId = some customerId → shouldFail mode payment = none := by
  have hmem : ∀ it p, p ∈ ((HashMap.values it (afterCalls calls).payments).filter fun p =>
      p.metadata["customer_id"]? == some customerId) ↔
      ∃ id mode payment, (afterCalls calls).payments[id]? = some p ∧
        lastCreate id calls = some (mode, payment) ∧ shouldFail mode payment = none ∧
        payment.customerId = some customerId := by
    intro it p
    rw [List.mem_filter, beq_iff_eq, HashMap.values, List.mem_map]
    constructor
    · rintro ⟨⟨⟨id, p⟩, he, rfl⟩, hcustomer⟩
      have hstored := HashMap.mem_iter.mp he
      obtain ⟨mode, payment, h⟩ := (customer_of_stored hstored).mp hcustomer
      exact ⟨id, mode, payment, hstored, h⟩
    · rintro ⟨id, mode, payment, hstored, h⟩
      exact ⟨⟨(id, p), HashMap.mem_iter.mpr hstored, rfl⟩,
        (customer_of_stored hstored).mpr ⟨mode, payment, h⟩⟩
  constructor
  · intro h id mode payment hlast hcustomer
    obtain ⟨listed, hlisted, -, hiff⟩ := h .sorted _ (Nat.le_refl _)
    rw [listPayments_eq (Nat.le_refl _)] at hlisted
    obtain rfl := Except.ok.inj hlisted
    -- the payment is stored, so it should be listed, and what is listed did not fail
    have hlinked := linked_afterCalls calls id
    rw [hlast, Option.map_some, Option.map_eq_some_iff] at hlinked
    obtain ⟨p, hstored, -⟩ := hlinked
    have hin := (hiff p).mpr ⟨id, mode, payment, hstored, hlast, hcustomer⟩
    obtain ⟨id', mode', payment', hstored', hlast', hok, -⟩ := (hmem .sorted p).mp hin
    obtain rfl : id = id' := (paymentId_of_stored hstored).symm.trans (paymentId_of_stored hstored')
    rw [hlast] at hlast'
    cases hlast'
    exact hok
  · intro h it limit hlimit
    refine ⟨_, listPayments_eq hlimit it customerId, ?_, fun p => ?_⟩
    · exact (nodup_values_afterCalls it calls).filter _
    rw [hmem]
    refine exists_congr fun id => exists_congr fun mode => exists_congr fun payment => ?_
    refine and_congr_right fun _ => and_congr_right fun hlast => ?_
    exact and_iff_right_of_imp (h id mode payment hlast)

/-- A customer is not listed a payment that failed for the failure mode. -/
theorem failed_payment_not_listed :
    ¬ ∀ (calls : List ModedOp) (customerId : String), ListsExactly calls customerId := by
  intro h
  let payment : Payment := { id := "pay_1", amount := Money.usd 100, customerId := some "cus_1" }
  let calls : List ModedOp :=
    [(some (.failAllPayments "Card declined"), .createPayment 0 "u1" payment)]
  obtain ⟨listed, hlisted, -, hiff⟩ := h calls "cus_1" .sorted 1 (by decide)
  have hnone : (afterCalls calls).listPayments .sorted "cus_1" 1 0 = .ok [] := by decide
  rw [hnone] at hlisted
  obtain rfl := Except.ok.inj hlisted
  have hstored : (afterCalls calls).payments["pay_1"]? =
      some (PaymentResult.failed "pay_1" "Card declined" 0) := by decide
  exact List.not_mem_nil ((hiff _).mpr ⟨"pay_1", _, payment, hstored, rfl, rfl⟩)

end SweGateway.MockPaymentGateway

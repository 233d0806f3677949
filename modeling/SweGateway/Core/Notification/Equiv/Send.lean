import SweGateway.Core.Notification.Console

/-!
# What a verbose console notifier records

A notification is recorded if the box that is printed for it can be laid out: `Printable` says when
the two texts that are cut to fit the box are cut between characters.
-/

namespace SweGateway

open Utf8

/-! ### Formatting -/

/-- The text fits into the 48 bytes of its line, or a character ends at byte 45. -/
def FitsOrCuts (s : List Char) : Prop := byteLength s ≤ 48 ∨ IsBoundary 45 s

theorem truncate_isSome_iff (s : List Char) : (truncate s 48).isSome ↔ FitsOrCuts s := by
  rw [truncate, FitsOrCuts]
  split
  · next hle => simp [hle]
  · next hgt =>
    rw [if_neg (by decide), Option.isSome_map, sliceTo_isSome_iff]
    simp [hgt]

namespace ConsoleNotifier

/-- The recipient and the subject can be put on their lines. -/
def Printable (n : Notification) : Prop :=
  FitsOrCuts n.recipient.toList ∧ ∀ subject, n.subject = some subject → FitsOrCuts subject.toList

/-- Laying out the lines of the body cannot fail. -/
theorem forIn_some_yield {A B : Type} (l : List A) (b : B) (f : A → B → B) :
    forIn l b (fun a b => some (ForInStep.yield (f a b))) =
      some (l.foldl (fun b a => f a b) b) :=
  List.forIn_pure_yield_eq_foldl f b

theorem formatNotification_isSome_iff (n : Notification) :
    (formatNotification n).isSome ↔ Printable n := by
  rw [Printable, ← truncate_isSome_iff, formatNotification]
  cases hr : truncate n.recipient.toList 48 with
  | none => simp
  | some recipient =>
    cases hs : n.subject with
    | none => simp [forIn_some_yield]
    | some subject =>
      simp only [Option.some.injEq, forall_eq', ← truncate_isSome_iff]
      cases ht : truncate subject.toList 48 with
      | none => simp
      | some text => simp [forIn_some_yield]

/-! ### Sending -/

/-- What `send` does to a verbose notifier. -/
def printedAndStored (text : List Char) (receipt : NotificationReceipt) (w : ConsoleWorld) :
    ConsoleWorld :=
  { notifier := { w.notifier with
      sent := w.notifier.sent.insert receipt.notificationId receipt }
    stdout := w.stdout ++ [text ++ ['\n']] }

theorem send_of_some {w : ConsoleWorld} (hw : w.notifier.verbose = true) {n : Notification}
    {text : List Char} (h : formatNotification n = some text) (uuid : String) (now : DateTime) :
    send uuid now n w =
      (.ok (deliveredReceipt uuid now n),
        printedAndStored text (deliveredReceipt uuid now n) w) := by
  rw [send, Eff.bind_of_ok (show isVerbose w = (.ok true, w) by rw [← hw]; rfl), h]
  rfl

/-- A notification that cannot be laid out ends the call before anything is stored. -/
theorem send_of_none {w : ConsoleWorld} (hw : w.notifier.verbose = true) {n : Notification}
    (h : formatNotification n = none) (uuid : String) (now : DateTime) :
    send uuid now n w = (.error .panicked, w) := by
  rw [send, Eff.bind_of_ok (show isVerbose w = (.ok true, w) by rw [← hw]; rfl), h]
  rfl

/-! ### Batches -/

/-- The body of the loop of `sendBatch`. -/
def batchStep (fresh : ℕ → String × DateTime) (e : Notification × ℕ)
    (receipts : List NotificationReceipt) :
    Eff ConsoleWorld ConsoleFailure (ForInStep (List NotificationReceipt)) := do
  let receipt ← send (fresh e.2).1 (fresh e.2).2 e.1
  return .yield (receipts ++ [receipt])

/-- The receipts of the notifications, if the first one takes `fresh k`. -/
def batchReceipts (fresh : ℕ → String × DateTime) (k : ℕ) (ns : List Notification) :
    List NotificationReceipt :=
  (ns.zipIdx k).map fun e => deliveredReceipt (fresh e.2).1 (fresh e.2).2 e.1

/-- Stores the receipts one after the other. -/
def storeAll (receipts : List NotificationReceipt) (m : HashMap String NotificationReceipt) :
    HashMap String NotificationReceipt :=
  receipts.foldl (fun m receipt => m.insert receipt.notificationId receipt) m

theorem sendBatch_eq (fresh : ℕ → String × DateTime) (ns : List Notification) :
    sendBatch fresh ns = forIn ns.zipIdx [] (batchStep fresh) := bind_pure _

theorem batchReceipts_cons (fresh : ℕ → String × DateTime) (k : ℕ) (n : Notification)
    (ns : List Notification) :
    batchReceipts fresh k (n :: ns) =
      deliveredReceipt (fresh k).1 (fresh k).2 n :: batchReceipts fresh (k + 1) ns := rfl

theorem map_notificationId_batchReceipts (fresh : ℕ → String × DateTime) (k : ℕ)
    (ns : List Notification) :
    (batchReceipts fresh k ns).map (·.notificationId) = ns.map (·.id) := by
  induction ns generalizing k with
  | nil => rfl
  | cons n ns ih => rw [batchReceipts_cons, List.map_cons, List.map_cons, ih, deliveredReceipt]

theorem status_of_mem_batchReceipts {fresh : ℕ → String × DateTime} {k : ℕ}
    {ns : List Notification} {receipt : NotificationReceipt}
    (h : receipt ∈ batchReceipts fresh k ns) : receipt.status = .delivered := by
  obtain ⟨e, -, rfl⟩ := List.mem_map.mp h
  rfl

/-- Under the id of a receipt that is stored there is one of the receipts that are stored. -/
theorem exists_getElem?_storeAll {receipts : List NotificationReceipt}
    (m : HashMap String NotificationReceipt) {id : String}
    (h : id ∈ receipts.map (·.notificationId)) :
    ∃ receipt ∈ receipts, (storeAll receipts m)[id]? = some receipt := by
  obtain ⟨receipt, hmem, rfl⟩ := List.mem_map.mp h
  rw [storeAll,
    HashMap.getElem?_foldl_insert (fun r : NotificationReceipt => r.notificationId) fun r => r]
  cases hfind : receipts.reverse.find? fun r => r.notificationId = receipt.notificationId with
  | none =>
    have := List.find?_eq_none.mp hfind receipt (List.mem_reverse.mpr hmem)
    simp at this
  | some r => exact ⟨r, List.mem_reverse.mp (List.mem_of_find?_eq_some hfind), rfl⟩

/-- A batch of notifications that can be laid out is sent to its end. -/
theorem forIn_batchStep_of_printable (fresh : ℕ → String × DateTime) {ns : List Notification}
    (h : ∀ n ∈ ns, Printable n) (k : ℕ) (receipts : List NotificationReceipt) {w : ConsoleWorld}
    (hw : w.notifier.verbose = true) :
    ∃ w', forIn (ns.zipIdx k) receipts (batchStep fresh) w =
        (.ok (receipts ++ batchReceipts fresh k ns), w') ∧
      w'.notifier.sent = storeAll (batchReceipts fresh k ns) w.notifier.sent := by
  induction ns generalizing k receipts w with
  | nil => exact ⟨w, by rw [batchReceipts, List.zipIdx_nil, List.map_nil, List.append_nil]; rfl, rfl⟩
  | cons n ns ih =>
    obtain ⟨text, htext⟩ := Option.isSome_iff_exists.mp
      ((formatNotification_isSome_iff n).mpr (h n List.mem_cons_self))
    have hsend := send_of_some hw htext (fresh k).1 (fresh k).2
    obtain ⟨w', hrest, hsent⟩ := ih (fun n hn => h n (List.mem_cons_of_mem _ hn)) (k + 1)
      (receipts ++ [deliveredReceipt (fresh k).1 (fresh k).2 n])
      (w := printedAndStored text (deliveredReceipt (fresh k).1 (fresh k).2 n) w) hw
    refine ⟨w', ?_, ?_⟩
    · rw [List.zipIdx_cons, List.forIn_cons, batchStep, bind_assoc, Eff.bind_of_ok hsend]
      rw [List.append_assoc] at hrest
      exact hrest
    · rw [hsent, batchReceipts_cons]
      rfl

/-- The first notification of a batch that cannot be laid out ends it. -/
theorem forIn_batchStep_of_not_printable (fresh : ℕ → String × DateTime) {ns : List Notification}
    {n : Notification} (hn : n ∈ ns) (h : ¬Printable n) (k : ℕ)
    (receipts : List NotificationReceipt) {w : ConsoleWorld} (hw : w.notifier.verbose = true) :
    ∃ w', forIn (ns.zipIdx k) receipts (batchStep fresh) w = (.error .panicked, w') := by
  induction ns generalizing k receipts w with
  | nil => cases hn
  | cons n' ns ih =>
    rw [List.zipIdx_cons, List.forIn_cons, batchStep, bind_assoc]
    cases htext : formatNotification n' with
    | none => exact ⟨w, Eff.bind_of_error (send_of_none hw htext _ _)⟩
    | some text =>
      rw [Eff.bind_of_ok (send_of_some hw htext _ _)]
      rcases List.mem_cons.mp hn with rfl | hn
      · rw [← formatNotification_isSome_iff, htext] at h
        exact absurd rfl h
      · exact ih hn (k + 1) _ hw

/-! ### Recording -/

/-- The notification can be formatted, and sending it leaves a receipt of its delivery. -/
def SendRecords (w : ConsoleWorld) (n : Notification) : Prop :=
  (formatNotification n).isSome ∧
    ∀ uuid now, ∃ receipt w', send uuid now n w = (.ok receipt, w') ∧
      receipt.notificationId = n.id ∧ receipt.status = .delivered ∧
        ∀ later, getStatus later n.id w' = (.ok receipt, w')

/-- Sending the batch leaves a receipt of the delivery of each of its notifications. -/
def BatchRecords (w : ConsoleWorld) (ns : List Notification) : Prop :=
  ∀ fresh, ∃ receipts w', sendBatch fresh ns w = (.ok receipts, w') ∧
    receipts.map (·.notificationId) = ns.map (·.id) ∧
    ∀ n ∈ ns, ∃ receipt ∈ receipts, receipt.status = .delivered ∧
      ∀ later, getStatus later n.id w' = (.ok receipt, w')

theorem getStatus_of_some {w : ConsoleWorld} {id : String} {receipt : NotificationReceipt}
    (h : w.notifier.sent[id]? = some receipt) (now : DateTime) :
    getStatus now id w = (.ok receipt, w) := by
  simp only [getStatus, Eff.call, h]

theorem sendRecords_iff {w : ConsoleWorld} (hw : w.notifier.verbose = true) (n : Notification) :
    SendRecords w n ↔ Printable n := by
  rw [← formatNotification_isSome_iff]
  refine ⟨And.left, fun h => ⟨h, fun uuid now => ?_⟩⟩
  obtain ⟨text, htext⟩ := Option.isSome_iff_exists.mp h
  refine ⟨_, _, send_of_some hw htext uuid now, rfl, rfl, ?_⟩
  exact getStatus_of_some Std.ExtTreeMap.getElem?_insert_self

theorem batchRecords_iff {w : ConsoleWorld} (hw : w.notifier.verbose = true)
    (ns : List Notification) : BatchRecords w ns ↔ ∀ n ∈ ns, Printable n := by
  constructor
  · intro h n hn
    by_contra hnot
    obtain ⟨receipts, w', hok, -⟩ := h fun _ => ("", 0)
    obtain ⟨w₁, herr⟩ := forIn_batchStep_of_not_printable (fun _ => ("", 0)) hn hnot 0 [] hw
    rw [sendBatch_eq, herr] at hok
    cases hok
  · intro h fresh
    obtain ⟨w', hok, hsent⟩ := forIn_batchStep_of_printable fresh h 0 [] hw
    have hids := map_notificationId_batchReceipts fresh 0 ns
    refine ⟨_, w', (congrFun (sendBatch_eq fresh ns) w).trans hok, hids, fun n hn => ?_⟩
    have hid : n.id ∈ (batchReceipts fresh 0 ns).map (·.notificationId) :=
      hids ▸ List.mem_map_of_mem hn
    obtain ⟨receipt, hmem, hget⟩ := exists_getElem?_storeAll w.notifier.sent hid
    rw [← hsent] at hget
    exact ⟨receipt, hmem, status_of_mem_batchReceipts hmem, getStatus_of_some hget⟩

/-- **A verbose notifier records** exactly the notifications, and the batches of them, whose
recipient and subject each fit into 48 bytes or have a character that ends at byte 45. -/
theorem records_iff {w : ConsoleWorld} (hw : w.notifier.verbose = true) :
    (∀ n, SendRecords w n ↔ Printable n) ∧ ∀ ns, BatchRecords w ns ↔ ∀ n ∈ ns, Printable n :=
  ⟨sendRecords_iff hw, batchRecords_iff hw⟩

/-- A recipient of 48 characters and 49 bytes, the 45th of them of two bytes. -/
def accentedRecipient : Notification :=
  .new "n1" .email (String.ofList (List.replicate 44 'a' ++ 'é' :: "@b.".toList)) "hello"

theorem truncate_accentedRecipient :
    truncate accentedRecipient.recipient.toList 48 = none := by
  rw [accentedRecipient, Notification.new, String.toList_ofList]
  decide

/-- A new notifier records a notification to an ASCII address. -/
theorem records_iff_new :
    SendRecords { notifier := new } (.new "n1" .email "user@example.com" "hello") ∧
      BatchRecords { notifier := new } [.new "n1" .email "user@example.com" "hello"] := by
  have hprint : Printable (.new "n1" .email "user@example.com" "hello") :=
    ⟨.inl (by decide), fun _ h => nomatch h⟩
  obtain ⟨hsend, hbatch⟩ := records_iff (w := { notifier := new }) rfl
  exact ⟨(hsend _).mpr hprint, (hbatch _).mpr fun n hn => List.mem_singleton.mp hn ▸ hprint⟩

/-- The slice at byte 45 of the recipient is inside of its `é`: the call panics. -/
theorem not_records_accentedRecipient :
    formatNotification accentedRecipient = none ∧
      ¬SendRecords { notifier := new } accentedRecipient ∧
      ¬BatchRecords { notifier := new } [accentedRecipient] := by
  have hnot : ¬Printable accentedRecipient := by
    intro h
    have := (truncate_isSome_iff _).mpr h.1
    rw [truncate_accentedRecipient] at this
    cases this
  refine ⟨?_, ?_, ?_⟩
  · rw [← Option.not_isSome_iff_eq_none, formatNotification_isSome_iff]
    exact hnot
  · rwa [sendRecords_iff rfl]
  · rw [batchRecords_iff rfl]
    exact fun h => hnot (h _ List.mem_cons_self)

end ConsoleNotifier

end SweGateway

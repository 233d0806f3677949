import SweGateway.Core.Notification.Equiv.Send

/-!
# The console notifier as a log of deliveries

What a console notifier is and has printed is given by a log: the notifications that it has
delivered, in order (`world`).  A notification is delivered if nothing has to be printed, or the box
can be laid out (`Deliverable`); a batch is delivered up to the first notification that is not.
Nothing else changes the log, and `cancel` never finds anything to cancel.

Every run of calls of a new notifier replies and leaves what the log says (`runAll_new`).
-/

namespace SweGateway.ConsoleNotifier

/-- A notification with the uuid and the clock reading of its delivery. -/
structure Delivery where
  uuid : String
  now : DateTime
  notification : Notification

/-- The receipt of a delivery. -/
def Delivery.receipt (d : Delivery) : NotificationReceipt :=
  deliveredReceipt d.uuid d.now d.notification

/-- The receipt of the last delivery under an id. -/
def lastReceipt (log : List Delivery) (id : String) : Option NotificationReceipt :=
  (log.reverse.find? fun d => d.notification.id = id).map Delivery.receipt

/-- The receipts that are stored after the deliveries. -/
def stored (log : List Delivery) : HashMap String NotificationReceipt :=
  storeAll (log.map Delivery.receipt) ∅

/-- The box that is printed for a notification. -/
def printedBox (n : Notification) : Option (List Char) :=
  (formatNotification n).map (· ++ ['\n'])

/-- The notifier after the deliveries, and what it has printed. -/
def world (verbose : Bool) (log : List Delivery) : ConsoleWorld where
  notifier := { sent := stored log, verbose := verbose }
  stdout := if verbose then log.filterMap fun d => printedBox d.notification else []

/-- Nothing has to be printed, or the box can be laid out. -/
def Deliverable (verbose : Bool) (n : Notification) : Prop :=
  verbose = true → (formatNotification n).isSome

instance (verbose : Bool) (n : Notification) : Decidable (Deliverable verbose n) :=
  inferInstanceAs (Decidable (verbose = true → (formatNotification n).isSome))

/-! ### The calls on a log -/

/-- The deliveries of a batch whose first notification takes `fresh k`, up to the first notification
that cannot be delivered. -/
def batchDeliveries (verbose : Bool) (fresh : ℕ → String × DateTime) (k : ℕ)
    (ns : List Notification) : List Delivery :=
  ((ns.zipIdx k).takeWhile fun e => Deliverable verbose e.1).map fun e =>
    { uuid := (fresh e.2).1, now := (fresh e.2).2, notification := e.1 }

namespace NotifierCall

/-- What a call adds to the log. -/
def deliveries (verbose : Bool) : NotifierCall → List Delivery
  | .send uuid now n =>
    if Deliverable verbose n then [{ uuid := uuid, now := now, notification := n }] else []
  | .sendBatch fresh ns => batchDeliveries verbose fresh 0 ns
  | .getStatus _ _ | .listSent _ _ _ | .cancel _ => []

/-- What a call replies. -/
def reply (verbose : Bool) (log : List Delivery) :
    NotifierCall → Except ConsoleFailure NotifierReply
  | .send uuid now n =>
    if Deliverable verbose n then .ok (.receipt (deliveredReceipt uuid now n))
    else .error .panicked
  | .sendBatch fresh ns =>
    if ∀ n ∈ ns, Deliverable verbose n then .ok (.receipts (batchReceipts fresh 0 ns))
    else .error .panicked
  | .getStatus now id => .ok <| .receipt <| (lastReceipt log id).getD
      { notificationId := id
        providerId := none
        status := .pending
        message := some "Notification not found"
        timestamp := now }
  | .listSent it limit offset =>
    .ok (.receipts (((HashMap.values it (stored log)).drop offset).take limit))
  | .cancel _ => .ok (.cancelled false)

end NotifierCall

/-- The replies of a run of calls, each to the deliveries before it. -/
def replies (verbose : Bool) :
    List Delivery → List NotifierCall → List (Except ConsoleFailure NotifierReply)
  | _, [] => []
  | log, call :: calls =>
    call.reply verbose log :: replies verbose (log ++ call.deliveries verbose) calls

/-! ### The store -/

theorem getElem?_stored (log : List Delivery) (id : String) :
    (stored log)[id]? = lastReceipt log id := by
  rw [stored, storeAll, List.foldl_map,
    HashMap.getElem?_foldl_insert (fun d : Delivery => d.receipt.notificationId) Delivery.receipt,
    Std.ExtTreeMap.getElem?_empty, Option.or_none]
  rfl

theorem stored_concat (log : List Delivery) (d : Delivery) :
    stored (log ++ [d]) = (stored log).insert d.notification.id d.receipt := by
  rw [stored, storeAll, List.map_append, List.foldl_append]
  rfl

theorem world_concat (verbose : Bool) (log : List Delivery) (d : Delivery) :
    world verbose (log ++ [d]) = {
      notifier := {
        sent := (stored log).insert d.notification.id d.receipt
        verbose := verbose }
      stdout := (world verbose log).stdout ++
        if verbose then (printedBox d.notification).toList else [] } := by
  rw [world, stored_concat]
  cases verbose with
  | false => rfl
  | true =>
    rw [if_pos rfl, if_pos rfl, List.filterMap_append]
    cases hbox : printedBox d.notification with
    | none => simp [world, hbox]
    | some text => simp [world, hbox]

/-- Every stored receipt is of a delivery under its own id. -/
theorem of_lastReceipt_eq_some {log : List Delivery} {id : String} {receipt : NotificationReceipt}
    (h : lastReceipt log id = some receipt) :
    receipt.notificationId = id ∧ receipt.status = .delivered := by
  obtain ⟨d, hd, rfl⟩ := Option.map_eq_some_iff.mp h
  exact ⟨of_decide_eq_true (List.find?_some hd :), rfl⟩

/-! ### One call -/

section Calls

variable {verbose : Bool} (log : List Delivery)

theorem send_world_of_deliverable {n : Notification} (h : Deliverable verbose n) (uuid : String)
    (now : DateTime) :
    send uuid now n (world verbose log) = (.ok (deliveredReceipt uuid now n),
      world verbose (log ++ [{ uuid := uuid, now := now, notification := n }])) := by
  rw [world_concat]
  cases verbose with
  | false => rfl
  | true =>
    obtain ⟨text, htext⟩ := Option.isSome_iff_exists.mp (h rfl)
    rw [send_of_some rfl htext, printedBox, htext]
    rfl

theorem send_world_of_not {n : Notification} (h : ¬ Deliverable verbose n) (uuid : String)
    (now : DateTime) : send uuid now n (world verbose log) = (.error .panicked, world verbose log) := by
  obtain ⟨rfl, hnone⟩ : verbose = true ∧ formatNotification n = none := by
    simpa [Deliverable] using h
  exact send_of_none rfl hnone uuid now

/-- A notification of a batch, and then the rest. -/
theorem batchDeliveries_cons_of_deliverable {n : Notification} (h : Deliverable verbose n)
    (fresh : ℕ → String × DateTime) (k : ℕ) (ns : List Notification) :
    batchDeliveries verbose fresh k (n :: ns) =
      { uuid := (fresh k).1, now := (fresh k).2, notification := n } ::
        batchDeliveries verbose fresh (k + 1) ns := by
  simp [batchDeliveries, h]

theorem batchDeliveries_cons_of_not {n : Notification} (h : ¬ Deliverable verbose n)
    (fresh : ℕ → String × DateTime) (k : ℕ) (ns : List Notification) :
    batchDeliveries verbose fresh k (n :: ns) = [] := by
  simp [batchDeliveries, h]

/-- **A batch** is sent up to the first notification that cannot be delivered. -/
theorem forIn_batchStep_world (fresh : ℕ → String × DateTime) (ns : List Notification) (k : ℕ)
    (receipts : List NotificationReceipt) :
    forIn (ns.zipIdx k) receipts (batchStep fresh) (world verbose log) =
      (if ∀ n ∈ ns, Deliverable verbose n then .ok (receipts ++ batchReceipts fresh k ns)
        else .error .panicked,
        world verbose (log ++ batchDeliveries verbose fresh k ns)) := by
  induction ns generalizing log k receipts with
  | nil => simp [batchDeliveries, batchReceipts]
  | cons n ns ih =>
    rw [List.zipIdx_cons, List.forIn_cons, batchStep, bind_assoc]
    by_cases hn : Deliverable verbose n
    · rw [Eff.bind_of_ok (send_world_of_deliverable log hn _ _), pure_bind]
      dsimp only
      rw [ih, batchDeliveries_cons_of_deliverable hn, batchReceipts_cons, List.append_assoc,
        List.append_assoc]
      simp [hn]
    · rw [Eff.bind_of_error (send_world_of_not log hn _ _), batchDeliveries_cons_of_not hn,
        List.append_nil, if_neg fun h => hn (h n List.mem_cons_self)]

/-- Nothing that is stored is pending. -/
theorem cancel_world (id : String) :
    cancel id (world verbose log) = (.ok false, world verbose log) := by
  have hget : (world verbose log).notifier.sent[id]? = lastReceipt log id := getElem?_stored log id
  simp only [cancel, Eff.call, hget]
  cases hlast : lastReceipt log id with
  | none => rfl
  | some receipt =>
    have hstatus : receipt.status ≠ .pending := by
      rw [(of_lastReceipt_eq_some hlast).2]
      decide
    simp only [if_neg hstatus]

theorem getStatus_world (now : DateTime) (id : String) :
    getStatus now id (world verbose log) = (.ok ((lastReceipt log id).getD
      { notificationId := id
        providerId := none
        status := .pending
        message := some "Notification not found"
        timestamp := now }), world verbose log) := by
  have hget : (world verbose log).notifier.sent[id]? = lastReceipt log id := getElem?_stored log id
  simp only [getStatus, Eff.call, hget]
  cases lastReceipt log id with
  | none => rfl
  | some receipt => rfl

/-- **One call** replies and leaves what the log says. -/
theorem run_world (call : NotifierCall) :
    call.run (world verbose log) =
      (call.reply verbose log, world verbose (log ++ call.deliveries verbose)) := by
  cases call with
  | getStatus now id =>
    rw [NotifierCall.run, Eff.bind_of_ok (getStatus_world log now id), NotifierCall.deliveries,
      List.append_nil]
    rfl
  | listSent it limit offset =>
    rw [NotifierCall.deliveries, List.append_nil]
    rfl
  | send uuid now n =>
    rw [NotifierCall.run, NotifierCall.reply, NotifierCall.deliveries]
    by_cases hn : Deliverable verbose n
    · rw [Eff.bind_of_ok (send_world_of_deliverable log hn uuid now), if_pos hn, if_pos hn]
      rfl
    · rw [Eff.bind_of_error (send_world_of_not log hn uuid now), if_neg hn, if_neg hn,
        List.append_nil]
  | sendBatch fresh ns =>
    have hbatch : forIn ns.zipIdx [] (batchStep fresh) (world verbose log) = _ :=
      forIn_batchStep_world log fresh ns 0 []
    rw [NotifierCall.run, NotifierCall.reply, NotifierCall.deliveries, sendBatch_eq]
    by_cases hns : ∀ n ∈ ns, Deliverable verbose n
    · rw [if_pos hns] at hbatch ⊢
      rw [Eff.bind_of_ok hbatch]
      rfl
    · rw [if_neg hns] at hbatch ⊢
      rw [Eff.bind_of_error hbatch]
  | cancel id =>
    rw [NotifierCall.run, Eff.bind_of_ok (cancel_world log id), NotifierCall.deliveries,
      List.append_nil]
    rfl

/-- A run of calls from a notifier with some deliveries. -/
theorem runAll_world (calls : List NotifierCall) :
    runAll calls (world verbose log) = (replies verbose log calls,
      world verbose (log ++ calls.flatMap (NotifierCall.deliveries verbose))) := by
  induction calls generalizing log with
  | nil => simp [runAll, replies]
  | cons call calls ih =>
    rw [runAll, run_world, replies]
    dsimp only
    rw [ih, List.flatMap_cons, List.append_assoc]

/-- **A run of calls** of a new notifier: every reply is the one to the deliveries before it, and the
notifier and what it has printed are those of all the deliveries. -/
theorem runAll_new (verbose : Bool) (calls : List NotifierCall) :
    runAll calls { notifier := { verbose := verbose } } = (replies verbose [] calls,
      world verbose (calls.flatMap (NotifierCall.deliveries verbose))) := by
  have hnew : world verbose [] = { notifier := { verbose := verbose } } := by
    cases verbose <;> rfl
  rw [← hnew, runAll_world, List.nil_append]

end Calls

end SweGateway.ConsoleNotifier

import SweGateway.Core.Database.Equiv.Writes
import SweGateway.Lib.Cells

/-!
# What a table and a record go through

A call sees and changes nothing but its own table, so calls on different tables can be mixed in any
way (`tables_independent`).

Within a table the writes also leave the records alone that they do not select: `DatabaseOp.effect`
is what a write makes of the record with an id, and it does not look at any other record.  A record
after a run is what the writes on its table make of it, one after another (`getById_after`).
-/

namespace SweGateway.MemoryDatabase

open Cells

/-! ### Tables -/

/-- The table that a write is about. -/
def DatabaseOp.table : DatabaseOp → String
  | .insert _ table _ => table
  | .update table _ _ => table
  | .delete table _ => table
  | .batchInsert table _ => table
  | .updateWhere table _ _ => table
  | .deleteWhere table _ => table

/-- The table that a call is about. -/
def DatabaseCall.table : DatabaseCall → String
  | .query _ table _ => table
  | .getById table _ => table
  | .exists table _ => table
  | .count table _ => table
  | .op o => o.table

/-- A table, if it exists. -/
def tableOf (db : MemoryDatabase) (table : String) : Option Table := db.tables[table]?

/-- Databases with the same tables are the same. -/
theorem ext_tableOf {db db' : MemoryDatabase} (h : ∀ table, db.tableOf table = db'.tableOf table) :
    db = db' :=
  congrArg MemoryDatabase.mk (Std.ExtTreeMap.ext_getElem? h)

theorem getD_tables_congr {db db' : MemoryDatabase} {table : String}
    (h : db.tableOf table = db'.tableOf table) :
    db.tables.getD table ∅ = db'.tables.getD table ∅ := by
  rw [Std.ExtTreeMap.getD_eq_getD_getElem?, Std.ExtTreeMap.getD_eq_getD_getElem?]
  exact congrArg (Option.getD · ∅) h

/-- The write is a function of a table, which it replaces or leaves. -/
def Within (table : String) (w : Write) : Prop :=
  ∃ write : Option Table → GatewayResult WriteResult × Option Table, ∀ db,
    (w db).1 = (write (db.tableOf table)).1 ∧
    (w db).2.tableOf table = (write (db.tableOf table)).2 ∧
    ∀ table', table ≠ table' → (w db).2.tableOf table' = db.tableOf table'

/-- A write that makes its table if there is none. -/
theorem within_of_eq {table : String} {w : Write} {write : Table → GatewayResult WriteResult × Table}
    (h : ∀ db, w db = ((write (db.tables.getD table ∅)).1,
      { tables := db.tables.insert table (write (db.tables.getD table ∅)).2 })) :
    Within table w := by
  refine ⟨fun t => ((write (t.getD ∅)).1, some (write (t.getD ∅)).2), fun db => ?_⟩
  rw [h, Std.ExtTreeMap.getD_eq_getD_getElem?]
  exact ⟨rfl, Std.ExtTreeMap.getElem?_insert_self,
    fun table' hne => HashMap.getElem?_insert_of_ne hne⟩

/-- A write that needs its table. -/
theorem within_onTable (table : String) (write : Table → GatewayResult WriteResult × Table) :
    Within table (onTable table write) := by
  refine ⟨fun t => t.elim (.error (.notFound ("Table '" ++ table ++ "' not found")), none)
    fun tableData => ((write tableData).1, some (write tableData).2), fun db => ?_⟩
  unfold tableOf
  cases htable : db.tables[table]? with
  | none =>
    simp only [onTable, htable]
    exact ⟨rfl, rfl, fun _ _ => trivial⟩
  | some tableData =>
    rw [onTable_of_some htable]
    exact ⟨rfl, Std.ExtTreeMap.getElem?_insert_self,
      fun table' hne => HashMap.getElem?_insert_of_ne hne⟩

/-- Every write is within its table. -/
theorem DatabaseOp.within_run (ops : TextOps) (op : DatabaseOp) :
    Within op.table (MemoryDatabase.run ops op) := by
  cases op with
  | insert uuid table record => exact within_of_eq (insert_eq uuid table record)
  | batchInsert table records => exact within_of_eq (batchInsert_eq table records)
  | update table id record => exact within_onTable table _
  | delete table id => exact within_onTable table _
  | updateWhere table params updates => exact within_onTable table _
  | deleteWhere table params => exact within_onTable table _

/-- **A call is about its table** and nothing else. -/
theorem local_run (ops : TextOps) :
    Local DatabaseCall.table tableOf (DatabaseCall.run ops) where
  frame call db table hne := by
    cases call with
    | op o =>
      obtain ⟨write, hwrite⟩ := o.within_run ops
      exact (hwrite db).2.2 table hne
    | query | getById | «exists» | count => rfl
  reply call db db' h := by
    cases call with
    | op o =>
      obtain ⟨write, hwrite⟩ := o.within_run ops
      have h : db.tableOf o.table = db'.tableOf o.table := h
      have hreply : (MemoryDatabase.run ops o db).1 = (MemoryDatabase.run ops o db').1 := by
        rw [(hwrite db).1, (hwrite db').1, h]
      exact congrArg DatabaseReply.write hreply
    | query it table params =>
      have h : db.tableOf table = db'.tableOf table := h
      refine congrArg (fun r => DatabaseReply.records (.ok r)) ?_
      rw [query_eq_getD, query_eq_getD, getD_tables_congr h]
    | getById table id =>
      have h : db.tableOf table = db'.tableOf table := h
      refine congrArg (fun r => DatabaseReply.record (.ok r)) ?_
      rw [getById_eq_getD, getById_eq_getD, getD_tables_congr h]
    | «exists» table id =>
      have h : db.tableOf table = db'.tableOf table := h
      refine congrArg (fun r => DatabaseReply.exists (.ok r)) ?_
      rw [exists_eq_getD, exists_eq_getD, getD_tables_congr h]
    | count table params =>
      have h : db.tableOf table = db'.tableOf table := h
      refine congrArg (fun r => DatabaseReply.count (.ok r)) ?_
      rw [count_eq_getD, count_eq_getD, getD_tables_congr h]
  cell call db db' h := by
    cases call with
    | op o =>
      obtain ⟨write, hwrite⟩ := o.within_run ops
      have h : db.tableOf o.table = db'.tableOf o.table := h
      exact ((hwrite db).2.1.trans (by rw [h])).trans (hwrite db').2.1.symm
    | query | getById | «exists» | count => exact h

/-- The database after a run of reads and writes. -/
def afterAll (ops : TextOps) (db : MemoryDatabase) (calls : List DatabaseCall) : MemoryDatabase :=
  Runs.exec (next (DatabaseCall.run ops)) db calls

/-- The replies in a run to the calls on a table. -/
def repliesOn (ops : TextOps) (table : String) (db : MemoryDatabase) (calls : List DatabaseCall) :
    List (DatabaseCall × DatabaseReply) :=
  (replies (DatabaseCall.run ops) db calls).filter fun e => e.1.table = table

/-- **Tables are independent.**  If two runs have the same calls on every table, each table's in the
same order but mixed in any way, they lead to the same database and every call has the same reply in
both. -/
theorem tables_independent (ops : TextOps) (db : MemoryDatabase) {calls calls' : List DatabaseCall}
    (h : ∀ table, calls.filter (fun call => call.table = table) =
      calls'.filter fun call => call.table = table) :
    afterAll ops db calls = afterAll ops db calls' ∧
      ∀ table, repliesOn ops table db calls = repliesOn ops table db calls' :=
  ⟨ext_tableOf fun table => ((local_run ops).rearrange h db table).1,
    fun table => ((local_run ops).rearrange h db table).2⟩

/-- An order that is read in between two changes of a user, or after both. -/
theorem tables_independent_users :
    let ops : TextOps :=
      { toLowercase := fun text => String.ofList (text.toList.map Char.toLower)
        formatF64 := fun _ => "" }
    let insertUser : DatabaseCall := .op (.insert "u1" "users" ∅)
    let deleteUser : DatabaseCall := .op (.delete "users" "u1")
    let readOrder : DatabaseCall := .getById "orders" "o1"
    repliesOn ops "users" new [insertUser, readOrder, deleteUser] =
      repliesOn ops "users" new [insertUser, deleteUser, readOrder] := by
  intro ops insertUser deleteUser readOrder
  refine (tables_independent ops new fun table => ?_).2 "users"
  by_cases htable : "users" = table
  · subst htable
    rfl
  · have hinsert : insertUser.table = "users" := rfl
    have hdelete : deleteUser.table = "users" := rfl
    simp [List.filter_cons, hinsert, hdelete, htable]

/-! ### Records -/

/-- What a write on its table makes of the record with the id. -/
def DatabaseOp.effect (ops : TextOps) (id : String) : DatabaseOp → Option Record → Option Record
  | .insert uuid _ record, r =>
    r.or (if entryId (uuid, record) = id then some (withId record id) else none)
  | .batchInsert _ records, r =>
    r.or ((records.find? fun e => entryId e = id).map fun e => withId e.2 id)
  | .update _ id' record, r => if id' = id then r.map fun existing => merge existing record else r
  | .delete _ id', r => if id' = id then none else r
  | .updateWhere _ params updates, r =>
    r.map fun existing =>
      if matchesFilters ops existing params.filters then merge existing updates else existing
  | .deleteWhere _ params, r => r.filter fun existing => !matchesFilters ops existing params.filters

/-- The record with an id after a write on a table that need not exist. -/
theorem getById_onTable {table : String} {write : Table → GatewayResult WriteResult × Table}
    {id : String} {f : Option Record → Option Record} (hnone : f none = none)
    (hwrite : ∀ tableData, (write tableData).2[id]? = f tableData[id]?) (db : MemoryDatabase) :
    (onTable table write db).2.getById table id = f (db.getById table id) := by
  cases htable : db.tables[table]? with
  | none =>
    have hid : db.getById table id = none := by rw [getById, htable, Option.bind_none]
    simp only [onTable, htable]
    rw [hid, hnone]
  | some tableData =>
    rw [onTable_of_some htable, getById_eq_getD, HashMap.getD_insert_ite, if_pos rfl, hwrite,
      getById, htable, Option.bind_some]

/-- **A write makes of every record of its table what its effect is.** -/
theorem DatabaseOp.getById_effect (ops : TextOps) (op : DatabaseOp) (db : MemoryDatabase)
    (id : String) :
    (run ops op db).2.getById op.table id = op.effect ops id (db.getById op.table id) := by
  cases op with
  | insert uuid table record =>
    have hinsert : (insert uuid table record).insertsInto = some table := rfl
    refine (DatabaseOp.getById_run hinsert ops db table id).trans ?_
    rw [if_pos rfl]
    show Option.or _ (([(uuid, record)].find? fun e => entryId e = id).map _) = _
    rw [DatabaseOp.effect, List.find?_singleton]
    by_cases hid : entryId (uuid, record) = id
    · rw [if_pos hid, if_pos (decide_eq_true hid), Option.map_some]
      rfl
    · rw [if_neg hid, if_neg (by simpa using hid), Option.map_none]
      rfl
  | batchInsert table records =>
    have hinsert : (batchInsert table records).insertsInto = some table := rfl
    refine (DatabaseOp.getById_run hinsert ops db table id).trans ?_
    rw [if_pos rfl]
    rfl
  | update table id' record =>
    refine getById_onTable (f := DatabaseOp.effect ops id (.update table id' record)) ?_ ?_ db
    · rw [DatabaseOp.effect, Option.map_none, ite_self]
    · intro tableData
      rw [DatabaseOp.effect]
      by_cases hid : id' = id
      · subst hid
        rw [if_pos rfl]
        cases hrecord : tableData[id']? with
        | none =>
          dsimp only
          exact hrecord
        | some existing => exact Std.ExtTreeMap.getElem?_insert_self
      · rw [if_neg hid]
        cases tableData[id']? with
        | none => rfl
        | some existing => exact HashMap.getElem?_insert_of_ne hid
  | delete table id' =>
    refine getById_onTable (f := DatabaseOp.effect ops id (.delete table id')) ?_ ?_ db
    · rw [DatabaseOp.effect, ite_self]
    · intro tableData
      rw [DatabaseOp.effect]
      by_cases hid : id' = id
      · rw [if_pos hid, hid]
        exact Std.ExtTreeMap.getElem?_erase_self
      · rw [if_neg hid]
        exact HashMap.getElem?_erase_of_ne hid
  | updateWhere table params updates =>
    refine getById_onTable (f := DatabaseOp.effect ops id (.updateWhere table params updates)) rfl
      ?_ db
    intro tableData
    exact Std.ExtTreeMap.getElem?_map
  | deleteWhere table params =>
    refine getById_onTable (f := DatabaseOp.effect ops id (.deleteWhere table params)) rfl ?_ db
    intro tableData
    have hleft := HashMap.foldl_erase_selected tableData fun r => matchesFilters ops r params.filters
    show (List.foldl _ tableData _)[id]? = _
    rw [hleft, Std.ExtTreeMap.getElem?_filter']
    rfl

/-- **The history of a record.**  After any run, the record of a table with an id is what the writes
on this table, and no other, make of the one before, in their order.  What each of them does depends
on nothing but the record. -/
theorem getById_after (ops : TextOps) (db : MemoryDatabase) (writes : List DatabaseOp)
    (table id : String) :
    (Runs.exec (step ops) db writes).getById table id =
      (writes.filter fun op => op.table = table).foldl (fun r op => op.effect ops id r)
        (db.getById table id) := by
  let effect : DatabaseOp → Option Record → Option Record := fun op r =>
    if op.table = table then op.effect ops id r else r
  have hstep : ∀ (db : MemoryDatabase) (op : DatabaseOp),
      (step ops db op).getById table id = effect op (db.getById table id) := by
    intro db op
    by_cases htable : op.table = table
    · subst htable
      rw [step, DatabaseOp.getById_effect]
      exact (if_pos rfl).symm
    · obtain ⟨write, hwrite⟩ := op.within_run ops
      have hframe : (step ops db op).tables[table]? = db.tables[table]? :=
        (hwrite db).2.2 table htable
      rw [getById, hframe]
      exact (if_neg htable).symm
  have hothers : ∀ op : DatabaseOp, decide (op.table = table) = false → ∀ r, effect op r = r := by
    intro op htable r
    exact if_neg (of_decide_eq_false htable)
  let cell : MemoryDatabase → Option Record := fun db => db.getById table id
  have hrun : cell (Runs.exec (step ops) db writes) =
      writes.foldl (fun r op => effect op r) (cell db) := cell_exec hstep db writes
  refine hrun.trans ?_
  rw [← foldl_filter_of_id hothers]
  exact List.foldl_ext _ _ _ fun r op hop => if_pos (of_decide_eq_true (List.mem_filter.mp hop).2)

end SweGateway.MemoryDatabase

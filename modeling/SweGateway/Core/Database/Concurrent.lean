import SweGateway.Core.Database.Memory
import SweGateway.Lib.RwLock

/-!
# The in-memory database as concurrent operations (`core/database/memory.rs`)

The tables of a `MemoryDatabase` are behind one `RwLock`.  `DatabaseCall` lists the operations, and
`DatabaseCall.prog` is the body of each.  All of them have a single critical section but the two
inserts, which lock the tables a first time to create the table if it is missing (`ensure_table`),
and a second time to write to it; there they `unwrap` the table they look up, and panic if it is
gone.

Run alone, each body does what the sequential operation does (`DatabaseCall.exec_prog`).
-/

namespace SweGateway

open Concurrent

/-- The lock of the database, named after the field it guards. -/
inductive DatabaseLock where
  | tables
  deriving DecidableEq, Repr

namespace MemoryDatabase

/-- What an operation of the database returns, unless it panics. -/
inductive DatabaseReply where
  | write (result : GatewayResult WriteResult)
  | records (result : GatewayResult (List Record))
  | record (result : GatewayResult (Option Record))
  | «exists» (result : GatewayResult Bool)
  | count (result : GatewayResult ℕ)
  | panicked

/-- The body of an operation of the database. -/
abbrev Body := Prog DatabaseLock MemoryDatabase DatabaseReply

/-- The operations still running on a database, the database, and the locks they hold. -/
abbrev Running (ι : Type) := Config ι DatabaseLock MemoryDatabase DatabaseReply

/-! ### The bodies of the inserts -/

/-- What `insert` and `batch_insert` do with the tables they have locked again:
`tables.get_mut(&table).unwrap()`, and then `write` to the table. -/
def unwrapTable (table : String) (write : Table → GatewayResult WriteResult × Table)
    (db : MemoryDatabase) : DatabaseReply × MemoryDatabase :=
  match db.tables[table]? with
  | none => (.panicked, db)
  | some tableData =>
    let (result, tableData) := write tableData
    (.write result, { tables := db.tables.insert table tableData })

/-- `ensure_table`, and then a second critical section that writes to the table. -/
def ensuredBody (table : String) (write : Table → GatewayResult WriteResult × Table) : Body :=
  .acquire .write .tables <|
  .access (fun db => db.ensureTable table) fun _ =>
  .release .write .tables <|
  .writeSection .tables (unwrapTable table write)

/-- What `batch_insert` does with the table. -/
def batchInsertInto (records : List (String × Record)) (tableData : Table) :
    GatewayResult WriteResult × Table :=
  let (tableData, count) := records.foldl batchStep (tableData, 0)
  (.ok (.new count), tableData)

namespace DatabaseOp

/-- The body of a write operation. -/
def prog (ops : TextOps) : DatabaseOp → Body
  | .insert uuid table record => ensuredBody table (insertInto uuid table record)
  | .batchInsert table records => ensuredBody table (batchInsertInto records)
  | .update table id record => .writeSection .tables fun db =>
    (MemoryDatabase.update table id record db).map .write fun db => db
  | .delete table id => .writeSection .tables fun db =>
    (MemoryDatabase.delete table id db).map .write fun db => db
  | .updateWhere table params updates => .writeSection .tables fun db =>
    (MemoryDatabase.updateWhere ops table params updates db).map .write fun db => db
  | .deleteWhere table params => .writeSection .tables fun db =>
    (MemoryDatabase.deleteWhere ops table params db).map .write fun db => db

/-- The table that an insert writes to, which it creates if it is missing. -/
def insertsInto : DatabaseOp → Option String
  | .insert _ table _ => some table
  | .batchInsert table _ => some table
  | .update _ _ _ | .delete _ _ | .updateWhere _ _ _ | .deleteWhere _ _ => none

/-- The table that must exist for a write other than an insert. -/
def rewrites : DatabaseOp → Option String
  | .update table _ _ => some table
  | .delete table _ => some table
  | .updateWhere table _ _ => some table
  | .deleteWhere table _ => some table
  | .insert _ _ _ | .batchInsert _ _ => none

end DatabaseOp

/-! ### All operations -/

/-- One call of an operation of the database. -/
inductive DatabaseCall where
  | query (it : IterOrder String Record) (table : String) (params : QueryParams)
  | getById (table id : String)
  | «exists» (table id : String)
  | count (table : String) (params : QueryParams)
  | op (op : DatabaseOp)

namespace DatabaseCall

/-- The call as a whole: its reply and the database it leaves. -/
def run (ops : TextOps) (call : DatabaseCall) (db : MemoryDatabase) :
    DatabaseReply × MemoryDatabase :=
  match call with
  | .query it table params => (.records (.ok (db.query ops it table params)), db)
  | .getById table id => (.record (.ok (db.getById table id)), db)
  | .exists table id => (.exists (.ok (db.exists table id)), db)
  | .count table params => (.count (.ok (db.count ops table params)), db)
  | .op o => (MemoryDatabase.run ops o db).map .write fun db => db

/-- The body of the call. -/
def prog (ops : TextOps) : DatabaseCall → Body
  | .query it table params =>
    .readSection .tables fun db => .records (.ok (db.query ops it table params))
  | .getById table id => .readSection .tables fun db => .record (.ok (db.getById table id))
  | .exists table id => .readSection .tables fun db => .exists (.ok (db.exists table id))
  | .count table params =>
    .readSection .tables fun db => .count (.ok (db.count ops table params))
  | .op o => o.prog ops

/-- The table that the call inserts into. -/
def insertsInto : DatabaseCall → Option String
  | .op o => o.insertsInto
  | _ => none

/-- The table that must exist for the call. -/
def rewrites : DatabaseCall → Option String
  | .op o => o.rewrites
  | _ => none

end DatabaseCall

/-! ### The bodies run alone -/

theorem unwrapTable_of_some {db : MemoryDatabase} {table : String} {tableData : Table}
    (h : db.tables[table]? = some tableData)
    (write : Table → GatewayResult WriteResult × Table) :
    unwrapTable table write db = (.write (write tableData).1,
      { tables := db.tables.insert table (write tableData).2 }) := by
  simp only [unwrapTable, h]

/-- A table that is ensured has the records it had, if any. -/
theorem getElem?_ensureTable_self (db : MemoryDatabase) (table : String) :
    (db.ensureTable table).tables[table]? = some (db.tables.getD table ∅) := by
  rw [ensureTable, Std.ExtTreeMap.getElem?_insertIfNew, Std.ExtTreeMap.getD_eq_getD_getElem?]
  cases htable : db.tables[table]? with
  | none => simp [Std.ExtTreeMap.mem_iff_isSome_getElem?, htable]
  | some tableData => simp [Std.ExtTreeMap.mem_iff_isSome_getElem?, htable]

theorem getElem?_ensureTable_of_ne {db : MemoryDatabase} {table table' : String}
    (h : table ≠ table') : (db.ensureTable table).tables[table']? = db.tables[table']? := by
  rw [ensureTable, Std.ExtTreeMap.getElem?_insertIfNew, if_neg]
  simp [h]

/-- Replacing a table that has just been ensured is replacing the table. -/
theorem insert_ensureTable (db : MemoryDatabase) (table : String) (tableData : Table) :
    (db.ensureTable table).tables.insert table tableData = db.tables.insert table tableData := by
  refine Std.ExtTreeMap.ext_getElem? fun table' => ?_
  rw [HashMap.getElem?_insert_ite, HashMap.getElem?_insert_ite]
  split
  · rfl
  · next h => exact getElem?_ensureTable_of_ne h

/-- The two critical sections of an insert, one right after the other. -/
theorem exec_ensuredBody (table : String) (write : Table → GatewayResult WriteResult × Table)
    (db : MemoryDatabase) :
    (ensuredBody table write).exec db = (.write (write (db.tables.getD table ∅)).1,
      { tables := db.tables.insert table (write (db.tables.getD table ∅)).2 }) := by
  show unwrapTable table write (db.ensureTable table) = _
  rw [unwrapTable_of_some (getElem?_ensureTable_self db table), insert_ensureTable]

/-- The inserts, by the table they find. -/
theorem insert_eq (uuid table : String) (record : Record) (db : MemoryDatabase) :
    insert uuid table record db = ((insertInto uuid table record (db.tables.getD table ∅)).1,
      { tables := db.tables.insert table
          (insertInto uuid table record (db.tables.getD table ∅)).2 }) := by
  have hself : (db.ensureTable table).tables.getD table ∅ = db.tables.getD table ∅ := by
    rw [Std.ExtTreeMap.getD_eq_getD_getElem?, getElem?_ensureTable_self, Option.getD_some]
  simp only [insert, hself, insert_ensureTable]

theorem batchInsert_eq (table : String) (records : List (String × Record)) (db : MemoryDatabase) :
    batchInsert table records db = ((batchInsertInto records (db.tables.getD table ∅)).1,
      { tables :=
          db.tables.insert table (batchInsertInto records (db.tables.getD table ∅)).2 }) := by
  have hself : (db.ensureTable table).tables.getD table ∅ = db.tables.getD table ∅ := by
    rw [Std.ExtTreeMap.getD_eq_getD_getElem?, getElem?_ensureTable_self, Option.getD_some]
  simp only [batchInsert, batchInsertInto, hself, insert_ensureTable]

/-- **Run alone**, the body of a call has the result and the effect of the sequential operation. -/
theorem DatabaseCall.exec_prog (ops : TextOps) (call : DatabaseCall) (db : MemoryDatabase) :
    (call.prog ops).exec db = call.run ops db := by
  cases call with
  | op o =>
    cases o with
    | insert uuid table record =>
      show (ensuredBody table (insertInto uuid table record)).exec db =
        (MemoryDatabase.insert uuid table record db).map .write fun db => db
      rw [exec_ensuredBody, insert_eq]
      rfl
    | batchInsert table records =>
      show (ensuredBody table (batchInsertInto records)).exec db =
        (MemoryDatabase.batchInsert table records db).map .write fun db => db
      rw [exec_ensuredBody, batchInsert_eq]
      rfl
    | _ => rfl
  | _ => rfl

/-- The calls before their first steps, on the database `db`. -/
def launch {ι : Type} (ops : TextOps) (db : MemoryDatabase) (calls : ι → DatabaseCall) :
    Running ι :=
  Config.start db fun i => (calls i).prog ops

end MemoryDatabase

end SweGateway

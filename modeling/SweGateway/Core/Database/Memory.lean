import Mathlib.Data.List.Infix
import SweGateway.Api.Database
import SweGateway.Api.Types
import SweGateway.Lib.Eff

/-!
# The in-memory database (`core/database/memory.rs`)

`MemoryDatabase` keeps its tables in a hash map by name, and a table's records in a hash map by id.
A write takes the database it finds to a result and the database it leaves.

`insert` and `batchInsert` need a fresh id for a record without one, which the caller of the model
supplies along with the record.  Where the order in which a hash map is iterated over shows in a
result, it is the parameter `it`.  `TextOps` has the library functions on texts and doubles that the
source uses and that are not spelled out here.
-/

namespace SweGateway

/-- The library functions that the database uses on texts and doubles. -/
structure TextOps where
  /-- `str::to_lowercase`. -/
  toLowercase : String → String
  /-- `f64::to_string`, as JSON has it. -/
  formatF64 : F64 → String

/-- The records of a table, by id. -/
abbrev Table := HashMap String Record

/-- In-memory database: its tables, by name. -/
structure MemoryDatabase where
  tables : HashMap String Table

namespace MemoryDatabase

/-- Creates a new empty in-memory database. -/
def new : MemoryDatabase := { tables := ∅ }

/-- Creates a database with predefined tables. -/
def withTables (tables : List String) : MemoryDatabase :=
  { tables := tables.foldl (fun map table => map.insert table ∅) ∅ }

/-- Gets or creates a table. -/
def ensureTable (db : MemoryDatabase) (table : String) : MemoryDatabase :=
  { tables := db.tables.insertIfNew table ∅ }

/-- Extracts the id from a record. -/
def extractId (record : Record) : Option String :=
  (record["id"]?.bind Value.asStr).or (record["_id"]?.bind Value.asStr)

/-! ### Comparisons -/

/-- The value of a field, if it is there and not null. -/
def present (v : Option Value) : Option Value := v.filter fun v => !v.isNull

/-- Compares two JSON values numerically if both are numbers, and as texts otherwise.  Null values
come last. -/
def compareValues (ops : TextOps) (a b : Option Value) : Ordering :=
  match present a, present b with
  | none, none => .eq
  | none, some _ => .gt
  | some _, none => .lt
  | some av, some bv =>
    match av.asF64, bv.asF64 with
    | some an, some bn => compare an bn
    | _, _ =>
      let aStr := av.asStr.getD (av.toJson ops.formatF64)
      let bStr := bv.asStr.getD (bv.toJson ops.formatF64)
      compare aStr bStr

/-- The operators of filter keys. -/
inductive FilterOperator where
  | eq
  | gt
  | lt
  | gte
  | lte
  | like
  | «in»
  deriving DecidableEq, Repr

/-- The suffixes of filter keys, in the order in which they are tried. -/
def filterSuffixes : List (String × FilterOperator) :=
  [("__gte", .gte), ("__lte", .lte), ("__gt", .gt), ("__lt", .lt), ("__like", .like),
    ("__in", .in)]

/-- Parses a filter key into a field name and an operator. -/
def parseFilterKey (key : String) : String × FilterOperator :=
  (filterSuffixes.findSome? fun (suffix, operator) =>
    (suffix.toList.isSuffixOf? key.toList).map fun field => (String.ofList field, operator)).getD
    (key, .eq)

/-- A field compares with a value as `accepts` wants it, and is not null. -/
def comparesWith (ops : TextOps) (accepts : Ordering → Bool) (fieldValue : Option Value)
    (filterValue : Value) : Bool :=
  (present fieldValue).any fun fv => accepts (compareValues ops (some fv) (some filterValue))

/-- Checks if a single field matches a filter condition. -/
def matchesFilterCondition (ops : TextOps) (fieldValue : Option Value) (operator : FilterOperator)
    (filterValue : Value) : Bool :=
  match operator with
  | .eq => fieldValue.any (· == filterValue)
  | .gt => comparesWith ops (· == .gt) fieldValue filterValue
  | .lt => comparesWith ops (· == .lt) fieldValue filterValue
  | .gte => comparesWith ops (· != .lt) fieldValue filterValue
  | .lte => comparesWith ops (· != .gt) fieldValue filterValue
  | .like =>
    match fieldValue.bind Value.asStr, filterValue.asStr with
    | some fieldStr, some pattern =>
      decide ((ops.toLowercase pattern).toList <:+: (ops.toLowercase fieldStr).toList)
    | _, _ => false
  | .in =>
    match fieldValue, filterValue.asArray with
    | none, _ => false
    | some fv, some elems => elems.any (· == fv)
    | some fv, none => fv == filterValue

/-- Checks if a record matches the query filters. -/
def matchesFilters (ops : TextOps) (record : Record) (filters : HashMap String Value) : Bool :=
  filters.toList.all fun (key, value) =>
    let (field, operator) := parseFilterKey key
    matchesFilterCondition ops record[field]? operator value

/-! ### Pagination and selection -/

/-- The order of two records by a field.  Null and missing values come last in both directions. -/
def compareRecords (ops : TextOps) (orderBy : String) (orderDesc : Bool) (a b : Record) :
    Ordering :=
  match present a[orderBy]?, present b[orderBy]? with
  | none, none => .eq
  | none, some _ => .gt
  | some _, none => .lt
  | some _, some _ =>
    let cmp := compareValues ops a[orderBy]? b[orderBy]?
    if orderDesc then cmp.swap else cmp

/-- Applies ordering and pagination to results. -/
def applyPagination (ops : TextOps) (records : List Record) (params : QueryParams) :
    List Record :=
  let records := match params.orderBy with
    | some orderBy =>
      records.mergeSort fun a b => compareRecords ops orderBy params.orderDesc a b != .gt
    | none => records
  let records := match params.offset with
    | some offset => if offset < records.length then records.drop offset else []
    | none => records
  match params.limit with
  | some limit => records.take limit
  | none => records

/-- Applies field selection to a record. -/
def selectFields (record : Record) (select : List String) : Record :=
  if select.isEmpty then record
  else
    select.foldl (fun result field =>
      match record[field]? with
      | some value => result.insert field value
      | none => result) ∅

/-! ### `DatabaseInbound` -/

/-- The stored record, if the table and the record exist. -/
def getById (db : MemoryDatabase) (table id : String) : Option Record :=
  db.tables[table]?.bind fun tableData => tableData[id]?

def query (ops : TextOps) (it : IterOrder String Record) (db : MemoryDatabase) (table : String)
    (params : QueryParams) : List Record :=
  match db.tables[table]? with
  | some tableData =>
    let filtered := (HashMap.values it tableData).filter fun r =>
      matchesFilters ops r params.filters
    (applyPagination ops filtered params).map fun r => selectFields r params.select
  | none => []

def «exists» (db : MemoryDatabase) (table id : String) : Bool :=
  db.tables[table]?.any fun tableData => tableData.contains id

def count (ops : TextOps) (db : MemoryDatabase) (table : String) (params : QueryParams) : ℕ :=
  match db.tables[table]? with
  | some tableData =>
    (tableData.toList.filter fun (_, r) => matchesFilters ops r params.filters).length
  | none => 0

/-! ### `DatabaseOutbound` -/

/-- A database write. -/
abbrev Write := Eff MemoryDatabase GatewayError WriteResult

/-- The record with its id. -/
def withId (record : Record) (id : String) : Record := record.insert "id" (.string id)

/-- What `insert` does once the table exists. -/
def insertInto (uuid table : String) (record : Record) (tableData : Table) :
    Except GatewayError WriteResult × Table :=
  let id := (extractId record).getD uuid
  if tableData.contains id then
    (.error (.conflict ("Record with id '" ++ id ++ "' already exists in table '" ++ table ++ "'")),
      tableData)
  else (.ok (.inserted id), tableData.insert id (withId record id))

def insert (uuid table : String) (record : Record) : Write := fun db =>
  let db := db.ensureTable table
  let (result, tableData) := insertInto uuid table record (db.tables.getD table ∅)
  (result, { tables := db.tables.insert table tableData })

/-- Runs a write on a table that must exist. -/
def onTable (table : String) (write : Table → Except GatewayError WriteResult × Table) : Write :=
  fun db =>
    match db.tables[table]? with
    | none => (.error (.notFound ("Table '" ++ table ++ "' not found")), db)
    | some tableData =>
      let (result, tableData) := write tableData
      (result, { tables := db.tables.insert table tableData })

/-- Merges updates into an existing record. -/
def merge (existing updates : Record) : Record := existing.insertMany updates.toList

def update (table id : String) (record : Record) : Write :=
  onTable table fun tableData =>
    match tableData[id]? with
    | none =>
      (.error (.notFound ("Record '" ++ id ++ "' not found in table '" ++ table ++ "'")), tableData)
    | some existing => (.ok (.new 1), tableData.insert id (merge existing record))

def delete (table id : String) : Write :=
  onTable table fun tableData =>
    (.ok (.new (if tableData.contains id then 1 else 0)), tableData.erase id)

/-- One record of a batch, with the id it gets if it has none: the table and how many were inserted
so far. -/
def batchStep (s : Table × ℕ) (entry : String × Record) : Table × ℕ :=
  let id := (extractId entry.2).getD entry.1
  if s.1.contains id then s else (s.1.insert id (withId entry.2 id), s.2 + 1)

def batchInsert (table : String) (records : List (String × Record)) : Write := fun db =>
  let db := db.ensureTable table
  let (tableData, count) := records.foldl batchStep (db.tables.getD table ∅, 0)
  (.ok (.new count), { tables := db.tables.insert table tableData })

def updateWhere (ops : TextOps) (table : String) (params : QueryParams) (updates : Record) :
    Write :=
  onTable table fun tableData =>
    let isMatch := fun record => matchesFilters ops record params.filters
    (.ok (.new (tableData.toList.filter fun (_, record) => isMatch record).length),
      tableData.map fun _ record => if isMatch record then merge record updates else record)

def deleteWhere (ops : TextOps) (table : String) (params : QueryParams) : Write :=
  onTable table fun tableData =>
    let idsToDelete :=
      (tableData.toList.filter fun (_, record) => matchesFilters ops record params.filters).map
        Prod.fst
    (.ok (.new idsToDelete.length), idsToDelete.foldl (fun t id => t.erase id) tableData)

/-! ### Runs -/

/-- A call of a write operation. -/
inductive DatabaseOp where
  | insert (uuid table : String) (record : Record)
  | update (table id : String) (record : Record)
  | delete (table id : String)
  | batchInsert (table : String) (records : List (String × Record))
  | updateWhere (table : String) (params : QueryParams) (updates : Record)
  | deleteWhere (table : String) (params : QueryParams)

/-- Runs a call. -/
def run (ops : TextOps) : DatabaseOp → Write
  | .insert uuid table record => insert uuid table record
  | .update table id record => update table id record
  | .delete table id => delete table id
  | .batchInsert table records => batchInsert table records
  | .updateWhere table params updates => updateWhere ops table params updates
  | .deleteWhere table params => deleteWhere ops table params

/-- The database that a call leaves. -/
def step (ops : TextOps) (db : MemoryDatabase) (op : DatabaseOp) : MemoryDatabase :=
  (run ops op db).2

end MemoryDatabase

end SweGateway

import SweGateway.Core.Database.Equiv.Reads
import SweGateway.Lib.Runs

/-!
# Keys and ids of stored records

Both inserts store a record under the id they give it, so that a record can be found by its key and
by its `id` field alike.  `update` and `update_where` merge whatever they are given into a record,
an `id` included, and leave the key as it is.  `KeyId` says that every stored record has its key for
its `id`, and `Agree` that looking a key up and querying for the `id` find the same;
`KeyId.agree` derives the second from the first.

`always_keyId_iff` is exact: the two hold throughout a run if and only if no update in it gives a
record an `id` other than its key.
-/

namespace SweGateway.MemoryDatabase

variable {ops : TextOps}

/-! ### The invariant -/

/-- Every record of the table has its key for its `id`. -/
def TableKeyId (tableData : Table) : Prop :=
  ∀ (k : String) (r : Record), tableData[k]? = some r → r["id"]? = some (Value.string k)

/-- Every stored record has its key for its `id`. -/
def KeyId (db : MemoryDatabase) : Prop :=
  ∀ (table : String) (tableData : Table), db.tables[table]? = some tableData →
    TableKeyId tableData

/-- Looking up a key finds a record exactly if querying for the `id` finds this record alone. -/
def Agree (ops : TextOps) (db : MemoryDatabase) : Prop :=
  ∀ (it : IterOrder String Record) (table k : String) (r : Record),
    db.getById table k = some r ↔
      query ops it db table (QueryParams.new.filter "id" (.string k)) = [r]

theorem tableKeyId_empty : TableKeyId ∅ := by
  intro k r h
  simp at h

theorem KeyId.insert {db : MemoryDatabase} (h : KeyId db) (table : String) {tableData : Table}
    (htable : TableKeyId tableData) : KeyId { tables := db.tables.insert table tableData } := by
  intro table' tableData' htable'
  rw [HashMap.getElem?_insert_ite] at htable'
  split at htable'
  · obtain rfl := Option.some.inj htable'
    exact htable
  · exact h table' tableData' htable'

/-- Setting a table keeps the invariant exactly if the table has it. -/
theorem KeyId.insert_iff {db : MemoryDatabase} (h : KeyId db) (table : String)
    {tableData : Table} :
    KeyId { tables := db.tables.insert table tableData } ↔ TableKeyId tableData := by
  constructor
  · intro h'
    exact h' table tableData Std.ExtTreeMap.getElem?_insert_self
  · exact h.insert table

/-- A table that is missing has no records. -/
theorem KeyId.getD {db : MemoryDatabase} (h : KeyId db) (table : String) :
    TableKeyId (db.tables.getD table ∅) := by
  rw [Std.ExtTreeMap.getD_eq_getD_getElem?]
  cases htable : db.tables[table]? with
  | none => exact tableKeyId_empty
  | some tableData => exact h table tableData htable

/-- A record that a lookup finds has the key for its `id`. -/
theorem KeyId.id_of_getById {db : MemoryDatabase} (h : KeyId db) {table k : String} {r : Record}
    (hr : db.getById table k = some r) : r["id"]? = some (Value.string k) := by
  obtain ⟨tableData, htable, hr⟩ := Option.bind_eq_some_iff.mp hr
  exact h table tableData htable k r hr

/-! ### Lookups and queries -/

/-- What a lookup of a key finds is a record of the table. -/
theorem forall_getById_iff {db : MemoryDatabase} {table k : String} {P : Record → Prop} :
    (∀ r, db.getById table k = some r → P r) ↔
      ∀ tableData, db.tables[table]? = some tableData →
        ∀ r, tableData[k]? = some r → P r := by
  unfold getById
  cases db.tables[table]? with
  | none => simp
  | some tableData => simp

/-- A query for an `id` selects the records with this `id`. -/
theorem matchesFilters_id {record : Record} {k : String} :
    matchesFilters ops record (QueryParams.new.filter "id" (.string k)).filters = true ↔
      record["id"]? = some (Value.string k) := by
  have hkey : parseFilterKey "id" = ("id", .eq) := by decide
  have hnew : QueryParams.new.filters["id"]? = none := by simp [QueryParams.new]
  rw [QueryParams.filter, matchesFilters_insert hnew, hkey, QueryParams.new, matchesFilters_empty,
    Bool.and_true, matchesFilterCondition]
  cases record["id"]? with
  | none => simp
  | some v => simp

/-- Without ordering, pagination or selection, a query returns the records that match. -/
theorem query_filter (it : IterOrder String Record) (db : MemoryDatabase) (table key : String)
    (value : Value) :
    query ops it db table (QueryParams.new.filter key value) =
      (HashMap.values it (db.tables.getD table ∅)).filter fun r =>
        matchesFilters ops r (QueryParams.new.filter key value).filters := by
  rw [query_eq_getD]
  exact List.map_id' _

/-- Under the invariant a query for an `id` finds what the lookup of the key finds. -/
theorem KeyId.query_id {db : MemoryDatabase} (h : KeyId db) (it : IterOrder String Record)
    (table k : String) :
    query ops it db table (QueryParams.new.filter "id" (.string k)) =
      (db.getById table k).toList := by
  rw [query_filter, getById_eq_getD, HashMap.values, List.filter_map]
  -- the records with this id are those with this key
  have hkey : ∀ e ∈ HashMap.iter it (db.tables.getD table ∅),
      ((fun r => matchesFilters ops r (QueryParams.new.filter "id" (.string k)).filters) ∘
        Prod.snd) e = decide (e.1 = k) := by
    rintro ⟨k', r⟩ he
    have hid := h.getD table k' r (HashMap.mem_iter.mp he)
    rw [Bool.eq_iff_iff, Function.comp_apply, matchesFilters_id, hid, decide_eq_true_eq,
      Option.some.injEq, Value.string.injEq]
  rw [List.filter_congr hkey, HashMap.filter_key_iter, List.map_map]
  exact List.map_id' _

/-- **Keys and ids.**  If every record has its key for its `id`, lookups and queries agree. -/
theorem KeyId.agree {db : MemoryDatabase} (h : KeyId db) : Agree ops db := by
  intro it table k r
  rw [h.query_id]
  cases db.getById table k with
  | none => simp
  | some r' => simp

/-! ### The operations -/

theorem keyId_new : KeyId new := by
  intro table tableData h
  simp [new] at h

theorem keyId_withTables (tables : List String) : KeyId (withTables tables) := by
  have hfold : ∀ map : HashMap String Table, KeyId { tables := map } →
      KeyId { tables := tables.foldl (fun map table => map.insert table ∅) map } := by
    induction tables with
    | nil =>
      intro map h
      exact h
    | cons table tables ih =>
      intro map h
      have hinsert : KeyId { tables := map.insert table ∅ } := h.insert table tableKeyId_empty
      exact ih _ hinsert
  exact hfold ∅ keyId_new

theorem KeyId.ensureTable {db : MemoryDatabase} (h : KeyId db) (table : String) :
    KeyId (db.ensureTable table) := by
  intro table' tableData htable
  rw [MemoryDatabase.ensureTable, Std.ExtTreeMap.getElem?_insertIfNew] at htable
  split at htable
  · obtain rfl := Option.some.inj htable
    exact tableKeyId_empty
  · exact h table' tableData htable

theorem getElem?_withId (record : Record) (id : String) :
    (withId record id)["id"]? = some (Value.string id) := by
  simp [withId]

/-- Storing a record under the id it has keeps the invariant of the table, and no other record
does. -/
theorem TableKeyId.insert_iff {tableData : Table} (h : TableKeyId tableData) (id : String)
    (record : Record) :
    TableKeyId (tableData.insert id record) ↔ record["id"]? = some (Value.string id) := by
  constructor
  · intro h'
    exact h' id record Std.ExtTreeMap.getElem?_insert_self
  · intro hid k r hr
    rw [HashMap.getElem?_insert_ite] at hr
    split at hr
    · next heq =>
      obtain rfl := Option.some.inj hr
      rw [← heq]
      exact hid
    · exact h k r hr

theorem TableKeyId.erase {tableData : Table} (h : TableKeyId tableData) (id : String) :
    TableKeyId (tableData.erase id) := by
  intro k r hr
  rw [Std.ExtTreeMap.getElem?_erase] at hr
  split at hr
  · cases hr
  · exact h k r hr

theorem TableKeyId.insertInto {tableData : Table} (h : TableKeyId tableData)
    (uuid table : String) (record : Record) :
    TableKeyId (insertInto uuid table record tableData).2 := by
  unfold MemoryDatabase.insertInto
  dsimp only
  split
  · exact h
  · exact (h.insert_iff _ _).mpr (getElem?_withId record _)

theorem TableKeyId.batch {s : Table × ℕ} (h : TableKeyId s.1)
    (records : List (String × Record)) : TableKeyId (records.foldl batchStep s).1 := by
  induction records generalizing s with
  | nil => exact h
  | cons entry records ih =>
    rw [List.foldl_cons]
    refine ih ?_
    unfold batchStep
    dsimp only
    split
    · exact h
    · exact (h.insert_iff _ _).mpr (getElem?_withId _ _)

/-- The updates do not give the record stored under the key another `id`. -/
def KeepsId (updates : Record) (k : String) : Prop :=
  ∀ v, updates["id"]? = some v → v = Value.string k

/-- Merging updates into a record leaves it its key for its `id` exactly if they keep the `id`. -/
theorem merge_id_iff {existing updates : Record} {k : String}
    (h : existing["id"]? = some (Value.string k)) :
    (merge existing updates)["id"]? = some (Value.string k) ↔ KeepsId updates k := by
  rw [merge, HashMap.getElem?_insertMany_toList, KeepsId]
  cases updates["id"]? with
  | none => simp [h]
  | some v => simp

theorem TableKeyId.foldl_erase {tableData : Table} (h : TableKeyId tableData) (ids : List String) :
    TableKeyId (ids.foldl (fun t id => t.erase id) tableData) := by
  induction ids generalizing tableData with
  | nil => exact h
  | cons id ids ih => exact ih (h.erase id)

/-- Merging updates into the records that `p` selects keeps the invariant of the table exactly if
they keep the `id` of each. -/
theorem TableKeyId.mergeWhere_iff {tableData : Table} (h : TableKeyId tableData)
    (p : Record → Bool) (updates : Record) :
    TableKeyId (tableData.map fun _ r => if p r then merge r updates else r) ↔
      ∀ k r, tableData[k]? = some r → p r = true → KeepsId updates k := by
  unfold TableKeyId
  simp only [Std.ExtTreeMap.getElem?_map, Option.map_eq_some_iff]
  constructor
  · intro hmap k r hr hmatch
    have hid := hmap k _ ⟨r, hr, rfl⟩
    rw [if_pos hmatch] at hid
    exact (merge_id_iff (h k r hr)).mp hid
  · rintro hkeeps k _ ⟨r, hr, rfl⟩
    split
    · next hmatch => exact (merge_id_iff (h k r hr)).mpr (hkeeps k r hr hmatch)
    · exact h k r hr

/-- The updates of a call keep the `id` of every record that they are merged into. -/
def RespectsKeyId (ops : TextOps) (db : MemoryDatabase) : DatabaseOp → Prop
  | .update table id record => ∀ r, db.getById table id = some r → KeepsId record id
  | .updateWhere table params updates => ∀ k r, db.getById table k = some r →
    matchesFilters ops r params.filters = true → KeepsId updates k
  | .insert _ _ _ | .batchInsert _ _ | .delete _ _ | .deleteWhere _ _ => True

/-- A write on a table keeps the invariant exactly if what it leaves of the table has it. -/
theorem keyId_onTable_iff {db : MemoryDatabase} (h : KeyId db) {table : String}
    {write : Table → Except GatewayError WriteResult × Table} :
    KeyId (onTable table write db).2 ↔
      ∀ tableData, db.tables[table]? = some tableData → TableKeyId (write tableData).2 := by
  unfold onTable
  cases htable : db.tables[table]? with
  | none => exact iff_of_true h (by simp)
  | some tableData =>
    simp only [Option.some.injEq, forall_eq']
    exact h.insert_iff table

/-- **One call** keeps the invariant exactly if it respects the ids. -/
theorem keyId_step_iff {db : MemoryDatabase} (h : KeyId db) (op : DatabaseOp) :
    KeyId (step ops db op) ↔ RespectsKeyId ops db op := by
  cases op with
  | insert uuid table record =>
    have hensure := h.ensureTable table
    have hinto := (hensure.getD table).insertInto uuid table record
    exact iff_of_true (hensure.insert table hinto) trivial
  | batchInsert table records =>
    have hensure := h.ensureTable table
    have hbatch : TableKeyId (records.foldl batchStep ((db.ensureTable table).tables.getD table ∅,
        0)).1 := TableKeyId.batch (hensure.getD table) records
    exact iff_of_true (hensure.insert table hbatch) trivial
  | delete table id =>
    refine iff_of_true ((keyId_onTable_iff h).mpr fun tableData htable => ?_) trivial
    exact TableKeyId.erase (h table tableData htable) id
  | deleteWhere table params =>
    refine iff_of_true ((keyId_onTable_iff h).mpr fun tableData htable => ?_) trivial
    exact (h table tableData htable).foldl_erase _
  | update table id record =>
    refine (keyId_onTable_iff h).trans ?_
    show _ ↔ ∀ r, db.getById table id = some r → KeepsId record id
    rw [forall_getById_iff]
    refine forall₂_congr fun tableData htable => ?_
    have htk := h table tableData htable
    cases hrecord : tableData[id]? with
    | none => exact iff_of_true htk (by simp)
    | some existing =>
      simp only [Option.some.injEq, forall_eq']
      exact (htk.insert_iff id _).trans (merge_id_iff (htk id existing hrecord))
  | updateWhere table params updates =>
    refine (keyId_onTable_iff h).trans ?_
    show _ ↔ ∀ k r, db.getById table k = some r →
      matchesFilters ops r params.filters = true → KeepsId updates k
    simp only [forall_getById_iff]
    constructor
    · intro hwrite k tableData htable
      exact ((h table tableData htable).mergeWhere_iff _ updates).mp (hwrite tableData htable) k
    · intro hkeeps tableData htable
      refine ((h table tableData htable).mergeWhere_iff _ updates).mpr fun k => ?_
      exact hkeeps k tableData htable

/-! ### Runs -/

/-- The database after a run. -/
def after (ops : TextOps) (db : MemoryDatabase) (calls : List DatabaseOp) : MemoryDatabase :=
  Runs.exec (step ops) db calls

/-- The invariant, and with it the agreement, holds throughout a run from a database that has it
exactly if every call of the run respects the ids. -/
theorem always_keyId_iff {db : MemoryDatabase} (h : KeyId db) (calls : List DatabaseOp) :
    Runs.Always (fun pre => KeyId (after ops db pre) ∧ Agree ops (after ops db pre)) calls ↔
      Runs.EachStep (fun pre op => RespectsKeyId ops (after ops db pre) op) calls := by
  refine Runs.always_iff_eachStep ⟨h, h.agree⟩ (fun pre op hpre => ?_) calls
  rw [← keyId_step_iff hpre.1, after, Runs.exec_append]
  constructor
  · rintro ⟨hkey, -⟩
    exact hkey
  · intro hkey
    exact ⟨hkey, hkey.agree⟩

/-- **Keys and ids.**  In a run from a new database, with or without predefined tables, every record
always has its key for its `id`, and looking up a key always agrees with querying for the `id`,
exactly if no `update` or `update_where` of the run gives a record it is applied to an `id` other
than its key. -/
theorem keyId_iff (ops : TextOps) (tables : List String) (calls : List DatabaseOp) :
    (Runs.Always (fun pre => KeyId (after ops new pre) ∧ Agree ops (after ops new pre)) calls ↔
      Runs.EachStep (fun pre op => RespectsKeyId ops (after ops new pre) op) calls) ∧
    (Runs.Always (fun pre => KeyId (after ops (withTables tables) pre) ∧
        Agree ops (after ops (withTables tables) pre)) calls ↔
      Runs.EachStep (fun pre op => RespectsKeyId ops (after ops (withTables tables) pre) op)
        calls) :=
  ⟨always_keyId_iff keyId_new calls, always_keyId_iff (keyId_withTables tables) calls⟩

/-- An update with another `id` leaves a record under a key that is not its `id`. -/
theorem update_changes_id :
    ¬ ∀ (ops : TextOps) (calls : List DatabaseOp),
      Runs.Always (fun pre => KeyId (after ops new pre) ∧ Agree ops (after ops new pre)) calls := by
  intro h
  let ops : TextOps := { toLowercase := id, formatF64 := fun _ => "" }
  let record : Record := (∅ : Record).insert "id" (.string "a")
  let updates : Record := (∅ : Record).insert "id" (.string "b")
  obtain ⟨hkey, -⟩ := h ops [.insert "uuid" "users" record, .update "users" "a" updates] _
    List.prefix_rfl
  have hb : ((after ops new [.insert "uuid" "users" record, .update "users" "a" updates]).getById
      "users" "a").bind (fun r => r["id"]?.bind Value.asStr) = some "b" := by
    decide
  obtain ⟨r, hr, hid⟩ := Option.bind_eq_some_iff.mp hb
  rw [hkey.id_of_getById hr] at hid
  exact absurd (Option.some.inj hid) (by decide)

end SweGateway.MemoryDatabase

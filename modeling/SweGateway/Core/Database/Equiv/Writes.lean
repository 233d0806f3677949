import SweGateway.Core.Database.Equiv.Inserts
import SweGateway.Core.Database.Equiv.Selection

/-!
# What a write leaves behind

A write that fails leaves the database as it was, with the tables it had (`unchanged_of_error`): an
`insert` can only fail in a table that is there already, so that `ensure_table` has changed nothing.

`batch_insert` is as good as inserting the records one after another and ignoring the conflicts
(`batchInsert_eq_insertEach`).

An `insert` that succeeds stores the record with its `id`.  A caller's `id` of another type than
string is lost, since the source does not find an id in it and writes a fresh one in its place;
`insert_losesNothing_iff` says that nothing else is.
-/

namespace SweGateway.MemoryDatabase

/-! ### Failures -/

/-- Replacing a table by itself. -/
theorem insert_self {db : MemoryDatabase} {table : String} {tableData : Table}
    (htable : db.tables[table]? = some tableData) :
    ({ tables := db.tables.insert table tableData } : MemoryDatabase) = db := by
  refine congrArg MemoryDatabase.mk (Std.ExtTreeMap.ext_getElem? fun table' => ?_)
  rw [HashMap.getElem?_insert_ite]
  split
  · next heq =>
    subst heq
    exact htable.symm
  · rfl

/-- A write on a table that leaves the table as it is when it fails leaves the database as it is. -/
theorem onTable_of_error {table : String} {write : Table → GatewayResult WriteResult × Table}
    (hwrite : ∀ tableData e, (write tableData).1 = .error e → (write tableData).2 = tableData)
    {db : MemoryDatabase} {e : GatewayError} (h : (onTable table write db).1 = .error e) :
    (onTable table write db).2 = db := by
  cases htable : db.tables[table]? with
  | none => simp only [onTable, htable]
  | some tableData =>
    rw [onTable_of_some htable] at h ⊢
    show ({ tables := db.tables.insert table (write tableData).2 } : MemoryDatabase) = db
    rw [hwrite tableData e h]
    exact insert_self htable

/-- What an `insert` does to the table it finds. -/
theorem insertInto_cases (uuid table : String) (record : Record) (tableData : Table) :
    (∃ r, tableData[entryId (uuid, record)]? = some r ∧ insertInto uuid table record tableData =
      (.error (idConflict table (entryId (uuid, record))), tableData)) ∨
    tableData[entryId (uuid, record)]? = none ∧ insertInto uuid table record tableData =
      (.ok (.inserted (entryId (uuid, record))), tableData.insert (entryId (uuid, record))
        (withId record (entryId (uuid, record)))) := by
  have hinsert : insertInto uuid table record tableData =
      if tableData.contains (entryId (uuid, record)) then
        (.error (idConflict table (entryId (uuid, record))), tableData)
      else (.ok (.inserted (entryId (uuid, record))), tableData.insert (entryId (uuid, record))
        (withId record (entryId (uuid, record)))) := rfl
  rw [hinsert, Std.ExtTreeMap.contains_eq_isSome_getElem?]
  cases hid : tableData[entryId (uuid, record)]? with
  | none => exact .inr ⟨rfl, rfl⟩
  | some r => exact .inl ⟨r, rfl, rfl⟩

/-- An `insert` fails only on an id that its table has. -/
theorem insert_of_error {uuid table : String} {record : Record} {db : MemoryDatabase}
    {e : GatewayError} (h : (insert uuid table record db).1 = .error e) :
    e = idConflict table (entryId (uuid, record)) ∧ (insert uuid table record db).2 = db := by
  rw [insert_eq] at h ⊢
  rcases insertInto_cases uuid table record (db.tables.getD table ∅) with
    ⟨r, hr, hinsert⟩ | ⟨-, hinsert⟩
  · rw [hinsert] at h ⊢
    refine ⟨(Except.error.inj h).symm, ?_⟩
    -- a table that has a record is there
    rw [Std.ExtTreeMap.getD_eq_getD_getElem?] at hr ⊢
    cases htable : db.tables[table]? with
    | none => simp [htable] at hr
    | some tableData => exact insert_self htable
  · rw [hinsert] at h
    cases h

/-- **Failed writes change nothing.**  Whatever the database and the call are, if the call fails the
database is the same, with the same tables. -/
theorem unchanged_of_error (ops : TextOps) (db : MemoryDatabase) (op : DatabaseOp)
    {e : GatewayError} (h : (run ops op db).1 = .error e) : (run ops op db).2 = db := by
  cases op with
  | insert uuid table record => exact (insert_of_error h).2
  | update table id record =>
    refine onTable_of_error (fun tableData e he => ?_) h
    cases hid : tableData[id]? with
    | none => rfl
    | some existing =>
      simp only [hid] at he
      cases he
  | batchInsert table records => cases h
  | delete | updateWhere | deleteWhere =>
    -- these fail only if there is no table
    refine onTable_of_error (fun tableData e he => ?_) h
    cases he

/-- A conflict, a missing record and a missing table. -/
theorem unchanged_of_error_users :
    let ops : TextOps := { toLowercase := id, formatF64 := fun _ => "" }
    let user : Record := (∅ : Record).insert "id" (.string "a")
    let db : MemoryDatabase := (insert "" "users" user new).2
    (run ops (.insert "" "users" user) db).2 = db ∧ (run ops (.update "users" "b" user) db).2 = db ∧
      (run ops (.deleteWhere "orders" .new) db).2 = db := by
  intro ops user db
  refine ⟨?_, ?_, ?_⟩
  · exact unchanged_of_error ops db (.insert "" "users" user) (e := idConflict "users" "a")
      (by decide)
  · exact unchanged_of_error ops db (.update "users" "b" user)
      (e := .notFound "Record 'b' not found in table 'users'") (by decide)
  · exact unchanged_of_error ops db (.deleteWhere "orders" .new)
      (e := .notFound "Table 'orders' not found") (by decide)

/-! ### Batches -/

/-- Inserts the records one after another, each with the id it gets if it has none, whatever comes
of the ones before. -/
def insertEach (table : String) : List (String × Record) → MemoryDatabase →
    List (GatewayResult WriteResult) × MemoryDatabase
  | [], db => ([], db)
  | (uuid, record) :: entries, db =>
    let (result, db) := insert uuid table record db
    let (results, db) := insertEach table entries db
    (result :: results, db)

theorem insertEach_cons (table uuid : String) (record : Record) (entries : List (String × Record))
    (db : MemoryDatabase) :
    insertEach table ((uuid, record) :: entries) db =
      ((insert uuid table record db).1 ::
          (insertEach table entries (insert uuid table record db).2).1,
        (insertEach table entries (insert uuid table record db).2).2) := rfl

/-- Replacing a table twice. -/
theorem insert_insert (m : HashMap String Table) (table : String) (tableData tableData' : Table) :
    (m.insert table tableData).insert table tableData' = m.insert table tableData' := by
  refine Std.ExtTreeMap.ext_getElem? fun table' => ?_
  simp only [HashMap.getElem?_insert_ite]
  split <;> rfl

/-- One insert into a table that is there. -/
theorem insert_into (uuid table : String) (record : Record) (m : HashMap String Table)
    (tableData : Table) (count : ℕ) :
    (insert uuid table record { tables := m.insert table tableData }).2 =
        { tables := m.insert table (batchStep (tableData, count) (uuid, record)).1 } ∧
      (batchStep (tableData, count) (uuid, record)).2 = count +
        if (insert uuid table record { tables := m.insert table tableData }).1.isOk then 1
        else 0 := by
  have htable : (m.insert table tableData).getD table ∅ = tableData := by
    rw [HashMap.getD_insert_ite, if_pos rfl]
  rw [insert_eq, batchStep_eq, htable, insert_insert]
  rcases insertInto_cases uuid table record tableData with ⟨r, hr, hinsert⟩ | ⟨hnone, hinsert⟩
  · rw [hinsert, hr]
    exact ⟨rfl, rfl⟩
  · rw [hinsert, hnone]
    exact ⟨rfl, rfl⟩

/-- The inserts one after another are the steps of a batch. -/
theorem insertEach_into (table : String) (entries : List (String × Record))
    (m : HashMap String Table) (tableData : Table) (count : ℕ) :
    (insertEach table entries { tables := m.insert table tableData }).2 =
        { tables := m.insert table (entries.foldl batchStep (tableData, count)).1 } ∧
      (entries.foldl batchStep (tableData, count)).2 = count +
        (insertEach table entries { tables := m.insert table tableData }).1.countP Except.isOk := by
  induction entries generalizing tableData count with
  | nil => exact ⟨rfl, rfl⟩
  | cons entry entries ih =>
    obtain ⟨uuid, record⟩ := entry
    obtain ⟨hdb, hcount⟩ := insert_into uuid table record m tableData count
    obtain ⟨ihdb, ihcount⟩ := ih (batchStep (tableData, count) (uuid, record)).1
      (batchStep (tableData, count) (uuid, record)).2
    rw [insertEach_cons, hdb]
    refine ⟨ihdb, ?_⟩
    rw [List.foldl_cons, List.countP_cons, ihcount, hcount]
    omega

/-- Every insert that fails does so with a conflict. -/
theorem conflict_of_mem_insertEach {table : String} {entries : List (String × Record)}
    {db : MemoryDatabase} {e : GatewayError}
    (h : .error e ∈ (insertEach table entries db).1) : ∃ id, e = idConflict table id := by
  induction entries generalizing db with
  | nil => cases h
  | cons entry entries ih =>
    rcases List.mem_cons.mp h with h | h
    · exact ⟨_, (insert_of_error h.symm).1⟩
    · exact ih h

/-- **A batch is as good as its inserts.** From any database, for any records, of which there is at
least one, and any fresh ids, `batch_insert` leaves the database that inserting the records one by
one leaves, where the conflicts are ignored, and counts the inserts that succeed. -/
theorem batchInsert_eq_insertEach (table : String) (entries : List (String × Record))
    (hne : entries ≠ []) (db : MemoryDatabase) :
    batchInsert table entries db =
        (.ok (.new ((insertEach table entries db).1.countP Except.isOk)),
          (insertEach table entries db).2) ∧
      ∀ e, .error e ∈ (insertEach table entries db).1 → ∃ id, e = idConflict table id := by
  refine ⟨?_, fun e he => conflict_of_mem_insertEach he⟩
  obtain ⟨⟨uuid, record⟩, entries, rfl⟩ := List.exists_cons_of_ne_nil hne
  -- the first insert makes the table, if it is not there
  have hfirst : insert uuid table record db = insert uuid table record
      { tables := db.tables.insert table (db.tables.getD table ∅) } := by
    rw [insert_eq, insert_eq]
    dsimp only
    rw [HashMap.getD_insert_ite, if_pos rfl, insert_insert]
  obtain ⟨hdb, hcount⟩ := insertEach_into table ((uuid, record) :: entries) db.tables
    (db.tables.getD table ∅) 0
  rw [Nat.zero_add] at hcount
  rw [insertEach_cons] at hdb hcount ⊢
  rw [← hfirst] at hdb hcount
  rw [batchInsert_eq, batchInsertInto, hdb, ← hcount]

/-- Of three records, two with the same id and one without any, two are inserted. -/
theorem batchInsert_eq_insertEach_users :
    let user : Record := (∅ : Record).insert "id" (.string "a")
    let entries := [("u1", user), ("u2", ∅), ("u3", user)]
    (batchInsert "users" entries new).1 = .ok (.new 2) ∧
      (batchInsert "users" entries new).2 = (insertEach "users" entries new).2 := by
  intro user entries
  have hcount : (insertEach "users" entries new).1.countP Except.isOk = 2 := by decide
  obtain ⟨h, -⟩ := batchInsert_eq_insertEach "users" entries (by simp [entries]) new
  rw [h, hcount]
  exact ⟨rfl, rfl⟩

/-! ### The caller's data -/

/-- The id that the caller has given the record, of whatever type. -/
def callerId (record : Record) : Option Value := record["id"]?.or record["_id"]?

/-- From `db` to `db'`, the record has been stored under the id with every field it had and none but
its `id` in addition, nothing else has changed, and another insert of the caller's id is a
conflict. -/
structure LosesNothing (db db' : MemoryDatabase) (table id : String) (record : Record) : Prop where
  stored : ∃ r, db'.getById table id = some r ∧
    (∀ (field : String) (v : Value), record[field]? = some v → r[field]? = some v) ∧
    ∀ field : String, field ≠ "id" → record[field]? = none → r[field]? = none
  records : ∀ id', id' ≠ id → db'.getById table id' = db.getById table id'
  tables : ∀ table', table' ≠ table → db'.tables[table']? = db.tables[table']?
  conflicts : ∀ uuid record' v, callerId record = some v → callerId record' = some v →
    (insert uuid table record' db').1 = .error (idConflict table id)

/-- What an `insert` returns, by the record that is stored under the id. -/
theorem insert_fst (uuid table : String) (record : Record) (db : MemoryDatabase) :
    (insert uuid table record db).1 = match db.getById table (entryId (uuid, record)) with
      | some _ => .error (idConflict table (entryId (uuid, record)))
      | none => .ok (.inserted (entryId (uuid, record))) := by
  rw [insert_eq, getById_eq_getD]
  rcases insertInto_cases uuid table record (db.tables.getD table ∅) with
    ⟨r, hr, hinsert⟩ | ⟨hnone, hinsert⟩
  · rw [hinsert, hr]
  · rw [hinsert, hnone]

section Inserted

variable {uuid table id : String} {record : Record} {db db' : MemoryDatabase}

/-- What an `insert` that succeeds has done. -/
theorem insert_eq_ok (h : insert uuid table record db = (.ok (.inserted id), db')) :
    id = entryId (uuid, record) ∧ db' =
      { tables := db.tables.insert table
          ((db.tables.getD table ∅).insert id (withId record id)) } := by
  rw [insert_eq] at h
  rcases insertInto_cases uuid table record (db.tables.getD table ∅) with
    ⟨r, -, hinsert⟩ | ⟨-, hinsert⟩
  · rw [hinsert] at h
    cases h
  · rw [hinsert] at h
    cases h
    exact ⟨rfl, rfl⟩

theorem getById_inserted (h : insert uuid table record db = (.ok (.inserted id), db'))
    (id' : String) :
    db'.getById table id' = if id = id' then some (withId record id) else db.getById table id' := by
  obtain ⟨-, rfl⟩ := insert_eq_ok h
  rw [getById_eq_getD, HashMap.getD_insert_ite, if_pos rfl, HashMap.getElem?_insert_ite,
    getById_eq_getD]

/-- A field of the record that is stored. -/
theorem getElem?_withId_ite (record : Record) (id field : String) :
    (withId record id)[field]? = if "id" = field then some (.string id) else record[field]? :=
  HashMap.getElem?_insert_ite record "id" field _

/-- A caller's id that is a string is the one that is found. -/
theorem extractId_of_string {s : String} (h : callerId record = some (.string s)) :
    extractId record = some s := by
  unfold callerId at h
  unfold extractId
  cases hid : record["id"]? with
  | some v =>
    rw [hid] at h
    cases h
    rfl
  | none =>
    rw [hid, Option.none_or] at h
    rw [h]
    rfl

/-- If the caller's data is not lost, the caller's id is a string. -/
theorem LosesNothing.isSome_asStr (h : LosesNothing db db' table id record)
    (hrecord : db'.getById table id = some (withId record id)) {v : Value}
    (hv : callerId record = some v) : v.asStr.isSome := by
  obtain ⟨⟨r, hr, hkept, -⟩, -, -, hconflicts⟩ := h
  obtain rfl := Option.some.inj (hrecord.symm.trans hr)
  unfold callerId at hv
  cases hfield : record["id"]? with
  | some v' =>
    -- the field has been replaced by the id, which is a string
    have hkept' := hkept "id" v' hfield
    rw [getElem?_withId_ite, if_pos rfl] at hkept'
    rw [hfield, Option.some_or] at hv
    obtain rfl := Option.some.inj (hkept'.trans hv)
    rfl
  | none =>
    -- if no id was found in `_id`, another insert would get a fresh one
    obtain ⟨fresh, hfresh⟩ := HashMap.exists_getElem?_eq_none (db'.tables.getD table ∅)
    have hconflict := hconflicts fresh record v hv hv
    rw [hfield, Option.none_or] at hv
    by_contra hnot
    have hnone : extractId record = none := by
      rw [extractId, hfield, hv]
      simpa using hnot
    have hfreshId : entryId (fresh, record) = fresh := by rw [entryId, hnone, Option.getD_none]
    rw [insert_fst, hfreshId, getById_eq_getD, hfresh] at hconflict
    cases hconflict

/-- **The caller's data.**  An `insert` that succeeds loses nothing if and only if the caller has
given the record no id, or one that is a string. -/
theorem insert_losesNothing_iff (h : insert uuid table record db = (.ok (.inserted id), db')) :
    LosesNothing db db' table id record ↔ ∀ v, callerId record = some v → v.asStr.isSome := by
  have hlookup := getById_inserted h
  have hself : db'.getById table id = some (withId record id) := by rw [hlookup, if_pos rfl]
  obtain ⟨hid, hdb⟩ := insert_eq_ok h
  constructor
  · intro hkept v hv
    exact hkept.isSome_asStr hself hv
  · intro hstring
    refine ⟨⟨_, hself, fun field v hfield => ?_, fun field hne hfield => ?_⟩, fun id' hne => ?_,
      fun table' hne => ?_, fun uuid' record' v hv hv' => ?_⟩
    · rw [getElem?_withId_ite]
      split
      · next heq =>
        -- the caller's `id` is a string, so it is the id
        subst heq
        have hcaller : callerId record = some v := by rw [callerId, hfield, Option.some_or]
        obtain ⟨s, hs⟩ := Option.isSome_iff_exists.mp (hstring v hcaller)
        obtain rfl := Value.eq_string_of_asStr hs
        rw [hid, entryId, extractId_of_string hcaller, Option.getD_some]
      · exact hfield
    · rw [getElem?_withId_ite, if_neg (Ne.symm hne)]
      exact hfield
    · rw [hlookup, if_neg (Ne.symm hne)]
    · rw [hdb]
      exact HashMap.getElem?_insert_of_ne (Ne.symm hne)
    · obtain ⟨s, hs⟩ := Option.isSome_iff_exists.mp (hstring v hv)
      obtain rfl := Value.eq_string_of_asStr hs
      have hid' : entryId (uuid', record') = id := by
        rw [hid, entryId, entryId, extractId_of_string hv, extractId_of_string hv',
          Option.getD_some, Option.getD_some]
      rw [insert_fst, hid', hself]

end Inserted

/-- Nothing is lost of a record with a string for its `_id`. -/
theorem insert_losesNothing_user :
    let user : Record := ((∅ : Record).insert "_id" (.string "a")).insert "age" (.bool true)
    LosesNothing new (insert "u1" "users" user new).2 "users" "a" user := by
  intro user
  have hok : (insert "u1" "users" user new).1 = .ok (.inserted "a") := by decide
  have hinsert : insert "u1" "users" user new =
      (.ok (.inserted "a"), (insert "u1" "users" user new).2) := Prod.ext hok rfl
  refine (insert_losesNothing_iff hinsert).mpr fun v hv => ?_
  have hstring : (callerId user).bind Value.asStr = some "a" := by decide
  rw [hv, Option.bind_some] at hstring
  rw [hstring]
  rfl

/-- A number for an `id` is lost. -/
theorem number_id_lost :
    ¬ ∀ (uuid table id : String) (record : Record) (db db' : MemoryDatabase),
      insert uuid table record db = (.ok (.inserted id), db') →
        LosesNothing db db' table id record := by
  intro h
  let user : Record := (∅ : Record).insert "id" (.number (.posInt 42))
  have hok : (insert "u1" "users" user new).1 = .ok (.inserted "u1") := by decide
  have hinsert : insert "u1" "users" user new =
      (.ok (.inserted "u1"), (insert "u1" "users" user new).2) := Prod.ext hok rfl
  obtain ⟨⟨r, hr, hkept, -⟩, -⟩ := h "u1" "users" "u1" user new _ hinsert
  have hfield := hkept "id" (.number (.posInt 42)) Std.ExtTreeMap.getElem?_insert_self
  have hstored : ((insert "u1" "users" user new).2.getById "users" "u1").bind
      (fun r => r["id"]?.bind Value.asStr) = some "u1" := by decide
  rw [hr, Option.bind_some, hfield] at hstored
  cases hstored

end SweGateway.MemoryDatabase

import SweGateway.Core.Database.Equiv.Linearizable

/-!
# Concurrent inserts

`insert` and `batch_insert` create their table in one critical section and write to it in another.
Whatever runs in between, the table is still there when they look it up again (`table_found`): no
operation removes a table.

If only inserts run, none of them is disturbed, so that a finished run is the same as the calls one
after another, and the accounting can be done in sequence.  `Accounted` says what comes out: every
id that the database did not have and that some call carries is written once, by one element of one
call, and that element is the only one that its call reports.
-/

namespace SweGateway.MemoryDatabase

open Concurrent

variable {ι : Type} {ops : TextOps}

/-! ### The table is found -/

section Found

/-- The call `i` has ensured its table, and looks it up with its next access. -/
def LooksUp (ops : TextOps) (calls : ι → DatabaseCall) (c : Running ι) (i : ι) (table : String) :
    Prop :=
  (calls i).insertsInto = some table ∧ ∃ write, (calls i).prog ops = ensuredBody table write ∧
    c.flow i = .access (fun db => (unwrapTable table write db).2) fun db =>
      .done (unwrapTable table write db).1

/-- Where a call of a run is; it has not panicked. -/
def Placed (ops : TextOps) (calls : ι → DatabaseCall) (db : MemoryDatabase)
    (flows : ι → Flow MemoryDatabase DatabaseReply) : Prop :=
  ∀ i, ∃ q, At ops db (calls i) q (flows i) ∧ q ≠ some .panicked

/-- A call other than an insert does not panic. -/
theorem DatabaseCall.run_ne_panicked (ops : TextOps) (call : DatabaseCall) (db : MemoryDatabase) :
    (call.run ops db).1 ≠ .panicked := by
  cases call with
  | op o => exact DatabaseReply.noConfusion
  | query | getById | «exists» | count => exact DatabaseReply.noConfusion

/-- A call other than an insert removes no table. -/
theorem DatabaseCall.mem_tables_run {call : DatabaseCall} (hinserts : call.insertsInto = none)
    (ops : TextOps) {db : MemoryDatabase} {table : String} (h : table ∈ db.tables) :
    table ∈ (call.run ops db).2.tables := by
  cases hrewrites : call.rewrites with
  | none => rwa [(DatabaseCall.run_of_reads ops hinserts hrewrites fun _ => rfl).2]
  | some table' =>
    obtain ⟨write, hwrite⟩ := DatabaseCall.run_of_rewrites hrewrites ops
    rw [hwrite]
    show table ∈ (onTable table' write db).2.tables
    unfold onTable
    cases db.tables[table']? with
    | none => exact h
    | some tableData => exact mem_tables_insert _ h

/-- **One access** keeps the calls where they can be. -/
theorem Placed.access [DecidableEq ι] {calls : ι → DatabaseCall} {db : MemoryDatabase}
    {flows : ι → Flow MemoryDatabase DatabaseReply} (h : Placed ops calls db flows) {i : ι}
    {f : MemoryDatabase → MemoryDatabase} {k : MemoryDatabase → Flow MemoryDatabase DatabaseReply}
    (hflow : flows i = .access f k) :
    Placed ops calls (f db) (Function.update flows i (k db)) := by
  -- tables are not removed, and the call finds the one it has ensured
  have hself : (∀ table, table ∈ db.tables → table ∈ (f db).tables) ∧
      ∃ q, At ops (f db) (calls i) q (k db) ∧ q ≠ some .panicked := by
    obtain ⟨q, hat, -⟩ := h i
    rw [hflow] at hat
    generalize hfl : Flow.access f k = flow at hat
    generalize calls i = call at hat
    cases hat with
    | ensured table write hinserts hprog hmem =>
      cases hfl
      obtain ⟨tableData, htable⟩ := Option.isSome_iff_exists.mp
        (Std.ExtTreeMap.mem_iff_isSome_getElem?.mp hmem)
      dsimp only
      rw [unwrapTable_of_some htable]
      exact ⟨fun _ => mem_tables_insert _, _, .returned call _, by simp⟩
    | start =>
      obtain ⟨table, write, hinserts, hprog⟩ | ⟨hinserts, hprog⟩ := DatabaseCall.prog_cases ops call
      · rw [hprog] at hfl
        cases hfl
        refine ⟨fun _ => mem_tables_ensureTable table, none, ?_, by simp⟩
        exact .ensured call table write hinserts hprog Std.ExtTreeMap.mem_insertIfNew_self
      · rw [hprog] at hfl
        cases hfl
        refine ⟨fun _ => DatabaseCall.mem_tables_run hinserts ops, _, .returned call _, ?_⟩
        simpa using DatabaseCall.run_ne_panicked ops call db
    | returned => cases hfl
  intro j
  by_cases hji : j = i
  · subst hji
    rw [Function.update_self]
    exact hself.2
  · rw [Function.update_of_ne hji]
    obtain ⟨q, hat, hq⟩ := h j
    exact ⟨q, hat.mono hself.1, hq⟩

variable [DecidableEq ι] [Fintype ι]

theorem placed_of_reaches {calls : ι → DatabaseCall} {db : MemoryDatabase} {c : Running ι}
    (hreach : (launch ops db calls).Reaches c) : Placed ops calls c.store c.flow := by
  refine hreach.flow_invariant (P := Placed ops calls) ?_ ?_
  · exact fun i => ⟨none, .start (calls i), by simp⟩
  · exact fun _ _ _ _ _ h hflow => h.access hflow

/-- In every interleaving of any calls, an insert that looks its table up again finds it, and no
call panics. -/
theorem table_found {calls : ι → DatabaseCall} {db : MemoryDatabase} {c : Running ι}
    (hreach : (launch ops db calls).Reaches c) (i : ι) :
    (∀ table, LooksUp ops calls c i table → table ∈ c.store.tables) ∧
      c.flow i ≠ .done .panicked := by
  obtain ⟨q, hat, hq⟩ := placed_of_reaches hreach i
  refine ⟨fun table hlooks => ?_, fun hpanicked => ?_⟩
  · obtain ⟨hop, write, hprog, hflow⟩ := hlooks
    rw [hflow] at hat
    generalize hfl : Flow.access _ _ = flow at hat
    generalize calls i = call at hat hop hprog
    cases hat with
    | ensured table' write' hinserts hprog' hmem =>
      obtain rfl : table = table' := Option.some.inj (hop.symm.trans hinserts)
      exact hmem
    | start =>
      -- before its first access the call would still have two
      rw [hprog] at hfl
      have hk := congrFun (Flow.access.inj hfl).2 c.store
      cases hk
    | returned => cases hfl
  · rw [hpanicked] at hat
    exact hq hat.reply_eq_some

end Found

/-! ### Batches -/

/-- The id under which an element of an insert is stored: the one it has, or the fresh one. -/
def entryId (entry : String × Record) : String := (extractId entry.2).getD entry.1

/-- The elements of an insert, each with the id it gets if it has none. -/
def DatabaseOp.entries : DatabaseOp → List (String × Record)
  | .insert uuid _ record => [(uuid, record)]
  | .batchInsert _ records => records
  | .update _ _ _ | .delete _ _ | .updateWhere _ _ _ | .deleteWhere _ _ => []

/-- The elements of a call that inserts. -/
def DatabaseCall.entries : DatabaseCall → List (String × Record)
  | .op o => o.entries
  | _ => []

/-- The position of the first element with the id. -/
def firstWith (entries : List (String × Record)) (id : String) : Option ℕ :=
  entries.findIdx? fun e => entryId e = id

/-- One element of a batch is written and counted if the table does not have its id. -/
theorem batchStep_eq (s : Table × ℕ) (e : String × Record) :
    batchStep s e = match s.1[entryId e]? with
      | some _ => s
      | none => (s.1.insert (entryId e) (withId e.2 (entryId e)), s.2 + 1) := by
  show (if s.1.contains (entryId e) then s
    else (s.1.insert (entryId e) (withId e.2 (entryId e)), s.2 + 1)) = _
  rw [Std.ExtTreeMap.contains_eq_isSome_getElem?]
  cases s.1[entryId e]? <;> rfl

theorem getElem?_batchStep (s : Table × ℕ) (e : String × Record) (id : String) :
    (batchStep s e).1[id]? =
      s.1[id]?.or (if entryId e = id then some (withId e.2 id) else none) := by
  rw [batchStep_eq]
  by_cases hid : entryId e = id
  · subst hid
    cases hs : s.1[entryId e]? <;> simp [hs]
  · rw [if_neg hid, Option.or_none]
    cases s.1[entryId e]? with
    | none => exact HashMap.getElem?_insert_of_ne hid
    | some r => rfl

/-- A batch writes the first element with an id that the table does not have. -/
theorem getElem?_foldl_batchStep (entries : List (String × Record)) (s : Table × ℕ) (id : String) :
    (entries.foldl batchStep s).1[id]? = s.1[id]?.or
      ((entries.find? fun e => entryId e = id).map fun e => withId e.2 id) := by
  induction entries generalizing s with
  | nil => simp
  | cons e entries ih =>
    rw [List.foldl_cons, ih, getElem?_batchStep, Option.or_assoc, List.find?_cons]
    by_cases hid : entryId e = id <;> simp [hid]

theorem firstWith_append (entries : List (String × Record)) (e : String × Record) (id : String) :
    firstWith (entries ++ [e]) id =
      (firstWith entries id).or (if entryId e = id then some entries.length else none) := by
  rw [firstWith, List.findIdx?_append, firstWith]
  by_cases hid : entryId e = id <;> simp [hid]

theorem firstWith_eq_none_iff {entries : List (String × Record)} {id : String} :
    firstWith entries id = none ↔ ∀ e ∈ entries, entryId e ≠ id := by
  simp [firstWith, List.findIdx?_eq_none_iff]

theorem firstWith_lt {entries : List (String × Record)} {id : String} {n : ℕ}
    (h : firstWith entries id = some n) : n < entries.length :=
  (List.findIdx?_eq_some_iff_findIdx_eq.mp h).1

/-- The element at the position is the one that a search finds. -/
theorem getElem?_of_firstWith {entries : List (String × Record)} {id : String} {n : ℕ}
    (h : firstWith entries id = some n) :
    ∃ e, entries[n]? = some e ∧ entryId e = id ∧
      entries.find? (fun e => entryId e = id) = some e := by
  obtain ⟨hn, hid, -⟩ := List.findIdx?_eq_some_iff_getElem.mp h
  have hfind := @List.find?_eq_getElem?_findIdx _ entries fun e => decide (entryId e = id)
  rw [(List.findIdx?_eq_some_iff_findIdx_eq.mp h).2, List.getElem?_eq_getElem hn] at hfind
  exact ⟨entries[n], List.getElem?_eq_getElem hn, of_decide_eq_true hid, hfind⟩

/-- How many elements a batch writes: those that are the first ones with their id, if the table does
not have it. -/
theorem foldl_batchStep_snd (entries : List (String × Record)) (tableData : Table) :
    (entries.foldl batchStep (tableData, 0)).2 = entries.zipIdx.countP fun e =>
      tableData[entryId e.1]?.isNone && firstWith entries (entryId e.1) == some e.2 := by
  induction entries using List.reverseRecOn with
  | nil => rfl
  | append_singleton entries e ih =>
    -- the elements before stay the first ones with their ids
    have hbefore : entries.zipIdx.countP (fun e' => tableData[entryId e'.1]?.isNone &&
        firstWith (entries ++ [e]) (entryId e'.1) == some e'.2) =
          entries.zipIdx.countP fun e' => tableData[entryId e'.1]?.isNone &&
            firstWith entries (entryId e'.1) == some e'.2 := by
      refine List.countP_congr fun e' he' => ?_
      have hmem : e'.1 ∈ entries := List.fst_mem_of_mem_zipIdx he'
      rw [firstWith_append]
      cases hfirst : firstWith entries (entryId e'.1) with
      | none => exact absurd rfl (firstWith_eq_none_iff.mp hfirst e'.1 hmem)
      | some n => rfl
    have hlast : (firstWith (entries ++ [e]) (entryId e) == some entries.length) =
        (firstWith entries (entryId e)).isNone := by
      rw [firstWith_append, if_pos rfl]
      cases hfirst : firstWith entries (entryId e) with
      | none => simp
      | some n =>
        have hn := firstWith_lt hfirst
        simp [show n ≠ entries.length by omega]
    have hfound : (entries.find? fun e' => entryId e' = entryId e).isNone =
        (firstWith entries (entryId e)).isNone := by
      rw [Bool.eq_iff_iff, Option.isNone_iff_eq_none, Option.isNone_iff_eq_none,
        firstWith_eq_none_iff, List.find?_eq_none]
      simp
    rw [List.foldl_append, List.zipIdx_append, List.countP_append, hbefore, ← ih]
    have hlookup := getElem?_foldl_batchStep entries (tableData, 0) (entryId e)
    have hcount : (([e] : List (String × Record)).zipIdx (0 + entries.length)).countP (fun e' =>
        tableData[entryId e'.1]?.isNone &&
          firstWith (entries ++ [e]) (entryId e'.1) == some e'.2) =
        if ((entries.foldl batchStep (tableData, 0)).1[entryId e]?).isNone then 1 else 0 := by
      rw [hlookup, Option.isNone_or, Option.isNone_map, hfound, ← hlast]
      simp
    rw [hcount, List.foldl_cons, List.foldl_nil, batchStep_eq]
    cases (entries.foldl batchStep (tableData, 0)).1[entryId e]? <;> rfl

/-! ### One insert -/

/-- The error of an `insert` of an id that the table has. -/
def idConflict (table id : String) : GatewayError :=
  .conflict ("Record with id '" ++ id ++ "' already exists in table '" ++ table ++ "'")

/-- What an insert reports, given which element is written under an id of a table: a call, and a
position in it. -/
def reported [DecidableEq ι] (written : String → String → Option (ι × ℕ)) (i : ι) :
    DatabaseOp → Option DatabaseReply
  | .insert uuid table record =>
    let id := entryId (uuid, record)
    some <| .write <|
      if written table id = some (i, 0) then .ok (.inserted id) else .error (idConflict table id)
  | .batchInsert table records =>
    some <| .write <| .ok <| .new <| records.zipIdx.countP fun e =>
      written table (entryId e.1) = some (i, e.2)
  | .update _ _ _ | .delete _ _ | .updateWhere _ _ _ | .deleteWhere _ _ => none

/-- What an insert leaves in the tables. -/
theorem DatabaseOp.tables_run {op : DatabaseOp} {table : String}
    (h : op.insertsInto = some table) (ops : TextOps) (db : MemoryDatabase) :
    (run ops op db).2 =
      { tables := db.tables.insert table
          (op.entries.foldl batchStep (db.tables.getD table ∅, 0)).1 } := by
  cases op with
  | insert uuid table' record =>
    cases h
    show (MemoryDatabase.insert uuid table record db).2 = _
    rw [insert_eq]
    refine congrArg (fun t => MemoryDatabase.mk (db.tables.insert table t)) ?_
    show _ = (batchStep (db.tables.getD table ∅, 0) (uuid, record)).1
    unfold insertInto batchStep
    dsimp only
    split <;> rfl
  | batchInsert table' records =>
    cases h
    show (MemoryDatabase.batchInsert table records db).2 = _
    rw [batchInsert_eq]
    rfl
  | update | delete | updateWhere | deleteWhere => cases h

/-- The records that an insert leaves: its elements come after what the database has. -/
theorem DatabaseOp.getById_run {op : DatabaseOp} {table : String}
    (h : op.insertsInto = some table) (ops : TextOps) (db : MemoryDatabase) (table' id : String) :
    (run ops op db).2.getById table' id = (db.getById table' id).or
      (if table' = table then
        (op.entries.find? fun e => entryId e = id).map fun e => withId e.2 id
      else none) := by
  rw [op.tables_run h, getById_eq_getD, getById_eq_getD, Std.ExtTreeMap.getD_eq_getD_getElem?,
    Std.ExtTreeMap.getD_eq_getD_getElem?, HashMap.getElem?_insert_ite]
  by_cases htable : table' = table
  · subst htable
    rw [if_pos rfl, if_pos rfl, Option.getD_some, getElem?_foldl_batchStep,
      Std.ExtTreeMap.getD_eq_getD_getElem?]
  · rw [if_neg (Ne.symm htable), if_neg htable, Option.or_none,
      ← Std.ExtTreeMap.getD_eq_getD_getElem?]

/-! ### The accounting -/

section Accounting

variable [DecidableEq ι]

/-- **The accounts** of inserts that have run from `db` to the configuration `c`: the element that
is written under an id of a table is of one of the calls, and it is there for every id that the
database did not have and some call carries.  Its record is stored, what it reports is what the
calls report, and nothing else has changed. -/
structure Accounted (db : MemoryDatabase) (inserts : ι → DatabaseOp)
    (written : String → String → Option (ι × ℕ)) (c : Running ι) : Prop where
  carried : ∀ table i e, (inserts i).insertsInto = some table → e ∈ (inserts i).entries →
    db.getById table (entryId e) = none → (written table (entryId e)).isSome
  record : ∀ table id i n, written table id = some (i, n) → db.getById table id = none ∧
    (inserts i).insertsInto = some table ∧ ∃ e, (inserts i).entries[n]? = some e ∧
      entryId e = id ∧ c.store.getById table id = some (withId e.2 id)
  others : ∀ table id, written table id = none → c.store.getById table id = db.getById table id
  replies : ∀ i, (c.threads i).prog.result = reported written i (inserts i)

/-- The accounts of the inserts in the order, one after another. -/
structure AccountedSoFar (db : MemoryDatabase) (inserts : ι → DatabaseOp) (order : List ι)
    (written : String → String → Option (ι × ℕ))
    (st : (ι → Option DatabaseReply) × MemoryDatabase) : Prop where
  carried : ∀ table i e, i ∈ order → (inserts i).insertsInto = some table →
    e ∈ (inserts i).entries → (st.2.getById table (entryId e)).isSome
  record : ∀ table id i n, written table id = some (i, n) → i ∈ order ∧
    db.getById table id = none ∧ (inserts i).insertsInto = some table ∧
      ∃ e, (inserts i).entries[n]? = some e ∧ entryId e = id ∧
        st.2.getById table id = some (withId e.2 id)
  others : ∀ table id, written table id = none → st.2.getById table id = db.getById table id
  replies : ∀ i ∈ order, st.1 i = reported written i (inserts i)

/-- The elements that are written once the insert `op` has come as the call `j`. -/
def writtenNext (written : String → String → Option (ι × ℕ)) (db : MemoryDatabase) (j : ι)
    (op : DatabaseOp) (table id : String) : Option (ι × ℕ) :=
  (written table id).or (if op.insertsInto = some table ∧ db.getById table id = none then
    (firstWith op.entries id).map (Prod.mk j) else none)

variable {written written' : String → String → Option (ι × ℕ)}

omit [DecidableEq ι] in
/-- The elements of another call are the same. -/
theorem writtenNext_eq_some_iff_of_ne {i j : ι} (hne : j ≠ i) (db : MemoryDatabase)
    (op : DatabaseOp) (table id : String) (n : ℕ) :
    writtenNext written db j op table id = some (i, n) ↔ written table id = some (i, n) := by
  rw [writtenNext]
  cases written table id with
  | some w => simp
  | none =>
    simp only [Option.none_or, reduceCtorEq, iff_false]
    split <;> simp [hne]

/-- What a call reports depends on its own elements alone. -/
theorem reported_congr {op : DatabaseOp} {i : ι}
    (h : ∀ table id n, op.insertsInto = some table →
      (written table id = some (i, n) ↔ written' table id = some (i, n))) :
    reported written i op = reported written' i op := by
  cases op with
  | insert uuid table record =>
    have hid := h table (entryId (uuid, record)) 0 rfl
    simp only [reported, hid]
  | batchInsert table records =>
    have hcount : (records.zipIdx.countP fun e =>
        decide (written table (entryId e.1) = some (i, e.2))) =
          records.zipIdx.countP fun e => decide (written' table (entryId e.1) = some (i, e.2)) := by
      refine List.countP_congr fun e _ => ?_
      rw [decide_eq_true_eq, decide_eq_true_eq]
      exact h table (entryId e.1) e.2 rfl
    simp only [reported, hcount]
  | update | delete | updateWhere | deleteWhere => rfl

/-- What an insert reports, if the elements of it that are written are those that come first with an
id that the database does not have. -/
theorem reply_run {op : DatabaseOp} {i : ι} {db : MemoryDatabase} {table : String}
    (hop : op.insertsInto = some table) (h : ∀ id n, written table id = some (i, n) ↔
      db.getById table id = none ∧ firstWith op.entries id = some n) (ops : TextOps) :
    some (DatabaseReply.write (run ops op db).1) = reported written i op := by
  cases op with
  | insert uuid table' record =>
    cases hop
    have hfirst : firstWith [(uuid, record)] (entryId (uuid, record)) = some 0 := by
      simp [firstWith]
    have hid := h (entryId (uuid, record)) 0
    rw [DatabaseOp.entries, hfirst] at hid
    simp only [and_true, getById_eq_getD] at hid
    show some (DatabaseReply.write (MemoryDatabase.insert uuid table record db).1) = _
    rw [insert_eq, reported]
    show some (DatabaseReply.write
      (if (db.tables.getD table ∅).contains (entryId (uuid, record)) then
        (Except.error (idConflict table (entryId (uuid, record))), _)
      else (.ok (.inserted (entryId (uuid, record))), _)).1) = _
    simp only [hid, Std.ExtTreeMap.contains_eq_isSome_getElem?]
    cases (db.tables.getD table ∅)[entryId (uuid, record)]? <;> rfl
  | batchInsert table' records =>
    cases hop
    show some (DatabaseReply.write (MemoryDatabase.batchInsert table records db).1) = _
    rw [batchInsert_eq, reported]
    show some (DatabaseReply.write (.ok (.new
      (records.foldl batchStep (db.tables.getD table ∅, 0)).2))) = _
    rw [foldl_batchStep_snd]
    have hcount : (records.zipIdx.countP fun e =>
        (db.tables.getD table ∅)[entryId e.1]?.isNone &&
          firstWith records (entryId e.1) == some e.2) =
        records.zipIdx.countP fun e => decide (written table (entryId e.1) = some (i, e.2)) := by
      refine List.countP_congr fun e _ => ?_
      rw [decide_eq_true_eq, h, getById_eq_getD]
      simp [DatabaseOp.entries]
    rw [hcount]
  | update | delete | updateWhere | deleteWhere => cases hop

/-- The elements of a call that comes now are its first ones of each id that is not there. -/
theorem AccountedSoFar.writtenNext_self {db : MemoryDatabase} {inserts : ι → DatabaseOp}
    {order : List ι} {st : (ι → Option DatabaseReply) × MemoryDatabase}
    (h : AccountedSoFar db inserts order written st) {j : ι} (hj : j ∉ order) {table : String}
    (hop : (inserts j).insertsInto = some table) (id : String) (n : ℕ) :
    writtenNext written st.2 j (inserts j) table id = some (j, n) ↔
      st.2.getById table id = none ∧ firstWith (inserts j).entries id = some n := by
  rw [writtenNext]
  cases hw : written table id with
  | some w =>
    obtain ⟨i, n'⟩ := w
    obtain ⟨hi, -, -, e, -, -, hr⟩ := h.record table id i n' hw
    have hne : i ≠ j := fun heq => hj (heq ▸ hi)
    simp [hr, hne]
  | none =>
    rw [Option.none_or]
    by_cases hnone : st.2.getById table id = none <;> simp [hop, hnone]

/-- **One more insert.** -/
theorem AccountedSoFar.concat {db : MemoryDatabase} {inserts : ι → DatabaseOp} {order : List ι}
    {st : (ι → Option DatabaseReply) × MemoryDatabase}
    (h : AccountedSoFar db inserts order written st) {j : ι} (hj : j ∉ order) {table : String}
    (hop : (inserts j).insertsInto = some table) (ops : TextOps) :
    AccountedSoFar db inserts (order ++ [j]) (writtenNext written st.2 j (inserts j))
      (Function.update st.1 j (some (.write (run ops (inserts j) st.2).1)),
        (run ops (inserts j) st.2).2) := by
  have hlookup := (inserts j).getById_run hop ops st.2
  -- what is stored stays
  have hstays : ∀ table' id r, st.2.getById table' id = some r →
      (run ops (inserts j) st.2).2.getById table' id = some r := by
    intro table' id r hr
    rw [hlookup, hr, Option.some_or]
  refine ⟨?_, ?_, ?_, ?_⟩
  · intro table' i e hi hinserts he
    rw [hlookup, Option.isSome_or, Bool.or_eq_true]
    rcases List.mem_append.mp hi with hi | hi
    · exact .inl (h.carried table' i e hi hinserts he)
    · obtain rfl := List.mem_singleton.mp hi
      right
      obtain rfl : table' = table := Option.some.inj (hinserts.symm.trans hop)
      rw [if_pos rfl, Option.isSome_map, List.find?_isSome]
      exact ⟨e, he, by simp⟩
  · intro table' id i n hw
    cases hbef : written table' id with
    | some w =>
      rw [writtenNext, hbef, Option.some_or] at hw
      obtain ⟨hi, hdb, hinserts, e, hn, hid, hr⟩ := h.record table' id i n (hbef.trans hw)
      exact ⟨List.mem_append_left [j] hi, hdb, hinserts, e, hn, hid, hstays table' id _ hr⟩
    | none =>
      rw [writtenNext, hbef, Option.none_or, Option.ite_none_right_eq_some] at hw
      obtain ⟨⟨hinserts, hnone⟩, hw⟩ := hw
      obtain ⟨n', hfirst, hn'⟩ := Option.map_eq_some_iff.mp hw
      obtain ⟨rfl, rfl⟩ := Prod.mk.inj hn'
      obtain ⟨e, hn, hid, hfind⟩ := getElem?_of_firstWith hfirst
      obtain rfl : table' = table := Option.some.inj (hinserts.symm.trans hop)
      refine ⟨List.mem_append_right order (List.mem_singleton_self j), ?_, hinserts, e, hn, hid, ?_⟩
      · rw [← h.others table' id hbef, hnone]
      · rw [hlookup, hnone, Option.none_or, if_pos rfl, hfind, Option.map_some]
  · intro table' id hw
    rw [writtenNext, Option.or_eq_none_iff] at hw
    obtain ⟨hbef, hnext⟩ := hw
    rw [hlookup, ← h.others table' id hbef]
    cases hr : st.2.getById table' id with
    | some r => rfl
    | none =>
      by_cases htable : table' = table
      · subst htable
        rw [if_pos ⟨hop, hr⟩, Option.map_eq_none_iff, firstWith_eq_none_iff] at hnext
        rw [if_pos rfl, Option.none_or, Option.map_eq_none_iff, List.find?_eq_none]
        simpa using hnext
      · rw [if_neg htable]
        rfl
  · intro i hi
    dsimp only
    rcases List.mem_append.mp hi with hi | hi
    · -- the elements of the calls before are the same
      have hne : i ≠ j := fun heq => hj (heq ▸ hi)
      rw [Function.update_of_ne hne, h.replies i hi]
      refine reported_congr fun table' id n _ => ?_
      exact (writtenNext_eq_some_iff_of_ne hne.symm st.2 (inserts j) table' id n).symm
    · obtain rfl := List.mem_singleton.mp hi
      rw [Function.update_self]
      exact reply_run hop (h.writtenNext_self hj hop) ops

/-- **The inserts in sequence** are accounted for. -/
theorem exists_accountedSoFar {inserts : ι → DatabaseOp}
    (hinserts : ∀ i, (inserts i).insertsInto.isSome) (ops : TextOps) (db : MemoryDatabase)
    {order : List ι} (hnodup : order.Nodup) :
    ∃ written, AccountedSoFar db inserts order written
      (inSequence (fun i => (DatabaseCall.op (inserts i)).run ops) db order) := by
  induction order using List.reverseRecOn with
  | nil =>
    refine ⟨fun _ _ => none, ?_, ?_, fun _ _ _ => rfl, ?_⟩
    · exact fun _ _ _ hi => absurd hi List.not_mem_nil
    · exact fun _ _ _ _ hw => absurd hw (Option.some_ne_none _).symm
    · exact fun _ hi => absurd hi List.not_mem_nil
  | append_singleton order j ih =>
    obtain ⟨hprev, -, hj⟩ := List.nodup_append.mp hnodup
    obtain ⟨written, hwritten⟩ := ih hprev
    obtain ⟨table, hop⟩ := Option.isSome_iff_exists.mp (hinserts j)
    have hfresh : j ∉ order := fun hmem => hj j hmem j (List.mem_singleton_self j) rfl
    rw [inSequence_concat]
    exact ⟨_, hwritten.concat hfresh hop ops⟩

variable [Fintype ι]

/-- A finished run of inserts is accounted for. -/
theorem exists_accounted {inserts : ι → DatabaseOp}
    (hinserts : ∀ i, (inserts i).insertsInto.isSome) {db : MemoryDatabase} {schedule : List ι}
    {c : Running ι} (hrun : (launch ops db fun i => .op (inserts i)).run? schedule = some c)
    (hdone : ∀ i, (c.threads i).prog.isDone = true) :
    ∃ written, Accounted db inserts written c := by
  -- no call needs its table, so that none is disturbed
  have hok : Runs.EachStep (fun pre i => ∀ c,
      (launch ops db fun i => .op (inserts i)).run? pre = some c →
        Undisturbed db (fun i => .op (inserts i)) c i) schedule := by
    intro pre i _ c _ table hrewrites
    obtain ⟨table', hop⟩ := Option.isSome_iff_exists.mp (hinserts i)
    have hnone := DatabaseCall.insertsInto_of_rewrites hrewrites
    exact absurd (hnone.symm.trans hop) (Option.some_ne_none table').symm
  obtain ⟨order, -, hnodup, hstore, hreply⟩ := exists_inSequence hrun hdone hok
  obtain ⟨written, hwritten⟩ := exists_accountedSoFar hinserts ops db hnodup
  have hall := mem_order_of_reply hdone hreply
  refine ⟨written, ?_, ?_, ?_, ?_⟩
  · intro table i e hop he hnone
    have hsome := hwritten.carried table i e (hall i) hop he
    rw [Option.isSome_iff_ne_none]
    intro hw
    rw [hwritten.others table _ hw, hnone] at hsome
    cases hsome
  · intro table id i n hw
    obtain ⟨-, hdb, hop, e, hn, hid, hr⟩ := hwritten.record table id i n hw
    exact ⟨hdb, hop, e, hn, hid, hstore ▸ hr⟩
  · intro table id hw
    rw [← hstore]
    exact hwritten.others table id hw
  · intro i
    rw [← hreply]
    exact hwritten.replies i (hall i)

/-- **Concurrent inserts.**  In every interleaving of any calls, an insert that looks its table up
again finds it.  And when inserts alone have run, every id that the database did not have and some
call carries has the record of one element of one call; this element is the only one that is
reported as written, every other single insert of the id has failed with a conflict, and the records
that were there before are the same. -/
theorem inserts_accounted (ops : TextOps) (db : MemoryDatabase) :
    (∀ (calls : ι → DatabaseCall) (c : Running ι), (launch ops db calls).Reaches c → ∀ i,
      (∀ table, LooksUp ops calls c i table → table ∈ c.store.tables) ∧
        c.flow i ≠ .done .panicked) ∧
    ∀ inserts : ι → DatabaseOp, (∀ i, (inserts i).insertsInto.isSome) →
      ∀ (schedule : List ι) (c : Running ι),
        (launch ops db fun i => .op (inserts i)).run? schedule = some c →
        (∀ i, (c.threads i).prog.isDone = true) →
        ∃ written, Accounted db inserts written c :=
  ⟨fun _ _ hreach i => table_found hreach i,
    fun _ hinserts _ _ hrun hdone => exists_accounted hinserts hrun hdone⟩

end Accounting

/-- A single insert of the id `a` and a batch that has two records with it. -/
def insertAndBatch : Bool → DatabaseOp
  | false => .insert "" "users" ((∅ : Record).insert "id" (.string "a"))
  | true => .batchInsert "users"
    [("", (∅ : Record).insert "id" (.string "a")), ("", (∅ : Record).insert "id" (.string "a"))]

/-- The two, with their critical sections taking turns. -/
def takingTurns : List Bool :=
  [false, false, false, true, true, true, false, false, false, true, true, true]

/-- Exactly one of the three records is written. -/
theorem insertAndBatch_accounted :
    ∃ (c : Running Bool) (written : String → String → Option (Bool × ℕ)),
      Accounted new insertAndBatch written c ∧ (written "users" "a").isSome := by
  have hfinishes : ((launch someTextOps new fun i => .op (insertAndBatch i)).run?
      takingTurns).any (fun c => ∀ i, (c.threads i).prog.isDone = true) = true := by decide
  obtain ⟨c, hc, hdone⟩ := (Option.any_eq_true _ _).mp hfinishes
  have hinserts : ∀ i, (insertAndBatch i).insertsInto.isSome := by decide
  obtain ⟨written, hwritten⟩ := (inserts_accounted someTextOps new).2 insertAndBatch hinserts
    takingTurns c hc (of_decide_eq_true hdone)
  have hid : entryId ("", (∅ : Record).insert "id" (.string "a")) = "a" := by decide
  have hsome := hwritten.carried "users" false ("", (∅ : Record).insert "id" (.string "a")) rfl
    (List.mem_singleton_self _) (by rw [hid]; rfl)
  rw [hid] at hsome
  exact ⟨c, written, hwritten, hsome⟩

end SweGateway.MemoryDatabase

import SweGateway.Core.Database.Concurrent
import SweGateway.Core.Database.Equiv.Reads
import SweGateway.Lib.Linearizable

/-!
# Linearizability of the database operations

Every operation of the database but the two inserts is one critical section, and takes effect there.
An insert takes effect in its second one, but its first one is not without effect: it may create the
table, empty, and for a while the database has a table that no operation has written to.  A query
cannot tell such a table from a missing one; `update`, `delete`, `update_where` and `delete_where`
can, and no sequential order of the calls explains what they return then
(`insert_delete_not_linearizable`).

`Undisturbed` says that this does not happen: no such call accesses a table that only the first
critical sections of inserts have made.  Every finishing run whose steps are undisturbed is
linearizable (`linearizable_of_undisturbed`).  In the simulation that shows it, the database has the
tables of the sequential one and such empty tables besides (`Simulates`).
-/

namespace SweGateway.MemoryDatabase

open Concurrent

variable {ι : Type} {ops : TextOps}

/-- The table exists only because of inserts that have not written to it yet. -/
def Unsettled (db : MemoryDatabase) (calls : ι → DatabaseCall) (c : Running ι) (table : String) :
    Prop :=
  table ∉ db.tables ∧ table ∈ c.store.tables ∧
    ∀ i, (calls i).insertsInto = some table → ∀ r, c.flow i ≠ .done r

/-- When the call `i` accesses a table that must exist, it is not an unsettled one. -/
def Undisturbed (db : MemoryDatabase) (calls : ι → DatabaseCall) (c : Running ι) (i : ι) : Prop :=
  ∀ table, (calls i).rewrites = some table → (c.threads i).prog.atAccess = true →
    ¬ Unsettled db calls c table

/-! ### What the operations see -/

/-- An insert is a second critical section after an ensured table; every other call is one access,
which has the effect of the call. -/
theorem DatabaseCall.prog_cases (ops : TextOps) (call : DatabaseCall) :
    (∃ table write, call.insertsInto = some table ∧ call.prog ops = ensuredBody table write) ∨
      call.insertsInto = none ∧ (call.prog ops).flow =
        .access (fun db => (call.run ops db).2) fun db => .done (call.run ops db).1 := by
  cases call with
  | op o =>
    cases o with
    | insert uuid table record => exact .inl ⟨table, insertInto uuid table record, rfl, rfl⟩
    | batchInsert table records => exact .inl ⟨table, batchInsertInto records, rfl, rfl⟩
    | _ => exact .inr ⟨rfl, rfl⟩
  | _ => exact .inr ⟨rfl, rfl⟩

/-- A call that does not write sees a missing table as an empty one, and leaves the database as it
is. -/
theorem DatabaseCall.run_of_reads (ops : TextOps) {call : DatabaseCall}
    (hinserts : call.insertsInto = none) (hrewrites : call.rewrites = none) {db db' : MemoryDatabase}
    (h : ∀ table : String, db.tables.getD table ∅ = db'.tables.getD table ∅) :
    (call.run ops db).1 = (call.run ops db').1 ∧ (call.run ops db).2 = db := by
  cases call with
  | query it table params =>
    refine ⟨?_, rfl⟩
    show DatabaseReply.records (.ok (db.query ops it table params)) = _
    rw [query_eq_getD, h, ← query_eq_getD]
    rfl
  | getById table id =>
    refine ⟨?_, rfl⟩
    show DatabaseReply.record (.ok (db.getById table id)) = _
    rw [getById_eq_getD, h, ← getById_eq_getD]
    rfl
  | «exists» table id =>
    refine ⟨?_, rfl⟩
    show DatabaseReply.exists (.ok (db.exists table id)) = _
    rw [exists_eq_getD, h, ← exists_eq_getD]
    rfl
  | count table params =>
    refine ⟨?_, rfl⟩
    show DatabaseReply.count (.ok (db.count ops table params)) = _
    rw [count_eq_getD, h, ← count_eq_getD]
    rfl
  | op o =>
    cases o with
    | insert | batchInsert => cases hinserts
    | update | delete | updateWhere | deleteWhere => cases hrewrites

/-- A call that needs its table is a write on the table. -/
theorem DatabaseCall.run_of_rewrites {call : DatabaseCall} {table : String}
    (h : call.rewrites = some table) (ops : TextOps) :
    ∃ write, ∀ db, call.run ops db = (onTable table write db).map .write fun db => db := by
  cases call with
  | op o =>
    have hwrite : ∃ write, MemoryDatabase.run ops o = onTable table write := by
      unfold MemoryDatabase.run
      cases o with
      | insert | batchInsert => cases h
      | update | delete | updateWhere | deleteWhere =>
        cases h
        simp only [update, delete, updateWhere, deleteWhere]
        exact ⟨_, rfl⟩
    obtain ⟨write, hwrite⟩ := hwrite
    refine ⟨write, fun db => ?_⟩
    rw [DatabaseCall.run, hwrite]
  | query | getById | «exists» | count => cases h

theorem DatabaseCall.insertsInto_of_rewrites {call : DatabaseCall} {table : String}
    (h : call.rewrites = some table) : call.insertsInto = none := by
  cases call with
  | op o =>
    cases o with
    | insert | batchInsert => cases h
    | update | delete | updateWhere | deleteWhere => rfl
  | query | getById | «exists» | count => rfl

/-! ### The simulation -/

/-- Where a call is, given the tables of the database and its reply if it is in the order
already. -/
inductive At (ops : TextOps) (db : MemoryDatabase) :
    DatabaseCall → Option DatabaseReply → Flow MemoryDatabase DatabaseReply → Prop
  | start (call : DatabaseCall) : At ops db call none (call.prog ops).flow
  | ensured (call : DatabaseCall) (table : String)
    (write : Table → GatewayResult WriteResult × Table) (hinserts : call.insertsInto = some table)
    (hprog : call.prog ops = ensuredBody table write) (htable : table ∈ db.tables) :
    At ops db call none (.access (fun db => (unwrapTable table write db).2) fun db =>
      .done (unwrapTable table write db).1)
  | returned (call : DatabaseCall) (reply : DatabaseReply) :
    At ops db call (some reply) (.done reply)

/-- Tables are never removed, so a call stays where it is when others access the database. -/
theorem At.mono {db db' : MemoryDatabase} {call : DatabaseCall} {q : Option DatabaseReply}
    {flow : Flow MemoryDatabase DatabaseReply} (hat : At ops db call q flow)
    (h : ∀ table, table ∈ db.tables → table ∈ db'.tables) : At ops db' call q flow := by
  cases hat with
  | start => exact .start call
  | ensured table write hinserts hprog htable =>
    exact .ensured call table write hinserts hprog (h table htable)
  | returned reply => exact .returned call reply

/-- The database has the tables of `σ`, the database after the calls with a reply, and empty tables
of inserts that have no reply yet. -/
structure SameTables (calls : ι → DatabaseCall) (db : MemoryDatabase)
    (replies : ι → Option DatabaseReply) (σ : MemoryDatabase) : Prop where
  table : ∀ table : String, db.tables[table]? = σ.tables[table]? ∨
    σ.tables[table]? = none ∧ db.tables[table]? = some ∅ ∧
      ∃ i, (calls i).insertsInto = some table ∧ replies i = none

/-- The concurrent run from `db` has come to `c`, and the calls in the order to `st`. -/
structure Simulates (ops : TextOps) (db : MemoryDatabase) (calls : ι → DatabaseCall)
    (c : Running ι) (st : (ι → Option DatabaseReply) × MemoryDatabase) : Prop where
  tables : SameTables calls c.store st.1 st.2
  initial : ∀ table, table ∈ db.tables → table ∈ st.2.tables
  inserted : ∀ i table, (calls i).insertsInto = some table → st.1 i ≠ none → table ∈ st.2.tables
  threads : ∀ i, At ops c.store (calls i) (st.1 i) (c.flow i)

section SameTables

variable {calls : ι → DatabaseCall} {db σ : MemoryDatabase} {replies : ι → Option DatabaseReply}

/-- The two databases hold the same records. -/
theorem SameTables.getD (h : SameTables calls db replies σ) (table : String) :
    db.tables.getD table ∅ = σ.tables.getD table ∅ := by
  rw [Std.ExtTreeMap.getD_eq_getD_getElem?, Std.ExtTreeMap.getD_eq_getD_getElem?]
  rcases h.table table with heq | ⟨hσ, hdb, -⟩
  · rw [heq]
  · rw [hσ, hdb]
    rfl

variable [DecidableEq ι]

/-- A call that does not insert gets its reply. -/
theorem SameTables.reply (h : SameTables calls db replies σ) {i : ι} (reply : DatabaseReply)
    (hi : (calls i).insertsInto = none) :
    SameTables calls db (Function.update replies i (some reply)) σ where
  table table := by
    rcases h.table table with heq | ⟨hσ, hdb, j, hj, hnone⟩
    · exact .inl heq
    · refine .inr ⟨hσ, hdb, j, hj, ?_⟩
      rw [Function.update_of_ne, hnone]
      rintro rfl
      rw [hi] at hj
      cases hj

/-- A call gets its reply and sets a table, which is the one it inserts into if it inserts. -/
theorem SameTables.insert (h : SameTables calls db replies σ) {i : ι} (reply : DatabaseReply)
    {table : String} (hi : ∀ table', (calls i).insertsInto = some table' → table' = table)
    (tableData : Table) :
    SameTables calls { tables := db.tables.insert table tableData }
      (Function.update replies i (some reply)) { tables := σ.tables.insert table tableData } where
  table table' := by
    rw [HashMap.getElem?_insert_ite, HashMap.getElem?_insert_ite]
    by_cases htable : table = table'
    · rw [if_pos htable, if_pos htable]
      exact .inl rfl
    · rw [if_neg htable, if_neg htable]
      rcases h.table table' with heq | ⟨hσ, hdb, j, hj, hnone⟩
      · exact .inl heq
      · refine .inr ⟨hσ, hdb, j, hj, ?_⟩
        rw [Function.update_of_ne, hnone]
        rintro rfl
        exact htable (hi table' hj).symm

end SameTables

section Step

variable [DecidableEq ι] {db : MemoryDatabase} {calls : ι → DatabaseCall} {c c' : Running ι}
  {st : (ι → Option DatabaseReply) × MemoryDatabase} {i : ι}

theorem mem_tables_insert {db : MemoryDatabase} {table : String} (tableData : Table)
    {table' : String} (h : table' ∈ db.tables) : table' ∈ db.tables.insert table tableData :=
  Std.ExtTreeMap.mem_insert.mpr (.inr h)

/-- The call `i` takes effect with its access, and comes next in the order. -/
theorem Simulates.commit (hsim : Simulates ops db calls c st) {reply : DatabaseReply}
    {σ : MemoryDatabase} (hself : c'.flow i = .done reply)
    (hother : ∀ j, j ≠ i → c'.flow j = c.flow j)
    (hgrows : ∀ table, table ∈ c.store.tables → table ∈ c'.store.tables)
    (hgrows' : ∀ table, table ∈ st.2.tables → table ∈ σ.tables)
    (hinserted : ∀ table, (calls i).insertsInto = some table → table ∈ σ.tables)
    (htables : SameTables calls c'.store (Function.update st.1 i (some reply)) σ) :
    Simulates ops db calls c' (Function.update st.1 i (some reply), σ) where
  tables := htables
  initial table htable := hgrows' table (hsim.initial table htable)
  inserted j table hj hreply := by
    dsimp only at hreply ⊢
    by_cases hji : j = i
    · subst hji
      exact hinserted table hj
    · rw [Function.update_of_ne hji] at hreply
      exact hgrows' table (hsim.inserted j table hj hreply)
  threads j := by
    dsimp only
    by_cases hji : j = i
    · subst hji
      rw [hself, Function.update_self]
      exact .returned _ _
    · rw [hother j hji, Function.update_of_ne hji]
      exact (hsim.threads j).mono hgrows

/-- A call is not yet in the order if it still has something to do. -/
theorem At.reply_eq_none {call : DatabaseCall} {q : Option DatabaseReply}
    {flow : Flow MemoryDatabase DatabaseReply} (hat : At ops db call q flow)
    (h : ∀ r, flow ≠ .done r) : q = none := by
  cases hat with
  | start => rfl
  | ensured => rfl
  | returned reply => exact absurd rfl (h reply)

/-- A call that has nothing left to do has returned its reply. -/
theorem At.reply_eq_some {call : DatabaseCall} {q : Option DatabaseReply} {reply : DatabaseReply}
    (hat : At ops db call q (.done reply)) : q = some reply := by
  generalize hflow : Flow.done reply = flow at hat
  cases hat with
  | start =>
    obtain ⟨table, write, -, hprog⟩ | ⟨-, hprog⟩ := DatabaseCall.prog_cases ops call
    · rw [hprog] at hflow
      cases hflow
    · rw [hprog] at hflow
      cases hflow
  | ensured => cases hflow
  | returned =>
    cases hflow
    rfl

omit [DecidableEq ι] in
/-- A table that only inserts without a reply have made is unsettled. -/
theorem Simulates.unsettled (hsim : Simulates ops db calls c st) {table : String}
    (hσ : st.2.tables[table]? = none) (hstore : c.store.tables[table]? = some ∅) :
    Unsettled db calls c table := by
  have hnot : table ∉ st.2.tables := by
    rw [Std.ExtTreeMap.mem_iff_isSome_getElem?, hσ]
    simp
  refine ⟨fun h => hnot (hsim.initial table h), ?_, fun j hj r hr => ?_⟩
  · rw [Std.ExtTreeMap.mem_iff_isSome_getElem?, hstore]
    rfl
  · have hat := hsim.threads j
    rw [hr] at hat
    refine hnot (hsim.inserted j table hj ?_)
    rw [hat.reply_eq_some]
    exact Option.some_ne_none r

omit [DecidableEq ι] in
/-- The first critical section of an insert leaves at most an empty table. -/
theorem SameTables.ensureTable {replies : ι → Option DatabaseReply} {db σ : MemoryDatabase}
    (h : SameTables calls db replies σ) {table : String}
    (hi : (calls i).insertsInto = some table) (hnone : replies i = none) :
    SameTables calls (db.ensureTable table) replies σ where
  table table' := by
    by_cases htable : table = table'
    · subst htable
      rw [getElem?_ensureTable_self, h.getD]
      rcases h' : σ.tables[table]? with _ | tableData
      · refine .inr ⟨rfl, ?_, i, hi, hnone⟩
        rw [Std.ExtTreeMap.getD_eq_getD_getElem?, h', Option.getD_none]
      · rw [Std.ExtTreeMap.getD_eq_getD_getElem?, h', Option.getD_some]
        exact .inl rfl
    · rw [getElem?_ensureTable_of_ne htable]
      exact h.table table'

theorem mem_tables_ensureTable {db : MemoryDatabase} (table : String) {table' : String}
    (h : table' ∈ db.tables) : table' ∈ (db.ensureTable table).tables :=
  Std.ExtTreeMap.mem_insertIfNew.mpr (.inr h)

/-- The second critical section of an insert: the table has the records it has in sequence, and both
databases get the same ones. -/
theorem Simulates.write (hsim : Simulates ops db calls c st) {table : String}
    {write : Table → GatewayResult WriteResult × Table}
    (hinserts : (calls i).insertsInto = some table)
    (hprog : (calls i).prog ops = ensuredBody table write) (hmem : table ∈ c.store.tables)
    (hnone : st.1 i = none) (hstore : c'.store = (unwrapTable table write c.store).2)
    (hself : c'.flow i = .done (unwrapTable table write c.store).1)
    (hother : ∀ j, j ≠ i → c'.flow j = c.flow j) :
    Follows (fun i => (calls i).run ops) (Simulates ops db calls) i c' st := by
  obtain ⟨tableData, htable⟩ := Option.isSome_iff_exists.mp
    (Std.ExtTreeMap.mem_iff_isSome_getElem?.mp hmem)
  have hgetD : st.2.tables.getD table ∅ = tableData := by
    rw [← hsim.tables.getD, Std.ExtTreeMap.getD_eq_getD_getElem?, htable, Option.getD_some]
  have hrun : (calls i).run ops st.2 = (.write (write tableData).1,
      { tables := st.2.tables.insert table (write tableData).2 }) := by
    rw [← DatabaseCall.exec_prog, hprog, exec_ensuredBody, hgetD]
  rw [unwrapTable_of_some htable] at hstore hself
  have honly : ∀ table', (calls i).insertsInto = some table' → table' = table := by
    intro table' hi
    rw [hinserts] at hi
    exact (Option.some.inj hi).symm
  refine .inr ⟨hnone, ?_⟩
  show Simulates ops db calls c' (Function.update st.1 i (some ((calls i).run ops st.2).1),
    ((calls i).run ops st.2).2)
  rw [hrun]
  refine hsim.commit hself hother ?_ ?_ ?_ ?_
  · rw [hstore]
    exact fun _ => mem_tables_insert _
  · exact fun _ => mem_tables_insert _
  · intro table' hi
    rw [honly table' hi]
    exact Std.ExtTreeMap.mem_insert_self
  · rw [hstore]
    exact hsim.tables.insert _ honly _

/-- The first critical section of an insert. -/
theorem Simulates.ensure (hsim : Simulates ops db calls c st) {table : String}
    {write : Table → GatewayResult WriteResult × Table}
    (hinserts : (calls i).insertsInto = some table)
    (hprog : (calls i).prog ops = ensuredBody table write) (hnone : st.1 i = none)
    (hstore : c'.store = c.store.ensureTable table)
    (hself : c'.flow i = .access (fun db => (unwrapTable table write db).2) fun db =>
      .done (unwrapTable table write db).1)
    (hother : ∀ j, j ≠ i → c'.flow j = c.flow j) : Simulates ops db calls c' st := by
  refine ⟨?_, hsim.initial, hsim.inserted, fun j => ?_⟩
  · rw [hstore]
    exact hsim.tables.ensureTable hinserts hnone
  · rw [hstore]
    by_cases hji : j = i
    · subst hji
      rw [hself, hnone]
      exact .ensured (calls j) table write hinserts hprog Std.ExtTreeMap.mem_insertIfNew_self
    · rw [hother j hji]
      exact (hsim.threads j).mono fun _ => mem_tables_ensureTable table

/-- A call that leaves the database as it is takes effect. -/
theorem Simulates.commit_of_same (hsim : Simulates ops db calls c st) {reply : DatabaseReply}
    (hinserts : (calls i).insertsInto = none) (hstore : c'.store = c.store)
    (hself : c'.flow i = .done reply) (hother : ∀ j, j ≠ i → c'.flow j = c.flow j) :
    Simulates ops db calls c' (Function.update st.1 i (some reply), st.2) := by
  refine hsim.commit hself hother ?_ (fun _ h => h) (fun table hi => ?_) ?_
  · rw [hstore]
    exact fun _ h => h
  · rw [hinserts] at hi
    cases hi
  · rw [hstore]
    exact hsim.tables.reply _ hinserts

/-- The one critical section of any other call. -/
theorem Simulates.single (hsim : Simulates ops db calls c st) (hok : Undisturbed db calls c i)
    (hat : (c.threads i).prog.atAccess = true) (hinserts : (calls i).insertsInto = none)
    (hnone : st.1 i = none) (hstore : c'.store = ((calls i).run ops c.store).2)
    (hself : c'.flow i = .done ((calls i).run ops c.store).1)
    (hother : ∀ j, j ≠ i → c'.flow j = c.flow j) :
    Follows (fun i => (calls i).run ops) (Simulates ops db calls) i c' st := by
  refine .inr ⟨hnone, ?_⟩
  show Simulates ops db calls c' (Function.update st.1 i (some ((calls i).run ops st.2).1),
    ((calls i).run ops st.2).2)
  cases hrewrites : (calls i).rewrites with
  | none =>
    obtain ⟨hreply, hsame⟩ := DatabaseCall.run_of_reads ops hinserts hrewrites hsim.tables.getD
    have hsame' : ((calls i).run ops st.2).2 = st.2 :=
      (DatabaseCall.run_of_reads ops hinserts hrewrites fun _ => rfl).2
    rw [hsame] at hstore
    rw [hreply] at hself
    rw [hsame']
    exact hsim.commit_of_same hinserts hstore hself hother
  | some table =>
    obtain ⟨write, hwrite⟩ := DatabaseCall.run_of_rewrites hrewrites ops
    have heq : c.store.tables[table]? = st.2.tables[table]? := by
      rcases hsim.tables.table table with heq | ⟨hσ, hempty, -⟩
      · exact heq
      · exact absurd (hsim.unsettled hσ hempty) (hok table hrewrites hat)
    rw [hwrite] at hstore hself ⊢
    cases htable : st.2.tables[table]? with
    | none =>
      rw [htable] at heq
      simp only [onTable, heq, Prod.map] at hstore hself
      simp only [onTable, htable, Prod.map]
      exact hsim.commit_of_same hinserts hstore hself hother
    | some tableData =>
      rw [htable] at heq
      simp only [onTable, heq, Prod.map] at hstore hself
      simp only [onTable, htable, Prod.map]
      have hno : ∀ table, (calls i).insertsInto = some table → False := by
        intro table hi
        rw [hinserts] at hi
        cases hi
      refine hsim.commit hself hother ?_ (fun _ => mem_tables_insert _)
        (fun table hi => (hno table hi).elim) ?_
      · rw [hstore]
        exact fun _ => mem_tables_insert _
      · rw [hstore]
        exact hsim.tables.insert _ (fun table hi => (hno table hi).elim) _

variable [Fintype ι]

/-- **One step** of a call keeps the simulation, if it is undisturbed. -/
theorem Simulates.step (hsim : Simulates ops db calls c st) (hok : Undisturbed db calls c i)
    (h : c.step? i = some c') :
    Follows (fun i => (calls i).run ops) (Simulates ops db calls) i c' st := by
  cases Config.step?_flow h with
  | lock hstore hflow =>
    refine .inl ⟨hstore ▸ hsim.tables, hsim.initial, hsim.inserted, fun j => ?_⟩
    rw [hflow, hstore]
    exact hsim.threads j
  | access f k hat hflow hstore hself hother =>
    have hati := hsim.threads i
    have hnone : st.1 i = none := hati.reply_eq_none (by simp [hflow])
    rw [hflow, hnone] at hati
    generalize hfl : Flow.access f k = flow at hati
    generalize hcall : calls i = call at hati
    cases hati with
    | ensured table write hinserts hprog hmem =>
      cases hfl
      exact hsim.write (hcall ▸ hinserts) (hcall ▸ hprog) hmem hnone hstore hself hother
    | start =>
      subst hcall
      obtain ⟨table, write, hinserts, hprog⟩ | ⟨hinserts, hprog⟩ :=
        DatabaseCall.prog_cases ops (calls i)
      · rw [hprog] at hfl
        cases hfl
        exact .inl (hsim.ensure hinserts hprog hnone hstore hself hother)
      · rw [hprog] at hfl
        cases hfl
        exact hsim.single hok hat hinserts hnone hstore hself hother

end Step

/-! ### Runs -/

section Runs

variable [DecidableEq ι] [Fintype ι] {db : MemoryDatabase} {calls : ι → DatabaseCall}
  {schedule : List ι} {c : Running ι}

omit [DecidableEq ι] [Fintype ι] in
theorem simulates_launch (ops : TextOps) (db : MemoryDatabase) (calls : ι → DatabaseCall) :
    Simulates ops db calls (launch ops db calls) (fun _ => none, db) where
  tables := ⟨fun _ => .inl rfl⟩
  initial _ h := h
  inserted _ _ _ h := absurd rfl h
  threads i := .start (calls i)

/-- A finished run is simulated by all of its calls, and the databases are the same. -/
theorem exists_inSequence (hrun : (launch ops db calls).run? schedule = some c)
    (hdone : ∀ i, (c.threads i).prog.isDone = true)
    (hok : Runs.EachStep (fun pre i => ∀ c, (launch ops db calls).run? pre = some c →
      Undisturbed db calls c i) schedule) :
    ∃ order : List ι, order.Sublist schedule ∧ order.Nodup ∧
      (inSequence (fun i => (calls i).run ops) db order).2 = c.store ∧
      ∀ i, (inSequence (fun i => (calls i).run ops) db order).1 i = (c.threads i).prog.result := by
  obtain ⟨order, hsub, hnodup, hsim⟩ := exists_order (simulates_launch ops db calls)
    (fun c i c' st hok hsim h => hsim.step hok h) hrun hok
  have hreply : ∀ i, (inSequence (fun i => (calls i).run ops) db order).1 i =
      (c.threads i).prog.result := by
    intro i
    have hi := hdone i
    have hat := hsim.threads i
    cases hprog : (c.threads i).prog with
    | done r =>
      rw [Config.flow_of_done hprog] at hat
      exact hat.reply_eq_some
    | acquire | access | release =>
      rw [hprog] at hi
      cases hi
  refine ⟨order, hsub, hnodup, ?_, hreply⟩
  -- no empty table is left of a call without a reply
  have hsame : ∀ table : String, c.store.tables[table]? =
      (inSequence (fun i => (calls i).run ops) db order).2.tables[table]? := by
    intro table
    rcases hsim.tables.table table with heq | ⟨-, -, i, -, hnone⟩
    · exact heq
    · obtain ⟨r, hr⟩ := Prog.result_of_isDone (hdone i)
      rw [hreply, hr] at hnone
      cases hnone
  exact congrArg MemoryDatabase.mk (Std.ExtTreeMap.ext_getElem? hsame).symm

/-- **Linearizability.**  Every finishing run, from any database, in which no call that needs its
table accesses one that only inserts which have not written yet have made, is linearizable. -/
theorem linearizable_of_undisturbed (hrun : (launch ops db calls).run? schedule = some c)
    (hdone : ∀ i, (c.threads i).prog.isDone = true)
    (hok : Runs.EachStep (fun pre i => ∀ c, (launch ops db calls).run? pre = some c →
      Undisturbed db calls c i) schedule) :
    Linearizable (fun i => (calls i).run ops) db schedule c := by
  obtain ⟨order, hsub, hnodup, hstore, hreply⟩ := exists_inSequence hrun hdone hok
  exact .of_order hsub hnodup hstore hdone hreply

end Runs

/-! ### An insert and a delete -/

/-- An insert of a record with the id `a` into the users, next to a delete of the record `a`. -/
def insertAndDelete : Bool → DatabaseCall
  | false => .op (.insert "" "users" ((∅ : Record).insert "id" (.string "a")))
  | true => .op (.delete "users" "a")

/-- The schedule that runs the delete between the two critical sections of the insert. -/
def deleteBetween : List Bool := [false, false, false, true, true, true, false, false, false]

/-- Some library functions. -/
def someTextOps : TextOps := { toLowercase := id, formatF64 := fun _ => "" }

/-- How many records a write reports. -/
def DatabaseReply.rowsAffected : DatabaseReply → Option ℕ
  | .write (.ok result) => some result.rowsAffected
  | _ => none

/-- If the table exists at the start, the delete may run between the two critical sections of the
insert. -/
theorem insert_delete_linearizable :
    ∃ c : Running Bool,
      (launch someTextOps (withTables ["users"]) insertAndDelete).run? deleteBetween = some c ∧
      Linearizable (fun i => (insertAndDelete i).run someTextOps) (withTables ["users"])
        deleteBetween c := by
  have hfinishes : ((launch someTextOps (withTables ["users"]) insertAndDelete).run?
      deleteBetween).any (fun c => ∀ i, (c.threads i).prog.isDone = true) = true := by decide
  obtain ⟨c, hc, hdone⟩ := (Option.any_eq_true _ _).mp hfinishes
  refine ⟨c, hc, linearizable_of_undisturbed hc (of_decide_eq_true hdone) ?_⟩
  intro pre i _ c _ table htable _ hunsettled
  cases i with
  | false => cases htable
  | true =>
    cases htable
    exact hunsettled.1 Std.ExtTreeMap.mem_insert_self

/-- If the table is missing, a delete between the two critical sections of the insert reports that
it removed nothing; in sequence it fails or removes the record. -/
theorem insert_delete_not_linearizable :
    ¬ ∀ (schedule : List Bool) (c : Running Bool),
      (launch someTextOps new insertAndDelete).run? schedule = some c →
      (∀ i, (c.threads i).prog.isDone = true) →
      Linearizable (fun i => (insertAndDelete i).run someTextOps) new schedule c := by
  intro h
  have hfinishes : ((launch someTextOps new insertAndDelete).run? deleteBetween).any (fun c =>
      (∀ i, (c.threads i).prog.isDone = true) ∧
        (c.threads true).prog.result.bind DatabaseReply.rowsAffected = some 0) = true := by decide
  obtain ⟨c, hc, hc'⟩ := (Option.any_eq_true _ _).mp hfinishes
  obtain ⟨hdone, hrows⟩ := of_decide_eq_true hc'
  obtain ⟨reply, hreply, hzero⟩ := Option.bind_eq_some_iff.mp hrows
  obtain ⟨order, hnodup, hall, -, -, hreplies⟩ := h deleteBetween c hc hdone
  have hdelete := hreplies true reply hreply
  rcases order_of_two hnodup hall with rfl | rfl
  · -- the delete comes last and removes the record
    have hone : ((inSequence (fun i => (insertAndDelete i).run someTextOps) new
        [false, true]).1 true).bind DatabaseReply.rowsAffected = some 1 := by decide
    rw [hdelete, Option.bind_some, hzero] at hone
    cases hone
  · -- the delete comes first and does not find the table
    have hnone : ((inSequence (fun i => (insertAndDelete i).run someTextOps) new
        [true, false]).1 true).bind DatabaseReply.rowsAffected = none := by decide
    rw [hdelete, Option.bind_some, hzero] at hnone
    cases hnone

end SweGateway.MemoryDatabase

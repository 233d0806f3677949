import SweGateway.Core.Database.Equiv.KeyId

/-!
# Selection by filters

`query`, `count`, `update_where` and `delete_where` each find the records that match the filters in
a loop of their own.  The loops agree: in any database they find the same records of a table, which
are the records that `query` returns if it is not asked to order, to page or to select fields.

`Rewrites` says what the two writes do besides counting: the matching records of the table are
replaced by what a function makes of them, or removed, and nothing else is touched.
-/

namespace SweGateway.MemoryDatabase

variable {ops : TextOps}

/-- The parameters without order, limit, offset and field selection. -/
def unrestricted (params : QueryParams) : QueryParams :=
  { QueryParams.new with filters := params.filters }

/-- The records of a table, in the order `it` visits them; none if the table is missing. -/
def records (it : IterOrder String Record) (db : MemoryDatabase) (table : String) : List Record :=
  HashMap.values it (db.tables.getD table ∅)

/-- From `db` to `db'`, every record of the table that matches the filters becomes what `f` makes of
it, or goes if `f` makes nothing of it; the other records and tables stay. -/
structure Rewrites (ops : TextOps) (table : String) (filters : HashMap String Value)
    (f : Record → Option Record) (db db' : MemoryDatabase) : Prop where
  record : ∀ k, db'.getById table k = (db.getById table k).bind fun r =>
    if matchesFilters ops r filters then f r else some r
  «exists» : table ∈ db'.tables ↔ table ∈ db.tables
  others : ∀ table', table' ≠ table → db'.tables[table']? = db.tables[table']?

/-! ### The loop of `update_where` -/

/-- The loop of `update_where` over the records of a table, which visits them in the order `it`. -/
def updateWhereLoop (ops : TextOps) (it : IterOrder String Record) (params : QueryParams)
    (updates : Record) (tableData : Table) : Table × ℕ :=
  (HashMap.iter it tableData).foldl (fun (tableData, count) (id, record) =>
    if matchesFilters ops record params.filters then
      (tableData.insert id (merge record updates), count + 1)
    else (tableData, count)) (tableData, 0)

/-- What the loop leaves and counts does not depend on the order, and is what `updateWhere` has. -/
theorem updateWhere_eq_loop (it : IterOrder String Record) (table : String) (params : QueryParams)
    (updates : Record) :
    updateWhere ops table params updates = onTable table fun tableData =>
      let (tableData', count) := updateWhereLoop ops it params updates tableData
      (.ok (.new count), tableData') := by
  unfold updateWhere
  congr 1
  funext tableData
  have hloop : updateWhereLoop ops it params updates tableData =
      (HashMap.iter it tableData).foldl
        (HashMap.changeStep (fun r => matchesFilters ops r params.filters)
          fun r => merge r updates) (tableData, 0) := rfl
  rw [hloop, HashMap.foldl_changeStep_iter]

/-! ### The four operations on a table -/

section Table

variable {db : MemoryDatabase} {table : String} {tableData : Table}

theorem onTable_of_some (htable : db.tables[table]? = some tableData)
    (write : Table → Except GatewayError WriteResult × Table) :
    onTable table write db =
      ((write tableData).1, { tables := db.tables.insert table (write tableData).2 }) := by
  simp only [onTable, htable]

theorem records_of_some (htable : db.tables[table]? = some tableData)
    (it : IterOrder String Record) : records it db table = HashMap.values it tableData := by
  rw [records, Std.ExtTreeMap.getD_eq_getD_getElem?, htable, Option.getD_some]

/-- The records of a table that is replaced. -/
theorem records_insert (it : IterOrder String Record) (db : MemoryDatabase) (table : String)
    (tableData : Table) :
    records it { tables := db.tables.insert table tableData } table =
      HashMap.values it tableData :=
  records_of_some Std.ExtTreeMap.getElem?_insert_self it

/-- A query that is not restricted returns the records that match. -/
theorem query_unrestricted (it : IterOrder String Record) (db : MemoryDatabase) (table : String)
    (params : QueryParams) :
    query ops it db table (unrestricted params) =
      (records it db table).filter fun r => matchesFilters ops r params.filters := by
  rw [query_eq_getD]
  exact List.map_id' _

/-- What a query finds is a rearrangement of the selected records. -/
theorem query_perm (htable : db.tables[table]? = some tableData) (it : IterOrder String Record)
    (params : QueryParams) :
    (query ops it db table (unrestricted params)).Perm
      ((tableData.filter fun _ r => matchesFilters ops r params.filters).toList.map Prod.snd) := by
  rw [query_unrestricted, records_of_some htable]
  exact HashMap.values_filter_perm it tableData _

/-- The number of bindings that the loops select. -/
theorem length_selected (htable : db.tables[table]? = some tableData)
    (it : IterOrder String Record) (params : QueryParams) :
    (tableData.toList.filter fun e => matchesFilters ops e.2 params.filters).length =
      (query ops it db table (unrestricted params)).length := by
  rw [(query_perm htable it params).length_eq, List.length_map, Std.ExtTreeMap.toList_filter]

theorem count_eq_length (htable : db.tables[table]? = some tableData)
    (it : IterOrder String Record) (params : QueryParams) :
    count ops db table params = (query ops it db table (unrestricted params)).length := by
  rw [count, htable]
  exact length_selected htable it params

/-- Replacing a table by what a function makes of its bindings. -/
theorem rewrites_insert (htable : db.tables[table]? = some tableData)
    {filters : HashMap String Value} {f : Record → Option Record} {tableData' : Table}
    (h : ∀ k : String, tableData'[k]? = tableData[k]?.bind fun r =>
      if matchesFilters ops r filters then f r else some r) :
    Rewrites ops table filters f db { tables := db.tables.insert table tableData' } where
  record k := by
    simp only [getById, htable, Std.ExtTreeMap.getElem?_insert_self, Option.bind_some]
    exact h k
  «exists» := by
    have hmem : table ∈ db.tables :=
      Std.ExtTreeMap.mem_iff_isSome_getElem?.mpr (by rw [htable]; rfl)
    exact iff_of_true Std.ExtTreeMap.mem_insert_self hmem
  others table' hne := HashMap.getElem?_insert_of_ne hne.symm

theorem deleteWhere_eq (ops : TextOps) (htable : db.tables[table]? = some tableData)
    (it : IterOrder String Record) (params : QueryParams) :
    deleteWhere ops table params db =
      (.ok (.new (query ops it db table (unrestricted params)).length),
        { tables := db.tables.insert table
            (tableData.filter fun _ r => !matchesFilters ops r params.filters) }) := by
  have hfound : ((tableData.toList.filter fun e => matchesFilters ops e.2 params.filters).map
      Prod.fst).length = (query ops it db table (unrestricted params)).length := by
    rw [List.length_map]
    exact length_selected htable it params
  have hleft := HashMap.foldl_erase_selected tableData fun r => matchesFilters ops r params.filters
  rw [deleteWhere, onTable_of_some htable]
  dsimp only
  rw [hfound, hleft]

theorem updateWhere_eq (ops : TextOps) (htable : db.tables[table]? = some tableData)
    (it : IterOrder String Record) (params : QueryParams) (updates : Record) :
    updateWhere ops table params updates db =
      (.ok (.new (query ops it db table (unrestricted params)).length),
        { tables := db.tables.insert table (tableData.map fun _ r =>
            if matchesFilters ops r params.filters then merge r updates else r) }) := by
  rw [updateWhere, onTable_of_some htable]
  dsimp only
  rw [length_selected htable it params]

/-- The matching records of an updated table are the updated ones, next to the others. -/
theorem values_update_perm (it : IterOrder String Record) (tableData : Table)
    (p : Record → Bool) (f : Record → Record) :
    (HashMap.values it (tableData.map fun _ r => if p r then f r else r)).Perm
      (((HashMap.values it tableData).filter p).map f ++
        HashMap.values it (tableData.filter fun _ r => !p r)) := by
  have hvalues : ∀ t : Table, (HashMap.values it t).Perm (t.toList.map Prod.snd) := by
    intro t
    exact (it.perm t.toList).map Prod.snd
  have hsplit := (HashMap.toList_perm_filter_append tableData p).map fun e =>
    if p e.2 then f e.2 else e.2
  have hselected : (tableData.filter fun _ r => p r).toList.map
      (fun e => if p e.2 then f e.2 else e.2) =
        ((tableData.filter fun _ r => p r).toList.map Prod.snd).map f := by
    rw [Std.ExtTreeMap.toList_filter, List.map_map]
    exact List.map_congr_left fun e he => if_pos (List.mem_filter.mp he).2
  have hothers : (tableData.filter fun _ r => !p r).toList.map
      (fun e => if p e.2 then f e.2 else e.2) =
        (tableData.filter fun _ r => !p r).toList.map Prod.snd := by
    rw [Std.ExtTreeMap.toList_filter]
    refine List.map_congr_left fun e he => if_neg ?_
    have hp := (List.mem_filter.mp he).2
    simpa using hp
  rw [List.map_append, hselected, hothers] at hsplit
  have hmap : (tableData.map fun _ r => if p r then f r else r).toList.map Prod.snd =
      tableData.toList.map fun e => if p e.2 then f e.2 else e.2 := by
    rw [Std.ExtTreeMap.toList_map, List.map_map]
    rfl
  rw [← hmap] at hsplit
  have hfound := (HashMap.values_filter_perm it tableData p).map f
  exact ((hvalues _).trans hsplit).trans (hfound.symm.append (hvalues _).symm)

/-- The records that are found and the others are all. -/
theorem values_filter_append_perm (it : IterOrder String Record) (tableData : Table)
    (p : Record → Bool) :
    (HashMap.values it tableData).Perm
      ((HashMap.values it tableData).filter p ++
        HashMap.values it (tableData.filter fun _ r => !p r)) := by
  have hsplit := (HashMap.toList_perm_filter_append tableData p).map Prod.snd
  rw [List.map_append] at hsplit
  refine ((it.perm tableData.toList).map Prod.snd).trans (hsplit.trans ?_)
  exact (HashMap.values_filter_perm it tableData _).symm.append ((it.perm _).map Prod.snd).symm

theorem rewrites_deleteWhere (ops : TextOps) (htable : db.tables[table]? = some tableData)
    (it : IterOrder String Record) (params : QueryParams) :
    Rewrites ops table params.filters (fun _ => none) db (deleteWhere ops table params db).2 := by
  rw [deleteWhere_eq ops htable it params]
  refine rewrites_insert htable fun k => ?_
  rw [Std.ExtTreeMap.getElem?_filter']
  cases tableData[k]? with
  | none => rfl
  | some r => cases h : matchesFilters ops r params.filters <;> simp [Option.filter, h]

theorem rewrites_updateWhere (ops : TextOps) (htable : db.tables[table]? = some tableData)
    (it : IterOrder String Record) (params : QueryParams) (updates : Record) :
    Rewrites ops table params.filters (fun r => some (merge r updates)) db
      (updateWhere ops table params updates db).2 := by
  rw [updateWhere_eq ops htable it params updates]
  refine rewrites_insert htable fun k => ?_
  rw [Std.ExtTreeMap.getElem?_map]
  cases tableData[k]? with
  | none => rfl
  | some r => cases h : matchesFilters ops r params.filters <;> simp [h]

/-- None of the records that are left after `delete_where` is selected again. -/
theorem count_deleteWhere (ops : TextOps) (htable : db.tables[table]? = some tableData)
    (it : IterOrder String Record) (params : QueryParams) :
    count ops (deleteWhere ops table params db).2 table params = 0 := by
  rw [deleteWhere_eq ops htable it params, count, Std.ExtTreeMap.getElem?_insert_self]
  simp only [Std.ExtTreeMap.toList_filter, List.filter_filter, List.length_eq_zero_iff]
  refine List.filter_eq_nil_iff.mpr fun e _ => ?_
  simp

end Table

/-! ### The agreement -/

/-- **Selection agreement.**  Whatever the database, an existing table and the filters are,
`count`, `update_where` and `delete_where` count the records that the unrestricted query finds;
`delete_where` removes just these, after which none is left to count, and `update_where` merges the
updates into just these; nothing else changes. -/
theorem selection_agreement {db : MemoryDatabase} {table : String} (htable : table ∈ db.tables)
    (ops : TextOps) (it : IterOrder String Record) (params : QueryParams) (updates : Record) :
    let found := query ops it db table (unrestricted params)
    let updated := updateWhere ops table params updates db
    let deleted := deleteWhere ops table params db
    (count ops db table params = found.length ∧
      updated.1 = .ok (.new found.length) ∧ deleted.1 = .ok (.new found.length)) ∧
    (Rewrites ops table params.filters (fun _ => none) db deleted.2 ∧
      (records it db table).Perm (found ++ records it deleted.2 table) ∧
      count ops deleted.2 table params = 0) ∧
    Rewrites ops table params.filters (fun r => some (merge r updates)) db updated.2 ∧
      (records it updated.2 table).Perm
        (found.map (fun r => merge r updates) ++ records it deleted.2 table) := by
  obtain ⟨tableData, htable⟩ := Option.isSome_iff_exists.mp
    (Std.ExtTreeMap.mem_iff_isSome_getElem?.mp htable)
  intro found updated deleted
  have hupdated := updateWhere_eq ops htable it params updates
  have hdeleted := deleteWhere_eq ops htable it params
  have hleft : records it deleted.2 table =
      HashMap.values it (tableData.filter fun _ r => !matchesFilters ops r params.filters) := by
    show records it (deleteWhere ops table params db).2 table = _
    rw [hdeleted]
    exact records_insert it db table _
  have hfound : found = (HashMap.values it tableData).filter fun r =>
      matchesFilters ops r params.filters := by
    show query ops it db table (unrestricted params) = _
    rw [query_unrestricted, records_of_some htable]
  refine ⟨⟨count_eq_length htable it params, ?_, ?_⟩, ⟨?_, ?_, ?_⟩, ?_, ?_⟩
  · exact congrArg Prod.fst hupdated
  · exact congrArg Prod.fst hdeleted
  · exact rewrites_deleteWhere ops htable it params
  · rw [hleft, hfound, records_of_some htable]
    exact values_filter_append_perm it tableData _
  · exact count_deleteWhere ops htable it params
  · exact rewrites_updateWhere ops htable it params updates
  · show (records it (updateWhere ops table params updates db).2 table).Perm _
    rw [hupdated, hleft, hfound, records_insert]
    exact values_update_perm it tableData (fun r => matchesFilters ops r params.filters) _

/-- Of two users, the one whose `id` is `"a"` is selected. -/
theorem selection_agreement_users :
    let ops : TextOps := { toLowercase := id, formatF64 := fun _ => "" }
    let user : String → Record := fun id => (∅ : Record).insert "id" (.string id)
    let users : Table := ((∅ : Table).insert "a" (user "a")).insert "b" (user "b")
    let db : MemoryDatabase := { tables := (∅ : HashMap String Table).insert "users" users }
    let params := QueryParams.new.filter "id" (.string "a")
    "users" ∈ db.tables ∧
      count ops (deleteWhere ops "users" params db).2 "users" params = 0 ∧
      count ops db "users" params = 1 ∧
      (query ops .sorted db "users" (unrestricted params)).length = 1 := by
  intro ops user users db params
  have htable : "users" ∈ db.tables := Std.ExtTreeMap.mem_insert_self
  have hcount : count ops db "users" params = 1 := by decide
  obtain ⟨⟨hfound, -⟩, ⟨-, -, hnone⟩, -⟩ := selection_agreement htable ops .sorted params ∅
  exact ⟨htable, hnone, hcount, hfound ▸ hcount⟩

end SweGateway.MemoryDatabase

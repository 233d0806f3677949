import SweGateway.Core.Database.Memory

/-!
# What the reading operations see

The reading operations see a missing table as an empty one.  A record matches filters if it matches
each of them.
-/

namespace SweGateway.MemoryDatabase

variable {ops : TextOps}

/-! ### Missing tables -/

theorem applyPagination_nil (params : QueryParams) : applyPagination ops [] params = [] := by
  unfold applyPagination
  cases params.orderBy <;> cases params.offset <;> cases params.limit <;> simp

theorem query_eq_getD (it : IterOrder String Record) (db : MemoryDatabase) (table : String)
    (params : QueryParams) :
    query ops it db table params =
      (applyPagination ops ((HashMap.values it (db.tables.getD table ∅)).filter fun r =>
        matchesFilters ops r params.filters) params).map fun r => selectFields r params.select := by
  rw [query, Std.ExtTreeMap.getD_eq_getD_getElem?]
  cases db.tables[table]? with
  | none =>
    rw [Option.getD_none, HashMap.values_empty, List.filter_nil, applyPagination_nil, List.map_nil]
  | some tableData => rfl

theorem getById_eq_getD (db : MemoryDatabase) (table id : String) :
    db.getById table id = (db.tables.getD table ∅)[id]? := by
  rw [getById, Std.ExtTreeMap.getD_eq_getD_getElem?]
  cases db.tables[table]? with
  | none => simp
  | some tableData => rfl

theorem exists_eq_getD (db : MemoryDatabase) (table id : String) :
    db.exists table id = (db.tables.getD table ∅).contains id := by
  rw [MemoryDatabase.exists, Std.ExtTreeMap.getD_eq_getD_getElem?]
  cases db.tables[table]? with
  | none => simp
  | some tableData => rfl

theorem count_eq_getD (db : MemoryDatabase) (table : String) (params : QueryParams) :
    count ops db table params = ((db.tables.getD table ∅).toList.filter fun e =>
      matchesFilters ops e.2 params.filters).length := by
  rw [count, Std.ExtTreeMap.getD_eq_getD_getElem?]
  cases db.tables[table]? with
  | none => rw [Option.getD_none, Std.ExtTreeMap.toList_eq_nil_iff.mpr rfl]; rfl
  | some tableData => rfl

/-! ### Filters -/

theorem matchesFilters_iff {record : Record} {filters : HashMap String Value} :
    matchesFilters ops record filters = true ↔
      ∀ (key : String) (value : Value), filters[key]? = some value →
        matchesFilterCondition ops record[(parseFilterKey key).1]? (parseFilterKey key).2 value =
          true := by
  rw [matchesFilters, List.all_eq_true]
  simp only [Prod.forall, Std.ExtTreeMap.mem_toList_iff_getElem?_eq_some]

@[simp] theorem matchesFilters_empty (record : Record) : matchesFilters ops record ∅ = true :=
  matchesFilters_iff.mpr fun key value h => by simp at h

/-- One more filter is one more condition. -/
theorem matchesFilters_insert {record : Record} {filters : HashMap String Value} {key : String}
    (h : filters[key]? = none) (value : Value) :
    matchesFilters ops record (filters.insert key value) =
      (matchesFilterCondition ops record[(parseFilterKey key).1]? (parseFilterKey key).2 value &&
        matchesFilters ops record filters) := by
  rw [Bool.eq_iff_iff, Bool.and_eq_true, matchesFilters_iff, matchesFilters_iff]
  constructor
  · intro hall
    refine ⟨hall key value Std.ExtTreeMap.getElem?_insert_self, fun key' value' hvalue => ?_⟩
    have hne : key ≠ key' := by
      rintro rfl
      rw [h] at hvalue
      cases hvalue
    exact hall key' value' (by rw [HashMap.getElem?_insert_of_ne hne, hvalue])
  · rintro ⟨hcond, hall⟩ key' value' hvalue
    rw [HashMap.getElem?_insert_ite] at hvalue
    split at hvalue
    · next heq =>
      obtain rfl := Option.some.inj hvalue
      exact heq ▸ hcond
    · exact hall key' value' hvalue

end SweGateway.MemoryDatabase

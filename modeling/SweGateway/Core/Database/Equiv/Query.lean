import SweGateway.Core.Database.Equiv.Ordering
import SweGateway.Core.Database.Equiv.Selection
import SweGateway.Lib.StableSort

/-!
# What a query returns

A query selects the records that match its filters, sorts them, skips `offset` of them, returns
`limit` of the rest, and of each the selected fields.  `query_spec` says so for tables where the
non-null values of the field to sort by are of one kind, numbers or strings: the sort is the stable
sort in `fieldOrder`, which has null and missing values last in both directions.

The pages of a query, each with the same limit, are the parts of what it returns without one.
-/

namespace SweGateway.MemoryDatabase

open Comparator

variable {ops : TextOps}

/-- The records of a table that match the filters, in the order `it` visits them. -/
def matching (ops : TextOps) (it : IterOrder String Record) (db : MemoryDatabase) (table : String)
    (params : QueryParams) : List Record :=
  (records it db table).filter fun r => matchesFilters ops r params.filters

/-- The order by the values of a field, with null and missing values last in both directions. -/
def fieldOrder (ops : TextOps) (orderBy : String) (orderDesc : Bool) (a b : Record) : Ordering :=
  nullsLast
    (fun v w =>
      let cmp := compareValues ops (some v) (some w)
      if orderDesc then cmp.swap else cmp)
    (present a[orderBy]?) (present b[orderBy]?)

/-- The values, all of them numbers or all of them strings. -/
def OneKind (values : Set Value) : Prop :=
  (∀ v ∈ values, ∃ n, v = .number n) ∨ ∀ v ∈ values, ∃ s, v = .string s

/-- The records in the order that the parameters ask for. -/
def IsOrdered (ops : TextOps) (params : QueryParams) (records sorted : List Record) : Prop :=
  match params.orderBy with
  | some orderBy => IsStableSort (fieldOrder ops orderBy params.orderDesc) records sorted
  | none => sorted = records

/-- The records without the first `offset`, and of these the first `limit`. -/
def window (params : QueryParams) (records : List Record) : List Record :=
  let records := records.drop (params.offset.getD 0)
  params.limit.elim records records.take

/-- The parameters for page `k`, where pages have `n` records. -/
def page (params : QueryParams) (n k : ℕ) : QueryParams :=
  { params with offset := some (k * n), limit := some n }

/-- The parameters without paging. -/
def unpaginated (params : QueryParams) : QueryParams :=
  { params with offset := none, limit := none }

/-! ### Sorting -/

theorem present_of_present {o : Option Value} {v : Value} (h : present o = some v) :
    present (some v) = some v := by
  obtain ⟨-, hv⟩ := Option.filter_eq_some_iff.mp h
  exact Option.filter_eq_some_iff.mpr ⟨rfl, hv⟩

/-- The source sorts in this order. -/
theorem compareRecords_eq_fieldOrder (ops : TextOps) (orderBy : String) (orderDesc : Bool) :
    compareRecords ops orderBy orderDesc = fieldOrder ops orderBy orderDesc := by
  rw [compareRecords_eq]
  funext a b
  unfold fieldOrder
  rcases ha : present a[orderBy]? with _ | v
  · cases present b[orderBy]? <;> rfl
  rcases hb : present b[orderBy]? with _ | w
  · rfl
  simp only [nullsLast, compareValues_eq, present_of_present ha, present_of_present hb]
  cases orderDesc <;> rfl

/-- Values of one kind are compared by their numbers or by their texts, but not by both. -/
theorem OneKind.textsFit {values : Set Value} (h : OneKind values) :
    TextsFit number (text ops) values := by
  intro a ha b hb t ht x y hx hy hnone hat htb
  rcases h with hnumbers | hstrings
  · obtain ⟨n, rfl⟩ := hnumbers t ht
    cases hnone
  · obtain ⟨s, rfl⟩ := hstrings a ha
    cases hx

/-- Records with a field of one kind are ordered. -/
theorem isTotalPreorderOn_fieldOrder {orderBy : String} {records : List Record}
    (h : OneKind (column orderBy records)) (orderDesc : Bool) :
    IsTotalPreorderOn {r | r ∈ records} (fieldOrder ops orderBy orderDesc) := by
  rw [← compareRecords_eq_fieldOrder, isTotalPreorderOn_iff]
  exact h.textsFit

/-- The records as `apply_pagination` sorts them. -/
def ordered (ops : TextOps) (params : QueryParams) (records : List Record) : List Record :=
  match params.orderBy with
  | some orderBy =>
    records.mergeSort fun a b => compareRecords ops orderBy params.orderDesc a b != .gt
  | none => records

/-- Sorting in the source is the stable sort. -/
theorem isOrdered_ordered {params : QueryParams} {records : List Record}
    (h : ∀ orderBy ∈ params.orderBy, OneKind (column orderBy records)) :
    IsOrdered ops params records (ordered ops params records) := by
  unfold IsOrdered ordered
  cases horder : params.orderBy with
  | none => rfl
  | some orderBy =>
    dsimp only
    rw [compareRecords_eq_fieldOrder]
    exact isStableSort_mergeSort (isTotalPreorderOn_fieldOrder (h orderBy horder) _)

theorem IsOrdered.unique {params : QueryParams} {records sorted sorted' : List Record}
    (h : ∀ orderBy ∈ params.orderBy, OneKind (column orderBy records))
    (hsorted : IsOrdered ops params records sorted)
    (hsorted' : IsOrdered ops params records sorted') : sorted = sorted' := by
  unfold IsOrdered at hsorted hsorted'
  cases horder : params.orderBy with
  | none =>
    rw [horder] at hsorted hsorted'
    exact hsorted.trans hsorted'.symm
  | some orderBy =>
    rw [horder] at hsorted hsorted'
    exact hsorted.unique (isTotalPreorderOn_fieldOrder (h orderBy horder) _) hsorted'

theorem oneKind_of_isSome_asF64 {values : Set Value}
    (h : ∀ v ∈ values, v.asF64.isSome = true) : OneKind values := by
  refine .inl fun v hv => ?_
  have hsome := h v hv
  cases v with
  | number n => exact ⟨n, rfl⟩
  | _ => cases hsome

theorem OneKind.mono {s t : Set Value} (h : OneKind t) (hst : s ⊆ t) : OneKind s :=
  h.imp (fun h v hv => h v (hst hv)) fun h v hv => h v (hst hv)

theorem column_matching_subset (it : IterOrder String Record) (db : MemoryDatabase)
    (table orderBy : String) (params : QueryParams) :
    column orderBy (matching ops it db table params) ⊆ column orderBy (records it db table) := by
  rintro v ⟨r, hr, hv⟩
  exact ⟨r, List.mem_of_mem_filter hr, hv⟩

/-! ### Pages -/

/-- Dropping past the end, which the source does as a case of its own. -/
theorem drop_of_lt_length {α : Type} (offset : ℕ) (l : List α) :
    (if offset < l.length then l.drop offset else []) = l.drop offset := by
  split
  · rfl
  · next hle => exact (List.drop_eq_nil_of_le (Nat.not_lt.mp hle)).symm

theorem applyPagination_eq (params : QueryParams) (records : List Record) :
    applyPagination ops records params = window params (ordered ops params records) := by
  obtain ⟨filters, select, orderBy, orderDesc, offset, limit⟩ := params
  unfold applyPagination window ordered
  cases offset with
  | none => cases limit <;> rfl
  | some offset =>
    simp only [drop_of_lt_length, Option.getD_some]
    cases limit <;> rfl

/-- A query without the cases for missing tables, offsets and limits. -/
theorem query_eq (it : IterOrder String Record) (db : MemoryDatabase) (table : String)
    (params : QueryParams) :
    query ops it db table params =
      (window params (ordered ops params (matching ops it db table params))).map fun r =>
        selectFields r params.select := by
  rw [query_eq_getD, applyPagination_eq]
  rfl

/-- A list in chunks. -/
theorem flatMap_range_chunk {α : Type} (l : List α) (n m : ℕ) :
    ((List.range m).flatMap fun k => (l.drop (k * n)).take n) = l.take (m * n) := by
  induction m with
  | zero => rw [Nat.zero_mul]; rfl
  | succ m ih =>
    rw [List.range_succ, List.flatMap_append, ih, List.flatMap_singleton, Nat.succ_mul,
      List.take_add]

/-- A page of a query is a chunk of what it returns without paging. -/
theorem query_page (it : IterOrder String Record) (db : MemoryDatabase) (table : String)
    (params : QueryParams) (n k : ℕ) :
    query ops it db table (page params n k) =
      ((query ops it db table (unpaginated params)).drop (k * n)).take n := by
  rw [query_eq, query_eq]
  exact (List.map_take.trans (congrArg (List.take n) List.map_drop)).trans rfl

/-- **The query specification.** If the non-null values of the field to sort by are numbers, or
strings, a query returns the selected fields of the records that match, in order, from the offset on
and up to the limit.  Its pages of any size are, one after the other, what it returns without
paging. -/
theorem query_spec (ops : TextOps) (it : IterOrder String Record) (db : MemoryDatabase)
    (table : String) (params : QueryParams)
    (hkind : ∀ orderBy ∈ params.orderBy, OneKind (column orderBy (records it db table))) :
    (∃ sorted, IsOrdered ops params (matching ops it db table params) sorted ∧
      (∀ sorted', IsOrdered ops params (matching ops it db table params) sorted' →
        sorted' = sorted) ∧
      query ops it db table params =
        (window params sorted).map fun r => selectFields r params.select) ∧
    ∀ n ≥ 1, ∃ m, (∀ k ≥ m, query ops it db table (page params n k) = []) ∧
      ((List.range m).flatMap fun k => query ops it db table (page params n k)) =
        query ops it db table (unpaginated params) := by
  have hmatching : ∀ orderBy ∈ params.orderBy,
      OneKind (column orderBy (matching ops it db table params)) := fun orderBy horder =>
    (hkind orderBy horder).mono (column_matching_subset it db table orderBy params)
  have hordered : IsOrdered ops params (matching ops it db table params)
      (ordered ops params (matching ops it db table params)) := isOrdered_ordered hmatching
  refine ⟨⟨_, hordered, fun sorted' h => h.unique hmatching hordered, query_eq it db table params⟩,
    fun n hn => ?_⟩
  -- as many pages as there are records are enough
  have hlen : ∀ k ≥ (query ops it db table (unpaginated params)).length,
      (query ops it db table (unpaginated params)).length ≤ k * n :=
    fun k hk => hk.trans (Nat.le_mul_of_pos_right k hn)
  refine ⟨(query ops it db table (unpaginated params)).length, fun k hk => ?_, ?_⟩
  · rw [query_page, List.drop_eq_nil_of_le (hlen k hk), List.take_nil]
  · simp only [query_page]
    rw [flatMap_range_chunk, List.take_of_length_le (hlen _ le_rfl)]

/-- Two users of ranks `7` and `5`, on pages of one record each. -/
theorem query_spec_users :
    let ops : TextOps := { toLowercase := id, formatF64 := fun _ => "" }
    let user : UInt64 → Record := fun rank => (∅ : Record).insert "rank" (.number (.posInt rank))
    let users : Table := ((∅ : Table).insert "a" (user 7)).insert "b" (user 5)
    let db : MemoryDatabase := { tables := (∅ : HashMap String Table).insert "users" users }
    let params : QueryParams := { QueryParams.new with orderBy := some "rank" }
    (∀ orderBy ∈ params.orderBy, OneKind (column orderBy (records .sorted db "users"))) ∧
      (∃ sorted, IsOrdered ops params (matching ops .sorted db "users" params) sorted) ∧
      ∃ m, ((List.range m).flatMap fun k => query ops .sorted db "users" (page params 1 k)) =
        query ops .sorted db "users" (unpaginated params) := by
  intro ops user users db params
  have hranks : ∀ r ∈ records .sorted db "users", ∀ v ∈ present r["rank"]?,
      v.asF64.isSome = true := by decide
  have hkind : ∀ orderBy ∈ params.orderBy,
      OneKind (column orderBy (records .sorted db "users")) := by
    rintro _ ⟨⟩
    refine oneKind_of_isSome_asF64 ?_
    rintro v ⟨r, hr, hv⟩
    exact hranks r hr v hv
  obtain ⟨⟨sorted, hsorted, -⟩, hpages⟩ := query_spec ops .sorted db "users" params hkind
  obtain ⟨m, -, hm⟩ := hpages 1 le_rfl
  exact ⟨hkind, ⟨sorted, hsorted⟩, m, hm⟩

end SweGateway.MemoryDatabase

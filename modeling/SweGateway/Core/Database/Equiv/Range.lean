import SweGateway.Core.Database.Equiv.Query

/-!
# Range filters and the sort order

A value `v` of a field divides the records of a table into four blocks: those below `v`, those
within the range from `v` to `v`, those above `v`, and those without a value.  The first three are
what the filters `__lt`, `__gte` together with `__lte`, and `__gt` select.

Filters and sorting reach `compare_values` on different ways.  `range_agreement` says that they
agree: a query that sorts by the field returns the blocks one after the other.
-/

namespace SweGateway.MemoryDatabase

open Comparator

variable {ops : TextOps}

/-- The parts of a table, as seen from a value of a field. -/
inductive RangeBlock where
  | below
  | within
  | above
  /-- The field is null or missing. -/
  | absent
  deriving DecidableEq, Repr

/-- The query for the records that match the filters, sorted by the field. -/
def sortedBy (field : String) (orderDesc : Bool) (filters : HashMap String Value) : QueryParams :=
  { QueryParams.new with filters := filters, orderBy := some field, orderDesc := orderDesc }

/-- The filters that select the records of a block, if there are any. -/
def RangeBlock.filters (field : String) (v : Value) : RangeBlock → Option (HashMap String Value)
  | below => some ((∅ : HashMap String Value).insert (field ++ "__lt") v)
  | within =>
    some (((∅ : HashMap String Value).insert (field ++ "__gte") v).insert (field ++ "__lte") v)
  | above => some ((∅ : HashMap String Value).insert (field ++ "__gt") v)
  | absent => none

/-- The record is in the block. -/
def RangeBlock.contains (ops : TextOps) (field : String) (v : Value) (b : RangeBlock)
    (r : Record) : Bool :=
  match b.filters field v with
  | some filters => matchesFilters ops r filters
  | none => (present r[field]?).isNone

/-- The records of a block: what the query with its filters returns, and the records without a value
in the order of the iteration. -/
def RangeBlock.query (ops : TextOps) (it : IterOrder String Record) (db : MemoryDatabase)
    (table field : String) (orderDesc : Bool) (v : Value) (b : RangeBlock) : List Record :=
  match b.filters field v with
  | some filters => MemoryDatabase.query ops it db table (sortedBy field orderDesc filters)
  | none => (records it db table).filter fun r => (present r[field]?).isNone

/-! ### Filter keys -/

/-- A field with a suffix is parsed into the two, whatever the field is called. -/
theorem parseFilterKey_append (field : String) {suffix : String} {operator : FilterOperator}
    (h : (suffix, operator) ∈ filterSuffixes) :
    parseFilterKey (field ++ suffix) = (field, operator) := by
  simp only [filterSuffixes, List.mem_cons, Prod.mk.injEq, List.not_mem_nil, or_false] at h
  rcases h with ⟨rfl, rfl⟩ | ⟨rfl, rfl⟩ | ⟨rfl, rfl⟩ | ⟨rfl, rfl⟩ | ⟨rfl, rfl⟩ | ⟨rfl, rfl⟩
  all_goals
    simp [parseFilterKey, filterSuffixes, List.isSuffixOf?, List.isPrefixOf?]

/-! ### The blocks -/

section Blocks

variable {field : String} {v : Value} {s : Set Value}

/-- The order of the values of the field in one direction or the other. -/
def valueOrder (ops : TextOps) (orderDesc : Bool) : Value → Value → Ordering :=
  if orderDesc then reverse (mixed number (text ops)) else mixed number (text ops)

theorem fieldOrder_eq (orderDesc : Bool) (a b : Record) :
    fieldOrder ops field orderDesc a b =
      nullsLast (valueOrder ops orderDesc) (present a[field]?) (present b[field]?) := by
  rw [← compareRecords_eq_fieldOrder, compareRecords_eq]
  rfl

theorem OneKind.isTotalPreorderOn (h : OneKind s) (orderDesc : Bool) :
    IsTotalPreorderOn s (valueOrder ops orderDesc) := by
  have hmixed : IsTotalPreorderOn s (mixed number (text ops)) :=
    isTotalPreorderOn_mixed.mpr h.textsFit
  cases orderDesc with
  | false => exact hmixed
  | true => exact hmixed.reverse

theorem OneKind.present_some (h : OneKind s) (hv : v ∈ s) : present (some v) = some v := by
  rcases h with hnumbers | hstrings
  · obtain ⟨n, rfl⟩ := hnumbers v hv
    rfl
  · obtain ⟨t, rfl⟩ := hstrings v hv
    rfl

theorem valueOrder_apply (orderDesc : Bool) (w : Value) :
    valueOrder ops orderDesc w v =
      if orderDesc then (mixed number (text ops) w v).swap else mixed number (text ops) w v := by
  cases orderDesc <;> rfl

/-- What a comparison operator asks of a record. -/
theorem comparesWith_eq (hv : present (some v) = some v) (accepts : Ordering → Bool) (r : Record) :
    comparesWith ops accepts r[field]? v =
      (present r[field]?).any fun w => accepts (mixed number (text ops) w v) := by
  unfold comparesWith
  cases hr : present r[field]? with
  | none => rfl
  | some w =>
    rw [Option.any_some, Option.any_some, compareValues_eq, present_of_present hr, hv]
    rfl

/-- A filter with a suffix asks what its operator asks of the field. -/
theorem matchesFilters_suffix (r : Record) {filters : HashMap String Value} {suffix : String}
    (operator : FilterOperator) (h : (suffix, operator) ∈ filterSuffixes)
    (hnew : filters[field ++ suffix]? = none) :
    matchesFilters ops r (filters.insert (field ++ suffix) v) =
      (matchesFilterCondition ops r[field]? operator v && matchesFilters ops r filters) := by
  rw [matchesFilters_insert hnew, parseFilterKey_append field h]

/-- So does the only filter. -/
theorem matchesFilters_single (r : Record) {suffix : String} (operator : FilterOperator)
    (h : (suffix, operator) ∈ filterSuffixes) :
    matchesFilters ops r ((∅ : HashMap String Value).insert (field ++ suffix) v) =
      matchesFilterCondition ops r[field]? operator v := by
  rw [matchesFilters_suffix r operator h Std.ExtTreeMap.getElem?_empty, matchesFilters_empty,
    Bool.and_true]

theorem contains_below (r : Record) :
    RangeBlock.contains ops field v .below r = comparesWith ops (· == .lt) r[field]? v :=
  matchesFilters_single r .lt (by decide)

/-- Being neither before nor after is being with. -/
theorem contains_within (r : Record) :
    RangeBlock.contains ops field v .within r =
      (comparesWith ops (· != .gt) r[field]? v && comparesWith ops (· != .lt) r[field]? v) := by
  have hne : field ++ "__gte" ≠ field ++ "__lte" := by simp [String.ext_iff]
  have hgte : ((∅ : HashMap String Value).insert (field ++ "__gte") v)[field ++ "__lte"]? =
      none := by
    rw [HashMap.getElem?_insert_of_ne hne, Std.ExtTreeMap.getElem?_empty]
  show matchesFilters ops r (((∅ : HashMap String Value).insert (field ++ "__gte") v).insert
    (field ++ "__lte") v) = _
  rw [matchesFilters_suffix r .lte (by decide) hgte, matchesFilters_single r .gte (by decide)]
  rfl

theorem contains_above (r : Record) :
    RangeBlock.contains ops field v .above r = comparesWith ops (· == .gt) r[field]? v :=
  matchesFilters_single r .gt (by decide)

/-- How the values of the field compare with `v` in a block. -/
def RangeBlock.accepts : RangeBlock → Ordering → Bool
  | below, o => o == .lt
  | within, o => o == .eq
  | above, o => o == .gt
  | absent, _ => false

theorem RangeBlock.contains_eq_elim (hv : present (some v) = some v) (b : RangeBlock)
    (r : Record) :
    b.contains ops field v r =
      (present r[field]?).elim (b == absent) fun w => b.accepts (mixed number (text ops) w v) := by
  cases b with
  | below =>
    rw [contains_below, comparesWith_eq hv]
    cases present r[field]? <;> rfl
  | within =>
    rw [contains_within, comparesWith_eq hv, comparesWith_eq hv]
    cases present r[field]? with
    | none => rfl
    | some w =>
      simp only [Option.any_some, Option.elim_some, accepts]
      cases mixed number (text ops) w v <;> rfl
  | above =>
    rw [contains_above, comparesWith_eq hv]
    cases present r[field]? <;> rfl
  | absent =>
    show (present r[field]?).isNone = _
    cases present r[field]? <;> rfl

/-- Where the blocks are in the order. -/
def RangeBlock.rank (orderDesc : Bool) : RangeBlock → ℕ
  | below => if orderDesc then 2 else 0
  | within => 1
  | above => if orderDesc then 0 else 2
  | absent => 3

theorem RangeBlock.position_eq (orderDesc : Bool) (b : RangeBlock) (o : Ordering) :
    (position (if orderDesc then o.swap else o) == b.rank orderDesc) = b.accepts o := by
  cases orderDesc <;> cases b <;> cases o <;> rfl

/-- The block of a record is given by its rank. -/
theorem RangeBlock.contains_eq (hv : present (some v) = some v) (orderDesc : Bool) (b : RangeBlock)
    (r : Record) :
    b.contains ops field v r =
      (pivotRank (valueOrder ops orderDesc) (fun r : Record => present r[field]?) v r ==
        b.rank orderDesc) := by
  rw [b.contains_eq_elim hv, pivotRank]
  cases present r[field]? with
  | none => cases orderDesc <;> cases b <;> rfl
  | some w => rw [Option.elim_some, Option.elim_some, valueOrder_apply, b.position_eq]

end Blocks

/-! ### The agreement -/

section Agreement

variable {it : IterOrder String Record} {db : MemoryDatabase} {table field : String} {v : Value}

/-- A query that sorts by the field and selects all fields returns the stable sort of what
matches. -/
theorem isStableSort_query (ops : TextOps) (hkind : OneKind (column field (records it db table)))
    (orderDesc : Bool) (filters : HashMap String Value) :
    IsStableSort (fieldOrder ops field orderDesc)
      ((records it db table).filter fun r => matchesFilters ops r filters)
      (query ops it db table (sortedBy field orderDesc filters)) := by
  have hmatching : OneKind
      (column field (matching ops it db table (sortedBy field orderDesc filters))) :=
    hkind.mono (column_matching_subset it db table field _)
  have hordered : IsOrdered ops (sortedBy field orderDesc filters)
      (matching ops it db table (sortedBy field orderDesc filters))
      (ordered ops (sortedBy field orderDesc filters)
        (matching ops it db table (sortedBy field orderDesc filters))) := by
    refine isOrdered_ordered ?_
    rintro _ ⟨⟩
    exact hmatching
  rw [query_eq]
  exact (List.map_id' _).symm ▸ hordered

/-- Records without a value of the field all tie. -/
theorem isStableSort_absent (field : String) (orderDesc : Bool) (l : List Record) :
    IsStableSort (fieldOrder ops field orderDesc)
      (l.filter fun r => (present r[field]?).isNone)
      (l.filter fun r => (present r[field]?).isNone) where
  perm := List.Perm.refl _
  sorted := by
    refine List.pairwise_of_forall_mem_list fun a ha b hb => ?_
    have hna := Option.isNone_iff_eq_none.mp (List.mem_filter.mp ha).2
    have hnb := Option.isNone_iff_eq_none.mp (List.mem_filter.mp hb).2
    rw [fieldOrder, hna, hnb]
    exact nofun
  stable _ _ := rfl

/-- Of the records sorted by the field, those in a block are what its filters select. -/
theorem filter_contains_query (hkind : OneKind (column field (records it db table)))
    (orderDesc : Bool) (b : RangeBlock) :
    (query ops it db table (sortedBy field orderDesc ∅)).filter (b.contains ops field v) =
      b.query ops it db table field orderDesc v := by
  have hall := isStableSort_query ops hkind orderDesc ∅
  simp only [matchesFilters_empty, List.filter_true] at hall
  have hblock : IsStableSort (fieldOrder ops field orderDesc)
      ((records it db table).filter (b.contains ops field v))
      (b.query ops it db table field orderDesc v) := by
    cases b with
    | absent => exact isStableSort_absent field orderDesc _
    | _ => exact isStableSort_query ops hkind orderDesc _
  refine IsStableSort.unique ?_ (hall.filter _) hblock
  exact (isTotalPreorderOn_fieldOrder hkind orderDesc).mono fun r hr => List.mem_of_mem_filter hr

/-- The blocks in the order of their ranks. -/
theorem query_eq_blocks (hkind : OneKind (Insert.insert v (column field (records it db table))))
    (orderDesc : Bool) {b₀ b₂ : RangeBlock} (h₀ : b₀.rank orderDesc = 0)
    (h₂ : b₂.rank orderDesc = 2) :
    query ops it db table (sortedBy field orderDesc ∅) =
      b₀.query ops it db table field orderDesc v ++
        (RangeBlock.within.query ops it db table field orderDesc v ++
          (b₂.query ops it db table field orderDesc v ++
            RangeBlock.absent.query ops it db table field orderDesc v)) := by
  have hcolumn := hkind.mono (Set.subset_insert v _)
  have hv : present (some v) = some v := hkind.present_some (Set.mem_insert v _)
  have hsort := isStableSort_query ops hcolumn orderDesc ∅
  simp only [matchesFilters_empty, List.filter_true] at hsort
  have horder : IsTotalPreorderOn (Insert.insert v {w | ∃ r ∈ query ops it db table
      (sortedBy field orderDesc ∅), present r[field]? = some w}) (valueOrder ops orderDesc) := by
    refine (hkind.isTotalPreorderOn orderDesc).mono (Set.insert_subset_insert ?_)
    rintro w ⟨r, hr, hw⟩
    exact ⟨r, hsort.perm.mem_iff.mp hr, hw⟩
  have hblocks := filter_pivotRank horder (hsort.sorted.imp fun {a b} hab => by
    rwa [fieldOrder_eq] at hab)
  have hrank : ∀ b : RangeBlock, b.contains ops field v = fun r =>
      pivotRank (valueOrder ops orderDesc) (fun r : Record => present r[field]?) v r ==
        b.rank orderDesc := fun b => funext (b.contains_eq hv orderDesc)
  simp only [← filter_contains_query hcolumn orderDesc, hrank, h₀, h₂]
  exact hblocks.symm

/-- Every record is in exactly one block. -/
theorem existsUnique_contains (hv : present (some v) = some v) (r : Record) :
    ∃! b : RangeBlock, b.contains ops field v r = true := by
  simp only [RangeBlock.contains_eq_elim hv]
  cases present r[field]? with
  | none => exact ⟨.absent, rfl, fun b hb => beq_iff_eq.mp hb⟩
  | some w =>
    simp only [Option.elim_some]
    cases mixed number (text ops) w v with
    | lt => exact ⟨.below, rfl, fun b hb => by cases b <;> first | rfl | cases hb⟩
    | eq => exact ⟨.within, rfl, fun b hb => by cases b <;> first | rfl | cases hb⟩
    | gt => exact ⟨.above, rfl, fun b hb => by cases b <;> first | rfl | cases hb⟩

end Agreement

/-- **Range filters agree with the sort order.** If the non-null values of a field and `v` are all
numbers or all strings, sorting by the field gives the records below `v`, those from `v` to `v`,
those above `v` and those without a value, each as their filters select them.  In the descending
order the first three come the other way round.  Each record of the table is in one block, and each
block has the records of the table that are in it. -/
theorem range_agreement (ops : TextOps) (it : IterOrder String Record) (db : MemoryDatabase)
    (table field : String) (v : Value)
    (hkind : OneKind (Insert.insert v (column field (records it db table)))) :
    let block := fun (orderDesc : Bool) (b : RangeBlock) =>
      b.query ops it db table field orderDesc v
    query ops it db table (sortedBy field false ∅) =
        block false .below ++ (block false .within ++ (block false .above ++ block false .absent)) ∧
      query ops it db table (sortedBy field true ∅) =
        block true .above ++ (block true .within ++ (block true .below ++ block true .absent)) ∧
      (∀ r ∈ records it db table, ∃! b : RangeBlock, b.contains ops field v r = true) ∧
      ∀ orderDesc (b : RangeBlock) r, r ∈ block orderDesc b ↔
        r ∈ records it db table ∧ b.contains ops field v r = true := by
  intro block
  have hcolumn := hkind.mono (Set.subset_insert v _)
  refine ⟨query_eq_blocks hkind false rfl rfl, query_eq_blocks hkind true rfl rfl, ?_, ?_⟩
  · intro r _
    exact existsUnique_contains (hkind.present_some (Set.mem_insert v _)) r
  · intro orderDesc b r
    have hsort := isStableSort_query ops hcolumn orderDesc ∅
    simp only [matchesFilters_empty, List.filter_true] at hsort
    show r ∈ b.query ops it db table field orderDesc v ↔ _
    rw [← filter_contains_query hcolumn, List.mem_filter, hsort.perm.mem_iff]

/-- Two users of ranks `7` and `5`, as seen from the rank `6`. -/
theorem range_agreement_users :
    let ops : TextOps := { toLowercase := id, formatF64 := fun _ => "" }
    let user : UInt64 → Record := fun rank => (∅ : Record).insert "rank" (.number (.posInt rank))
    let users : Table := ((∅ : Table).insert "a" (user 7)).insert "b" (user 5)
    let db : MemoryDatabase := { tables := (∅ : HashMap String Table).insert "users" users }
    let six : Value := .number (.posInt 6)
    let block := fun (orderDesc : Bool) (b : RangeBlock) =>
      b.query ops .sorted db "users" "rank" orderDesc six
    OneKind (Insert.insert six (column "rank" (records .sorted db "users"))) ∧
      query ops .sorted db "users" (sortedBy "rank" false ∅) =
        block false .below ++ (block false .within ++ (block false .above ++ block false .absent)) ∧
      query ops .sorted db "users" (sortedBy "rank" true ∅) =
        block true .above ++ (block true .within ++ (block true .below ++ block true .absent)) := by
  intro ops user users db six block
  have hranks : ∀ r ∈ records .sorted db "users", ∀ v ∈ present r["rank"]?,
      v.asF64.isSome = true := by decide
  have hkind : OneKind (Insert.insert six (column "rank" (records .sorted db "users"))) := by
    refine oneKind_of_isSome_asF64 ?_
    rintro v (rfl | ⟨r, hr, hv⟩)
    · rfl
    · exact hranks r hr v hv
  obtain ⟨hasc, hdesc, -⟩ := range_agreement ops .sorted db "users" "rank" six hkind
  exact ⟨hkind, hasc, hdesc⟩

end SweGateway.MemoryDatabase

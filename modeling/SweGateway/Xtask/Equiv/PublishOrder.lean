import SweGateway.Lib.Kahn
import SweGateway.Xtask.PublishOrder

/-!
# The publish order is a topological order

`topologicalSort` is Kahn's algorithm on the graph of the selected crates and the dependencies among
them (`depGraph`).  Its counts, which count a dependency for every time it is named, say what is
left to be listed of a crate's dependencies (`Counted`, `Simulates`); so a count is down to zero
when the crate's dependencies are all listed and not before, and no count is ever taken below zero.
Every round of the loop is a step of the algorithm (`listCrate_simulates`), and with as many rounds
as there are crates the loop comes to its end (`topologicalSort_eq`).

What the graph is determines the result: neither the order of the crates nor the order and the
repetitions of the dependencies nor the iteration over the counts shows in it
(`topologicalSort_canonical`).

What `buildWorkspaceDeps` lists are the dependencies of the packages on each other; so no package is
published before one that it is built with (`publish_after_dependencies`).
-/

namespace SweGateway.Xtask

variable {crates : List String} {workspaceDeps : HashMap String (List String)}

/-- The crate `a` has the crate `b` among its dependencies. -/
def DependsOn (crates : List String) (workspaceDeps : HashMap String (List String))
    (a b : String) : Prop :=
  a ∈ crates ∧ b ∈ crates ∧ b ∈ workspaceDeps.getD a []

/-- The crates and the dependencies among them. -/
def depGraph (crates : List String) (workspaceDeps : HashMap String (List String)) :
    DepGraph String where
  vertices := crates.toFinset
  needs := DependsOn crates workspaceDeps
  mem h := ⟨List.mem_toFinset.mpr h.1, List.mem_toFinset.mpr h.2.1⟩

/-- The dependencies of a crate that are counted, as often as they are named. -/
def listedDeps (crates : List String) (workspaceDeps : HashMap String (List String))
    (name : String) : List String :=
  (workspaceDeps.getD name []).filter fun dep => dep ∈ crates

theorem dependsOn_iff {a b : String} :
    DependsOn crates workspaceDeps a b ↔ a ∈ crates ∧ b ∈ listedDeps crates workspaceDeps a := by
  simp only [DependsOn, listedDeps, List.mem_filter, decide_eq_true_eq]
  tauto

/-! ### Counting -/

/-- The counts are right for the crates of `l`. -/
structure Counted (crates : List String) (workspaceDeps : HashMap String (List String))
    (l : List String) (c : Counts) : Prop where
  inDegree : ∀ a : String, c.inDegree[a]? =
    if a ∈ l then some (listedDeps crates workspaceDeps a).length else none
  dependents : ∀ a b : String, (c.dependents.getD b []).count a =
    if a ∈ l then (listedDeps crates workspaceDeps a).count b else 0

theorem contains_crateSet (crates : List String) (dep : String) :
    (Std.ExtTreeSet.ofList crates : HashSet String).contains dep = decide (dep ∈ crates) := by
  rw [Bool.eq_iff_iff, Std.ExtTreeSet.contains_iff_mem, Std.ExtTreeSet.mem_ofList,
    decide_eq_true_eq, List.contains_iff_mem]

/-- Counting the dependencies of a crate that has a count. -/
theorem inDegree_foldl_countDep (crates : List String) (name : String) (deps : List String)
    {c : Counts} {k : ℕ} (hk : c.inDegree[name]? = some k) (a : String) :
    (deps.foldl (countDep (Std.ExtTreeSet.ofList crates) name) c).inDegree[a]? =
      if name = a then some (k + (deps.filter fun dep => dep ∈ crates).length)
      else c.inDegree[a]? := by
  induction deps generalizing c k with
  | nil =>
    by_cases ha : name = a
    · subst ha
      simpa using hk
    · simp [ha]
  | cons dep deps ih =>
    rw [List.foldl_cons, countDep, contains_crateSet]
    by_cases hdep : dep ∈ crates
    · have hk' : (c.inDegree.insert name (c.inDegree.getD name 0 + 1))[name]? = some (k + 1) := by
        rw [Std.ExtTreeMap.getElem?_insert_self, Std.ExtTreeMap.getD_eq_getD_getElem?, hk,
          Option.getD_some]
      rw [decide_eq_true hdep, if_pos rfl, ih hk', HashMap.getElem?_insert_ite,
        List.filter_cons_of_pos (by simpa using hdep), List.length_cons]
      split
      · congr 1
        omega
      · rfl
    · rw [decide_eq_false hdep, if_neg Bool.false_ne_true, ih hk,
        List.filter_cons_of_neg (by simpa using hdep)]

theorem dependents_foldl_countDep (crates : List String) (name : String) (deps : List String)
    (c : Counts) (b : String) :
    (deps.foldl (countDep (Std.ExtTreeSet.ofList crates) name) c).dependents.getD b [] =
      c.dependents.getD b [] ++
        List.replicate ((deps.filter fun dep => dep ∈ crates).count b) name := by
  induction deps generalizing c with
  | nil => simp
  | cons dep deps ih =>
    rw [List.foldl_cons, countDep, contains_crateSet]
    by_cases hdep : dep ∈ crates
    · rw [decide_eq_true hdep, if_pos rfl, ih, HashMap.getD_insert_ite,
        List.filter_cons_of_pos (by simpa using hdep), List.count_cons]
      by_cases hb : dep = b
      · subst hb
        simp [List.replicate_succ]
      · simp [hb]
    · rw [decide_eq_false hdep, if_neg Bool.false_ne_true, ih,
        List.filter_cons_of_neg (by simpa using hdep)]

/-- The counts of the crates of `l`, where a crate is counted as often as it is in `l`. -/
structure CountedTimes (crates : List String) (workspaceDeps : HashMap String (List String))
    (l : List String) (c : Counts) : Prop where
  inDegree : ∀ a : String, c.inDegree[a]? =
    if a ∈ l then some (l.count a * (listedDeps crates workspaceDeps a).length) else none
  dependents : ∀ a b : String, (c.dependents.getD b []).count a =
    l.count a * (listedDeps crates workspaceDeps a).count b

/-- **One more crate** is counted, be it for the first time or again. -/
theorem CountedTimes.concat {l : List String} {c : Counts}
    (h : CountedTimes crates workspaceDeps l c) (name : String) :
    CountedTimes crates workspaceDeps (l ++ [name])
      (countDeps (Std.ExtTreeSet.ofList crates) workspaceDeps c name) := by
  have hinsert : ∀ a : String, (c.inDegree.insertIfNew name 0)[a]? =
      if name = a then some (l.count name * (listedDeps crates workspaceDeps name).length)
      else c.inDegree[a]? := by
    intro a
    rw [Std.ExtTreeMap.getElem?_insertIfNew]
    by_cases ha : name = a
    · subst ha
      by_cases hname : name ∈ l
      · have hmem : name ∈ c.inDegree := by
          rw [Std.ExtTreeMap.mem_iff_isSome_getElem?, h.inDegree, if_pos hname]
          rfl
        rw [if_neg (by simp [hmem]), h.inDegree, if_pos hname, if_pos rfl]
      · have hmem : name ∉ c.inDegree := by
          rw [Std.ExtTreeMap.mem_iff_isSome_getElem?, h.inDegree, if_neg hname]
          simp
        simp [hmem, List.count_eq_zero.mpr hname]
    · simp [ha]
  have hdeps : countDeps (Std.ExtTreeSet.ofList crates) workspaceDeps c name =
      (workspaceDeps.getD name []).foldl (countDep (Std.ExtTreeSet.ofList crates) name)
        { c with inDegree := c.inDegree.insertIfNew name 0 } := by
    rw [countDeps, Std.ExtTreeMap.getD_eq_getD_getElem?]
    cases workspaceDeps[name]? <;> rfl
  have hstart := (hinsert name).trans (if_pos rfl)
  rw [hdeps]
  refine ⟨fun a => ?_, fun a b => ?_⟩
  · rw [inDegree_foldl_countDep crates name _ hstart]
    show (if name = a then some (l.count name * (listedDeps crates workspaceDeps name).length +
        (listedDeps crates workspaceDeps name).length)
      else (c.inDegree.insertIfNew name 0)[a]?) = _
    rw [hinsert, h.inDegree]
    by_cases ha : name = a
    · subst ha
      simp [Nat.succ_mul]
    · simp [ha, Ne.symm ha, List.count_append]
  · rw [dependents_foldl_countDep, List.count_append, List.count_replicate, List.count_append]
    show (c.dependents.getD b []).count a +
      (if name == a then (listedDeps crates workspaceDeps name).count b else 0) = _
    rw [h.dependents]
    by_cases ha : name = a
    · subst ha
      simp [Nat.succ_mul]
    · simp [ha]

/-- **The counting loop.** -/
theorem countedTimes_foldl (crates : List String) (workspaceDeps : HashMap String (List String))
    (l : List String) :
    CountedTimes crates workspaceDeps l
      (l.foldl (countDeps (Std.ExtTreeSet.ofList crates) workspaceDeps)
        { inDegree := ∅, dependents := ∅ }) := by
  induction l using List.reverseRecOn with
  | nil => exact ⟨by simp, by simp⟩
  | append_singleton l name ih =>
    rw [List.foldl_append]
    exact ih.concat name

/-- Crates that are different are all counted once. -/
theorem counted_foldl (hnodup : crates.Nodup) :
    Counted crates workspaceDeps crates
      (crates.foldl (countDeps (Std.ExtTreeSet.ofList crates) workspaceDeps)
        { inDegree := ∅, dependents := ∅ }) := by
  have h := countedTimes_foldl crates workspaceDeps crates
  refine ⟨fun a => ?_, fun a b => ?_⟩
  · rw [h.inDegree]
    split
    · next ha => rw [List.count_eq_one_of_mem hnodup ha, Nat.one_mul]
    · rfl
  · rw [h.dependents]
    split
    · next ha => rw [List.count_eq_one_of_mem hnodup ha, Nat.one_mul]
    · next ha => rw [List.count_eq_zero.mpr ha, Nat.zero_mul]

/-! ### Counting down -/

/-- **Counting down** a list of crates, each as often as it is in the list: there is no panic if the
counts are high enough, and the crates whose counts come down to zero are added, each once. -/
theorem foldlM_countDown (deps : List String) (m : HashMap String ℕ) (next : List String)
    (h : ∀ a ∈ deps, ∃ k, m[a]? = some k ∧ deps.count a ≤ k) :
    ∃ m' added, deps.foldlM countDown (m, next) = .ok (m', next ++ added) ∧
      (∀ a : String, m'[a]? = m[a]?.map fun k => k - deps.count a) ∧ added.Nodup ∧
      ∀ a, a ∈ added ↔ a ∈ deps ∧ m[a]? = some (deps.count a) := by
  induction deps generalizing m next with
  | nil => exact ⟨m, [], by simp [pure, Except.pure], by simp, List.nodup_nil, by simp⟩
  | cons dep deps ih =>
    obtain ⟨k, hk, hcount⟩ := h dep List.mem_cons_self
    rw [List.count_cons_self] at hcount
    obtain ⟨deg, rfl⟩ : ∃ deg, k = deg + 1 := ⟨k - 1, by omega⟩
    have hinsert : ∀ a : String, (m.insert dep deg)[a]? = if dep = a then some deg else m[a]? :=
      fun a => HashMap.getElem?_insert_ite m dep a deg
    have hrest : ∀ a ∈ deps, ∃ k, (m.insert dep deg)[a]? = some k ∧ deps.count a ≤ k := by
      intro a ha
      rw [hinsert]
      by_cases hdep : dep = a
      · subst hdep
        exact ⟨deg, if_pos rfl, by omega⟩
      · obtain ⟨k', hk', hcount'⟩ := h a (List.mem_cons_of_mem dep ha)
        rw [List.count_cons_of_ne hdep] at hcount'
        exact ⟨k', by rw [if_neg hdep, hk'], hcount'⟩
    obtain ⟨m', added, hfold, hm', hnodup, hadded⟩ :=
      ih (m.insert dep deg) (if deg = 0 then next ++ [dep] else next) hrest
    have hstep : (dep :: deps).foldlM countDown (m, next) =
        deps.foldlM countDown (m.insert dep deg, if deg = 0 then next ++ [dep] else next) := by
      rw [List.foldlM_cons]
      simp only [countDown, hk]
      rfl
    -- the crate is added now, if its count has come down to zero
    have hzero : deg = 0 → dep ∉ deps := by
      intro hdeg hmem
      have := List.count_pos_iff.mpr hmem
      omega
    refine ⟨m', (if deg = 0 then [dep] else []) ++ added, ?_, fun a => ?_, ?_, fun a => ?_⟩
    · rw [hstep, hfold]
      split <;> simp
    · rw [hm', hinsert]
      by_cases hdep : dep = a
      · subst hdep
        simp only [if_pos, hk, Option.map_some, List.count_cons_self]
        congr 1
        omega
      · rw [if_neg hdep, List.count_cons_of_ne hdep]
    · split
      · next hdeg =>
        refine List.nodup_cons.mpr ⟨fun hmem => ?_, hnodup⟩
        exact hzero hdeg ((hadded dep).mp hmem).1
      · exact hnodup
    · rw [List.mem_append, hadded, hinsert, List.mem_cons]
      by_cases hdep : dep = a
      · subst hdep
        rw [if_pos rfl, hk, List.count_cons_self]
        by_cases hdeg : deg = 0
        · have hcount0 : deps.count dep = 0 := List.count_eq_zero.mpr (hzero hdeg)
          simp [hdeg, hcount0]
        · have hmem : deg = deps.count dep → dep ∈ deps := by
            intro heq
            apply List.count_pos_iff.mp
            omega
          simpa [hdeg] using hmem
      · rw [if_neg hdep, List.count_cons_of_ne hdep]
        have hne : a ≠ dep := Ne.symm hdep
        split <;> simp [hne]

/-! ### The loop -/

/-- The state of the loop is that of the algorithm, and the counts say how many of the dependencies
of each crate are not listed. -/
structure Simulates (crates : List String) (workspaceDeps : HashMap String (List String))
    (s : SortState) (st : DepGraph.State String) : Prop where
  sorted : s.sorted = st.sorted
  queue : s.queue = st.queue
  inDegree : ∀ a ∈ crates, s.inDegree[a]? =
    some ((listedDeps crates workspaceDeps a).countP fun b => b ∉ st.sorted)

/-- Names in order are the sorted list of their set. -/
theorem sortNames_eq {names : List String} {F : Finset String} (hnodup : names.Nodup)
    (hmem : ∀ a, a ∈ names ↔ a ∈ F) : sortNames names = F.sort := by
  have hperm : (sortNames names).Perm F.sort := by
    refine (List.mergeSort_perm names _).trans ?_
    refine (List.perm_ext_iff_of_nodup hnodup (Finset.sort_nodup _ _)).mpr fun a => ?_
    rw [hmem, Finset.mem_sort]
  have hsorted : (sortNames names).Pairwise (· ≤ ·) := by
    have h := @List.pairwise_mergeSort _ (fun a b : String => decide (a ≤ b))
      (fun a b c hab hbc => by
        simp only [decide_eq_true_eq] at hab hbc ⊢
        exact le_trans hab hbc)
      (fun a b => by
        simp only [Bool.or_eq_true, decide_eq_true_eq]
        exact le_total a b) names
    exact h.imp fun hab => of_decide_eq_true hab
  exact hperm.eq_of_pairwise' hsorted (Finset.pairwise_sort _ _)

section Loop

variable {c : Counts} {s : SortState} {sorted queue : List String} {n : String}

/-- What is left of the dependencies once `n` is listed, too. -/
theorem countP_concat {sorted : List String} {n : String} (hn : n ∉ sorted) (deps : List String) :
    deps.countP (fun b => b ∉ sorted) =
      deps.countP (fun b => b ∉ sorted ++ [n]) + deps.count n := by
  induction deps with
  | nil => rfl
  | cons b deps ih =>
    rw [List.countP_cons, List.countP_cons, List.count_cons, ih]
    by_cases hb : b = n
    · subst hb
      simp [hn]
      omega
    · simp [hb]
      omega

/-- All dependencies of a crate are listed if none is left to count. -/
theorem ready_iff {l : List String} {a : String} :
    (depGraph crates workspaceDeps).Ready l a ↔
      a ∈ crates ∧ (listedDeps crates workspaceDeps a).countP (fun b => b ∉ l) = 0 := by
  rw [DepGraph.Ready, List.countP_eq_zero]
  show a ∈ crates.toFinset ∧ (∀ b, DependsOn crates workspaceDeps a b → b ∈ l) ↔ _
  rw [List.mem_toFinset]
  refine and_congr_right fun ha => forall_congr' fun b => ?_
  rw [dependsOn_iff]
  simp [ha]

theorem Counted.mem_dependents (h : Counted crates workspaceDeps crates c) {a n : String} :
    a ∈ c.dependents.getD n [] ↔ a ∈ crates ∧ n ∈ listedDeps crates workspaceDeps a := by
  rw [← List.count_pos_iff, h.dependents, ← @List.count_pos_iff _ _ _ n]
  split
  · next ha => exact (and_iff_right ha).symm
  · next ha => exact iff_of_false (lt_irrefl 0) fun hmem => ha hmem.1

/-- What a round leaves, once the dependents have been counted down. -/
theorem listCrate_of_countDown {dependents : HashMap String (List String)} {m : HashMap String ℕ}
    {added : List String}
    (h : (dependents.getD n []).foldlM countDown (s.inDegree, []) = .ok (m, added)) :
    listCrate dependents n { s with queue := queue } =
      .ok { inDegree := m, queue := queue ++ sortNames added, sorted := s.sorted ++ [n] } := by
  rw [Std.ExtTreeMap.getD_eq_getD_getElem?] at h
  unfold listCrate
  cases hdeps : dependents[n]? with
  | some deps =>
    rw [hdeps, Option.getD_some] at h
    simp only [h]
    rfl
  | none =>
    rw [hdeps, Option.getD_none, List.foldlM_nil] at h
    cases h
    simp [sortNames, pure, Except.pure]

/-- **One round** of the loop is a step of the algorithm. -/
theorem listCrate_simulates (hcounted : Counted crates workspaceDeps crates c)
    (hsim : Simulates crates workspaceDeps s { sorted := sorted, queue := n :: queue })
    (hn : n ∉ sorted) :
    ∃ s', listCrate c.dependents n { s with queue := queue } = .ok s' ∧
      Simulates crates workspaceDeps s'
        { sorted := sorted ++ [n]
          queue := queue ++ ((depGraph crates workspaceDeps).released sorted n).sort } := by
  have hcount : ∀ a ∈ crates, (c.dependents.getD n []).count a =
      (listedDeps crates workspaceDeps a).count n := by
    intro a ha
    rw [hcounted.dependents, if_pos ha]
  -- a crate has what is left of its dependencies and `n`, as often as it depends on that
  have hdegree : ∀ a ∈ crates, s.inDegree[a]? =
      some ((listedDeps crates workspaceDeps a).countP (fun b => b ∉ sorted ++ [n]) +
        (c.dependents.getD n []).count a) := by
    intro a ha
    rw [hsim.inDegree a ha, hcount a ha, countP_concat hn]
  have henough : ∀ a ∈ c.dependents.getD n [], ∃ k, s.inDegree[a]? = some k ∧
      (c.dependents.getD n []).count a ≤ k := by
    intro a ha
    exact ⟨_, hdegree a (hcounted.mem_dependents.mp ha).1, Nat.le_add_left _ _⟩
  obtain ⟨m', added, hfold, hm', hnodup, hadded⟩ :=
    foldlM_countDown (c.dependents.getD n []) s.inDegree [] henough
  have hqueue : sortNames added = ((depGraph crates workspaceDeps).released sorted n).sort := by
    refine sortNames_eq hnodup fun a => ?_
    rw [hadded, hcounted.mem_dependents, DepGraph.mem_released, ready_iff]
    show _ ↔ DependsOn crates workspaceDeps a n ∧ _
    rw [dependsOn_iff]
    refine and_congr_right fun ⟨ha, _⟩ => ?_
    rw [hdegree a ha, Option.some.injEq, Nat.add_eq_right, and_iff_right ha]
  refine ⟨_, listCrate_of_countDown hfold, ?_, ?_, fun a ha => ?_⟩
  · show s.sorted ++ [n] = _
    rw [hsim.sorted]
  · show queue ++ sortNames added = _
    rw [hqueue]
  · show m'[a]? = some _
    rw [hm', hdegree a ha, Option.map_some, Nat.add_sub_cancel]

/-- **The loop** comes to the end of the algorithm, if it is given more rounds than there are crates
left to list. -/
theorem sortLoop_eq (hcounted : Counted crates workspaceDeps crates c) (fuel : ℕ)
    {st : DepGraph.State String} (hinv : (depGraph crates workspaceDeps).Inv st)
    (hsim : Simulates crates workspaceDeps s st)
    (hfuel : (depGraph crates workspaceDeps).vertices.card < fuel + st.sorted.length) :
    ∃ st', Relation.ReflTransGen (depGraph crates workspaceDeps).Step st st' ∧ st'.queue = [] ∧
      sortLoop c.dependents fuel s = some (.ok st'.sorted) := by
  induction fuel generalizing s st with
  | zero =>
    have hle := hinv.length_le
    omega
  | succ fuel ih =>
    obtain ⟨sorted, queue⟩ := st
    cases queue with
    | nil =>
      refine ⟨_, .refl, rfl, ?_⟩
      have hqueue : s.queue = [] := hsim.queue
      simp only [sortLoop, hqueue]
      rw [hsim.sorted]
    | cons n queue =>
      have hstep : (depGraph crates workspaceDeps).Step _ _ := .pop sorted queue n
      have hn : n ∉ sorted := by
        intro hmem
        exact (List.nodup_append.mp hinv.nodup).2.2 n hmem n List.mem_cons_self rfl
      obtain ⟨s', hs', hsim'⟩ := listCrate_simulates hcounted hsim hn
      have hlength : (sorted ++ [n]).length = sorted.length + 1 := List.length_append
      obtain ⟨st', hreach, hend, hloop⟩ := ih (hinv.step hstep) hsim' (by
        dsimp only at hfuel ⊢
        omega)
      refine ⟨st', .head hstep hreach, hend, ?_⟩
      have hqueue : s.queue = n :: queue := hsim.queue
      simp only [sortLoop, hqueue, hs']
      exact hloop

end Loop

/-! ### The result -/

/-- The result, where the dependencies have been counted as `deps` says. -/
theorem topologicalSort_eq_of_counted {deps : HashMap String (List String)}
    (hcounted : Counted crates deps crates
      (crates.foldl (countDeps (Std.ExtTreeSet.ofList crates) workspaceDeps)
        { inDegree := ∅, dependents := ∅ }))
    (it : IterOrder String ℕ) {fuel : ℕ} (hfuel : crates.length < fuel) :
    ∃ st, Relation.ReflTransGen (depGraph crates deps).Step (depGraph crates deps).initial st ∧
      st.queue = [] ∧
      topologicalSort it fuel crates workspaceDeps =
        some (if st.sorted.length ≠ crates.length then
          .error (circularDependency st.sorted.length crates.length)
        else .ok st.sorted) := by
  generalize hc : crates.foldl (countDeps (Std.ExtTreeSet.ofList crates) workspaceDeps)
    { inDegree := ∅, dependents := ∅ } = c at hcounted
  have hready : ∀ a, c.inDegree[a]? = some 0 ↔ (depGraph crates deps).Ready [] a := by
    intro a
    rw [hcounted.inDegree, Option.ite_none_right_eq_some, Option.some.injEq, ready_iff]
    simp
  have hinitial : sortNames (((HashMap.iter it c.inDegree).filter fun e => e.2 == 0).map Prod.fst) =
      (depGraph crates deps).initial.queue := by
    show _ = (depGraph crates deps).sources.sort
    apply sortNames_eq
    · exact (HashMap.nodup_keys_iter it c.inDegree).sublist (List.filter_sublist.map Prod.fst)
    · intro a
      rw [DepGraph.mem_sources, ← hready, List.mem_map]
      constructor
      · rintro ⟨⟨a, deg⟩, he, rfl⟩
        obtain ⟨he, hdeg⟩ := List.mem_filter.mp he
        obtain rfl : deg = 0 := eq_of_beq hdeg
        exact HashMap.mem_iter.mp he
      · intro ha
        exact ⟨(a, 0), List.mem_filter.mpr ⟨HashMap.mem_iter.mpr ha, rfl⟩, rfl⟩
  have hsim : Simulates crates deps
      { inDegree := c.inDegree
        queue := sortNames (((HashMap.iter it c.inDegree).filter fun e => e.2 == 0).map Prod.fst)
        sorted := [] } (depGraph crates deps).initial := by
    refine ⟨rfl, hinitial, fun a ha => ?_⟩
    show c.inDegree[a]? = some _
    rw [hcounted.inDegree, if_pos ha]
    simp [DepGraph.initial]
  have hcard : (depGraph crates deps).vertices.card ≤ crates.length := List.toFinset_card_le crates
  obtain ⟨st, hreach, hend, hloop⟩ := sortLoop_eq hcounted fuel
    (depGraph crates deps).inv_initial hsim (by omega)
  refine ⟨st, hreach, hend, ?_⟩
  simp only [topologicalSort, hc, hloop]
  rfl

/-- **The result**, with enough fuel, is what the algorithm lists, or an error if that is not all of
the crates. -/
theorem topologicalSort_eq (hnodup : crates.Nodup) (it : IterOrder String ℕ) {fuel : ℕ}
    (hfuel : crates.length < fuel) :
    ∃ st, Relation.ReflTransGen (depGraph crates workspaceDeps).Step
        (depGraph crates workspaceDeps).initial st ∧ st.queue = [] ∧
      topologicalSort it fuel crates workspaceDeps =
        some (if st.sorted.length ≠ crates.length then
          .error (circularDependency st.sorted.length crates.length)
        else .ok st.sorted) :=
  topologicalSort_eq_of_counted (counted_foldl hnodup) it hfuel

/-- **Topological sort.**  For all crates without duplicates and all dependencies, `topologicalSort`
comes to an end, without a panic, and succeeds exactly if no crate depends on itself, be it through
others; then it returns the crates, each after all of its dependencies among them. -/
theorem topologicalSort_correct {crates : List String} (hnodup : crates.Nodup)
    (workspaceDeps : HashMap String (List String)) (it : IterOrder String ℕ) :
    ∃ result, (∀ fuel, crates.length < fuel →
        topologicalSort it fuel crates workspaceDeps = some result) ∧
      result ≠ .error .panic ∧
      ((∃ sorted, result = .ok sorted) ↔
        ∀ a, ¬ Relation.TransGen (DependsOn crates workspaceDeps) a a) ∧
      ∀ sorted, result = .ok sorted → sorted.Perm crates ∧
        ∀ a b, DependsOn crates workspaceDeps a b → sorted.idxOf b < sorted.idxOf a := by
  have hlt : crates.length < crates.length + 1 := Nat.lt_succ_self _
  obtain ⟨st, hreach, hend, -⟩ := @topologicalSort_eq crates workspaceDeps hnodup it _ hlt
  have hinv := DepGraph.inv_of_reaches hreach
  have hcard : (depGraph crates workspaceDeps).vertices.card = crates.length :=
    List.toFinset_card_of_nodup hnodup
  have hiff : st.sorted.length = crates.length ↔
      ∀ a, ¬ Relation.TransGen (DependsOn crates workspaceDeps) a a := by
    rw [← hcard]
    exact DepGraph.length_sorted_eq_iff hinv hend
  have hresult : ∀ fuel, crates.length < fuel → topologicalSort it fuel crates workspaceDeps =
      some (if st.sorted.length ≠ crates.length then
        .error (circularDependency st.sorted.length crates.length)
      else .ok st.sorted) := by
    intro fuel hfuel
    obtain ⟨st', hreach', hend', heq⟩ := topologicalSort_eq hnodup it hfuel
    rw [heq, DepGraph.sorted_unique hreach hend hreach' hend']
  by_cases hlength : st.sorted.length = crates.length
  · rw [if_neg (not_not_intro hlength)] at hresult
    have horder := hinv.isOrder hend (hlength.trans hcard.symm)
    refine ⟨_, hresult, by simp, iff_of_true ⟨_, rfl⟩ (hiff.mp hlength), ?_⟩
    intro sorted hsorted
    obtain rfl : st.sorted = sorted := Except.ok.inj hsorted
    refine ⟨?_, horder.after⟩
    refine (List.perm_ext_iff_of_nodup horder.nodup hnodup).mpr fun a => ?_
    rw [horder.mem]
    exact List.mem_toFinset
  · rw [if_pos hlength] at hresult
    refine ⟨_, hresult, by simp [circularDependency], ?_, by simp⟩
    exact iff_of_false (by simp) fun hacyclic => hlength (hiff.mpr hacyclic)

/-- Of three crates that depend on each other in a line, the last one is published first. -/
theorem topologicalSort_correct_line :
    let workspaceDeps : HashMap String (List String) :=
      ((∅ : HashMap String (List String)).insert "app" ["core", "log", "core"]).insert "core" ["log"]
    topologicalSort .sorted 4 ["app", "core", "log"] workspaceDeps =
        some (.ok ["log", "core", "app"]) ∧
      ∀ a, ¬ Relation.TransGen (DependsOn ["app", "core", "log"] workspaceDeps) a a := by
  intro workspaceDeps
  have hnodup : ["app", "core", "log"].Nodup := by decide
  obtain ⟨result, hresult, -, hiff, -⟩ :=
    topologicalSort_correct hnodup workspaceDeps .sorted
  have hsorted : topologicalSort .sorted 4 ["app", "core", "log"] workspaceDeps =
      some (.ok ["log", "core", "app"]) := by decide +kernel
  have heq := (hresult 4 (by decide)).symm.trans hsorted
  exact ⟨hsorted, hiff.mp ⟨_, Option.some.inj heq⟩⟩

/-- **The order is canonical.**  The same crates in another order, the same dependencies in another
order and named more or less often, and another order of iteration give the same result. -/
theorem topologicalSort_canonical {crates crates' : List String} (hnodup : crates.Nodup)
    (hperm : crates.Perm crates') {workspaceDeps workspaceDeps' : HashMap String (List String)}
    (hdeps : ∀ a b : String, b ∈ workspaceDeps.getD a [] ↔ b ∈ workspaceDeps'.getD a [])
    (it it' : IterOrder String ℕ) {fuel fuel' : ℕ} (hfuel : crates.length < fuel)
    (hfuel' : crates'.length < fuel') :
    ∃ result, topologicalSort it fuel crates workspaceDeps = some result ∧
      topologicalSort it' fuel' crates' workspaceDeps' = some result := by
  have hgraph : depGraph crates workspaceDeps = depGraph crates' workspaceDeps' := by
    refine DepGraph.ext ?_ ?_
    · exact List.toFinset_eq_of_perm crates crates' hperm
    · funext a b
      show DependsOn crates workspaceDeps a b = DependsOn crates' workspaceDeps' a b
      rw [DependsOn, DependsOn, hperm.mem_iff, hperm.mem_iff, hdeps]
  obtain ⟨st, hreach, hend, heq⟩ := topologicalSort_eq hnodup it hfuel
  obtain ⟨st', hreach', hend', heq'⟩ := topologicalSort_eq (hperm.nodup_iff.mp hnodup) it' hfuel'
  rw [hgraph] at hreach
  refine ⟨_, heq, ?_⟩
  rw [heq', DepGraph.sorted_unique hreach hend hreach' hend', hperm.length_eq]

/-- The crates in the other order, with their dependencies in the other order and one of them named
twice, and the other order of iteration. -/
theorem topologicalSort_canonical_reversed :
    ∃ result,
      topologicalSort .sorted 4 ["a", "b", "c"]
        ((∅ : HashMap String (List String)).insert "a" ["b", "c"]) = some result ∧
      topologicalSort ⟨List.reverse, List.reverse_perm⟩ 9 ["c", "b", "a"]
        ((∅ : HashMap String (List String)).insert "a" ["c", "b", "b"]) = some result := by
  refine topologicalSort_canonical (by decide) (by decide) (fun a b => ?_) _ _ (by decide)
    (by decide)
  rw [HashMap.getD_insert_ite, HashMap.getD_insert_ite]
  split
  · simp [or_comm]
  · rfl

/-! ### The packages that are published -/

section Packages

variable {toPublish : List Package} {pkgMap : HashMap String Package}

/-- What is listed for a package: its dependencies among the packages that are published and are in
the workspace, but for those used in development only. -/
theorem mem_getD_buildWorkspaceDeps_of_inj
    (hinj : ∀ p ∈ toPublish, ∀ q ∈ toPublish, p.name = q.name → p = q) {pkg : Package}
    (hpkg : pkg ∈ toPublish) {name : String} :
    name ∈ (buildWorkspaceDeps toPublish pkgMap).getD pkg.name [] ↔
      ∃ dep ∈ pkg.dependencies, dep.name = name ∧ dep.kind ≠ .development ∧
        name ∈ toPublish.map Package.name ∧ name ∈ pkgMap := by
  have hfind : (toPublish.reverse.find? fun p => p.name = pkg.name) = some pkg := by
    cases hfind : toPublish.reverse.find? fun p => p.name = pkg.name with
    | none =>
      have h := List.find?_eq_none.mp hfind pkg (List.mem_reverse.mpr hpkg)
      exact absurd (decide_eq_true rfl) h
    | some p =>
      have hmem := List.mem_reverse.mp (List.mem_of_find?_eq_some hfind)
      have hname : p.name = pkg.name := of_decide_eq_true (List.find?_some hfind :)
      rw [hinj p hmem pkg hpkg hname]
  rw [Std.ExtTreeMap.getD_eq_getD_getElem?, buildWorkspaceDeps]
  dsimp only
  rw [HashMap.getElem?_foldl_insert, hfind, Option.map_some, Option.some_or, Option.getD_some,
    List.mem_map]
  constructor
  · rintro ⟨dep, hdep, rfl⟩
    rw [List.mem_filter, contains_crateSet, Bool.and_eq_true, Bool.and_eq_true, bne_iff_ne,
      decide_eq_true_eq, Std.ExtTreeMap.contains_iff_mem] at hdep
    obtain ⟨hdep, hkind, hpublished, hmember⟩ := hdep
    exact ⟨dep, hdep, rfl, hkind, hpublished, hmember⟩
  · rintro ⟨dep, hdep, rfl, hkind, hpublished, hmember⟩
    refine ⟨dep, ?_, rfl⟩
    rw [List.mem_filter, contains_crateSet, Bool.and_eq_true, Bool.and_eq_true, bne_iff_ne,
      decide_eq_true_eq, Std.ExtTreeMap.contains_iff_mem]
    exact ⟨hdep, hkind, hpublished, hmember⟩

theorem mem_getD_buildWorkspaceDeps (hnodup : (toPublish.map Package.name).Nodup) {pkg : Package}
    (hpkg : pkg ∈ toPublish) {name : String} :
    name ∈ (buildWorkspaceDeps toPublish pkgMap).getD pkg.name [] ↔
      ∃ dep ∈ pkg.dependencies, dep.name = name ∧ dep.kind ≠ .development ∧
        name ∈ toPublish.map Package.name ∧ name ∈ pkgMap :=
  mem_getD_buildWorkspaceDeps_of_inj
    (fun _ hp _ hq hname => List.inj_on_of_nodup_map hnodup hp hq hname) hpkg

/-- An order that comes of the sort is an order of the graph. -/
theorem isOrder_of_topologicalSort (hnodup : crates.Nodup) {it : IterOrder String ℕ} {fuel : ℕ}
    (hfuel : crates.length < fuel) {sorted : List String}
    (hsorted : topologicalSort it fuel crates workspaceDeps = some (.ok sorted)) :
    (depGraph crates workspaceDeps).IsOrder sorted := by
  obtain ⟨st, hreach, hend, heq⟩ := topologicalSort_eq hnodup it hfuel
  have hcard : (depGraph crates workspaceDeps).vertices.card = crates.length :=
    List.toFinset_card_of_nodup hnodup
  rw [hsorted, Option.some.injEq] at heq
  split at heq
  · cases heq
  · next hlength =>
    obtain rfl : sorted = st.sorted := Except.ok.inj heq
    exact (DepGraph.inv_of_reaches hreach).isOrder hend ((not_not.mp hlength).trans hcard.symm)

/-- **The publish order.**  Each package that is published comes after the packages of the workspace
that it needs and that are published with it. -/
theorem publish_after_dependencies (hnodup : (toPublish.map Package.name).Nodup)
    {it : IterOrder String ℕ} {fuel : ℕ} (hfuel : toPublish.length < fuel) {sorted : List String}
    (hsorted : topologicalSort it fuel (toPublish.map Package.name)
      (buildWorkspaceDeps toPublish pkgMap) = some (.ok sorted))
    {pkg : Package} (hpkg : pkg ∈ toPublish) {dep : Dependency} (hdep : dep ∈ pkg.dependencies)
    (hkind : dep.kind ≠ .development) (hpublished : dep.name ∈ toPublish.map Package.name)
    (hmember : dep.name ∈ pkgMap) : sorted.idxOf dep.name < sorted.idxOf pkg.name := by
  have horder := isOrder_of_topologicalSort hnodup (by rwa [List.length_map]) hsorted
  apply horder.after
  refine ⟨List.mem_map_of_mem hpkg, hpublished, ?_⟩
  exact (mem_getD_buildWorkspaceDeps hnodup hpkg).mpr
    ⟨dep, hdep, rfl, hkind, hpublished, hmember⟩

end Packages

end SweGateway.Xtask

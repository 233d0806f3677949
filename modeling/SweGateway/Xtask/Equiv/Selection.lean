import SweGateway.Xtask.Selection
import SweGateway.Xtask.Equiv.PublishOrder

/-!
# Reports of circular dependencies

The selected crates and the dependencies between them that are not for development only are a graph,
`selectedGraph`.  `TruthfulReports` says that `publishOrder` puts the crates in order, each once, if
the graph has no cycle, and that it reports a circular dependency only if the graph has one.

A package that is selected again counts its dependencies again (`countedTimes_foldl`), as if it
named each of them that many times (`repeatDeps`), so the loop lists what it would list of the
crates without repetition.  But then the number of crates that are listed is compared with the
number of names, in which repetitions count.  So the reports are truthful exactly if no name is
repeated or there is a cycle to report (`truthfulReports_iff`).
-/

namespace SweGateway.Xtask

variable {members : List Member} {packages : List String}

/-! ### What the reports should say -/

/-- The crate `a` and the crate `b` are selected, and `a` depends on `b`, not for development
only. -/
def SelectedDep (members : List Member) (packages : List String) (a b : String) : Prop :=
  a ∈ packages ∧ b ∈ packages ∧ ∃ pkg, (pkgMapOf members)[a]? = some pkg ∧
    ∃ dep ∈ pkg.dependencies, dep.name = b ∧ dep.kind ≠ .development

/-- The selected crates and the dependencies between them. -/
def selectedGraph (members : List Member) (packages : List String) : DepGraph String where
  vertices := packages.toFinset
  needs := SelectedDep members packages
  mem h := ⟨List.mem_toFinset.mpr h.1, List.mem_toFinset.mpr h.2.1⟩

/-- Every selected crate is in the order, once, if the graph has no cycle; and a cycle is reported
only if it has one. -/
def TruthfulReports (members : List Member) (packages : List String) : Prop :=
  ∀ (it : IterOrder String ℕ) (fuel : ℕ), packages.length < fuel →
    ((selectedGraph members packages).Acyclic → ∃ sorted,
      publishOrder it fuel members packages = some (.ok sorted) ∧ sorted.Nodup ∧
        ∀ name, name ∈ sorted ↔ name ∈ packages) ∧
    ∀ sorted crates, publishOrder it fuel members packages =
      some (.error (circularDependency sorted crates)) →
        ¬ (selectedGraph members packages).Acyclic

/-! ### The selection -/

/-- The package of a name is the last member that has it. -/
theorem getElem?_pkgMapOf (name : String) : (pkgMapOf members)[name]? =
    (members.reverse.find? fun member => member.name = name).map Member.toPackage := by
  rw [pkgMapOf, HashMap.getElem?_foldl_insert, Std.ExtTreeMap.getElem?_empty, Option.or_none]

/-- A package is kept under its name. -/
theorem name_of_getElem?_pkgMapOf {name : String} {pkg : Package}
    (h : (pkgMapOf members)[name]? = some pkg) : pkg.name = name := by
  rw [getElem?_pkgMapOf, Option.map_eq_some_iff] at h
  obtain ⟨member, hfind, rfl⟩ := h
  exact of_decide_eq_true (List.find?_some hfind :)

/-- A member is found. -/
theorem exists_getElem?_pkgMapOf {member : Member} (h : member ∈ members) :
    ∃ pkg, (pkgMapOf members)[member.name]? = some pkg := by
  rw [getElem?_pkgMapOf]
  cases hfind : members.reverse.find? fun m => m.name = member.name with
  | none =>
    have hne := List.find?_eq_none.mp hfind member (List.mem_reverse.mpr h)
    exact absurd (decide_eq_true rfl) hne
  | some m => exact ⟨m.toPackage, rfl⟩

/-- Names that are all found give their packages. -/
theorem exists_mapM_findPackage {pkgMap : HashMap String Package} {names : List String}
    (h : ∀ name ∈ names, ∃ pkg, pkgMap[name]? = some pkg) :
    ∃ toPublish, names.mapM (findPackage pkgMap) = .ok toPublish ∧
      List.Forall₂ (fun name pkg => pkgMap[name]? = some pkg) names toPublish := by
  induction names with
  | nil => exact ⟨[], rfl, .nil⟩
  | cons name names ih =>
    obtain ⟨pkg, hpkg⟩ := h name List.mem_cons_self
    obtain ⟨toPublish, hmap, hall⟩ := ih fun n hn => h n (List.mem_cons_of_mem name hn)
    refine ⟨pkg :: toPublish, ?_, .cons hpkg hall⟩
    rw [List.mapM_cons, findPackage, hpkg, hmap]
    rfl

theorem map_name_eq {names : List String} {toPublish : List Package}
    (h : List.Forall₂ (fun name pkg => (pkgMapOf members)[name]? = some pkg) names toPublish) :
    toPublish.map Package.name = names := by
  induction h with
  | nil => rfl
  | cons hpkg _ ih => rw [List.map_cons, ih, name_of_getElem?_pkgMapOf hpkg]

/-- What `publishOrder` sorts, if there is a member of every name: packages of these names, found
in the map. -/
theorem publishOrder_eq (hne : packages ≠ [])
    (hmember : ∀ name ∈ packages, ∃ member ∈ members, member.name = name) :
    ∃ toPublish : List Package, toPublish.map Package.name = packages ∧
      (∀ pkg ∈ toPublish, (pkgMapOf members)[pkg.name]? = some pkg) ∧
      ∀ (it : IterOrder String ℕ) (fuel : ℕ), publishOrder it fuel members packages =
        topologicalSort it fuel packages (buildWorkspaceDeps toPublish (pkgMapOf members)) := by
  have hall : ∀ name ∈ packages, ∃ pkg, (pkgMapOf members)[name]? = some pkg := by
    intro name hname
    obtain ⟨member, hmem, rfl⟩ := hmember name hname
    exact exists_getElem?_pkgMapOf hmem
  obtain ⟨toPublish, hmap, hall⟩ := exists_mapM_findPackage hall
  have hnames := map_name_eq hall
  refine ⟨toPublish, hnames, fun pkg hpkg => ?_, fun it fuel => ?_⟩
  · obtain ⟨name, -, hfound⟩ : ∃ name ∈ packages, (pkgMapOf members)[name]? = some pkg := by
      obtain ⟨i, hi, rfl⟩ := List.mem_iff_getElem.mp hpkg
      have hi' : i < packages.length := by rwa [hall.length_eq]
      exact ⟨packages[i], List.getElem_mem hi', hall.get hi' hi⟩
    rw [name_of_getElem?_pkgMapOf hfound, hfound]
  · have hempty : toPublish.isEmpty = false := by
      rw [List.isEmpty_eq_false_iff]
      rintro rfl
      exact hne hnames.symm
    have hpackages : packages.isEmpty = false := List.isEmpty_eq_false_iff.mpr hne
    simp only [publishOrder, selectPackages, hpackages, hmap, hempty, Bool.false_eq_true, if_false,
      hnames]

/-- The sort works on the graph of the selected crates. -/
theorem depGraph_buildWorkspaceDeps {toPublish : List Package}
    (hnames : toPublish.map Package.name = packages)
    (hfound : ∀ pkg ∈ toPublish, (pkgMapOf members)[pkg.name]? = some pkg) :
    depGraph packages (buildWorkspaceDeps toPublish (pkgMapOf members)) =
      selectedGraph members packages := by
  have hinj : ∀ p ∈ toPublish, ∀ q ∈ toPublish, p.name = q.name → p = q := by
    intro p hp q hq hname
    have heq := hfound p hp
    rw [hname, hfound q hq] at heq
    exact (Option.some.inj heq).symm
  refine DepGraph.ext rfl (funext fun a => funext fun b => propext ?_)
  show DependsOn _ _ a b ↔ SelectedDep members packages a b
  refine and_congr_right fun ha => and_congr_right fun hb => ?_
  obtain ⟨pkg, hpkg, rfl⟩ := List.mem_map.mp (hnames ▸ ha)
  obtain ⟨pkg', hpkg', rfl⟩ := List.mem_map.mp (hnames ▸ hb)
  rw [mem_getD_buildWorkspaceDeps_of_inj hinj hpkg, hfound pkg hpkg]
  have hin : pkg'.name ∈ pkgMapOf members := by
    rw [Std.ExtTreeMap.mem_iff_isSome_getElem?, hfound pkg' hpkg']
    rfl
  constructor
  · rintro ⟨dep, hdep, hname, hkind, -, -⟩
    exact ⟨pkg, rfl, dep, hdep, hname, hkind⟩
  · rintro ⟨p, hp, dep, hdep, hname, hkind⟩
    obtain rfl := Option.some.inj hp
    exact ⟨dep, hdep, hname, hkind, hnames ▸ hb, hin⟩

/-! ### Crates that are named again -/

/-- The dependencies, each named as often as its crate is in the list. -/
def repeatDeps (crates : List String) (workspaceDeps : HashMap String (List String)) :
    HashMap String (List String) :=
  workspaceDeps.map fun name deps => (List.replicate (crates.count name) deps).flatten

section Repeated

variable {crates : List String} {workspaceDeps : HashMap String (List String)}

theorem listedDeps_repeatDeps (a : String) : listedDeps crates (repeatDeps crates workspaceDeps) a =
    (List.replicate (crates.count a) (listedDeps crates workspaceDeps a)).flatten := by
  rw [listedDeps, listedDeps, repeatDeps, Std.ExtTreeMap.getD_eq_getD_getElem?,
    Std.ExtTreeMap.getD_eq_getD_getElem?, Std.ExtTreeMap.getElem?_map]
  cases workspaceDeps[a]? with
  | none => simp
  | some deps => simp [List.filter_flatten]

/-- **Counting crates that are named again** is counting their dependencies so many times. -/
theorem counted_repeatDeps : Counted crates (repeatDeps crates workspaceDeps) crates
    (crates.foldl (countDeps (Std.ExtTreeSet.ofList crates) workspaceDeps)
      { inDegree := ∅, dependents := ∅ }) := by
  have h := countedTimes_foldl crates workspaceDeps crates
  refine ⟨fun a => ?_, fun a b => ?_⟩
  · rw [h.inDegree, listedDeps_repeatDeps]
    simp
  · rw [h.dependents, listedDeps_repeatDeps]
    split
    · simp [List.count_flatten]
    · next ha => rw [List.count_eq_zero.mpr ha, Nat.zero_mul]

/-- The graph is the same. -/
theorem depGraph_repeatDeps :
    depGraph crates (repeatDeps crates workspaceDeps) = depGraph crates workspaceDeps := by
  refine DepGraph.ext rfl (funext fun a => funext fun b => propext ?_)
  show DependsOn _ _ a b ↔ DependsOn _ _ a b
  rw [dependsOn_iff, dependsOn_iff, listedDeps_repeatDeps]
  refine and_congr_right fun ha => ?_
  have hpos : crates.count a ≠ 0 := (List.count_pos_iff.mpr ha).ne'
  simp [hpos]

/-- **The sort**, of any crates, lists what the algorithm lists of the graph, and fails if that is
less than there are names. -/
theorem topologicalSort_eq_of_repeated (it : IterOrder String ℕ) {fuel : ℕ}
    (hfuel : crates.length < fuel) :
    ∃ st, Relation.ReflTransGen (depGraph crates workspaceDeps).Step
        (depGraph crates workspaceDeps).initial st ∧ st.queue = [] ∧
      topologicalSort it fuel crates workspaceDeps =
        some (if st.sorted.length ≠ crates.length then
          .error (circularDependency st.sorted.length crates.length)
        else .ok st.sorted) := by
  have h := topologicalSort_eq_of_counted
    (@counted_repeatDeps crates workspaceDeps) it hfuel
  rwa [depGraph_repeatDeps] at h

end Repeated

/-! ### Truthful reports -/

/-- A package without dependencies. -/
def leafMember (name : String) : Member where
  name := name
  version := "0.1.0"
  dependencies := []
  features := ∅
  publish := none

/-- Without a cycle, the different crates are put in order, and the number of them is compared with
that of the names. -/
theorem publishOrder_of_acyclic (hne : packages ≠ [])
    (hmember : ∀ name ∈ packages, ∃ member ∈ members, member.name = name)
    (hacyclic : (selectedGraph members packages).Acyclic) (it : IterOrder String ℕ) {fuel : ℕ}
    (hfuel : packages.length < fuel) :
    ∃ sorted, (selectedGraph members packages).IsOrder sorted ∧
      publishOrder it fuel members packages =
        some (if packages.Nodup then .ok sorted
          else .error (circularDependency sorted.length packages.length)) := by
  obtain ⟨toPublish, hnames, hfound, horder⟩ := publishOrder_eq hne hmember
  obtain ⟨st, hreach, hend, hsort⟩ := @topologicalSort_eq_of_repeated packages
    (buildWorkspaceDeps toPublish (pkgMapOf members)) it fuel hfuel
  rw [depGraph_buildWorkspaceDeps hnames hfound] at hreach
  have hinv := DepGraph.inv_of_reaches hreach
  have hlength : st.sorted.length = packages.toFinset.card :=
    (DepGraph.length_sorted_eq_iff hinv hend).mpr hacyclic
  have hnodup : packages.toFinset.card = packages.length ↔ packages.Nodup :=
    Multiset.toFinset_card_eq_card_iff_nodup
  refine ⟨st.sorted, hinv.isOrder hend hlength, ?_⟩
  rw [horder, hsort, ite_not]
  simp only [hlength, hnodup]

/-- **Reports of circular dependencies** are truthful, for packages of the workspace, exactly if
none of them is named twice or there is a cycle. -/
theorem truthfulReports_iff (hne : packages ≠ [])
    (hmember : ∀ name ∈ packages, ∃ member ∈ members, member.name = name) :
    TruthfulReports members packages ↔
      packages.Nodup ∨ ¬ (selectedGraph members packages).Acyclic := by
  by_cases hacyclic : (selectedGraph members packages).Acyclic
  · have hresult := publishOrder_of_acyclic hne hmember hacyclic
    rw [or_iff_left (not_not_intro hacyclic)]
    constructor
    · -- a name that is repeated is missing in the order, and that is taken for a cycle
      intro htruthful
      by_contra hdup
      have hfuel := Nat.lt_succ_self packages.length
      obtain ⟨sorted, -, hresult⟩ := hresult .sorted hfuel
      obtain ⟨sorted', hok, -⟩ := (htruthful .sorted _ hfuel).1 hacyclic
      rw [if_neg hdup, hok] at hresult
      cases hresult
    · intro hnodup it fuel hfuel
      obtain ⟨sorted, hsorted, hresult⟩ := hresult it hfuel
      rw [if_pos hnodup] at hresult
      have hmem : ∀ name, name ∈ sorted ↔ name ∈ packages :=
        fun name => (hsorted.mem name).trans List.mem_toFinset
      refine ⟨fun _ => ⟨sorted, hresult, hsorted.nodup, hmem⟩, fun n k herror => ?_⟩
      rw [hresult] at herror
      cases herror
  · refine iff_of_true (fun it fuel _ => ?_) (.inr hacyclic)
    exact ⟨fun h => absurd h hacyclic, fun _ _ _ => hacyclic⟩

/-- Two packages, each named once. -/
theorem truthfulReports_iff_two :
    let members := [leafMember "a", leafMember "b"]
    TruthfulReports members ["a", "b"] ↔
      ["a", "b"].Nodup ∨ ¬ (selectedGraph members ["a", "b"]).Acyclic := by
  intro members
  refine truthfulReports_iff (by decide) fun name hname => ?_
  rcases List.mem_cons.mp hname with rfl | hname
  · exact ⟨leafMember "a", List.mem_cons_self, rfl⟩
  · obtain rfl := List.mem_singleton.mp hname
    exact ⟨leafMember "b", List.mem_cons_of_mem _ (List.mem_singleton_self _), rfl⟩

/-- A package without dependencies that is named twice is reported as a circular dependency. -/
theorem not_truthfulReports_twice : ¬ TruthfulReports [leafMember "a"] ["a", "a"] := by
  intro h
  have herror : publishOrder .sorted 3 [leafMember "a"] ["a", "a"] =
      some (.error (circularDependency 1 2)) := by decide +kernel
  refine (h .sorted 3 (by decide)).2 1 2 herror ?_
  have hneeds : ∀ a b, ¬ SelectedDep [leafMember "a"] ["a", "a"] a b := by
    rintro a b ⟨-, -, pkg, hpkg, dep, hdep, -⟩
    rw [getElem?_pkgMapOf, Option.map_eq_some_iff] at hpkg
    obtain ⟨member, hfind, rfl⟩ := hpkg
    obtain rfl := List.mem_singleton.mp (List.mem_of_find?_eq_some hfind)
    exact absurd hdep List.not_mem_nil
  intro a ha
  obtain ⟨b, hab, -⟩ := Relation.TransGen.head'_iff.mp ha
  exact hneeds a b hab

end SweGateway.Xtask

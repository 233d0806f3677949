import SweGateway.Xtask.Equiv.Publish
import SweGateway.Xtask.Equiv.Selection
import SweGateway.Xtask.Run

/-!
# Publishing from end to end

A dry run finds out what a run would publish and changes nothing.  It fails exactly if the run fails
before it comes to the registry's directories (`runPublish_cases`).

A run may be ended by an error at any point.  What it has published by then is the first crates of
the publish order, so a crate that has its checksum in the index has the crates that it needs
published, too (`run_outcome`).
-/

namespace SweGateway.Xtask

/-- The package needs the other one, not for development only. -/
def Package.Needs (a b : Package) : Prop :=
  ∃ dep ∈ a.dependencies, dep.name = b.name ∧ dep.kind ≠ .development

/-- What has become of the registry `reg` by publishing the packages, be it to the end or not. -/
structure Outcome (t : Tools) (toPublish : List Package) (reg reg' : Registry) : Prop where
  /-- A package is published after those that it needs. -/
  needs : ∀ a ∈ toPublish, ∀ b ∈ toPublish, a.Needs b →
    (∃ e ∈ reg'.entries t a.name a.version, e.cksum ≠ placeholderCksum) →
      reg'.Intact t b.name b.version
  /-- Nothing else has changed. -/
  untouched : ∀ name vers, ¬ Keyed toPublish name vers →
    reg'.entries t name vers = reg.entries t name vers ∧
      reg'.stored name vers = reg.stored name vers

section Traversal

variable {α β ε : Type} {f : α → Except ε β} {l : List α} {ys : List β}

/-- A traversal that succeeds gives a result for each of the elements. -/
theorem forall₂_of_mapM (h : l.mapM f = .ok ys) : List.Forall₂ (fun x y => f x = .ok y) l ys := by
  induction l generalizing ys with
  | nil =>
    cases h
    exact .nil
  | cons a l ih =>
    rw [List.mapM_cons] at h
    cases ha : f a with
    | error e =>
      rw [ha] at h
      cases h
    | ok b =>
      cases hl : l.mapM f with
      | error e =>
        rw [ha, hl] at h
        cases h
      | ok bs =>
        rw [ha, hl] at h
        cases h
        exact .cons ha (ih hl)

theorem exists_of_mem_mapM (h : l.mapM f = .ok ys) {y : β} (hy : y ∈ ys) :
    ∃ x ∈ l, f x = .ok y := by
  have hall := forall₂_of_mapM h
  obtain ⟨i, hi, rfl⟩ := List.mem_iff_getElem.mp hy
  have hi' : i < l.length := by rwa [hall.length_eq]
  exact ⟨l[i], List.getElem_mem hi', hall.get hi' hi⟩

end Traversal

/-! ### The crates that are completed -/

/-- Phase 2 completes the first crates of the order. -/
theorem completedFrom_prefix (t : Tools) (sorted : List Package) :
    t.completedFrom sorted <+: sorted := by
  induction sorted with
  | nil => exact List.prefix_rfl
  | cons pkg rest ih =>
    rw [Tools.completedFrom]
    cases t.cargoPackage pkg with
    | error e => exact List.nil_prefix
    | ok bytes =>
      dsimp only
      rw [List.prefix_cons_inj]
      cases t.gitCommitIndex ("publish " ++ pkg.name ++ " v" ++ pkg.version) with
      | error e => exact List.nil_prefix
      | ok u => exact ih

theorem completed_prefix (t : Tools) (sorted : List Package) : t.completed sorted <+: sorted := by
  unfold Tools.completed
  cases t.gitCommitIndex "pre-register crates for dependency resolution" with
  | error e => exact List.nil_prefix
  | ok u => exact completedFrom_prefix t sorted

/-- What comes before an element of a prefix is in the prefix. -/
theorem mem_of_idxOf_lt {α : Type} [DecidableEq α] {l l' : List α} (hfirst : l <+: l') {a b : α}
    (ha : a ∈ l) (hlt : l'.idxOf b < l'.idxOf a) : b ∈ l := by
  obtain ⟨rest, rfl⟩ := hfirst
  rw [List.idxOf_append_of_mem ha] at hlt
  by_contra hb
  rw [List.idxOf_append_of_notMem hb] at hlt
  have := List.idxOf_lt_length_of_mem ha
  omega

namespace PublishEnv

/-! ### The plan -/

section Plan

variable {members : List Member} {packages : List String} {toPublish : List Package}

/-- The packages that are selected are those of the map. -/
theorem getElem?_of_mem_selectPackages (hnodup : (members.map fun m => m.name).Nodup)
    (hselect : selectPackages members packages = .ok toPublish) {pkg : Package}
    (hpkg : pkg ∈ toPublish) : (pkgMapOf members)[pkg.name]? = some pkg := by
  unfold selectPackages at hselect
  split_ifs at hselect
  · cases hselect
    obtain ⟨member, hmember, rfl⟩ := List.mem_map.mp hpkg
    have hmem : member ∈ members := (List.mem_filter.mp hmember).1
    rw [getElem?_pkgMapOf]
    -- no other member has the name
    cases hfind : members.reverse.find? fun m => m.name = member.name with
    | none =>
      have hne := List.find?_eq_none.mp hfind member (List.mem_reverse.mpr hmem)
      exact absurd (decide_eq_true rfl) hne
    | some m =>
      have hm : m ∈ members := List.mem_reverse.mp (List.mem_of_find?_eq_some hfind)
      have hname : m.name = member.name := of_decide_eq_true (List.find?_some hfind :)
      rw [List.inj_on_of_nodup_map hnodup hm hmem hname]
      rfl
  · obtain ⟨name, -, hfound⟩ := exists_of_mem_mapM hselect hpkg
    unfold findPackage at hfound
    cases hname : (pkgMapOf members)[name]? with
    | none =>
      rw [hname] at hfound
      cases hfound
    | some p =>
      rw [hname] at hfound
      cases hfound
      rw [name_of_getElem?_pkgMapOf hname, hname]

/-- A package that is looked up is kept under its name. -/
theorem getElem?_of_lookup {names : List String} {sorted : List Package}
    (h : List.Forall₂ (fun name pkg => (pkgMapOf members)[name]? = some pkg) names sorted)
    {pkg : Package} (hpkg : pkg ∈ sorted) : (pkgMapOf members)[pkg.name]? = some pkg := by
  obtain ⟨i, hi, rfl⟩ := List.mem_iff_getElem.mp hpkg
  have hfound := h.get (by rwa [h.length_eq]) hi
  rwa [← name_of_getElem?_pkgMapOf hfound] at hfound

/-- A package of the selection is the package of its name. -/
theorem eq_of_name_eq (hnodup : (members.map fun m => m.name).Nodup)
    (hselect : selectPackages members packages = .ok toPublish) {a b : Package}
    (ha : a ∈ toPublish) (hb : b ∈ toPublish) (hname : a.name = b.name) : a = b := by
  have hfound := getElem?_of_mem_selectPackages hnodup hselect ha
  rw [hname, getElem?_of_mem_selectPackages hnodup hselect hb] at hfound
  exact (Option.some.inj hfound).symm

/-- If the sort succeeds, no crate was named twice. -/
theorem nodup_of_topologicalSort {crates : List String} {deps : HashMap String (List String)}
    {it : IterOrder String ℕ} {fuel : ℕ} (hfuel : crates.length < fuel) {sorted : List String}
    (hsorted : topologicalSort it fuel crates deps = some (.ok sorted)) : crates.Nodup := by
  obtain ⟨st, hreach, -, heq⟩ := @topologicalSort_eq_of_repeated crates deps it fuel hfuel
  rw [hsorted, Option.some.injEq] at heq
  split_ifs at heq with hlength
  have hle : st.sorted.length ≤ crates.toFinset.card :=
    (Nat.le_add_right _ _).trans (DepGraph.inv_of_reaches hreach).length_le
  rw [not_not.mp hlength] at hle
  exact Multiset.toFinset_card_eq_card_iff_nodup.mp (le_antisymm crates.toFinset_card_le hle)

/-- What a plan says: the crates that are selected, in an order of their graph. -/
theorem plan_spec {env : PublishEnv} (hnodup : (members.map fun m => m.name).Nodup)
    (hselect : selectPackages members packages = .ok toPublish) {sorted : List Package}
    (hplan : env.plan members packages = .ok sorted) :
    (∀ pkg, pkg ∈ sorted ↔ pkg ∈ toPublish) ∧
      ∀ a ∈ toPublish, ∀ b ∈ toPublish, a.Needs b →
        (sorted.map Package.name).idxOf b.name < (sorted.map Package.name).idxOf a.name := by
  have hfound := fun pkg (hpkg : pkg ∈ toPublish) =>
    getElem?_of_mem_selectPackages hnodup hselect hpkg
  unfold plan at hplan
  rw [hselect] at hplan
  change (if toPublish.isEmpty then _ else _) = Except.ok sorted at hplan
  split_ifs at hplan with hempty
  · cases hplan
    obtain rfl := List.isEmpty_iff.mp hempty
    exact ⟨fun _ => Iff.rfl, nofun⟩
  have hfuel := Nat.lt_succ_self (toPublish.map Package.name).length
  cases hsort : topologicalSort env.it ((toPublish.map Package.name).length + 1)
      (toPublish.map Package.name) (buildWorkspaceDeps toPublish (pkgMapOf members)) with
  | none =>
    rw [hsort] at hplan
    cases hplan
  | some result =>
    cases result with
    | error e =>
      rw [hsort] at hplan
      cases hplan
    | ok sortedNames =>
      rw [hsort] at hplan
      have hlookup : List.Forall₂ (fun name pkg => (pkgMapOf members)[name]? = some pkg)
          sortedNames sorted := by
        refine (forall₂_of_mapM hplan).imp fun name pkg h => ?_
        split at h
        · next p hp => rw [hp, Except.ok.inj h]
        · cases h
      have hnames := nodup_of_topologicalSort hfuel hsort
      have horder := isOrder_of_topologicalSort hnames hfuel hsort
      have hmem : ∀ name, name ∈ sorted.map Package.name ↔ name ∈ toPublish.map Package.name := by
        intro name
        rw [map_name_eq hlookup, horder.mem, depGraph, List.mem_toFinset]
      have hsub : ∀ pkg ∈ sorted, pkg ∈ toPublish := by
        intro pkg hpkg
        obtain ⟨p, hp, hname⟩ := List.mem_map.mp ((hmem pkg.name).mp (List.mem_map_of_mem hpkg))
        have hpkgMap := getElem?_of_lookup hlookup hpkg
        rw [← hname, hfound p hp] at hpkgMap
        rwa [← Option.some.inj hpkgMap]
      refine ⟨fun pkg => ⟨hsub pkg, fun hpkg => ?_⟩, fun a ha b hb hneeds => ?_⟩
      · obtain ⟨p, hp, hname⟩ := List.mem_map.mp ((hmem pkg.name).mpr (List.mem_map_of_mem hpkg))
        rwa [← eq_of_name_eq hnodup hselect (hsub p hp) hpkg hname]
      · rw [map_name_eq hlookup]
        obtain ⟨dep, hdep, hname, hkind⟩ := hneeds
        have hb' : b.name ∈ pkgMapOf members := by
          rw [Std.ExtTreeMap.mem_iff_isSome_getElem?, hfound b hb]
          rfl
        rw [← hname] at hb' ⊢
        exact publish_after_dependencies hnames (by rwa [← List.length_map (f := Package.name)])
          hsort ha hdep hkind (hname ▸ List.mem_map_of_mem hb) hb'

/-- A plan is made of a selection. -/
theorem exists_selectPackages {env : PublishEnv} {sorted : List Package}
    (hplan : env.plan members packages = .ok sorted) :
    ∃ toPublish, selectPackages members packages = .ok toPublish := by
  unfold plan at hplan
  cases hselect : selectPackages members packages with
  | error e =>
    rw [hselect] at hplan
    cases hplan
  | ok toPublish => exact ⟨toPublish, rfl⟩

end Plan

/-! ### The command -/

/-- **The command** fails without having changed anything, be it a dry run or not, or it has a plan,
which it carries out if it is not a dry run. -/
theorem runPublish_cases (env : PublishEnv) (packages : List String)
    (registryPath : Option (List Char)) :
    (∃ e, ∀ dryRun reg, env.runPublish packages dryRun registryPath reg = (.error e, reg)) ∨
    ∃ paths members sorted, env.metadata = .ok members ∧
      env.plan members packages = .ok sorted ∧
      ∀ dryRun reg, env.runPublish packages dryRun registryPath reg =
        if sorted.isEmpty ∨ dryRun = true then (.ok (), reg)
        else env.publishTo paths (env.workspace members paths reg) sorted reg := by
  unfold runPublish
  cases hpaths : resolveRegistry env.vars registryPath with
  | error e => exact .inl ⟨e, fun _ _ => rfl⟩
  | ok paths =>
    cases hmembers : env.metadata with
    | error e =>
      refine .inl ⟨.error ["Failed to get workspace metadata", e], fun _ _ => ?_⟩
      rw [workspaceMembers, hmembers]
      rfl
    | ok members =>
      have hok : env.workspaceMembers = .ok members := by rw [workspaceMembers, hmembers]
      cases hplan : env.plan members packages with
      | error e =>
        refine .inl ⟨e, fun _ _ => ?_⟩
        rw [hok]
        refine Eff.bind_of_ok rfl |>.trans (Eff.bind_of_ok rfl |>.trans
          (Eff.bind_of_ok rfl |>.trans (Eff.bind_of_error ?_)))
        rw [hplan]
        rfl
      | ok sorted =>
        refine .inr ⟨paths, members, sorted, rfl, hplan, fun dryRun reg => ?_⟩
        rw [hok]
        refine Eff.bind_of_ok rfl |>.trans (Eff.bind_of_ok rfl |>.trans
          (Eff.bind_of_ok rfl |>.trans ?_))
        rw [hplan]
        refine (Eff.bind_of_ok rfl).trans ?_
        cases hempty : sorted.isEmpty <;> cases dryRun <;> rfl

variable {t : Tools} {ws : Workspace} {members : List Member} {packages : List String}
  {toPublish : List Package}

/-- **Publishing a plan** keeps the order, wherever it ends. -/
theorem outcome_publish {env : PublishEnv} (hnodup : (members.map fun m => m.name).Nodup)
    (hselect : selectPackages members packages = .ok toPublish) {sorted : List Package}
    (hplan : env.plan members packages = .ok sorted) {reg : Registry}
    (hreturn : (t.publish ws sorted reg).1 ≠ .error .panic) :
    Outcome t toPublish reg (t.publish ws sorted reg).2 := by
  obtain ⟨hmem, hafter⟩ := plan_spec hnodup hselect hplan
  have h := progress_publish reg sorted hreturn
  have hkeyed : ∀ name vers, Keyed sorted.reverse name vers ↔ Keyed toPublish name vers := by
    intro name vers
    rw [keyed_reverse]
    simp only [Keyed, hmem]
  have hfirst := completed_prefix t sorted
  refine ⟨fun a ha b hb hneeds hreal => ?_, fun name vers hnot => ?_⟩
  · obtain ⟨e, he, hcksum⟩ := hreal
    have hdone : Keyed (t.completed sorted).reverse a.name a.version := by
      by_contra hnot
      obtain ⟨⟨e', hentries, hplaceholder⟩, -⟩ :=
        h.placeholder _ _ ((hkeyed _ _).mpr ⟨a, ha, rfl, rfl⟩) hnot
      rw [hentries] at he
      obtain rfl : e = e' := he
      exact hcksum hplaceholder
    obtain ⟨a', ha', hname, -⟩ := keyed_reverse.mp hdone
    have hb' : b.name ∈ (t.completed sorted).map Package.name :=
      mem_of_idxOf_lt (hfirst.map Package.name) (hname ▸ List.mem_map_of_mem ha')
        (hafter a ha b hb hneeds)
    obtain ⟨p, hp, hname⟩ := List.mem_map.mp hb'
    obtain rfl := eq_of_name_eq hnodup hselect ((hmem p).mp (hfirst.subset hp)) hb hname
    exact h.intact _ _ (keyed_reverse.mpr ⟨p, hp, rfl, rfl⟩)
  · have hsorted := mt (hkeyed name vers).mp hnot
    refine h.untouched name vers hsorted fun hdone => hsorted ?_
    obtain ⟨pkg, hpkg, hkey⟩ := keyed_reverse.mp hdone
    exact keyed_reverse.mpr ⟨pkg, hfirst.subset hpkg, hkey⟩

section Directories

variable {env : PublishEnv} {paths : RegistryPaths}

theorem publishTo_of_error {e : Failure} (h : ensureDirs env.createDirAll paths = .error e)
    (ws : Workspace) (sorted : List Package) (reg : Registry) :
    env.publishTo paths ws sorted reg = (.error e, reg) := by
  unfold publishTo
  rw [h]
  exact Eff.bind_of_error rfl

theorem publishTo_of_ok (h : ensureDirs env.createDirAll paths = .ok ()) (ws : Workspace)
    (sorted : List Package) (reg : Registry) :
    env.publishTo paths ws sorted reg = env.tools.publish ws sorted reg := by
  unfold publishTo
  rw [h]
  exact Eff.bind_of_ok rfl

end Directories

/-- **Publishing from end to end.** A dry run changes nothing.  It fails exactly if the run fails
before it comes to the registry's directories.  If it does not fail, the run changes nothing because
a directory cannot be created, or it keeps the order of the dependencies, wherever it ends, and if
it does not fail every package is intact. -/
theorem run_outcome (env : PublishEnv) (packages : List String) (registryPath : Option (List Char))
    (reg : Registry) (hmembers : env.metadata = .ok members)
    (hnodup : (members.map fun m => m.name).Nodup)
    (hreturn : (env.runPublish packages false registryPath reg).1 ≠ .error .panic) :
    let dry := env.runPublish packages true registryPath reg
    let run := env.runPublish packages false registryPath reg
    (∃ e, dry = (.error e, reg) ∧ run = (.error e, reg)) ∨
    (dry = (.ok (), reg) ∧ ∃ paths sorted toPublish,
      selectPackages members packages = .ok toPublish ∧ (∀ pkg, pkg ∈ sorted ↔ pkg ∈ toPublish) ∧
      run = (if sorted.isEmpty then (.ok (), reg)
        else env.publishTo paths (env.workspace members paths reg) sorted reg) ∧
      ((∃ e, ensureDirs env.createDirAll paths = .error e ∧ run = (.error e, reg)) ∨
        (Outcome env.tools toPublish reg run.2 ∧
          (run.1 = .ok () → ∀ pkg ∈ toPublish, run.2.Intact env.tools pkg.name pkg.version)))) := by
  intro dry run
  rcases runPublish_cases env packages registryPath with ⟨e, hfail⟩ | ⟨paths, members', sorted,
    hmembers', hplan, hrun⟩
  · exact .inl ⟨e, hfail true reg, hfail false reg⟩
  obtain rfl : members = members' := by
    rw [hmembers] at hmembers'
    exact Except.ok.inj hmembers'
  obtain ⟨toPublish, hselect⟩ := exists_selectPackages hplan
  obtain ⟨hmem, -⟩ := plan_spec hnodup hselect hplan
  have hreturn' : run.1 ≠ .error .panic := hreturn
  have hrun' := hrun false reg
  simp only [Bool.false_eq_true, or_false] at hrun'
  refine .inr ⟨(hrun true reg).trans (if_pos (.inr rfl)), paths, sorted, toPublish, hselect, hmem,
    hrun', ?_⟩
  change run = _ at hrun'
  by_cases hempty : sorted.isEmpty
  · -- nothing to publish
    rw [if_pos hempty] at hrun'
    obtain rfl := List.isEmpty_iff.mp hempty
    have hnone : ∀ pkg, pkg ∉ toPublish := fun pkg hpkg => List.not_mem_nil ((hmem pkg).mpr hpkg)
    rw [hrun']
    refine .inr ⟨⟨fun a ha => absurd ha (hnone a), fun _ _ _ => ⟨rfl, rfl⟩⟩, fun _ pkg hpkg => ?_⟩
    exact absurd hpkg (hnone pkg)
  rw [if_neg hempty] at hrun'
  cases hdirs : ensureDirs env.createDirAll paths with
  | error e => exact .inl ⟨e, rfl, hrun'.trans (publishTo_of_error hdirs _ _ _)⟩
  | ok u =>
    rw [publishTo_of_ok hdirs] at hrun'
    rw [hrun'] at hreturn' ⊢
    refine .inr ⟨outcome_publish hnodup hselect hplan hreturn', fun hok pkg hpkg => ?_⟩
    have h := progress_publish reg sorted hreturn'
    rw [completed_of_ok hok] at h
    exact h.intact _ _ (keyed_reverse.mpr ⟨pkg, (hmem pkg).mpr hpkg, rfl, rfl⟩)

/-- The members of a workspace, of which one needs the other. -/
def demoMembers : List Member :=
  let dep : Dependency := {
    name := "demo", req := "^0.1", kind := .normal, rename := none, features := [],
    optional := false, usesDefaultFeatures := true, target := none, registry := none }
  [{ name := "app", version := "0.2.0", dependencies := [dep], features := ∅, publish := none },
    { demo with publish := none }]

def demoEnv : PublishEnv where
  vars := { var := fun _ => none }
  metadata := .ok demoMembers
  it := .sorted
  listing := .ofFiles
  createDirAll := fun _ => .ok ()
  tools := demoTools true

/-- Both packages are published. -/
theorem run_outcome_demo :
    let dry := demoEnv.runPublish [] true (some "/registry".toList) demoRegistry
    let run := demoEnv.runPublish [] false (some "/registry".toList) demoRegistry
    (∃ e, dry = (.error e, demoRegistry) ∧ run = (.error e, demoRegistry)) ∨
    (dry = (.ok (), demoRegistry) ∧ ∃ paths sorted toPublish,
      selectPackages demoMembers [] = .ok toPublish ∧ (∀ pkg, pkg ∈ sorted ↔ pkg ∈ toPublish) ∧
      run = (if sorted.isEmpty then (.ok (), demoRegistry)
        else demoEnv.publishTo paths (demoEnv.workspace demoMembers paths demoRegistry) sorted
          demoRegistry) ∧
      ((∃ e, ensureDirs demoEnv.createDirAll paths = .error e ∧ run = (.error e, demoRegistry)) ∨
        (Outcome demoEnv.tools toPublish demoRegistry run.2 ∧
          (run.1 = .ok () →
            ∀ pkg ∈ toPublish, run.2.Intact demoEnv.tools pkg.name pkg.version)))) :=
  run_outcome demoEnv [] (some "/registry".toList) demoRegistry rfl (by decide) (by decide +kernel)

end PublishEnv

end SweGateway.Xtask

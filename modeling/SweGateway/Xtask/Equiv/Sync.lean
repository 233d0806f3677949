import SweGateway.Xtask.Equiv.Ws
import SweGateway.Xtask.Sync

/-!
# What looking for the members leaves

`sync` gives every member that is not on disk the path of the crate of its name, if there is one
(`repair`), and leaves all other members as they are, in their places.  Afterwards every member is on
disk or there is no crate of its name (`Settled`), so that `sync` has nothing more to do, be it with
another operating system (`sync_settles`).
-/

namespace SweGateway.Xtask.Ws

open DirTree LexicalPath

/-- The files that are found are on disk, and have names without a backslash. -/
structure Listed (root : List Char) (tree : DirTree (List Char)) (files : List CargoToml) :
    Prop where
  walks : ∀ file ∈ files, tree.Walks [] (components root ++ file.dir.map .name)
  isFileName : ∀ file ∈ files, ∀ n ∈ file.dir, IsFileName n
  backslash : ∀ file ∈ files, ∀ n ∈ file.dir, '\\' ∉ n

/-- The path of a member after `sync`. -/
def repair (root : List Char) (tree : DirTree (List Char)) (files : List CargoToml)
    (path : List Char) : List Char :=
  if OnDisk root tree path then path
  else
    match findCrateByName files path with
    | .ok (some newPath) => newPath
    | _ => path

/-- The member is on disk, or there is no crate of its name. -/
def Settled (root : List Char) (tree : DirTree (List Char)) (files : List CargoToml)
    (path : List Char) : Prop :=
  OnDisk root tree path ∨ findCrateByName files path = .ok none

variable {root : List Char} {tree : DirTree (List Char)} {files : List CargoToml}

/-! ### The crates that are found -/

theorem exists_of_findCrateByName {oldPath newPath : List Char}
    (h : findCrateByName files oldPath = .ok (some newPath)) :
    ∃ file ∈ files, newPath = file.relativePath := by
  induction files with
  | nil => cases h
  | cons file files ih =>
    rw [findCrateByName] at h
    have hrest : findCrateByName files oldPath = .ok (some newPath) →
        ∃ f ∈ file :: files, newPath = f.relativePath := by
      intro h
      obtain ⟨f, hf, heq⟩ := ih h
      exact ⟨f, List.mem_cons_of_mem file hf, heq⟩
    cases hpackage : file.package with
    | none =>
      rw [hpackage] at h
      exact hrest h
    | some package =>
      rw [hpackage] at h
      cases hname : itemIndex "name" package with
      | none =>
        simp only [hname] at h
        cases h
      | some name =>
        simp only [hname] at h
        split at h
        · cases h
          exact ⟨file, List.mem_cons_self, rfl⟩
        · exact hrest h

/-- The path of a crate leads to its directory. -/
theorem onDisk_relativePath (h : Listed root tree files) {file : CargoToml} (hfile : file ∈ files) :
    OnDisk root tree file.relativePath := by
  have hname := h.isFileName file hfile
  have hdir : file.dir.map (List.map replaceBackslash) = file.dir := by
    refine (List.map_congr_left fun n hn => ?_).trans (List.map_id _)
    refine (List.map_congr_left fun c hc => ?_).trans (List.map_id _)
    rw [replaceBackslash, if_neg, id]
    rintro rfl
    exact h.backslash file hfile n hn hc
  have htext : file.relativePath = ['/'].intercalate file.dir := by
    rw [CargoToml.relativePath, map_intercalate, hdir]
    rfl
  rw [OnDisk, htext, walks_join_iff (head?_intercalate_names hname),
    relative_intercalate_names hname, ← walks_append_iff]
  exact h.walks file hfile

/-! ### The loop over the members -/

/-- Repaired paths are settled. -/
theorem settled_repair (h : Listed root tree files) {path : List Char}
    (hfound : ∃ result, findCrateByName files path = .ok result) :
    Settled root tree files (repair root tree files path) := by
  obtain ⟨result, hresult⟩ := hfound
  unfold repair
  by_cases hmem : OnDisk root tree path
  · rw [if_pos hmem]
    exact .inl hmem
  · rw [if_neg hmem, hresult]
    cases result with
    | none => exact .inr hresult
    | some newPath =>
      obtain ⟨file, hfile, rfl⟩ := exists_of_findCrateByName hresult
      exact .inl (onDisk_relativePath h hfile)

/-- A member that is on disk. -/
theorem findFix_of_onDisk {glob : Except String (List CargoToml)} {path : List Char} {i : ℕ}
    {disk : Disk} (h : OnDisk root disk.tree path) :
    findFix glob root (.string path, i) disk = (.ok [], disk) := by
  have hexists : pathExists (components (join root path)) disk = (.ok true, disk) := by
    unfold OnDisk at h
    rw [pathExists, decide_eq_true h]
  exact Eff.bind_of_ok hexists

/-- A member that is not on disk. -/
theorem findFix_of_not_onDisk {path : List Char} {i : ℕ} {disk : Disk}
    (h : ¬ OnDisk root disk.tree path) :
    findFix (.ok files) root (.string path, i) disk =
      ((findCrateByName files path).map fun found =>
        match found with
        | some newPath => [{ index := i, old := path, new := newPath }]
        | none => [], disk) := by
  have hexists : pathExists (components (join root path)) disk = (.ok false, disk) := by
    unfold OnDisk at h
    rw [pathExists, decide_eq_false h]
  refine (Eff.bind_of_ok hexists).trans ?_
  cases hfound : findCrateByName files path with
  | error e =>
    refine (Eff.bind_of_ok (a := files) rfl).trans (Eff.bind_of_error ?_)
    rw [hfound]
    rfl
  | ok found =>
    have hok : Eff.ofExcept (findCrateByName files path) disk = (.ok found, disk) := by
      rw [Eff.ofExcept, hfound]
    refine (Eff.bind_of_ok (a := files) rfl).trans ((Eff.bind_of_ok hok).trans ?_)
    cases found <;> rfl

/-- A member that is settled gets no fix. -/
theorem findFix_of_settled {member : TomlValue} {i : ℕ} {disk : Disk}
    (h : ∀ path, member.asStr = some path → Settled root disk.tree files path) :
    findFix (.ok files) root (member, i) disk = (.ok [], disk) := by
  cases member with
  | string path =>
    by_cases hmem : OnDisk root disk.tree path
    · exact findFix_of_onDisk hmem
    · rw [findFix_of_not_onDisk hmem, (h path rfl).resolve_left hmem]
      rfl
  | array | inlineTable | scalar => rfl

/-- **One member.**  It is settled with its new path, and gets a fix if that is another one. -/
theorem findFix_eq_ok {member : TomlValue} {i : ℕ} {disk disk' : Disk} {fixes : List Fix}
    (hlisted : Listed root disk.tree files)
    (h : findFix (.ok files) root (member, i) disk = (.ok fixes, disk')) :
    let newMember := member.updatePath (repair root disk.tree files)
    disk' = disk ∧
      (∀ path, newMember.asStr = some path → Settled root disk.tree files path) ∧
      (fixes = [] ∧ newMember = member ∨
        ∃ old new, fixes = [{ index := i, old := old, new := new }] ∧
          newMember = .string new) := by
  intro newMember
  cases member with
  | string path =>
    have hpath : ∀ {p}, newMember.asStr = some p → repair root disk.tree files path = p :=
      fun hp => Option.some.inj hp
    by_cases hmem : OnDisk root disk.tree path
    · have hsame : repair root disk.tree files path = path := if_pos hmem
      rw [findFix_of_onDisk hmem] at h
      cases h
      refine ⟨rfl, fun p hp => ?_, .inl ⟨rfl, congrArg TomlValue.string hsame⟩⟩
      rw [← hpath hp, hsame]
      exact .inl hmem
    · rw [findFix_of_not_onDisk hmem] at h
      cases hfound : findCrateByName files path with
      | error e =>
        rw [hfound] at h
        cases h
      | ok found =>
        have hsettled := settled_repair hlisted ⟨found, hfound⟩
        rw [hfound] at h
        cases h
        refine ⟨rfl, fun p hp => hpath hp ▸ hsettled, ?_⟩
        cases found with
        | none =>
          refine .inl ⟨rfl, congrArg TomlValue.string ?_⟩
          rw [repair, if_neg hmem, hfound]
        | some newPath =>
          refine .inr ⟨path, newPath, rfl, congrArg TomlValue.string ?_⟩
          rw [repair, if_neg hmem, hfound]
  | array | inlineTable | scalar =>
    cases h
    exact ⟨rfl, nofun, .inl ⟨rfl, rfl⟩⟩

/-- **All members.**  The fixes, put in their places, give the members their new paths. -/
theorem mapM_findFix_eq_ok {members : List TomlValue} {n : ℕ} {disk disk' : Disk}
    {fixes : List (List Fix)} (hlisted : Listed root disk.tree files)
    (h : (members.zipIdx n).mapM (findFix (.ok files) root) disk = (.ok fixes, disk')) :
    let newMembers := members.map (TomlValue.updatePath (repair root disk.tree files))
    disk' = disk ∧
      (∀ m ∈ newMembers, ∀ path, m.asStr = some path → Settled root disk.tree files path) ∧
      ∀ front : List TomlValue, front.length = n →
        fixes.flatten.foldl (fun ms fix => ms.set fix.index (.string fix.new)) (front ++ members) =
          front ++ newMembers := by
  induction members generalizing n disk fixes with
  | nil =>
    cases h
    exact ⟨rfl, nofun, fun _ _ => rfl⟩
  | cons member members ih =>
    rw [List.zipIdx_cons, List.mapM_cons] at h
    obtain ⟨first, disk₁, hfirst, h⟩ := Eff.bind_eq_ok h
    obtain ⟨rest, disk₂, hrest, h⟩ := Eff.bind_eq_ok h
    cases h
    obtain ⟨hdisk, hsettled, hfix⟩ := findFix_eq_ok hlisted hfirst
    subst hdisk
    obtain ⟨hdisk, hsettled', hset⟩ := ih hlisted hrest
    subst hdisk
    refine ⟨rfl, List.forall_mem_cons.mpr ⟨hsettled, hsettled'⟩, fun front hfront => ?_⟩
    have hset' := hset (front ++ [member.updatePath (repair root disk'.tree files)])
      (by rw [List.length_append, hfront, List.length_singleton])
    rw [List.append_assoc, List.append_assoc] at hset'
    have hone : first.foldl (fun ms fix => ms.set fix.index (.string fix.new))
        (front ++ member :: members) =
          front ++ member.updatePath (repair root disk'.tree files) :: members := by
      rcases hfix with ⟨rfl, hsame⟩ | ⟨old, new, rfl, hnew⟩
      · rw [hsame]
        rfl
      · rw [hnew, List.foldl_cons, List.foldl_nil, List.set_append_right _ _ hfront.le, hfront,
          Nat.sub_self]
        rfl
    rw [List.flatten_cons, List.foldl_append, hone]
    exact hset'

/-- If all members are settled, there is nothing to fix. -/
theorem mapM_findFix_of_settled {members : List TomlValue} {n : ℕ} {disk : Disk}
    (h : ∀ m ∈ members, ∀ path, m.asStr = some path → Settled root disk.tree files path) :
    ∃ fixes, (members.zipIdx n).mapM (findFix (.ok files) root) disk = (.ok fixes, disk) ∧
      fixes.flatten = [] := by
  induction members generalizing n with
  | nil => exact ⟨[], rfl, rfl⟩
  | cons member members ih =>
    obtain ⟨hmember, hmembers⟩ := List.forall_mem_cons.mp h
    obtain ⟨fixes, hrest, hnil⟩ := @ih (n + 1) hmembers
    refine ⟨[] :: fixes, ?_, hnil⟩
    rw [List.zipIdx_cons, List.mapM_cons, Eff.bind_of_ok (findFix_of_settled hmember),
      Eff.bind_of_ok hrest]
    rfl

/-! ### The command -/

/-- The members, once the fixes are in their places. -/
theorem foldl_setMember {doc : Manifest} {members : List TomlValue}
    (h : doc.members = .value (.array members)) (fixes : List Fix) :
    fixes.foldl setMember doc = { doc with members := .value (.array
      (fixes.foldl (fun ms fix => ms.set fix.index (.string fix.new)) members)) } := by
  induction fixes generalizing doc members with
  | nil => rw [List.foldl_nil, List.foldl_nil, ← h]
  | cons fix fixes ih =>
    have hone : setMember doc fix =
        { doc with members := .value (.array (members.set fix.index (.string fix.new))) } := by
      rw [setMember, h]
    rw [List.foldl_cons, hone, ih rfl, List.foldl_cons]

theorem members_updateDependencies (newPath : List Char → List Char) (doc : Manifest) :
    (doc.updateDependencies newPath).members = doc.members := by
  unfold Manifest.updateDependencies
  split <;> rfl

theorem members_applyFixes (fixes : List Fix) (doc : Manifest) :
    (applyFixes fixes doc).members = (fixes.foldl setMember doc).members := by
  unfold applyFixes
  generalize fixes.foldl setMember doc = doc'
  induction fixes generalizing doc' with
  | nil => rfl
  | cons fix fixes ih =>
    rw [List.foldl_cons, ih]
    exact members_updateDependencies _ _

theorem readsOnly_findFix (glob : Except String (List CargoToml)) (root : List Char)
    (member : TomlValue × ℕ) : Eff.ReadsOnly (findFix glob root member) := by
  obtain ⟨member, i⟩ := member
  cases member with
  | string path =>
    refine Eff.ReadsOnly.bind (fun _ => rfl) fun found => ?_
    cases found with
    | true => exact Eff.readsOnly_pure []
    | false =>
      refine (Eff.readsOnly_ofExcept _).bind fun files => (Eff.readsOnly_ofExcept _).bind fun r => ?_
      cases r <;> exact Eff.readsOnly_pure _
  | array | inlineTable | scalar => exact Eff.readsOnly_pure []

/-- The members are an array, which is gone through, or there is no member with a path. -/
theorem findFixes_cases (glob : Except String (List CargoToml)) (root : List Char)
    (doc : Manifest) :
    (∃ members, doc.members = .value (.array members) ∧ findFixes glob root doc =
      members.zipIdx.mapM (findFix glob root) >>= fun fixes => pure fixes.flatten) ∨
    (doc.memberPaths = [] ∧ findFixes glob root doc = pure []) := by
  obtain ⟨members, dependencies⟩ := doc
  cases members with
  | value v =>
    cases v with
    | array members => exact .inl ⟨members, rfl, rfl⟩
    | string | inlineTable | scalar => exact .inr ⟨rfl, rfl⟩
  | none | table | arrayOfTables => exact .inr ⟨rfl, rfl⟩

theorem readsOnly_findFixes (glob : Except String (List CargoToml)) (root : List Char)
    (doc : Manifest) : Eff.ReadsOnly (findFixes glob root doc) := by
  rcases findFixes_cases glob root doc with ⟨members, -, heq⟩ | ⟨-, heq⟩
  · rw [heq]
    exact (Eff.ReadsOnly.mapM (readsOnly_findFix glob root) _).bind fun _ => Eff.readsOnly_pure _
  · rw [heq]
    exact Eff.readsOnly_pure []

theorem readsOnly_readManifest (os : Os) (root : List Char) :
    Eff.ReadsOnly (os.readManifest root) := by
  intro disk
  unfold Os.readManifest
  split <;> rfl

theorem readsOnly_indexMembers (doc : Manifest) : Eff.ReadsOnly (indexMembers doc) := by
  intro disk
  unfold indexMembers
  cases doc.members <;> rfl

/-- **A run of `sync`** ends with an error and changes nothing, or it has found the fixes and
applied them, if it is not a dry run. -/
theorem sync_cases (os : Os) (glob : Except String (List CargoToml)) (root : List Char)
    (dryRun : Bool) (disk : Disk) :
    (∃ e, sync os glob root dryRun disk = (.error e, disk)) ∨
    ∃ fixes, findFixes glob root disk.manifest disk = (.ok fixes, disk) ∧
      sync os glob root dryRun disk = (.ok (), if fixes = [] ∨ dryRun = true then disk
        else { disk with manifest := applyFixes fixes disk.manifest }) := by
  unfold sync
  rcases (readsOnly_readManifest os root).cases disk with ⟨doc, hread⟩ | ⟨e, hread⟩
  swap
  · exact .inl ⟨e, Eff.bind_of_error hread⟩
  obtain ⟨rfl, -⟩ := readManifest_eq_ok hread
  rw [Eff.bind_of_ok hread]
  rcases (readsOnly_indexMembers disk.manifest).cases disk with ⟨u, hindex⟩ | ⟨e, hindex⟩
  swap
  · exact .inl ⟨e, Eff.bind_of_error hindex⟩
  rw [Eff.bind_of_ok hindex]
  rcases (readsOnly_findFixes glob root disk.manifest).cases disk with
    ⟨fixes, hfixes⟩ | ⟨e, hfixes⟩
  swap
  · exact .inl ⟨e, Eff.bind_of_error hfixes⟩
  rw [Eff.bind_of_ok hfixes]
  by_cases hnil : fixes = []
  · rw [if_pos hnil]
    exact .inr ⟨fixes, hfixes, by rw [if_pos (.inl hnil)]; rfl⟩
  rw [if_neg hnil]
  cases dryRun with
  | true =>
    rw [if_pos rfl]
    exact .inr ⟨fixes, hfixes, by rw [if_pos (Or.inr rfl)]; rfl⟩
  | false =>
    rw [if_neg Bool.false_ne_true, Os.writeManifest, Os.call]
    cases os.answer disk (.write (cargoToml root)) with
    | ok u => exact .inr ⟨fixes, hfixes, by rw [if_neg (by simp [hnil])]⟩
    | error text => exact .inl ⟨.io text, rfl⟩

/-- The members of a manifest with paths for which there is nothing to fix. -/
theorem findFixes_of_settled {doc : Manifest} {disk : Disk}
    (h : ∀ path ∈ doc.memberPaths, Settled root disk.tree files path) :
    findFixes (.ok files) root doc disk = (.ok [], disk) := by
  rcases findFixes_cases (.ok files) root doc with ⟨members, hmembers, heq⟩ | ⟨-, heq⟩
  · have hsettled : ∀ m ∈ members, ∀ path, m.asStr = some path →
        Settled root disk.tree files path := by
      intro m hm path hpath
      refine h path ?_
      rw [Manifest.memberPaths, hmembers]
      exact List.mem_filterMap.mpr ⟨m, hm, hpath⟩
    obtain ⟨fixes, hrun, hnil⟩ := mapM_findFix_of_settled (n := 0) hsettled
    rw [heq, Eff.bind_of_ok hrun, hnil]
    rfl
  · rw [heq]
    rfl

/-- What the fixes make of the members. -/
theorem memberPaths_of_findFixes {doc : Manifest} {disk disk' : Disk} {fixes : List Fix}
    (hlisted : Listed root disk.tree files)
    (h : findFixes (.ok files) root doc disk = (.ok fixes, disk')) :
    (∀ path ∈ (applyFixes fixes doc).memberPaths, Settled root disk.tree files path) ∧
      (applyFixes fixes doc).memberPaths = doc.memberPaths.map (repair root disk.tree files) := by
  rcases findFixes_cases (.ok files) root doc with ⟨members, hmembers, heq⟩ | ⟨hnone, heq⟩
  · rw [heq] at h
    obtain ⟨fs, disk₁, hrun, hflat⟩ := Eff.bind_eq_ok h
    cases hflat
    obtain ⟨-, hsettled, hset⟩ := mapM_findFix_eq_ok hlisted hrun
    have happlied : (applyFixes fs.flatten doc).members =
        (doc.updateMembers (repair root disk.tree files)).members := by
      rw [members_applyFixes, foldl_setMember hmembers, Manifest.updateMembers, hmembers]
      exact congrArg (fun ms => TomlItem.value (.array ms)) (hset [] rfl)
    have hpaths : (applyFixes fs.flatten doc).memberPaths =
        (doc.updateMembers (repair root disk.tree files)).memberPaths := by
      rw [Manifest.memberPaths, happlied, ← Manifest.memberPaths]
    refine ⟨fun path hpath => ?_, hpaths.trans (Manifest.memberPaths_updateMembers doc)⟩
    rw [hpaths, Manifest.memberPaths, Manifest.updateMembers, hmembers] at hpath
    obtain ⟨m, hm, hpath⟩ := List.mem_filterMap.mp hpath
    exact hsettled m hm path hpath
  · rw [heq] at h
    cases h
    have hsame : applyFixes [] doc = doc := rfl
    rw [hsame, hnone]
    exact ⟨nofun, rfl⟩

/-- **Looking for the members** changes nothing in a dry run, or if it fails.  Otherwise every member
that is not on disk gets the path of the crate of its name, if there is one, and the other members
stay as they are; no directory changes.  Afterwards every member is on disk or there is no crate of
its name, and looking again changes nothing, whatever the operating system answers. -/
theorem sync_settles (os : Os) {files : List CargoToml} {root : List Char} {disk : Disk}
    (hlisted : Listed root disk.tree files) :
    (sync os (.ok files) root true disk).2 = disk ∧
    ((sync os (.ok files) root false disk).1 ≠ .ok () →
      (sync os (.ok files) root false disk).2 = disk) ∧
    ∀ after, sync os (.ok files) root false disk = (.ok (), after) →
      after.tree = disk.tree ∧
      after.manifest.memberPaths = disk.manifest.memberPaths.map (repair root disk.tree files) ∧
      (∀ path ∈ after.manifest.memberPaths, Settled root disk.tree files path) ∧
      ∀ os' dryRun, (sync os' (.ok files) root dryRun after).2 = after := by
  have hcases := fun dryRun => sync_cases os (.ok files) root dryRun disk
  refine ⟨?_, ?_, fun after h => ?_⟩
  · rcases hcases true with ⟨e, h⟩ | ⟨fixes, -, h⟩
    · rw [h]
    · rw [h, if_pos (.inr rfl)]
  · rcases hcases false with ⟨e, h⟩ | ⟨fixes, -, h⟩
    · exact fun _ => by rw [h]
    · exact fun hne => absurd (by rw [h]) hne
  · rcases hcases false with ⟨e, herror⟩ | ⟨fixes, hfixes, hok⟩
    · rw [h] at herror
      cases herror
    obtain ⟨hsettled, hpaths⟩ := memberPaths_of_findFixes hlisted hfixes
    have hafter : after = { disk with manifest := applyFixes fixes disk.manifest } := by
      rw [hok] at h
      obtain rfl := (Prod.mk.inj h).2
      by_cases hnil : fixes = []
      · rw [if_pos (.inl hnil), hnil]
        rfl
      · rw [if_neg (by simp [hnil])]
    subst hafter
    refine ⟨rfl, hpaths, hsettled, fun os' dryRun => ?_⟩
    rcases sync_cases os' (.ok files) root dryRun
      { disk with manifest := applyFixes fixes disk.manifest } with ⟨e, h⟩ | ⟨fixes', hfixes', h⟩
    · rw [h]
    · have hagain := @findFixes_of_settled root files _
        { disk with manifest := applyFixes fixes disk.manifest } hsettled
      have hnone : fixes' = [] := by
        rw [hagain] at hfixes'
        cases hfixes'
        rfl
      rw [h, if_pos (.inl hnone)]

/-- A workspace in `/w` with the crate `a`, which has moved from `old/a` to `crates/a`. -/
def movedCrate : Disk where
  tree := (checkoutIn ["crates/a".toList]).tree
  manifest := { members := .value (.array [.string "old/a".toList]), dependencies := .none }
  moves := []

/-- Its `Cargo.toml`. -/
def movedToml : CargoToml where
  dir := ["crates".toList, "a".toList]
  package := some (.table [("name", .value (.string "a".toList))])

/-- The crate is found. -/
theorem sync_settles_moved :
    (sync willingOs (.ok [movedToml]) "/w".toList false movedCrate).2.manifest.memberPaths =
      ["crates/a".toList] := by
  have hnames : ∀ n ∈ movedToml.dir, IsFileName n := by
    rw [show movedToml.dir = ["crates".toList, "a".toList] from rfl, List.forall_mem_cons,
      List.forall_mem_singleton]
    exact ⟨⟨by decide, by decide⟩, ⟨by decide, by decide⟩⟩
  have hlisted : Listed "/w".toList movedCrate.tree [movedToml] :=
    ⟨by decide, List.forall_mem_singleton.mpr hnames, by decide⟩
  have hok : (sync willingOs (.ok [movedToml]) "/w".toList false movedCrate).1 = .ok () := by
    decide +kernel
  obtain ⟨-, -, hafter⟩ := sync_settles willingOs hlisted
  rcases hrun : sync willingOs (.ok [movedToml]) "/w".toList false movedCrate with ⟨result, after⟩
  rw [hrun] at hok
  obtain rfl : result = .ok () := hok
  exact (hafter after hrun).2.1.trans (by decide)

end SweGateway.Xtask.Ws

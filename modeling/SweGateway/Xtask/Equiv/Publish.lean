import Mathlib.Data.Set.Insert
import SweGateway.Xtask.Equiv.Index
import SweGateway.Xtask.IndexJson
import SweGateway.Xtask.Publish

/-!
# When publishing leaves the index truthful

To a reader, the index is a map from names and versions to entries (`Registry.entries`), and
`upsert_entry` sets one of its values (`entries_upsertEntry`).  A version is intact if it has an
entry and every entry of it has the checksum of its stored crate file.

Phase 1 gives every selected version the placeholder, published or not, and only the version's own
step of Phase 2 takes it away again; `Progress` is the invariant.  So a run that is aborted leaves
the placeholder with the selected versions whose step did not complete.  `intact_iff` says when a
run keeps its promise all the same: no version that was published before is among these, or its
crate file has the placeholder for its digest.
-/

namespace SweGateway.Xtask

/-! ### The index as a map -/

namespace Registry

/-- A reader of the index file finds the entry. -/
def ReadsAt (t : Tools) (reg : Registry) (path : String) (e : IndexEntry) : Prop :=
  ∃ text, reg.index[path]? = some text ∧ t.codec.Reads text e

/-- What the index says about a version. -/
def entries (t : Tools) (reg : Registry) (name vers : String) : Set IndexEntry :=
  {e | (e.name = name ∧ e.vers = vers) ∧
    ∃ path, nameToPath t.toLowercase name = some path ∧ reg.ReadsAt t path e}

/-- The index has an entry for the version. -/
def Publishes (t : Tools) (reg : Registry) (name vers : String) : Prop :=
  (reg.entries t name vers).Nonempty

/-- Every entry for the version has the checksum of its stored crate file. -/
def Truthful (t : Tools) (reg : Registry) (name vers : String) : Prop :=
  ∀ e ∈ reg.entries t name vers, ∃ bytes, reg.stored name vers = some bytes ∧
    e.cksum = t.sha256 bytes

/-- The version is published, with the checksum of its stored crate file. -/
def Intact (t : Tools) (reg : Registry) (name vers : String) : Prop :=
  reg.Publishes t name vers ∧ reg.Truthful t name vers

theorem stored_copyCrate (reg : Registry) (n v name vers : String) (bytes : List UInt8) :
    (reg.copyCrate n v bytes).stored name vers =
      if n = name ∧ v = vers then some bytes else reg.stored name vers := by
  unfold stored copyCrate
  dsimp only
  by_cases hn : n = name
  · subst hn
    rw [Std.ExtTreeMap.getD_insert_self, HashMap.getElem?_insert_ite]
    simp
  · rw [if_neg (by simp [hn]), Std.ExtTreeMap.getD_insert, if_neg]
    rwa [Std.LawfulEqOrd.compare_eq_iff_eq]

end Registry

open Registry

variable {t : Tools} {ws : Workspace}

/-- Writing the entry to its file sets what the index says about its version. -/
theorem entries_insert (reg : Registry) (entry : IndexEntry) {path : String} {text : List Char}
    (hpath : nameToPath t.toLowercase entry.name = some path)
    (hreads : ∀ e, t.codec.Reads text e ↔
      e = entry ∨ (reg.ReadsAt t path e ∧ ¬ e.SameKey entry)) (name vers : String) :
    ({ reg with index := reg.index.insert path text } : Registry).entries t name vers =
      if entry.name = name ∧ entry.vers = vers then {entry} else reg.entries t name vers := by
  have hat : ∀ p e, ({ reg with index := reg.index.insert path text } : Registry).ReadsAt t p e ↔
      if path = p then e = entry ∨ (reg.ReadsAt t path e ∧ ¬ e.SameKey entry)
      else reg.ReadsAt t p e := by
    intro p e
    unfold ReadsAt
    simp only [HashMap.getElem?_insert_ite]
    split
    · simp only [Option.some.injEq, exists_eq_left']
      exact hreads e
    · rfl
  ext e
  simp only [Registry.entries, Set.mem_ofPred_eq, hat]
  by_cases hkey : entry.name = name ∧ entry.vers = vers
  · obtain ⟨rfl, rfl⟩ := hkey
    rw [if_pos ⟨rfl, rfl⟩, Set.mem_singleton_iff]
    constructor
    · rintro ⟨hsame, p, hp, h⟩
      obtain rfl : path = p := Option.some.inj (hpath.symm.trans hp)
      rw [if_pos rfl] at h
      exact h.resolve_right fun hold => hold.2 hsame
    · rintro rfl
      refine ⟨⟨rfl, rfl⟩, path, hpath, ?_⟩
      rw [if_pos rfl]
      exact .inl rfl
  · rw [if_neg hkey, Set.mem_ofPred_eq]
    refine and_congr_right fun hsame => exists_congr fun p => and_congr_right fun _ => ?_
    -- an entry of another version is kept, also in the same file
    have hne : ¬ e.SameKey entry := by
      rintro ⟨hname, hvers⟩
      exact hkey ⟨hname.symm.trans hsame.1, hvers.symm.trans hsame.2⟩
    split
    · next heq =>
      subst heq
      constructor
      · rintro (rfl | h)
        · exact absurd ⟨rfl, rfl⟩ hne
        · exact h.1
      · intro h
        exact .inr ⟨h, hne⟩
    · rfl

/-- **`upsert_entry` on the index.**  It panics if the name cannot be cut into a path.  Otherwise it
sets what the index says about the entry's version, and changes nothing else. -/
theorem upsertEntry_cases (t : Tools) (entry : IndexEntry) (reg : Registry) :
    (nameToPath t.toLowercase entry.name = none ∧
      t.upsertEntry entry reg = (.error .panic, reg)) ∨
    (nameToPath t.toLowercase entry.name ≠ none ∧
      ∃ reg', t.upsertEntry entry reg = (.ok (), reg') ∧ reg'.stored = reg.stored ∧
        ∀ name vers, reg'.entries t name vers =
          if entry.name = name ∧ entry.vers = vers then {entry}
          else reg.entries t name vers) := by
  unfold Tools.upsertEntry
  cases hpath : nameToPath t.toLowercase entry.name with
  | none => exact .inl ⟨rfl, rfl⟩
  | some path =>
    refine .inr ⟨by simp, ?_⟩
    dsimp only
    cases hfile : reg.index[path]? with
    | none =>
      refine ⟨_, rfl, rfl, entries_insert reg entry hpath fun e => ?_⟩
      rw [reads_toString_newline]
      simp [ReadsAt, hfile]
    | some existing =>
      refine ⟨_, rfl, rfl, entries_insert reg entry hpath fun e => ?_⟩
      rw [reads_upsertText]
      simp [ReadsAt, hfile]

/-! ### The crates of a list -/

/-- Some package of the list is of the name and version. -/
def Keyed (pkgs : List Package) (name vers : String) : Prop :=
  ∃ pkg ∈ pkgs, pkg.name = name ∧ pkg.version = vers

theorem keyed_cons {pkg : Package} {pkgs : List Package} {name vers : String} :
    Keyed (pkg :: pkgs) name vers ↔
      (pkg.name = name ∧ pkg.version = vers) ∨ Keyed pkgs name vers := by
  simp [Keyed]

theorem not_keyed_nil (name vers : String) : ¬ Keyed [] name vers := by simp [Keyed]

namespace Tools

/-- Of crates that Phase 2 has still to package, those whose step completes: they are packaged, and
nothing failed before. -/
def completedFrom (t : Tools) : List Package → List Package
  | [] => []
  | pkg :: rest =>
    match t.cargoPackage pkg with
    | .error _ => []
    | .ok _ =>
      pkg :: match t.gitCommitIndex ("publish " ++ pkg.name ++ " v" ++ pkg.version) with
        | .error _ => []
        | .ok () => t.completedFrom rest

/-- The crates whose step of Phase 2 completes. -/
def completed (t : Tools) (sorted : List Package) : List Package :=
  match t.gitCommitIndex "pre-register crates for dependency resolution" with
  | .error _ => []
  | .ok () => t.completedFrom sorted

end Tools

/-! ### The invariant -/

/-- How far a run has come, from the registry `reg₀`: the versions of `stubs` have the placeholder,
with the old crate file, but for those of `done`, which are intact.  All others are as before. -/
structure Progress (t : Tools) (reg₀ : Registry) (stubs done : List Package) (reg : Registry) :
    Prop where
  intact : ∀ name vers, Keyed done name vers → reg.Intact t name vers
  placeholder : ∀ name vers, Keyed stubs name vers → ¬ Keyed done name vers →
    (∃ e, reg.entries t name vers = {e} ∧ e.cksum = placeholderCksum) ∧
      reg.stored name vers = reg₀.stored name vers
  untouched : ∀ name vers, ¬ Keyed stubs name vers → ¬ Keyed done name vers →
    reg.entries t name vers = reg₀.entries t name vers ∧
      reg.stored name vers = reg₀.stored name vers

theorem progress_start (t : Tools) (reg : Registry) : Progress t reg [] [] reg where
  intact name vers h := absurd h (not_keyed_nil name vers)
  placeholder name vers h := absurd h (not_keyed_nil name vers)
  untouched _ _ _ _ := ⟨rfl, rfl⟩

/-- **A step of Phase 1** adds a version with the placeholder. -/
theorem Progress.preRegister {reg₀ reg reg' : Registry} {stubs : List Package}
    (h : Progress t reg₀ stubs [] reg) (pkg : Package) (hstored : reg'.stored = reg.stored)
    (hentries : ∀ name vers, reg'.entries t name vers =
      if pkg.name = name ∧ pkg.version = vers then
        {Tools.buildIndexEntry ws pkg placeholderCksum}
      else reg.entries t name vers) :
    Progress t reg₀ (pkg :: stubs) [] reg' where
  intact name vers hd := absurd hd (not_keyed_nil name vers)
  placeholder name vers hs hd := by
    have hold : reg.stored name vers = reg₀.stored name vers := by
      by_cases hk : Keyed stubs name vers
      · exact (h.placeholder name vers hk hd).2
      · exact (h.untouched name vers hk hd).2
    rw [hentries, hstored]
    refine ⟨?_, hold⟩
    split
    · exact ⟨_, rfl, rfl⟩
    · next hne => exact (h.placeholder name vers ((keyed_cons.mp hs).resolve_left hne) hd).1
  untouched name vers hs hd := by
    rw [keyed_cons, not_or] at hs
    rw [hentries, hstored, if_neg hs.1]
    exact h.untouched name vers hs.2 hd

/-- **A step of Phase 2** makes a version intact. -/
theorem Progress.publishCrate {reg₀ reg reg' : Registry} {stubs done : List Package}
    (h : Progress t reg₀ stubs done reg) (pkg : Package) (bytes : List UInt8)
    (hstored : reg'.stored = (reg.copyCrate pkg.name pkg.version bytes).stored)
    (hentries : ∀ name vers, reg'.entries t name vers =
      if pkg.name = name ∧ pkg.version = vers then
        {Tools.buildIndexEntry ws pkg (t.sha256 bytes)}
      else reg.entries t name vers) :
    Progress t reg₀ stubs (pkg :: done) reg' where
  intact name vers hd := by
    rw [Intact, Publishes, Truthful, hentries, hstored, stored_copyCrate]
    split
    · refine ⟨Set.singleton_nonempty _, ?_⟩
      rintro e rfl
      exact ⟨bytes, rfl, rfl⟩
    · next hne => exact h.intact name vers ((keyed_cons.mp hd).resolve_left hne)
  placeholder name vers hs hd := by
    rw [keyed_cons, not_or] at hd
    rw [hentries, hstored, stored_copyCrate, if_neg hd.1, if_neg hd.1]
    exact h.placeholder name vers hs hd.2
  untouched name vers hs hd := by
    rw [keyed_cons, not_or] at hd
    rw [hentries, hstored, stored_copyCrate, if_neg hd.1, if_neg hd.1]
    exact h.untouched name vers hs hd.2

/-! ### The two phases -/

/-- **Phase 1** registers every crate or panics. -/
theorem preRegister_cases (ws : Workspace) {reg₀ : Registry} (sorted : List Package)
    {stubs : List Package} {reg : Registry} (h : Progress t reg₀ stubs [] reg) :
    ((t.preRegister ws sorted reg).1 = .error .panic) ∨
    ((∀ pkg ∈ sorted, nameToPath t.toLowercase pkg.name ≠ none) ∧
      ∃ reg', t.preRegister ws sorted reg = (.ok (), reg') ∧
        Progress t reg₀ (sorted.reverse ++ stubs) [] reg') := by
  induction sorted generalizing stubs reg with
  | nil => exact .inr ⟨by simp, reg, rfl, h⟩
  | cons pkg rest ih =>
    unfold Tools.preRegister at ih ⊢
    rw [List.forM_cons]
    rcases upsertEntry_cases t (Tools.buildIndexEntry ws pkg placeholderCksum) reg with
      ⟨_, hrun⟩ | ⟨hname, reg₁, hrun, hstored, hentries⟩
    · left
      rw [Eff.bind_of_error (Eff.mapError_of_error hrun)]
      rfl
    · rw [Eff.bind_of_ok (Eff.mapError_of_ok hrun)]
      rcases ih (h.preRegister pkg hstored hentries) with hpanic | ⟨hnames, reg', hrest, hprogress⟩
      · exact .inl hpanic
      · refine .inr ⟨?_, reg', hrest, by simpa using hprogress⟩
        intro p hp
        rcases List.mem_cons.mp hp with rfl | hp
        · exact hname
        · exact hnames p hp

/-- One crate of Phase 2: it is not packaged, or it is copied and registered and the rest is up to
the commit. -/
theorem publishCrate_cases (ws : Workspace) {pkg : Package}
    (hname : nameToPath t.toLowercase pkg.name ≠ none) (reg : Registry) :
    (∃ e, t.cargoPackage pkg = .error e ∧ t.publishCrate ws pkg reg = (.error e, reg)) ∨
    (∃ bytes reg', t.cargoPackage pkg = .ok bytes ∧
      t.publishCrate ws pkg reg =
        (t.gitCommitIndex ("publish " ++ pkg.name ++ " v" ++ pkg.version), reg') ∧
      reg'.stored = (reg.copyCrate pkg.name pkg.version bytes).stored ∧
      ∀ name vers, reg'.entries t name vers =
        if pkg.name = name ∧ pkg.version = vers then
          {Tools.buildIndexEntry ws pkg (t.sha256 bytes)}
        else reg.entries t name vers) := by
  cases hpkg : t.cargoPackage pkg with
  | error e =>
    refine .inl ⟨e, rfl, ?_⟩
    have hcopy : t.packageAndCopy ws pkg reg = (.error e, reg) := by
      apply Eff.bind_of_error
      rw [hpkg]
      rfl
    exact Eff.bind_of_error hcopy
  | ok bytes =>
    let entry := Tools.buildIndexEntry ws pkg (t.sha256 bytes)
    have hcopy : t.packageAndCopy ws pkg reg =
        (.ok entry, reg.copyCrate pkg.name pkg.version bytes) := by
      apply Eff.bind_of_ok
      rw [hpkg]
      rfl
    rcases upsertEntry_cases t entry (reg.copyCrate pkg.name pkg.version bytes) with
      ⟨hnone, _⟩ | ⟨_, reg', hrun, hstored, hentries⟩
    · exact absurd hnone hname
    · refine .inr ⟨bytes, reg', rfl, ?_, hstored, hentries⟩
      exact (Eff.bind_of_ok hcopy).trans (Eff.bind_of_ok (Eff.mapError_of_ok hrun))

/-- **Phase 2** completes the steps before the first failure, and all of them if none fails. -/
theorem publishCrates_spec (ws : Workspace) {reg₀ : Registry} (sorted : List Package)
    (hnames : ∀ pkg ∈ sorted, nameToPath t.toLowercase pkg.name ≠ none) {stubs done : List Package}
    {reg : Registry} (h : Progress t reg₀ stubs done reg) :
    Progress t reg₀ stubs ((t.completedFrom sorted).reverse ++ done)
      (forM sorted (t.publishCrate ws) reg).2 ∧
    ((forM sorted (t.publishCrate ws) reg).1 = .ok () → t.completedFrom sorted = sorted) := by
  induction sorted generalizing done reg with
  | nil => exact ⟨h, fun _ => rfl⟩
  | cons pkg rest ih =>
    rw [List.forM_cons, Tools.completedFrom]
    rcases publishCrate_cases ws (hnames pkg List.mem_cons_self) reg with
      ⟨e, hpkg, hrun⟩ | ⟨bytes, reg', hpkg, hrun, hstored, hentries⟩
    · rw [Eff.bind_of_error hrun, hpkg]
      exact ⟨h, nofun⟩
    · have hstep := h.publishCrate pkg bytes hstored hentries
      rw [hpkg]
      dsimp only
      cases hcommit : t.gitCommitIndex ("publish " ++ pkg.name ++ " v" ++ pkg.version) with
      | error e =>
        rw [hcommit] at hrun
        rw [Eff.bind_of_error hrun]
        exact ⟨hstep, nofun⟩
      | ok u =>
        rw [hcommit] at hrun
        rw [Eff.bind_of_ok hrun]
        have hnames' : ∀ p ∈ rest, nameToPath t.toLowercase p.name ≠ none := by
          intro p hp
          exact hnames p (List.mem_cons_of_mem pkg hp)
        obtain ⟨hprogress, hall⟩ := ih hnames' hstep
        refine ⟨by simpa using hprogress, fun hok => ?_⟩
        dsimp only
        rw [hall hok]

/-- **A run** panics, or it leaves the placeholder with the selected versions whose step of Phase 2
did not complete, whichever error ends it; if none does, all steps completed. -/
theorem publish_cases (t : Tools) (ws : Workspace) (reg : Registry) (sorted : List Package) :
    (t.publish ws sorted reg).1 = .error .panic ∨
    (Progress t reg sorted.reverse (t.completed sorted).reverse (t.publish ws sorted reg).2 ∧
      ((t.publish ws sorted reg).1 = .ok () → t.completed sorted = sorted)) := by
  unfold Tools.publish
  rcases preRegister_cases ws sorted (progress_start t reg) with
    hpanic | ⟨hnames, reg₁, hrun, h⟩
  · -- a panic in Phase 1 ends the run
    left
    rcases Eff.ok_or_error (t.preRegister ws sorted) reg with ⟨u, reg', hrun⟩ | ⟨e, reg', hrun⟩
    · rw [hrun] at hpanic
      cases hpanic
    · rw [hrun] at hpanic
      rw [Eff.bind_of_error hrun]
      exact hpanic
  · right
    rw [List.append_nil] at h
    rw [Eff.bind_of_ok hrun, Tools.completed]
    cases hcommit :
      t.gitCommitIndex "pre-register crates for dependency resolution" with
    | error e => exact ⟨h, nofun⟩
    | ok u =>
      have hspec := publishCrates_spec ws sorted hnames h
      rw [List.append_nil] at hspec
      exact hspec

/-- A run that returns leaves the placeholder with the selected versions whose step of Phase 2 did
not complete. -/
theorem progress_publish (reg : Registry) (sorted : List Package)
    (hreturn : (t.publish ws sorted reg).1 ≠ .error .panic) :
    Progress t reg sorted.reverse (t.completed sorted).reverse (t.publish ws sorted reg).2 :=
  ((publish_cases t ws reg sorted).resolve_left hreturn).1

theorem keyed_reverse {pkgs : List Package} {name vers : String} :
    Keyed pkgs.reverse name vers ↔ Keyed pkgs name vers := by
  simp [Keyed]

/-- In a run that ends without an error the step of every crate completes. -/
theorem completed_of_ok {reg : Registry} {sorted : List Package}
    (hok : (t.publish ws sorted reg).1 = .ok ()) : t.completed sorted = sorted := by
  rcases publish_cases t ws reg sorted with hpanic | ⟨-, hall⟩
  · rw [hok] at hpanic
    cases hpanic
  · exact hall hok

/-- **A run without an error** keeps the index truthful and leaves every selected version intact. -/
theorem intact_of_ok {reg : Registry} {sorted : List Package}
    (htruthful : ∀ name vers, reg.Truthful t name vers)
    (hok : (t.publish ws sorted reg).1 = .ok ()) (name vers : String) :
    (t.publish ws sorted reg).2.Truthful t name vers ∧
      (Keyed sorted name vers → (t.publish ws sorted reg).2.Intact t name vers) := by
  have hreturn : (t.publish ws sorted reg).1 ≠ .error .panic := by
    rw [hok]
    exact nofun
  have h := progress_publish reg sorted hreturn
  rw [completed_of_ok hok] at h
  have hintact := fun hsel => h.intact name vers (keyed_reverse.mpr hsel)
  refine ⟨?_, hintact⟩
  by_cases hsel : Keyed sorted name vers
  · exact (hintact hsel).2
  · have hnot := mt keyed_reverse.mp hsel
    obtain ⟨hentries, hstored⟩ := h.untouched name vers hnot hnot
    rw [Truthful, hentries, hstored]
    exact htruthful name vers

/-- **Truthfulness of the index.**  Let the index be truthful before a run, and let the run return,
with or without an error.  Then every version that was published before, or whose step of Phase 2
completed, is intact afterwards, exactly if each selected version that was published before is one
whose step completed, or has a crate file with the placeholder for its digest. -/
theorem intact_iff (t : Tools) (ws : Workspace) (reg : Registry) (sorted : List Package)
    (htruthful : ∀ name vers, reg.Truthful t name vers)
    (hreturn : (t.publish ws sorted reg).1 ≠ .error .panic) :
    (∀ name vers, reg.Publishes t name vers ∨ Keyed (t.completed sorted) name vers →
      (t.publish ws sorted reg).2.Intact t name vers) ↔
    ∀ pkg ∈ sorted, reg.Publishes t pkg.name pkg.version →
      Keyed (t.completed sorted) pkg.name pkg.version ∨
        ∃ bytes, reg.stored pkg.name pkg.version = some bytes ∧
          t.sha256 bytes = placeholderCksum := by
  have h := progress_publish reg sorted hreturn
  constructor
  · intro hintact pkg hpkg hpub
    by_cases hdone : Keyed (t.completed sorted) pkg.name pkg.version
    · exact .inl hdone
    · -- its entry is the placeholder, and says the truth about the old crate file
      right
      have hsel : Keyed sorted.reverse pkg.name pkg.version :=
        keyed_reverse.mpr ⟨pkg, hpkg, rfl, rfl⟩
      obtain ⟨⟨e, hentries, hcksum⟩, hstored⟩ :=
        h.placeholder pkg.name pkg.version hsel (mt keyed_reverse.mp hdone)
      obtain ⟨-, htruth⟩ := hintact pkg.name pkg.version (.inl hpub)
      have hmem : e ∈ (t.publish ws sorted reg).2.entries t pkg.name pkg.version := by
        rw [hentries]
        exact Set.mem_singleton e
      obtain ⟨bytes, hbytes, hsha⟩ := htruth e hmem
      rw [hstored] at hbytes
      exact ⟨bytes, hbytes, hsha.symm.trans hcksum⟩
  · intro hcond name vers hkey
    by_cases hdone : Keyed (t.completed sorted) name vers
    · exact h.intact name vers (keyed_reverse.mpr hdone)
    have hpub : reg.Publishes t name vers := hkey.resolve_right hdone
    have hnot := mt keyed_reverse.mp hdone
    by_cases hsel : Keyed sorted name vers
    · -- still the placeholder, and the old crate file
      obtain ⟨⟨e, hentries, hcksum⟩, hstored⟩ :=
        h.placeholder name vers (keyed_reverse.mpr hsel) hnot
      obtain ⟨pkg, hpkg, rfl, rfl⟩ := hsel
      obtain ⟨bytes, hbytes, hsha⟩ := (hcond pkg hpkg hpub).resolve_left hdone
      refine ⟨?_, ?_⟩
      · rw [Publishes, hentries]
        exact Set.singleton_nonempty e
      · intro e' he'
        rw [hentries] at he'
        obtain rfl : e' = e := he'
        rw [hstored]
        exact ⟨bytes, hbytes, hcksum.trans hsha.symm⟩
    · -- not selected, and left as it was
      obtain ⟨hentries, hstored⟩ := h.untouched name vers (mt keyed_reverse.mp hsel) hnot
      rw [Intact, Publishes, Truthful, hentries, hstored]
      exact ⟨hpub, htruthful name vers⟩

/-! ### A version that is published again -/

/-- A package that is published already. -/
def demo : Package := { name := "demo", version := "0.1.0", dependencies := [], features := ∅ }

/-- Its crate file. -/
def demoCrate : List UInt8 := [0x61, 0x62, 0x63]

def demoWorkspace : Workspace where
  registryUrl := "file:///registry/index"
  pkgMap := (∅ : HashMap String Package).insert "demo" demo
  localRegistryCrates := (∅ : HashSet String).insert "demo"

/-- Every command succeeds but `cargo package`, whose outcome is given.  The digest is that of the
crate file. -/
def demoTools (packaged : Bool) : Tools where
  toLowercase name := String.ofList (name.toList.map Char.toLower)
  codec := EntryCodec.json
  sha256 _ := "ba7816bf8f01cfea414140de5dae2223b00361a396177a9cb410ff61f20015ad"
  cargo _ := .ok { success := packaged, stdout := "", stderr := "" }
  crateFile _ := some demoCrate
  gitAdd _ := .ok { success := true, stdout := "", stderr := "" }
  gitCommit _ := .ok { success := true, stdout := "", stderr := "" }

def demoEntry : IndexEntry :=
  Tools.buildIndexEntry demoWorkspace demo
    "ba7816bf8f01cfea414140de5dae2223b00361a396177a9cb410ff61f20015ad"

/-- The registry with the package and nothing else. -/
def demoRegistry : Registry where
  index := (∅ : HashMap String (List Char)).insert "de/mo/demo"
    (EntryCodec.json.toString demoEntry ++ ['\n'])
  crates := (∅ : HashMap String (HashMap String (List UInt8))).insert "demo"
    ((∅ : HashMap String (List UInt8)).insert "0.1.0" demoCrate)

theorem entries_demoRegistry (packaged : Bool) (name vers : String) :
    demoRegistry.entries (demoTools packaged) name vers =
      if "demo" = name ∧ "0.1.0" = vers then {demoEntry} else ∅ := by
  let before : Registry := { index := ∅, crates := demoRegistry.crates }
  have hempty : before.entries (demoTools packaged) name vers = ∅ := by
    refine Set.eq_empty_iff_forall_notMem.mpr ?_
    rintro e ⟨-, path, -, text, htext, -⟩
    simp [before] at htext
  rw [← hempty]
  refine entries_insert before demoEntry ?_ (fun e => ?_) name vers
  · cases packaged <;> decide
  · rw [show (demoTools packaged).codec = EntryCodec.json from rfl, reads_toString_newline]
    simp [ReadsAt, before]

theorem truthful_demoRegistry (packaged : Bool) (name vers : String) :
    demoRegistry.Truthful (demoTools packaged) name vers := by
  intro e he
  rw [entries_demoRegistry] at he
  split at he
  · next hkey =>
    obtain ⟨rfl, rfl⟩ := hkey
    obtain rfl : e = demoEntry := he
    exact ⟨demoCrate, by decide, rfl⟩
  · cases he

/-- If it is packaged again, it stays intact. -/
theorem republished_intact :
    ((demoTools true).publish demoWorkspace [demo] demoRegistry).2.Intact (demoTools true)
      "demo" "0.1.0" := by
  have hcompleted : Keyed ((demoTools true).completed [demo]) "demo" "0.1.0" :=
    ⟨demo, List.mem_singleton_self demo, rfl, rfl⟩
  have hiff := intact_iff (demoTools true) demoWorkspace demoRegistry [demo]
    (truthful_demoRegistry true) (by decide)
  refine hiff.mpr (fun pkg hpkg _ => ?_) "demo" "0.1.0" (.inr hcompleted)
  obtain rfl := List.mem_singleton.mp hpkg
  exact .inl hcompleted

/-- If packaging it again fails, it is left with the placeholder. -/
theorem aborted_not_intact :
    ¬ ∀ (t : Tools) (ws : Workspace) (reg : Registry) (sorted : List Package),
      (∀ name vers, reg.Truthful t name vers) →
      (t.publish ws sorted reg).1 ≠ .error .panic →
      ∀ name vers, reg.Publishes t name vers ∨ Keyed (t.completed sorted) name vers →
        (t.publish ws sorted reg).2.Intact t name vers := by
  intro h
  have hreturn : ((demoTools false).publish demoWorkspace [demo] demoRegistry).1 ≠
      .error .panic := by decide
  have hpub : demoRegistry.Publishes (demoTools false) "demo" "0.1.0" := by
    rw [Publishes, entries_demoRegistry, if_pos ⟨rfl, rfl⟩]
    exact Set.singleton_nonempty _
  have hintact := h _ _ _ _ (truthful_demoRegistry false) hreturn "demo" "0.1.0" (.inl hpub)
  have hprogress := progress_publish demoRegistry [demo] hreturn
  have hsel : Keyed [demo] "demo" "0.1.0" := ⟨demo, List.mem_singleton_self demo, rfl, rfl⟩
  obtain ⟨⟨e, hentries, hcksum⟩, -⟩ :=
    hprogress.placeholder "demo" "0.1.0" hsel (not_keyed_nil _ _)
  have hmem : e ∈ ((demoTools false).publish demoWorkspace [demo] demoRegistry).2.entries
      (demoTools false) "demo" "0.1.0" := by
    rw [hentries]
    exact Set.mem_singleton e
  obtain ⟨bytes, -, hsha⟩ := hintact.2 e hmem
  have hne : placeholderCksum ≠
      "ba7816bf8f01cfea414140de5dae2223b00361a396177a9cb410ff61f20015ad" := by decide
  exact hne (hcksum.symm.trans hsha)

end SweGateway.Xtask

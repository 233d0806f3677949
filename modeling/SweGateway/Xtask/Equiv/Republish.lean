import SweGateway.Lib.Runs
import SweGateway.Xtask.Equiv.IndexMap
import SweGateway.Xtask.Equiv.Run

/-!
# Publishing again

A run that succeeds is a list of writes to the registry (`publish_of_succeeds`), which does not
depend on what is in the registry.  An index file is a table of records, and a crate file is written
whole, so all writes can be repeated without effect (`exec_write_again`).

The workspace that the command works with is another matter: it takes the names that are in the
index for crates of the local registry, and a run may add names.  The next run adds none, so
publishing a third time changes nothing (`runPublish_settles`).
-/

namespace SweGateway.Xtask

open TextLines KeyedList

/-! ### The writes of a run -/

/-- A change to the registry. -/
inductive Write where
  | upsert (path : String) (entry : IndexEntry)
  | copy (name vers : String) (bytes : List UInt8)

/-- The entries that are written to an index file. -/
def Write.entryAt (path : String) : Write → Option IndexEntry
  | .upsert p entry => if p = path then some entry else none
  | .copy .. => none

/-- The crate files that are written for a name. -/
def Write.crateOf (name : String) : Write → Option (String × List UInt8)
  | .upsert .. => none
  | .copy n vers bytes => if n = name then some (vers, bytes) else none

namespace Registry

def write (codec : EntryCodec) (reg : Registry) : Write → Registry
  | .upsert path entry => reg.setFile path
      (joinRecords (upsert codec.key entry.key (codec.toString entry) (records (reg.file path))))
  | .copy name vers bytes => reg.copyCrate name vers bytes

end Registry

namespace Tools

/-- The write of an entry. -/
def entryWrites (t : Tools) (entry : IndexEntry) : List Write :=
  (nameToPath t.toLowercase entry.name).toList.map (.upsert · entry)

/-- The writes of Phase 2 for a crate. -/
def crateWrites (t : Tools) (ws : Workspace) (pkg : Package) : List Write :=
  match t.cargoPackage pkg with
  | .error _ => []
  | .ok bytes => .copy pkg.name pkg.version bytes ::
      t.entryWrites (buildIndexEntry ws pkg (t.sha256 bytes))

/-- The writes of both phases. -/
def writes (t : Tools) (ws : Workspace) (sorted : List Package) : List Write :=
  sorted.flatMap (fun pkg => t.entryWrites (buildIndexEntry ws pkg placeholderCksum)) ++
    sorted.flatMap (t.crateWrites ws)

/-- Nothing fails when the crates are published. -/
structure Succeeds (t : Tools) (sorted : List Package) : Prop where
  path : ∀ pkg ∈ sorted, nameToPath t.toLowercase pkg.name ≠ none
  preRegistered : t.gitCommitIndex "pre-register crates for dependency resolution" = .ok ()
  packaged : ∀ pkg ∈ sorted, ∃ bytes, t.cargoPackage pkg = .ok bytes
  committed : ∀ pkg ∈ sorted,
    t.gitCommitIndex ("publish " ++ pkg.name ++ " v" ++ pkg.version) = .ok ()

end Tools

variable {t : Tools} {ws : Workspace} {reg : Registry} {sorted : List Package}

theorem upsertEntry_of_path {entry : IndexEntry}
    (hpath : nameToPath t.toLowercase entry.name ≠ none) (reg : Registry) :
    t.upsertEntry entry reg =
      (.ok (), Runs.exec (Registry.write t.codec) reg (t.entryWrites entry)) := by
  obtain ⟨path, hpath⟩ := Option.ne_none_iff_exists'.mp hpath
  rw [upsertEntry_eq reg hpath, Tools.entryWrites, hpath]
  rfl

/-- A loop each of whose rounds is a run of writes. -/
theorem forM_eq_exec {f : Package → Eff Registry Failure Unit} {g : Package → List Write}
    (h : ∀ pkg ∈ sorted, ∀ reg, f pkg reg =
      (.ok (), Runs.exec (Registry.write t.codec) reg (g pkg))) (reg : Registry) :
    forM sorted f reg = (.ok (), Runs.exec (Registry.write t.codec) reg (sorted.flatMap g)) := by
  induction sorted generalizing reg with
  | nil => rfl
  | cons pkg rest ih =>
    rw [List.forM_cons, Eff.bind_of_ok (h pkg List.mem_cons_self reg), List.flatMap_cons,
      Runs.exec_append]
    exact ih (fun p hp => h p (List.mem_cons_of_mem pkg hp)) _

/-- **A run that succeeds** is a list of writes. -/
theorem publish_of_succeeds (h : t.Succeeds sorted) (ws : Workspace) (reg : Registry) :
    t.publish ws sorted reg =
      (.ok (), Runs.exec (Registry.write t.codec) reg (t.writes ws sorted)) := by
  have hpre : ∀ reg, t.preRegister ws sorted reg = (.ok (), Runs.exec (Registry.write t.codec) reg
      (sorted.flatMap fun pkg =>
        t.entryWrites (Tools.buildIndexEntry ws pkg placeholderCksum))) := by
    refine forM_eq_exec fun pkg hpkg reg => Eff.mapError_of_ok ?_
    exact upsertEntry_of_path (h.path pkg hpkg) reg
  have hcrates : ∀ reg, forM sorted (t.publishCrate ws) reg =
      (.ok (), Runs.exec (Registry.write t.codec) reg (sorted.flatMap (t.crateWrites ws))) := by
    refine forM_eq_exec fun pkg hpkg reg => ?_
    obtain ⟨bytes, hbytes⟩ := h.packaged pkg hpkg
    have hcopy : t.packageAndCopy ws pkg reg =
        (.ok (Tools.buildIndexEntry ws pkg (t.sha256 bytes)),
          reg.copyCrate pkg.name pkg.version bytes) := by
      apply Eff.bind_of_ok
      rw [hbytes]
      rfl
    have hpath : nameToPath t.toLowercase
        (Tools.buildIndexEntry ws pkg (t.sha256 bytes)).name ≠ none := h.path pkg hpkg
    have hentry := upsertEntry_of_path hpath (reg.copyCrate pkg.name pkg.version bytes)
    rw [Tools.publishCrate, Eff.bind_of_ok hcopy, Eff.bind_of_ok (Eff.mapError_of_ok hentry),
      Tools.crateWrites, hbytes]
    exact congrArg (·, _) (h.committed pkg hpkg)
  rw [Tools.publish, Eff.bind_of_ok (hpre reg), Eff.bind_of_ok, hcrates, Tools.writes,
    Runs.exec_append]
  exact congrArg (·, _) h.preRegistered

/-- What Phase 2 needs in order not to fail. -/
theorem packaged_of_ok {reg reg' : Registry}
    (hnames : ∀ pkg ∈ sorted, nameToPath t.toLowercase pkg.name ≠ none)
    (h : forM sorted (t.publishCrate ws) reg = (.ok (), reg')) :
    ∀ pkg ∈ sorted, (∃ bytes, t.cargoPackage pkg = .ok bytes) ∧
      t.gitCommitIndex ("publish " ++ pkg.name ++ " v" ++ pkg.version) = .ok () := by
  induction sorted generalizing reg with
  | nil => exact fun pkg hpkg => absurd hpkg List.not_mem_nil
  | cons pkg rest ih =>
    rw [List.forM_cons] at h
    obtain ⟨⟨⟩, reg₁, hone, hrest⟩ := Eff.bind_eq_ok h
    have hpkg : (∃ bytes, t.cargoPackage pkg = .ok bytes) ∧
        t.gitCommitIndex ("publish " ++ pkg.name ++ " v" ++ pkg.version) = .ok () := by
      rcases publishCrate_cases ws (hnames pkg List.mem_cons_self) reg with
        ⟨e, -, hrun⟩ | ⟨bytes, reg₂, hbytes, hrun, -⟩
      · rw [hone] at hrun
        cases hrun
      · rw [hone] at hrun
        exact ⟨⟨bytes, hbytes⟩, (congrArg Prod.fst hrun).symm⟩
    intro p hp
    rcases List.mem_cons.mp hp with rfl | hp
    · exact hpkg
    · exact ih (fun p hp => hnames p (List.mem_cons_of_mem pkg hp)) hrest p hp

/-- Whether a run succeeds depends on the tools and the crates. -/
theorem succeeds_of_ok {reg reg' : Registry} (h : t.publish ws sorted reg = (.ok (), reg')) :
    t.Succeeds sorted := by
  obtain ⟨⟨⟩, reg₁, hpre, hrest⟩ := Eff.bind_eq_ok h
  obtain ⟨⟨⟩, reg₂, hcommit, hcrates⟩ := Eff.bind_eq_ok hrest
  rcases preRegister_cases ws sorted (progress_start t reg) with hpanic | ⟨hnames, -⟩
  · rw [hpre] at hpanic
    cases hpanic
  have hpackaged := packaged_of_ok hnames hcrates
  exact ⟨hnames, congrArg Prod.fst hcommit, fun pkg hpkg => (hpackaged pkg hpkg).1,
    fun pkg hpkg => (hpackaged pkg hpkg).2⟩

/-! ### Writing again -/

section Writes

variable {codec : EntryCodec} {ws : List Write}

/-- An index file with some entries more. -/
def putFile (codec : EntryCodec) (entries : List IndexEntry) (file : Option (List Char)) :
    Option (List Char) :=
  if entries = [] then file
  else some (joinRecords
    (upsertAll codec.key (entries.map codec.put) (records (file.getD []))))

theorem isRecord_of_mem_upsertAll (entries : List IndexEntry) {rs : List (List Char)}
    (h : ∀ r ∈ rs, IsRecord r) :
    ∀ r ∈ upsertAll codec.key (entries.map codec.put) rs, IsRecord r := by
  induction entries generalizing rs with
  | nil => exact h
  | cons entry entries ih =>
    have hone : ∀ r ∈ upsert codec.key entry.key (codec.toString entry) rs, IsRecord r := by
      rw [← upsertRecords_eq]
      exact isRecord_of_mem_upsertRecords h
    exact ih hone

/-- The records of such a file. -/
theorem records_putFile (entries : List IndexEntry) (file : Option (List Char)) :
    records ((putFile codec entries file).getD []) =
      upsertAll codec.key (entries.map codec.put) (records (file.getD [])) := by
  unfold putFile
  split
  · next h => rw [h]; rfl
  · exact records_joinRecords
      (isRecord_of_mem_upsertAll entries fun r hr => isRecord_of_mem_records hr)

theorem putFile_append (entries entries' : List IndexEntry) (file : Option (List Char)) :
    putFile codec (entries ++ entries') file = putFile codec entries' (putFile codec entries file) := by
  by_cases h' : entries' = []
  · rw [h', List.append_nil]
    rfl
  · rw [putFile, if_neg (by simp [h']), putFile.eq_1 codec entries', if_neg h', records_putFile,
      List.map_append, upsertAll_append]

/-- Putting the entries into the file again changes nothing. -/
theorem putFile_putFile (entries : List IndexEntry) (file : Option (List Char)) :
    putFile codec entries (putFile codec entries file) = putFile codec entries file := by
  by_cases h : entries = []
  · rw [h]
    rfl
  · rw [putFile, if_neg h, records_putFile, upsertAll_upsertAll (key_of_mem_puts codec entries),
      putFile, if_neg h]

/-- The crate files of a name, with some more. -/
def putCrates (files : List (String × List UInt8)) (crates : Option (HashMap String (List UInt8))) :
    Option (HashMap String (List UInt8)) :=
  if files = [] then crates
  else some (files.foldl (fun m file => m.insert file.1 file.2) (crates.getD ∅))

theorem putCrates_append (files files' : List (String × List UInt8))
    (crates : Option (HashMap String (List UInt8))) :
    putCrates (files ++ files') crates = putCrates files' (putCrates files crates) := by
  by_cases h : files = []
  · rw [h]
    rfl
  · by_cases h' : files' = []
    · rw [h', List.append_nil]
      rfl
    · rw [putCrates, if_neg (by simp [h]), putCrates, if_neg h', putCrates, if_neg h,
        List.foldl_append]
      rfl

theorem putCrates_putCrates (files : List (String × List UInt8))
    (crates : Option (HashMap String (List UInt8))) :
    putCrates files (putCrates files crates) = putCrates files crates := by
  unfold putCrates
  split
  · rfl
  · rw [Option.getD_some]
    refine congrArg some (Std.ExtTreeMap.ext_getElem? fun vers => ?_)
    simp only [HashMap.getElem?_foldl_insert, ← Option.or_assoc, Option.or_self]

/-- What the writes make of an index file. -/
theorem index_exec (path : String) (reg : Registry) :
    (Runs.exec (Registry.write codec) reg ws).index[path]? =
      putFile codec (ws.filterMap (Write.entryAt path)) reg.index[path]? := by
  induction ws generalizing reg with
  | nil => rfl
  | cons w ws ih =>
    rw [Runs.exec_cons, ih]
    cases w with
    | copy name vers bytes => rfl
    | upsert p entry =>
      rw [List.filterMap_cons, Registry.write, Registry.setFile, HashMap.getElem?_insert_ite,
        Write.entryAt]
      split_ifs with hp
      · subst hp
        exact (putFile_append [entry] _ _).symm
      · rfl

/-- What the writes make of the crate files of a name. -/
theorem crates_exec (name : String) (reg : Registry) :
    (Runs.exec (Registry.write codec) reg ws).crates[name]? =
      putCrates (ws.filterMap (Write.crateOf name)) reg.crates[name]? := by
  induction ws generalizing reg with
  | nil => rfl
  | cons w ws ih =>
    rw [Runs.exec_cons, ih]
    cases w with
    | upsert path entry => rfl
    | copy n vers bytes =>
      rw [List.filterMap_cons, Registry.write, Registry.copyCrate, HashMap.getElem?_insert_ite,
        Write.crateOf]
      split_ifs with hn
      · subst hn
        rw [Std.ExtTreeMap.getD_eq_getD_getElem?]
        exact (putCrates_append [(vers, bytes)] _ _).symm
      · rfl

/-- **Writing again** changes nothing. -/
theorem exec_write_again (codec : EntryCodec) (ws : List Write) (reg : Registry) :
    Runs.exec (Registry.write codec) (Runs.exec (Registry.write codec) reg ws) ws =
      Runs.exec (Registry.write codec) reg ws := by
  have hindex : (Runs.exec (Registry.write codec) (Runs.exec (Registry.write codec) reg ws) ws).index =
      (Runs.exec (Registry.write codec) reg ws).index := by
    refine Std.ExtTreeMap.ext_getElem? fun path => ?_
    rw [index_exec, index_exec, putFile_putFile]
  have hcrates : (Runs.exec (Registry.write codec) (Runs.exec (Registry.write codec) reg ws) ws).crates =
      (Runs.exec (Registry.write codec) reg ws).crates := by
    refine Std.ExtTreeMap.ext_getElem? fun name => ?_
    rw [crates_exec, crates_exec, putCrates_putCrates]
  cases h : Runs.exec (Registry.write codec) (Runs.exec (Registry.write codec) reg ws) ws
  cases h' : Runs.exec (Registry.write codec) reg ws
  rw [h, h'] at hindex hcrates
  rw [Registry.mk.injEq]
  exact ⟨hindex, hcrates⟩

end Writes

/-- **Publishing again** with the same workspace changes nothing. -/
theorem publish_again {reg reg₁ : Registry} (h : t.publish ws sorted reg = (.ok (), reg₁)) :
    t.publish ws sorted reg₁ = (.ok (), reg₁) := by
  have hrun := publish_of_succeeds (succeeds_of_ok h) ws
  obtain rfl : _ = reg₁ := congrArg Prod.snd ((hrun reg).symm.trans h)
  rw [hrun, exec_write_again]

/-! ### The command -/

/-- The index files that a run writes to are those of the crates. -/
theorem entryAt_writes (t : Tools) (ws : Workspace) (sorted : List Package) (path : String) :
    (t.writes ws sorted).filterMap (Write.entryAt path) = [] ↔
      ∀ pkg ∈ sorted, nameToPath t.toLowercase pkg.name ≠ some path := by
  have hentry : ∀ entry : IndexEntry, (∀ w ∈ t.entryWrites entry, w.entryAt path = none) ↔
      nameToPath t.toLowercase entry.name ≠ some path := by
    intro entry
    cases h : nameToPath t.toLowercase entry.name with
    | none => simp [Tools.entryWrites, h]
    | some p => simp [Tools.entryWrites, h, Write.entryAt]
  rw [List.filterMap_eq_nil_iff, Tools.writes]
  simp only [List.mem_append, List.mem_flatMap]
  constructor
  · intro h pkg hpkg
    refine (hentry (Tools.buildIndexEntry ws pkg placeholderCksum)).mp fun w hw => ?_
    exact h w (.inl ⟨pkg, hpkg, hw⟩)
  · rintro h w (⟨pkg, hpkg, hw⟩ | ⟨pkg, hpkg, hw⟩)
    · exact (hentry _).mpr (h pkg hpkg) w hw
    · unfold Tools.crateWrites at hw
      cases hbytes : t.cargoPackage pkg with
      | error e =>
        rw [hbytes] at hw
        cases hw
      | ok bytes =>
        rw [hbytes] at hw
        rcases List.mem_cons.mp hw with rfl | hw
        · rfl
        · exact (hentry (Tools.buildIndexEntry ws pkg (t.sha256 bytes))).mpr (h pkg hpkg) w hw

/-- The crate files that a run writes do not depend on the workspace. -/
theorem crateOf_writes (t : Tools) (ws ws' : Workspace) (sorted : List Package) (name : String) :
    (t.writes ws sorted).filterMap (Write.crateOf name) =
      (t.writes ws' sorted).filterMap (Write.crateOf name) := by
  have hentry : ∀ entry : IndexEntry,
      (t.entryWrites entry).filterMap (Write.crateOf name) = [] := by
    intro entry
    cases h : nameToPath t.toLowercase entry.name with
    | none => simp [Tools.entryWrites, h]
    | some p => simp [Tools.entryWrites, h, Write.crateOf]
  have hcrate : ∀ pkg, (t.crateWrites ws pkg).filterMap (Write.crateOf name) =
      (t.crateWrites ws' pkg).filterMap (Write.crateOf name) := by
    intro pkg
    unfold Tools.crateWrites
    cases t.cargoPackage pkg with
    | error e => rfl
    | ok bytes =>
      dsimp only
      rw [List.filterMap_cons, List.filterMap_cons, hentry, hentry]
  simp only [Tools.writes, List.filterMap_append, List.filterMap_flatMap, hentry, hcrate]

theorem mem_index_exec {ws : List Write} {codec : EntryCodec} {path : String} :
    path ∈ (Runs.exec (Registry.write codec) reg ws).index ↔
      ws.filterMap (Write.entryAt path) ≠ [] ∨ path ∈ reg.index := by
  rw [Std.ExtTreeMap.mem_iff_isSome_getElem?, index_exec, putFile,
    Std.ExtTreeMap.mem_iff_isSome_getElem?]
  split_ifs with h
  · simp [h]
  · simp [h]

namespace PublishEnv

/-- The workspace depends on which index files there are. -/
theorem workspace_congr (env : PublishEnv) (members : List Member) (paths : RegistryPaths)
    {reg reg' : Registry} (h : ∀ path, path ∈ reg.index ↔ path ∈ reg'.index) :
    env.workspace members paths reg = env.workspace members paths reg' := by
  have hfiles : reg.files = reg'.files := by
    unfold Registry.files
    rw [HashMap.keys_eq_of_mem_iff h]
  unfold workspace
  rw [hfiles]

/-- **Publishing settles.** After a run that succeeds the next one succeeds, too, and leaves the
crate files as they are; publishing once more changes nothing.  If the first run has made no new
index file, the second changes nothing already. -/
theorem runPublish_settles (env : PublishEnv) (packages : List String)
    (registryPath : Option (List Char)) (reg : Registry) {reg₁ : Registry}
    (h : env.runPublish packages false registryPath reg = (.ok (), reg₁)) :
    ∃ reg₂, env.runPublish packages false registryPath reg₁ = (.ok (), reg₂) ∧
      reg₂.crates = reg₁.crates ∧
      env.runPublish packages false registryPath reg₂ = (.ok (), reg₂) ∧
      ((∀ path ∈ reg₁.index, path ∈ reg.index) → reg₂ = reg₁) := by
  rcases runPublish_cases env packages registryPath with ⟨e, hfail⟩ | ⟨paths, members, sorted, -, -,
    hrun⟩
  · rw [hfail] at h
    cases h
  by_cases hempty : sorted.isEmpty
  · have hnothing := fun reg => (hrun false reg).trans (if_pos (.inl hempty))
    exact ⟨reg₁, hnothing reg₁, rfl, hnothing reg₁, fun _ => rfl⟩
  have hto : ∀ reg, env.runPublish packages false registryPath reg =
      env.publishTo paths (env.workspace members paths reg) sorted reg :=
    fun reg => (hrun false reg).trans (if_neg (by simp [hempty]))
  -- the directories are there, as the first run has come past them
  have hdirs : ensureDirs env.createDirAll paths = .ok () := by
    cases hdirs : ensureDirs env.createDirAll paths with
    | error e =>
      rw [hto, publishTo_of_error hdirs] at h
      cases h
    | ok u => rfl
  have hpublish : ∀ reg, env.runPublish packages false registryPath reg =
      env.tools.publish (env.workspace members paths reg) sorted reg :=
    fun reg => (hto reg).trans (publishTo_of_ok hdirs _ _ _)
  rw [hpublish] at h
  have hsucceeds := succeeds_of_ok h
  have hwrites := publish_of_succeeds hsucceeds
  set ws := env.workspace members paths reg with hws
  set ws₁ := env.workspace members paths reg₁ with hws₁
  have hreg₁ : Runs.exec (Registry.write env.tools.codec) reg (env.tools.writes ws sorted) = reg₁ :=
    congrArg Prod.snd ((hwrites ws reg).symm.trans h)
  set reg₂ := Runs.exec (Registry.write env.tools.codec) reg₁ (env.tools.writes ws₁ sorted) with hreg₂
  -- the second run writes to the files that the first one has written to
  have hfiles : ∀ path, path ∈ reg₂.index ↔ path ∈ reg₁.index := by
    intro path
    rw [hreg₂, mem_index_exec, or_iff_right_iff_imp]
    intro hwritten
    rw [← hreg₁, mem_index_exec]
    rw [ne_eq, entryAt_writes] at hwritten ⊢
    exact .inl hwritten
  have hcrates : reg₂.crates = reg₁.crates := by
    refine Std.ExtTreeMap.ext_getElem? fun name => ?_
    rw [hreg₂, crates_exec, crateOf_writes env.tools ws₁ ws sorted name, ← hreg₁, crates_exec,
      putCrates_putCrates]
  have hws₂ : env.workspace members paths reg₂ = ws₁ := env.workspace_congr members paths hfiles
  refine ⟨reg₂, ?_, hcrates, ?_, fun hold => ?_⟩
  · rw [hpublish, hwrites]
  · rw [hpublish, hws₂, hwrites, exec_write_again]
  · have hsame : ws₁ = ws := by
      refine env.workspace_congr members paths fun path => ⟨hold path, fun hpath => ?_⟩
      rw [← hreg₁, mem_index_exec]
      exact .inr hpath
    rw [hreg₂, hsame, ← hreg₁, exec_write_again]

/-- After the packages of a workspace were published. -/
theorem runPublish_settles_demo :
    let reg₁ := (demoEnv.runPublish [] false (some "/registry".toList) demoRegistry).2
    ∃ reg₂, demoEnv.runPublish [] false (some "/registry".toList) reg₁ = (.ok (), reg₂) ∧
      reg₂.crates = reg₁.crates ∧
      demoEnv.runPublish [] false (some "/registry".toList) reg₂ = (.ok (), reg₂) ∧
      ((∀ path ∈ reg₁.index, path ∈ demoRegistry.index) → reg₂ = reg₁) := by
  intro reg₁
  have hok : (demoEnv.runPublish [] false (some "/registry".toList) demoRegistry).1 = .ok () := by
    decide +kernel
  exact runPublish_settles demoEnv [] (some "/registry".toList) demoRegistry (Prod.ext hok rfl)

end PublishEnv

end SweGateway.Xtask

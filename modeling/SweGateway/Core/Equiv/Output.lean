import SweGateway.Core.File.Equiv.Copying
import SweGateway.Core.Output

/-!
# Where the two sinks agree

Both sinks write to a file through `FileSink`, which puts a name together from what it can say about
the path in text.  That is the file that the path denotes if the path is text and ends in a name.
Without a path one of the sinks fails and the other does not.
-/

namespace SweGateway

open LexicalPath

variable {W Loc : Type}

/-- The file system writes whole files: a file can be created or not, and takes what is written to it
once it is.  `place` maps a path to the file that it leads to. -/
structure FileSystem.WritesWhole (fs : FileSystem W) (place : FilePath → Loc)
    (contents : W → Loc → Option (List UInt8)) : Prop where
  createDirAll : ∀ dir w, contents (fs.createDirAll dir w).2 = contents w
  createFile_error : ∀ p w w' e, fs.createFile p w = (.error e, w') → contents w' = contents w
  createFile_ok : ∀ p w w', fs.createFile p w = (.ok (), w') →
    contents w' (place p) = some [] ∧ ∀ l, l ≠ place p → contents w' l = contents w l
  writeAll : ∀ p bytes w, contents w (place p) = some [] →
    ∃ w', fs.writeAll p bytes w = (.ok (), w') ∧ contents w' (place p) = some bytes ∧
      ∀ l, l ≠ place p → contents w' l = contents w l
  metadata : ∀ p w, (contents w (place p)).isSome →
    ∃ m w', fs.metadata p w = (.ok m, w') ∧ contents w' = contents w

/-- The files before and after data were written to one of them. -/
def WrittenTo (files files' : Loc → Option (List UInt8)) (l : Loc) (data : List UInt8) : Prop :=
  files' l = some data ∧ ∀ l', l' ≠ l → files' l' = files l'

/-- The file that a path denotes, if it ends in the name of one. -/
def Denotes (place : Path OsName → Loc) (path : PathBuf) (l : Loc) : Prop :=
  path.fileName.isSome ∧ place path.components = l

/-- The sinks of a section with the path agree, whatever the file system: both fail and write
nothing, or both write the data to the file that the path denotes and to no other. -/
def SinksAgree (lossy : List UInt8 → List Char) (path : Option PathBuf) : Prop :=
  ∀ (W Loc : Type) (fs : FileSystem W) (place : Path OsName → Loc)
    (contents : W → Loc → Option (List UInt8)) (print : List Char → W → W),
    fs.WritesWhole (place ∘ ofUtf8) contents → ∀ data w,
      ∃ r w₁ r' w₂, sinkWrite fs lossy print ⟨.file, path⟩ data w = (r, w₁) ∧
        configuredSinkWrite fs lossy print ⟨.file, path⟩ data w = (r', w₂) ∧
        ((∃ e e', r = .error e ∧ r' = .error e' ∧
            contents w₁ = contents w ∧ contents w₂ = contents w) ∨
          ∃ p l, path = some p ∧ Denotes place p l ∧ r = .ok () ∧ r' = .ok () ∧
            WrittenTo (contents w) (contents w₁) l data ∧
            WrittenTo (contents w) (contents w₂) l data)

/-! ### Writing through the gateway -/

namespace LocalFileGateway

variable (g : LocalFileGateway)

/-- The calls of an overwriting write. -/
theorem write_overwrite_eq (fs : FileSystem W) (path : String) (data : List UInt8) :
    g.write fs path data { overwrite := true } = (do
      createParent fs (components (g.resolvePath path))
      (fs.createFile (components (g.resolvePath path))).mapError ioError
      (fs.writeAll (components (g.resolvePath path)) data).mapError ioError
      let metadata ← (fs.metadata (components (g.resolvePath path))).mapError ioError
      metadataToInfo fs path metadata) := by
  rw [write]
  rfl

section

variable {fs : FileSystem W} {place : FilePath → Loc} {contents : W → Loc → Option (List UInt8)}
  (hfs : fs.WritesWhole place contents) {path : String} {data : List UInt8} {w w₁ w₂ : W}

include hfs

/-- Once the file is created, an overwriting write writes all of it. -/
theorem write_of_created
    (hparent : createParent fs (components (g.resolvePath path)) w = (.ok (), w₁))
    (hcreate : fs.createFile (components (g.resolvePath path)) w₁ = (.ok (), w₂)) :
    ∃ info w', g.write fs path data { overwrite := true } w = (.ok info, w') ∧
      WrittenTo (contents w) (contents w') (place (components (g.resolvePath path))) data := by
  have hdir := createParent_contents hfs.createDirAll (components (g.resolvePath path)) w
  rw [hparent] at hdir
  obtain ⟨hempty, hothers⟩ := hfs.createFile_ok _ _ _ hcreate
  obtain ⟨w₃, hall, hdata, hothers'⟩ := hfs.writeAll _ data w₂ hempty
  have hsome : (contents w₃ (place (components (g.resolvePath path)))).isSome := by
    rw [hdata]
    rfl
  obtain ⟨m, w₄, hmetadata, hsame⟩ := hfs.metadata _ w₃ hsome
  rw [write_overwrite_eq, Eff.bind_of_ok hparent, Eff.bind_of_ok (Eff.mapError_of_ok hcreate),
    Eff.bind_of_ok (Eff.mapError_of_ok hall), Eff.bind_of_ok (Eff.mapError_of_ok hmetadata)]
  refine ⟨_, w₄, rfl, ?_, fun l hl => ?_⟩
  · rw [hsame]
    exact hdata
  · rw [hsame, hothers' l hl, hothers l hl, hdir]

/-- An overwriting write fails and changes no file, or writes the whole file. -/
theorem write_overwrite :
    ∃ r w', g.write fs path data { overwrite := true } w = (r, w') ∧
      ((∃ e, r = .error e ∧ contents w' = contents w) ∨
        ∃ info, r = .ok info ∧
          WrittenTo (contents w) (contents w') (place (components (g.resolvePath path))) data) := by
  have hdir := createParent_contents hfs.createDirAll (components (g.resolvePath path)) w
  rcases Eff.ok_or_error (createParent fs (components (g.resolvePath path))) w with
    ⟨u, w₁, hparent⟩ | ⟨e, w₁, hparent⟩
  · rcases Eff.ok_or_error (fs.createFile (components (g.resolvePath path))) w₁ with
      ⟨u, w₂, hcreate⟩ | ⟨e, w₂, hcreate⟩
    · obtain ⟨info, w', hwrite, hwritten⟩ := g.write_of_created hfs hparent hcreate
      exact ⟨_, w', hwrite, .inr ⟨info, rfl, hwritten⟩⟩
    · rw [write_overwrite_eq, Eff.bind_of_ok hparent,
        Eff.bind_of_error (Eff.mapError_of_error hcreate)]
      rw [hparent] at hdir
      exact ⟨_, w₂, rfl, .inl ⟨_, rfl, (hfs.createFile_error _ _ _ _ hcreate).trans hdir⟩⟩
  · rw [write_overwrite_eq, Eff.bind_of_error hparent]
    rw [hparent] at hdir
    exact ⟨_, w₁, rfl, .inl ⟨e, rfl, hdir⟩⟩

end

end LocalFileGateway

/-! ### The file that is written -/

namespace FileSink

variable (lossy : List UInt8 → List Char) (s : FileSink)

/-- The gateway that the sink writes through, and the name that it writes to. -/
def gateway : LocalFileGateway := ⟨(s.path.parent.getD PathBuf.here).toStringLossy lossy⟩

def filename : String :=
  String.ofList ((s.path.fileName.bind OsName.toStr).getD "output".toList)

/-- The path that the sink hands to the file system. -/
def target : FilePath := components ((s.gateway lossy).resolvePath s.filename)

/-- A sink fails and changes no file, or writes the data to its target. -/
theorem write_spec {fs : FileSystem W} {place : FilePath → Loc}
    {contents : W → Loc → Option (List UInt8)} (hfs : fs.WritesWhole place contents)
    (data : List UInt8) (w : W) :
    ∃ r w', s.write fs lossy data w = (r, w') ∧
      ((∃ e, r = .error e ∧ contents w' = contents w) ∨
        r = .ok () ∧ WrittenTo (contents w) (contents w') (place (s.target lossy)) data) := by
  obtain ⟨r, w', hwrite, h⟩ := (s.gateway lossy).write_overwrite hfs
  rcases h with ⟨e, rfl, hsame⟩ | ⟨info, rfl, hwritten⟩
  · exact ⟨_, w', Eff.bind_of_error hwrite, .inl ⟨e, rfl, hsame⟩⟩
  · exact ⟨_, w', Eff.bind_of_ok hwrite, .inr ⟨rfl, hwritten⟩⟩

/-- The target of a path that is text and ends in a name is the path. -/
theorem ofUtf8_target {n : OsName} (hutf8 : s.path.IsUtf8) (hname : s.path.fileName = some n) :
    ofUtf8 (s.target lossy) = s.path.components := by
  obtain ⟨dir, hdir, hcomponents⟩ := PathBuf.components_of_fileName hname
  have hmem : Component.name n ∈ s.path.components := by
    rw [hcomponents]
    exact List.mem_append_right _ List.mem_cons_self
  obtain ⟨name, rfl⟩ := hutf8 n hmem
  have hfile := s.path.isFileName name hmem
  have hdirUtf8 : dir.IsUtf8 := fun m hm => hutf8 m (by
    rw [hcomponents]
    exact List.mem_append_left _ hm)
  have hdrop : name.dropWhile (· = '/') = name := by
    cases name with
    | nil => rfl
    | cons c rest =>
      refine List.dropWhile_cons_of_neg ?_
      simpa using fun h : c = '/' => hfile.slash (h ▸ List.mem_cons_self)
  have htarget : s.target lossy =
      components (dir.toStringLossy lossy) ++ [.name name] := by
    rw [target, LocalFileGateway.resolvePath, gateway, filename, hdir, hname]
    simp only [Option.bind_some, OsName.toStr, Option.getD_some, String.toList_ofList, hdrop]
    exact components_join_fileName _ hfile
  rw [htarget, hcomponents, ← PathBuf.ofUtf8_components_toStringLossy lossy hdirUtf8, ofUtf8,
    List.map_append]
  rfl

end FileSink

/-! ### In memory -/

theorem writesWhole_placedFiles [DecidableEq Loc] (place : FilePath → Loc) :
    (LocalFileGateway.placedFiles place).WritesWhole place id where
  createDirAll _ _ := rfl
  createFile_error _ _ _ _ h := by cases h
  createFile_ok p files files' h := by
    obtain rfl := (Prod.mk.inj h).2
    exact ⟨Function.update_self .., fun l hl => Function.update_of_ne hl _ _⟩
  writeAll p bytes files h := by
    refine ⟨_, rfl, ?_, fun l hl => Function.update_of_ne hl _ _⟩
    refine (Function.update_self ..).trans ?_
    rw [show files (place p) = some [] from h]
    simp
  metadata p files h := by
    obtain ⟨bytes, hbytes⟩ := Option.isSome_iff_exists.mp h
    refine ⟨⟨bytes.length, false, none, none⟩, files, ?_, rfl⟩
    simp only [LocalFileGateway.placedFiles, show files (place p) = some bytes from hbytes]

/-- Files in memory can always be created, so a sink does not fail there. -/
theorem FileSink.write_placedFiles [DecidableEq Loc] (lossy : List UInt8 → List Char) (s : FileSink)
    (place : FilePath → Loc) (data : List UInt8) (files : Loc → Option (List UInt8)) :
    ∃ files', s.write (LocalFileGateway.placedFiles place) lossy data files = (.ok (), files') ∧
      WrittenTo files files' (place (s.target lossy)) data := by
  obtain ⟨info, files', hwrite, hwritten⟩ := (s.gateway lossy).write_of_created
    (writesWhole_placedFiles place) (LocalFileGateway.createParent_placedFiles place _ files) rfl
  exact ⟨files', Eff.bind_of_ok hwrite, hwritten⟩

/-! ### Agreement -/

theorem sinkWrite_file {fs : FileSystem W} {lossy : List UInt8 → List Char}
    {print : List Char → W → W} (path : Option PathBuf) (data : List UInt8) :
    sinkWrite fs lossy print ⟨.file, path⟩ data =
      FileSink.write fs lossy ⟨path.getD PathBuf.empty⟩ data := rfl

/-- **The sinks agree** exactly where there is a path, which is text and ends in a name. -/
theorem sinksAgree_iff (lossy : List UInt8 → List Char) (path : Option PathBuf) :
    SinksAgree lossy path ↔ ∃ p, path = some p ∧ p.IsUtf8 ∧ p.fileName.isSome := by
  constructor
  · intro h
    -- files in memory, a different one for each path
    obtain ⟨r, w₁, r', w₂, hsink, hconfigured, hagree⟩ := h _ _
      (LocalFileGateway.placedFiles ofUtf8) id id (fun _ w => w) (writesWhole_placedFiles ofUtf8) []
      (fun _ => none)
    obtain ⟨files', hok, hwritten⟩ := FileSink.write_placedFiles lossy ⟨path.getD PathBuf.empty⟩
      ofUtf8 [] (fun _ => none)
    rw [sinkWrite_file, hok] at hsink
    obtain ⟨rfl, rfl⟩ := Prod.mk.inj hsink
    rcases hagree with ⟨e, e', he, -⟩ | ⟨p, l, rfl, ⟨hname, rfl⟩, -, -, ⟨hdata, -⟩, -⟩
    · cases he
    · refine ⟨p, rfl, fun n hn => ?_, hname⟩
      -- the file of the path is the one that was written, so its names are text
      have heq : p.components = ofUtf8 (FileSink.target lossy ⟨p⟩) := by
        by_contra hne
        have hnone := hwritten.2 p.components hne
        rw [id, id] at hdata
        rw [hdata] at hnone
        cases hnone
      rw [heq] at hn
      obtain ⟨c, -, hc⟩ := List.mem_map.mp hn
      obtain ⟨name, -, rfl⟩ := name_of_map_eq_name hc
      exact ⟨name, rfl⟩
  · rintro ⟨p, rfl, hutf8, hname⟩ W Loc fs place contents print hfs data w
    obtain ⟨n, hn⟩ := Option.isSome_iff_exists.mp hname
    obtain ⟨r, w', hwrite, h⟩ := FileSink.write_spec lossy ⟨p⟩ hfs data w
    refine ⟨r, w', r, w', hwrite, hwrite, ?_⟩
    rcases h with ⟨e, rfl, hsame⟩ | ⟨rfl, hwritten⟩
    · exact .inl ⟨e, e, rfl, rfl, hsame, hsame⟩
    · rw [Function.comp_apply, FileSink.ofUtf8_target lossy ⟨p⟩ hutf8 hn] at hwritten
      exact .inr ⟨p, _, rfl, ⟨hname, rfl⟩, rfl, rfl, hwritten, hwritten⟩

/-- Without a path, one sink writes to `./output` and the other one fails. -/
theorem not_sinksAgree_none :
    (∃ files', sinkWrite (LocalFileGateway.placedFiles ofUtf8) (fun _ => []) (fun _ w => w)
        ⟨.file, none⟩ [1] (fun _ => none) = (.ok (), files') ∧
        files' [.here, .name (.utf8 "output".toList)] = some [1]) ∧
      configuredSinkWrite (LocalFileGateway.placedFiles ofUtf8) (fun _ => []) (fun _ w => w)
        ⟨.file, none⟩ [1] (fun _ => none) =
          (.error (.validationError "sink_type is 'file' but no 'path' specified in gateway.toml"),
            fun _ => none) ∧
      ¬SinksAgree (fun _ => []) none := by
  obtain ⟨files', hok, hdata, -⟩ := FileSink.write_placedFiles (fun _ => []) ⟨PathBuf.empty⟩
    ofUtf8 [1] (fun _ => none)
  have htarget : ofUtf8 (FileSink.target (fun _ => []) ⟨PathBuf.empty⟩) =
      [.here, .name (.utf8 "output".toList)] := by decide +kernel
  rw [htarget] at hdata
  refine ⟨⟨files', hok, hdata⟩, rfl, fun h => ?_⟩
  obtain ⟨r, w₁, r', w₂, hsink, hconfigured, hagree⟩ := h _ _
    (LocalFileGateway.placedFiles ofUtf8) id id (fun _ w => w) (writesWhole_placedFiles ofUtf8) [1]
    (fun _ => none)
  rw [sinkWrite_file] at hsink
  obtain ⟨rfl, rfl⟩ := Prod.mk.inj (hok.symm.trans hsink)
  rcases hagree with ⟨e, e', he, -⟩ | ⟨p, l, hp, -⟩
  · cases he
  · cases hp

end SweGateway

import SweGateway.Core.Equiv.Output
import SweGateway.Core.File.Equiv.Provenance
import SweGateway.Core.Input

/-!
# What the input source finds and reads

A scan finds, each once, the files to which no hidden directory and no `target` or `node_modules`
leads; files with such names are found as well as others (`LocalInputSource.scanFiles_exact`).

What a file sink has written the input source reads back (`LocalInputSource.readFile_of_sinkWrite`):
the sink takes its path apart and hands the parts to a file gateway, which puts them together again.
-/

namespace SweGateway

open LexicalPath Eff

namespace LocalInputSource

variable {lossy : List UInt8 → List Char}

/-! ### Scanning -/

/-- On the way to a file everything is kept exactly if no directory there is skipped. -/
theorem forall_keeps_iff {κ : Type} {root : Entry OsName κ} (hdistinct : root.Distinct)
    {path : List OsName} {contents : κ} (hfile : root.Leads path (.file contents)) :
    (∀ front e, front <+: path → root.Leads front e → keeps lossy ⟨front, e.kind⟩ = true) ↔
      ∀ name ∈ path.dropLast, skips lossy name = false := by
  constructor
  · intro h name hname
    -- the name is the last one on the way to a directory
    obtain ⟨before, after, hsplit⟩ := List.append_of_mem hname
    have hfront : before ++ [name] <+: path.dropLast := ⟨after, by rw [hsplit]; simp⟩
    have hprefix : before ++ [name] <+: path := hfront.trans path.dropLast_prefix
    have hne : before ++ [name] ≠ path := by
      rintro heq
      have hlen := hfront.length_le
      rw [heq, List.length_dropLast] at hlen
      have hpos : 0 < path.length := heq ▸ by simp
      omega
    obtain ⟨entries, hdir⟩ := hfile.exists_dir hprefix hne
    simpa [keeps, Entry.kind] using h _ _ hprefix hdir
  · intro h front e hfront hleads
    unfold keeps
    cases hlast : front.getLast? with
    | none => rfl
    | some name =>
      obtain ⟨before, rfl⟩ := List.getLast?_eq_some_iff.mp hlast
      by_cases hpath : before ++ [name] = path
      · -- the file itself is no directory
        subst hpath
        obtain rfl := hfile.unique hdistinct hleads
        rfl
      · have hmem : name ∈ path.dropLast := by
          obtain ⟨rest, rfl⟩ := hfront
          have hrest : rest ≠ [] := by
            rintro rfl
            exact hpath (List.append_nil _).symm
          rw [List.dropLast_append_of_ne_nil hrest]
          simp
        dsimp only
        rw [h name hmem, Bool.and_false]
        rfl

theorem mem_scanFiles_iff {ε : Type}
    {walkDir : (WalkEntry OsName → Bool) → List (Except ε (WalkEntry OsName))} {path : List OsName} :
    path ∈ scanFiles lossy walkDir ↔ .ok ⟨path, .file⟩ ∈ walkDir (keeps lossy) := by
  rw [scanFiles, List.mem_filterMap]
  constructor
  · rintro ⟨_ | entry, hmem, hscanned⟩
    · cases hscanned
    · obtain ⟨p, kind⟩ := entry
      simp only [scanned] at hscanned
      split at hscanned
      · next hkind =>
        obtain rfl : kind = .file := hkind
        cases hscanned
        exact hmem
      · cases hscanned
  · exact fun h => ⟨_, h, rfl⟩

/-- **The scan** finds each file once, and exactly those below directories that are not skipped. -/
theorem scanFiles_exact {κ ε : Type} {root : Entry OsName κ}
    {walkDir : (WalkEntry OsName → Bool) → List (Except ε (WalkEntry OsName))}
    (hdistinct : root.Distinct) (hwalk : root.Walks walkDir) :
    (scanFiles lossy walkDir).Nodup ∧
      ∀ path, path ∈ scanFiles lossy walkDir ↔
        (∃ contents, root.Leads path (.file contents)) ∧
          ∀ name ∈ path.dropLast, skips lossy name = false := by
  constructor
  · -- files with one path are one entry
    have hscan : scanFiles lossy walkDir =
        ((walkDir (keeps lossy)).filterMap Except.toOption).filterMap
          fun entry => scanned (ε := ε) (.ok entry) := by
      rw [scanFiles, List.filterMap_filterMap]
      refine List.filterMap_congr fun item _ => ?_
      cases item <;> rfl
    rw [hscan]
    refine (hwalk.nodup _).filterMap fun entry entry' path hpath hpath' => ?_
    obtain ⟨p, kind⟩ := entry
    obtain ⟨p', kind'⟩ := entry'
    simp only [scanned, Option.mem_def, Option.ite_none_right_eq_some, Option.some.injEq]
      at hpath hpath'
    rw [hpath.1, hpath'.1, hpath.2, hpath'.2]
  · intro path
    rw [mem_scanFiles_iff, hwalk.mem_iff]
    have hfile : (∃ e, root.Leads path e ∧ e.kind = .file) ↔
        ∃ contents, root.Leads path (.file contents) := by
      constructor
      · rintro ⟨e, hleads, hkind⟩
        cases e with
        | file contents => exact ⟨contents, hleads⟩
        | dir | other => cases hkind
      · rintro ⟨contents, hleads⟩
        exact ⟨_, hleads, rfl⟩
    rw [hfile]
    refine and_congr_right fun h => ?_
    obtain ⟨contents, hleads⟩ := h
    exact forall_keeps_iff hdistinct hleads

/-- A directory with a hidden file, and with files in directories that are skipped. -/
def checkout : Entry OsName ℕ :=
  .dir [
    (.utf8 ".git".toList, .dir [(.utf8 "config".toList, .file 1)]),
    (.utf8 ".env".toList, .file 2),
    (.utf8 "src".toList, .dir [(.utf8 "target".toList, .file 3), (.utf8 "link".toList, .other)]),
    (.utf8 "target".toList, .dir [(.utf8 "output.o".toList, .file 4)])]

/-- The walk that lists it. -/
def walkCheckout (keep : WalkEntry OsName → Bool) : List (Except String (WalkEntry OsName)) :=
  (checkout.walk keep []).map .ok

example : scanFiles (fun _ => []) walkCheckout =
    [[.utf8 ".env".toList], [.utf8 "src".toList, .utf8 "target".toList]] := by
  decide +kernel

theorem scanFiles_exact_checkout :
    [.utf8 "src".toList, .utf8 "target".toList] ∈ scanFiles (fun _ => []) walkCheckout := by
  have hdistinct : checkout.Distinct := by
    simp only [checkout, Entry.Distinct, Entry.DistinctEntries]
    decide
  refine ((scanFiles_exact hdistinct (Entry.walks_walk hdistinct)).2 _).mpr ⟨⟨3, ?_⟩, by decide⟩
  exact .inside (List.mem_cons_of_mem _ (List.mem_cons_of_mem _ List.mem_cons_self))
    (.inside List.mem_cons_self (.here _))

/-! ### Reading back -/

variable {W : Type} {fs : FileSystem W} {cwd : FilePlace}
  {contents : W → FilePlace → Option (List UInt8)}

theorem toUTF8_of_fromUTF8? {bytes : List UInt8} {text : String}
    (h : String.fromUTF8? ⟨bytes.toArray⟩ = some text) : text.toUTF8.data.toList = bytes := by
  unfold String.fromUTF8? at h
  split at h
  · cases h
    rfl
  · cases h

/-- A file that is read as text holds the text. -/
theorem contents_of_readFile (hfs : fs.Keeps cwd contents) {display : FilePath → String}
    {path : FilePath} {w w' : W} {text : String}
    (h : readFile fs display path w = (.ok text, w')) :
    contents w (resolve cwd path) = some text.toUTF8.data.toList := by
  obtain ⟨_, w₁, hopen, h⟩ := bind_eq_ok h
  obtain ⟨bytes, w₂, hread, h⟩ := bind_eq_ok h
  have hw₁ := hfs.openFile path w
  rw [mapError_eq_ok hopen] at hw₁
  rw [← hw₁, hfs.bytes _ _ _ _ (mapError_eq_ok hread)]
  cases htext : String.fromUTF8? ⟨bytes.toArray⟩ with
  | some text' =>
    simp only [htext] at h
    cases h
    rw [toUTF8_of_fromUTF8? htext]
  | none =>
    simp only [htext] at h
    cases h

/-- **Reading back.** What the input source reads at the path of a file sink that has returned `Ok`
is what was written. -/
theorem readFile_of_sinkWrite (hfs : fs.Keeps cwd contents) {print : List Char → W → W}
    {display : FilePath → String} {path : List Char} {data : List UInt8} {w w' w'' : W}
    {text : String} (hname : (PathBuf.ofText path).fileName.isSome)
    (hwrite : sinkWrite fs lossy print ⟨.file, some (PathBuf.ofText path)⟩ data w = (.ok (), w'))
    (hread : readFile fs display (components path) w' = (.ok text, w'')) :
    text.toUTF8.data.toList = data := by
  obtain ⟨n, hn⟩ := Option.isSome_iff_exists.mp hname
  obtain ⟨info, w₁, hgateway, hdone⟩ := bind_eq_ok hwrite
  cases hdone
  have hcontents := LocalFileGateway.contents_write_of_ok hfs hgateway
  -- the sink's target is the path itself
  have htarget : FileSink.target lossy ⟨PathBuf.ofText path⟩ = components path :=
    ofUtf8_injective (FileSink.ofUtf8_target lossy _ (PathBuf.isUtf8_ofText path) hn)
  have hplace : (FileSink.gateway lossy ⟨PathBuf.ofText path⟩).key cwd
      (FileSink.filename ⟨PathBuf.ofText path⟩) = resolve cwd (components path) :=
    congrArg (resolve cwd) htarget
  have hread' := contents_of_readFile hfs hread
  rw [hcontents] at hread'
  change Function.update _ ((FileSink.gateway lossy ⟨PathBuf.ofText path⟩).key cwd
      (FileSink.filename ⟨PathBuf.ofText path⟩)) _ _ = _ at hread'
  rw [hplace, Function.update_self] at hread'
  exact (Option.some.inj hread').symm

/-- A report is written next to the current directory and read back. -/
theorem readFile_of_sinkWrite_report :
    ∃ text : String, (readFile (LocalFileGateway.namedFiles ["work".toList]) (fun _ => "")
      (components "../out/report.txt".toList) (sinkWrite
        (LocalFileGateway.namedFiles ["work".toList]) (fun _ => []) (fun _ w => w)
        ⟨.file, some (PathBuf.ofText "../out/report.txt".toList)⟩ [111, 107] fun _ => none).2).1 =
          .ok text ∧ text.toUTF8.data.toList = [111, 107] := by
  have hwrite : (sinkWrite (LocalFileGateway.namedFiles ["work".toList]) (fun _ => [])
      (fun _ w => w) ⟨.file, some (PathBuf.ofText "../out/report.txt".toList)⟩ [111, 107]
        fun _ => none).1 = .ok () := by decide +kernel
  have hread : (readFile (LocalFileGateway.namedFiles ["work".toList]) (fun _ => "")
      (components "../out/report.txt".toList) (sinkWrite
        (LocalFileGateway.namedFiles ["work".toList]) (fun _ => []) (fun _ w => w)
        ⟨.file, some (PathBuf.ofText "../out/report.txt".toList)⟩ [111, 107] fun _ => none).2).1 =
          .ok "ok" := by decide +kernel
  exact ⟨"ok", hread, readFile_of_sinkWrite (LocalFileGateway.keeps_namedFiles _) (by decide)
    (Prod.ext hwrite rfl) (Prod.ext hread rfl)⟩

end LocalInputSource

end SweGateway

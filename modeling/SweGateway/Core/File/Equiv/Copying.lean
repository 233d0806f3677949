import Mathlib.Logic.Function.Basic
import SweGateway.Core.File.Equiv.Sandbox

/-!
# What a copy does to the files

Several paths may lead to one file: `place` maps a path to the file that it leads to, as the links
and directories of the file system have it.  A copy opens its source, empties its destination and
then copies bytes from one to the other.  Where the two paths lead to one file there is nothing left
to copy by then, so `copy` keeps its source exactly if they do not, or there is nothing to lose
(`copyPreserves_iff`).
-/

namespace SweGateway

open LexicalPath

variable {W Loc : Type} [DecidableEq Loc]

/-- What copying the file at `source` to `dest` makes of the files. -/
def copied (files : Loc → Option (List UInt8)) (source dest : Loc) : Loc → Option (List UInt8) :=
  -- the destination is created or truncated before the first byte is read
  let truncated := Function.update files dest (some [])
  Function.update truncated dest (truncated source)

theorem copied_of_ne (files : Loc → Option (List UInt8)) {source dest : Loc} (h : source ≠ dest) :
    copied files source dest = Function.update files dest (files source) := by
  rw [copied, Function.update_of_ne h, Function.update_idem]

/-- A file that is copied to itself is empty. -/
theorem copied_self (files : Loc → Option (List UInt8)) (l : Loc) :
    copied files l l = Function.update files l (some []) := by
  rw [copied, Function.update_self, Function.update_idem]

/-- The file system copies files this way, and neither creates files nor changes any when it creates
directories and reads metadata.  Every call may fail. -/
structure FileSystem.Copies (fs : FileSystem W) (place : FilePath → Loc)
    (contents : W → Loc → Option (List UInt8)) : Prop where
  createDirAll : ∀ dir w, contents (fs.createDirAll dir w).2 = contents w
  metadata : ∀ p w, contents (fs.metadata p w).2 = contents w
  copy : ∀ source dest w w', fs.copy source dest w = (.ok (), w') →
    (contents w (place source)).isSome ∧
      contents w' = copied (contents w) (place source) (place dest)

namespace LocalFileGateway

variable (g : LocalFileGateway)

/-- The file that a path argument leads to. -/
def placeOf (place : FilePath → Loc) (path : String) : Loc :=
  place (components (g.resolvePath path))

/-- On every file system that has the files, a copy that returns `Ok` has left its source and all
files but its destination as they were, and its destination has the contents of its source. -/
def CopyPreserves (place : FilePath → Loc) (files : Loc → Option (List UInt8))
    (source destination : String) : Prop :=
  ∀ (W : Type) (fs : FileSystem W) (contents : W → Loc → Option (List UInt8)),
    fs.Copies place contents → ∀ w w' info, contents w = files →
      g.copy fs source destination w = (.ok info, w') →
        contents w' (g.placeOf place source) = files (g.placeOf place source) ∧
        contents w' (g.placeOf place destination) = files (g.placeOf place source) ∧
        ∀ l, l ≠ g.placeOf place destination → contents w' l = files l

omit [DecidableEq Loc] in
theorem createParent_contents {fs : FileSystem W} {contents : W → Loc → Option (List UInt8)}
    (h : ∀ dir w, contents (fs.createDirAll dir w).2 = contents w) (path : FilePath) (w : W) :
    contents (createParent fs path w).2 = contents w := by
  unfold createParent
  cases parent path with
  | none => rfl
  | some dir =>
    dsimp only
    rw [Eff.mapError_snd]
    exact h dir w

/-- What a copy that returns `Ok` has done. -/
theorem contents_copy {fs : FileSystem W} {place : FilePath → Loc}
    {contents : W → Loc → Option (List UInt8)} (hfs : fs.Copies place contents)
    {source destination : String} {w w' : W} {info : FileInfo}
    (h : g.copy fs source destination w = (.ok info, w')) :
    (contents w (g.placeOf place source)).isSome ∧
      contents w' =
        copied (contents w) (g.placeOf place source) (g.placeOf place destination) := by
  obtain ⟨_, w₁, hparent, h⟩ := Eff.bind_eq_ok h
  obtain ⟨_, w₂, hcopy, h⟩ := Eff.bind_eq_ok h
  obtain ⟨m, w₃, hmetadata, h⟩ := Eff.bind_eq_ok h
  have hw₁ := createParent_contents hfs.createDirAll (components (g.resolvePath destination)) w
  rw [hparent] at hw₁
  obtain ⟨hsome, hw₂⟩ := hfs.copy _ _ _ _ (Eff.mapError_eq_ok hcopy)
  have hw₃ := hfs.metadata (components (g.resolvePath destination)) w₂
  rw [Eff.mapError_eq_ok hmetadata] at hw₃
  obtain rfl : w₃ = w' := (Prod.mk.inj h).2
  rw [hw₁] at hsome hw₂
  exact ⟨hsome, hw₃.trans hw₂⟩

/-! ### Files at places -/

/-- The files of a file system in memory, with directories that are always there. -/
def placedFiles (place : FilePath → Loc) : FileSystem (Loc → Option (List UInt8)) where
  openFile p files := (if (files (place p)).isSome then .ok () else .error ⟨true, "not found"⟩, files)
  readToEnd p files := (.ok ((files (place p)).getD []), files)
  metadata p files :=
    match files (place p) with
    | some bytes => (.ok ⟨bytes.length, false, none, none⟩, files)
    | none => (.error ⟨true, "not found"⟩, files)
  tryExists p files := (.ok (files (place p)).isSome, files)
  readDir _ files := (.ok [], files)
  entryMetadata _ files := (.error ⟨true, "not found"⟩, files)
  createDirAll _ files := (.ok (), files)
  createFile p files := (.ok (), Function.update files (place p) (some []))
  writeAll p bytes files :=
    (.ok (), Function.update files (place p)
      ((files (place p)).map fun old => bytes ++ old.drop bytes.length))
  removeFile p files := (.ok (), Function.update files (place p) none)
  copy source dest files :=
    if (files (place source)).isSome then (.ok (), copied files (place source) (place dest))
    else (.error ⟨true, "not found"⟩, files)
  rename source dest files :=
    (.ok (), Function.update (Function.update files (place source) none) (place dest)
      (files (place source)))
  removeDir _ files := (.ok (), files)
  removeDirAll _ files := (.ok (), files)
  now _ := 0
  guessMime _ := none

theorem copies_placedFiles (place : FilePath → Loc) :
    (placedFiles place).Copies place id where
  createDirAll _ _ := rfl
  metadata p files := by
    unfold placedFiles
    dsimp only
    cases files (place p) <;> rfl
  copy source dest files files' h := by
    unfold placedFiles at h
    dsimp only at h
    split at h
    · next hsome =>
      obtain rfl := (Prod.mk.inj h).2
      exact ⟨hsome, rfl⟩
    · cases h

theorem createParent_placedFiles (place : FilePath → Loc) (path : FilePath)
    (files : Loc → Option (List UInt8)) :
    createParent (placedFiles place) path files = (.ok (), files) := by
  unfold createParent
  cases parent path <;> rfl

/-- A copy of a file that is there returns `Ok`. -/
theorem copy_placedFiles (place : FilePath → Loc) {files : Loc → Option (List UInt8)}
    {source : String} (destination : String) (h : (files (g.placeOf place source)).isSome) :
    ∃ info, g.copy (placedFiles place) source destination files =
      (.ok info, copied files (g.placeOf place source) (g.placeOf place destination)) := by
  have hparent := createParent_placedFiles place (components (g.resolvePath destination)) files
  have hcopy : (placedFiles place).copy (components (g.resolvePath source))
      (components (g.resolvePath destination)) files =
        (.ok (), copied files (g.placeOf place source) (g.placeOf place destination)) := if_pos h
  -- the destination is there after the copy
  obtain ⟨m, hm⟩ : ∃ m, (placedFiles place).metadata (components (g.resolvePath destination))
      (copied files (g.placeOf place source) (g.placeOf place destination)) =
        (.ok m, copied files (g.placeOf place source) (g.placeOf place destination)) := by
    have hdest : (copied files (g.placeOf place source) (g.placeOf place destination)
        (g.placeOf place destination)).isSome := by
      rw [copied, Function.update_self]
      by_cases hsame : g.placeOf place source = g.placeOf place destination
      · rw [hsame, Function.update_self]
        rfl
      · rwa [Function.update_of_ne hsame]
    obtain ⟨bytes, hbytes⟩ := Option.isSome_iff_exists.mp hdest
    refine ⟨⟨bytes.length, false, none, none⟩, ?_⟩
    unfold placeOf at hbytes
    simp only [placedFiles, placeOf, hbytes]
  have hrun : g.copy (placedFiles place) source destination files =
      metadataToInfo (placedFiles place) destination m
        (copied files (g.placeOf place source) (g.placeOf place destination)) := by
    rw [copy, transfer, Eff.bind_of_ok hparent, Eff.bind_of_ok (Eff.mapError_of_ok hcopy),
      Eff.bind_of_ok (Eff.mapError_of_ok hm)]
  exact ⟨_, hrun⟩

/-- **A copy keeps its source** exactly if its two paths lead to different files, or the source is
empty or not there. -/
theorem copyPreserves_iff (place : FilePath → Loc) (files : Loc → Option (List UInt8))
    (source destination : String) :
    g.CopyPreserves place files source destination ↔
      g.placeOf place source ≠ g.placeOf place destination ∨
        ∀ bytes, files (g.placeOf place source) = some bytes → bytes = [] := by
  constructor
  · -- files in memory can always be copied, so there the source gets lost
    intro h
    by_contra hnot
    push Not at hnot
    obtain ⟨hsame, bytes, hbytes, hne⟩ := hnot
    have hsome : (files (g.placeOf place source)).isSome := by
      rw [hbytes]
      rfl
    obtain ⟨info, hcopy⟩ := g.copy_placedFiles place destination hsome
    have hkept := (h _ _ id (copies_placedFiles place) files _ info rfl hcopy).1
    rw [hsame, id, copied_self, Function.update_self, ← hsame, hbytes] at hkept
    exact hne (Option.some.inj hkept).symm
  · rintro hcond W fs contents hfs w w' info rfl hcopy
    obtain ⟨hsome, hw'⟩ := g.contents_copy hfs hcopy
    rw [hw']
    by_cases hsame : g.placeOf place source = g.placeOf place destination
    · -- the file is empty already
      obtain ⟨bytes, hbytes⟩ := Option.isSome_iff_exists.mp hsome
      obtain rfl := hcond.resolve_left (not_not_intro hsame) bytes hbytes
      rw [hsame] at hbytes ⊢
      rw [copied_self, ← hbytes, Function.update_eq_self]
      exact ⟨rfl, rfl, fun _ _ => rfl⟩
    · rw [copied_of_ne _ hsame, Function.update_self, Function.update_of_ne hsame]
      exact ⟨rfl, rfl, fun l hl => Function.update_of_ne hl _ _⟩

/-- Where paths lead if there are no links. -/
def lexicalPlace : FilePath → List (List Char) := resolve []

/-- The file `/data/a`, and no other. -/
def oneFile : List (List Char) → Option (List UInt8) :=
  fun l => if l = ["data".toList, "a".toList] then some [1, 2] else none

/-- Copying `a` to `x/../a` returns `Ok` and leaves the file empty. -/
theorem copy_twoSpellings :
    (∃ info w', copy ⟨"/data".toList⟩ (placedFiles lexicalPlace) "a" "x/../a" oneFile =
        (.ok info, w') ∧ oneFile ["data".toList, "a".toList] = some [1, 2] ∧
        w' ["data".toList, "a".toList] = some []) ∧
      ¬CopyPreserves ⟨"/data".toList⟩ lexicalPlace oneFile "a" "x/../a" := by
  have hsource : placeOf ⟨"/data".toList⟩ lexicalPlace "a" = ["data".toList, "a".toList] := by
    decide +kernel
  have hdest : placeOf ⟨"/data".toList⟩ lexicalPlace "x/../a" = ["data".toList, "a".toList] := by
    decide +kernel
  have hsome : (oneFile (placeOf ⟨"/data".toList⟩ lexicalPlace "a")).isSome := by
    rw [hsource]
    rfl
  obtain ⟨info, hcopy⟩ := copy_placedFiles ⟨"/data".toList⟩ lexicalPlace "x/../a" hsome
  rw [hsource, hdest, copied_self] at hcopy
  refine ⟨⟨info, _, hcopy, rfl, Function.update_self ..⟩, fun h => ?_⟩
  have hkept := (h _ _ id (copies_placedFiles lexicalPlace) oneFile _ info rfl hcopy).1
  rw [hsource, id, Function.update_self] at hkept
  cases hkept

end LocalFileGateway

end SweGateway

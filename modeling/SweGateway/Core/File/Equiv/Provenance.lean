import SweGateway.Core.File.Equiv.Copying
import SweGateway.Lib.Runs

/-!
# Where the contents of a file come from

A run of calls moves files about: a write gives a file new contents, a copy or a rename takes them
from another one, a deletion leaves none.  `FileCall.source` says for a call that returns `Ok` where
what is at a place after it has been before, and `trace` follows a place backwards through the calls
of a run, until it comes to a call that has made or removed what is there, or to the start.  A call
that fails does no harm to a place that it would not have changed, and some failures do none at all
(`FileCall.Clean`); at any other the trace is lost.

Every read that returns `Ok` returns what the trace leads to (`read_traced`).  `FileSystem.Keeps` is
what this needs of the file system: it has no links, so that a path leads where its text says.
-/

namespace SweGateway

open LexicalPath

variable {W : Type}

/-- A place in the file system: the names that lead to it. -/
abbrev FilePlace := List (List Char)

/-- What the places have become once `source`, and all that is below it, is at `dest`. -/
def moved (files : FilePlace → Option (List UInt8)) (source dest : FilePlace) :
    FilePlace → Option (List UInt8) := fun l =>
  if dest <+: l then files (source ++ l.drop dest.length)
  else if source <+: l then none
  else files l

/-- A file system without links: what its calls do to the contents of the files.  All of them may
fail. -/
structure FileSystem.Keeps (fs : FileSystem W) (cwd : FilePlace)
    (contents : W → FilePlace → Option (List UInt8)) : Prop where
  openFile : ∀ p w, contents (fs.openFile p w).2 = contents w
  readToEnd : ∀ p w, contents (fs.readToEnd p w).2 = contents w
  bytes : ∀ p w w' bytes, fs.readToEnd p w = (.ok bytes, w') →
    contents w (resolve cwd p) = some bytes
  metadata : ∀ p w, contents (fs.metadata p w).2 = contents w
  tryExists : ∀ p w, contents (fs.tryExists p w).2 = contents w
  readDir : ∀ p w, contents (fs.readDir p w).2 = contents w
  entryMetadata : ∀ p w, contents (fs.entryMetadata p w).2 = contents w
  createDirAll : ∀ p w, contents (fs.createDirAll p w).2 = contents w
  /-- A file that is created is empty, also if it was there already. -/
  createFile : ∀ p w w', fs.createFile p w = (.ok (), w') →
    contents w' = Function.update (contents w) (resolve cwd p) (some [])
  createFile_frame : ∀ p w, ∀ l ≠ resolve cwd p, contents (fs.createFile p w).2 l = contents w l
  writeAll : ∀ p bytes w w', contents w (resolve cwd p) = some [] →
    fs.writeAll p bytes w = (.ok (), w') →
      contents w' = Function.update (contents w) (resolve cwd p) (some bytes)
  writeAll_frame : ∀ p bytes w, ∀ l ≠ resolve cwd p,
    contents (fs.writeAll p bytes w).2 l = contents w l
  removeFile : ∀ p w w', fs.removeFile p w = (.ok (), w') →
    contents w' = Function.update (contents w) (resolve cwd p) none
  removeFile_error : ∀ p w w' e, fs.removeFile p w = (.error e, w') → contents w' = contents w
  copy : ∀ source dest w w', fs.copy source dest w = (.ok (), w') →
    contents w' = copied (contents w) (resolve cwd source) (resolve cwd dest)
  copy_frame : ∀ source dest w, ∀ l ≠ resolve cwd dest,
    contents (fs.copy source dest w).2 l = contents w l
  rename : ∀ source dest w w', fs.rename source dest w = (.ok (), w') →
    contents w' = moved (contents w) (resolve cwd source) (resolve cwd dest)
  rename_error : ∀ source dest w w' e, fs.rename source dest w = (.error e, w') →
    contents w' = contents w
  removeDir : ∀ p w, contents (fs.removeDir p w).2 = contents w
  removeDirAll : ∀ p w w', fs.removeDirAll p w = (.ok (), w') →
    contents w' = fun l => if resolve cwd p <+: l then none else contents w l
  removeDirAll_frame : ∀ p w l, ¬ resolve cwd p <+: l →
    contents (fs.removeDirAll p w).2 l = contents w l

/-- Where what is at a place has been before: at a place, nowhere, or it is new. -/
inductive Source where
  | kept (l : FilePlace)
  | new (bytes : List UInt8)
  | gone
  deriving DecidableEq, Repr

/-- What there is, if the files were these before. -/
def Source.value (files : FilePlace → Option (List UInt8)) : Source → Option (List UInt8)
  | .kept l => files l
  | .new bytes => some bytes
  | .gone => none

namespace LocalFileGateway

variable (g : LocalFileGateway) (cwd : FilePlace)

/-- The place that a path argument leads to. -/
def key (path : String) : FilePlace := g.placeOf (resolve cwd) path

/-- Where what is at a place after a call that returns `Ok` has been before. -/
def source : FileCall → FilePlace → Source
  | .write path contents _, l => if l = g.key cwd path then .new contents else .kept l
  | .delete path, l => if l = g.key cwd path then .gone else .kept l
  | .copy source destination, l =>
    if l = g.key cwd destination then
      -- a file that is copied to itself is emptied
      if g.key cwd source = g.key cwd destination then .new [] else .kept (g.key cwd source)
    else .kept l
  | .rename source destination, l =>
    if g.key cwd destination <+: l then
      .kept (g.key cwd source ++ l.drop (g.key cwd destination).length)
    else if g.key cwd source <+: l then .gone
    else .kept l
  | .deleteDirectory path true, l => if g.key cwd path <+: l then .gone else .kept l
  | _, l => .kept l

/-- A failure of the call with the error that leaves every file as it was. -/
def Clean : FileCall → GatewayError → Prop
  | .write _ _ _, .conflict _ => True
  | .delete _, _ => True
  | .rename _ _, .notFound _ => True
  | _, _ => False

instance (call : FileCall) (e : GatewayError) : Decidable (Clean call e) := by
  unfold Clean
  split <;> infer_instance

/-- The calls so far with their results, the last one first, and the world they have left. -/
def history (fs : FileSystem W) (calls : List FileCall) (w : W) :
    List (FileCall × GatewayResult Unit) × W :=
  Runs.exec (fun st call => ((call, (g.run fs call st.2).1) :: st.1, (g.run fs call st.2).2))
    ([], w) calls

/-- Follows something backwards through the calls, the last one first.  It is lost at a call that
failed and may have changed it. -/
def trace : List (FileCall × GatewayResult Unit) → Source → Option Source
  | [], s => some s
  | (call, result) :: earlier, .kept l =>
    match result with
    | .ok () => trace earlier (g.source cwd call l)
    | .error e =>
      if g.source cwd call l = .kept l ∨ Clean call e then trace earlier (.kept l) else none
  | _ :: _, s => some s

/-! ### One call -/

section Calls

variable {g cwd} {fs : FileSystem W} {contents : W → FilePlace → Option (List UInt8)}

open Eff

/-- What a computation that changes no file maintains. -/
theorem maintains_of_unchanged {Err α : Type} {x : Eff W Err α}
    (h : ∀ w, contents (x w).2 = contents w) (Q : (FilePlace → Option (List UInt8)) → Prop) :
    Maintains (fun w => Q (contents w)) x := by
  intro w hw
  show Q (contents (x w).2)
  rw [h]
  exact hw

theorem maintains_createParent (hfs : fs.Keeps cwd contents) (path : FilePath)
    (Q : (FilePlace → Option (List UInt8)) → Prop) :
    Maintains (fun w => Q (contents w)) (createParent fs path) :=
  maintains_of_unchanged (createParent_contents hfs.createDirAll path) Q

theorem maintains_isDir (hfs : fs.Keeps cwd contents) (p : FilePath)
    (Q : (FilePlace → Option (List UInt8)) → Prop) :
    Maintains (fun w => Q (contents w)) (fs.isDir p : Eff W GatewayError Bool) := by
  apply Maintains.orElseReturn
  exact (maintains_of_unchanged (hfs.metadata p) Q).bind fun m => maintains_pure m.isDir

/-- Listing changes no file. -/
theorem maintains_list (hfs : fs.Keeps cwd contents) (options : ListOptions)
    (Q : (FilePlace → Option (List UInt8)) → Prop) :
    Maintains (fun w => Q (contents w)) (g.list fs options) := by
  unfold list
  refine (maintains_isDir hfs _ Q).bind fun isDir => ?_
  cases isDir with
  | false => exact maintains_pure _
  | true =>
    refine (maintains_of_unchanged (hfs.readDir _) Q).mapError.bind fun entries => ?_
    refine Maintains.bind (maintains_forIn (fun entry _ b => ?_) _) fun _ => maintains_pure _
    refine (maintains_ofExcept _).bind fun fileName => ?_
    refine (maintains_of_unchanged (hfs.entryMetadata _) Q).mapError.bind fun m => ?_
    -- what follows an entry only looks at the results
    have hstop : ∀ (max n : ℕ) (b : List FileInfo × List String),
        Maintains (fun w => Q (contents w))
          (if max ≤ n then pure (ForInStep.done b) else pure (ForInStep.yield b) :
            Eff W GatewayError (ForInStep (List FileInfo × List String))) := by
      intro max n b
      split
      · exact maintains_pure _
      · exact maintains_pure _
    obtain ⟨keyPrefix, delimiter, maxResults⟩ := options
    cases m.isDir && delimiter.isSome with
    | true =>
      cases maxResults with
      | none => exact maintains_pure _
      | some max => exact hstop _ _ _
    | false =>
      refine Maintains.bind (x := metadataToInfo fs _ m) (fun _ h => h) fun info => ?_
      cases maxResults with
      | none => exact maintains_pure _
      | some max => exact hstop _ _ _

/-! A write. -/

/-- A write without `overwrite` is one with it, after a check. -/
theorem write_of_not_overwrite {options : UploadOptions} (h : options.overwrite = false)
    (fs : FileSystem W) (path : String) (bytes : List UInt8) :
    g.write fs path bytes options = (do
      let found ← (fs.tryExists (components (g.resolvePath path))).orElseReturn false
      if found then Eff.fail (.conflict ("File already exists: " ++ path))
      else g.write fs path bytes { overwrite := true }) := by
  unfold write
  rw [h]
  refine bind_congr fun found => ?_
  cases found <;> rfl

theorem write_of_overwrite {options : UploadOptions} (h : options.overwrite = true)
    (fs : FileSystem W) (path : String) (bytes : List UInt8) :
    g.write fs path bytes options = g.write fs path bytes { overwrite := true } := by
  unfold write
  rw [h]

/-- The calls of a write that may overwrite. -/
theorem overwriting_eq (fs : FileSystem W) (path : String) (bytes : List UInt8) :
    g.write fs path bytes { overwrite := true } = (do
      createParent fs (components (g.resolvePath path))
      (fs.createFile (components (g.resolvePath path))).mapError ioError
      (fs.writeAll (components (g.resolvePath path)) bytes).mapError ioError
      let metadata ← (fs.metadata (components (g.resolvePath path))).mapError ioError
      metadataToInfo fs path metadata) := rfl

/-- A write that returns `Ok` has written its file. -/
theorem contents_write_of_ok (hfs : fs.Keeps cwd contents) {path : String} {bytes : List UInt8}
    {options : UploadOptions} {w w' : W} {info : FileInfo}
    (h : g.write fs path bytes options w = (.ok info, w')) :
    contents w' = Function.update (contents w) (g.key cwd path) (some bytes) := by
  have hoverwrite : ∀ w, g.write fs path bytes { overwrite := true } w = (.ok info, w') →
      contents w' = Function.update (contents w) (g.key cwd path) (some bytes) := by
    intro w h
    rw [overwriting_eq] at h
    obtain ⟨_, w₁, hparent, h⟩ := bind_eq_ok h
    obtain ⟨_, w₂, hcreate, h⟩ := bind_eq_ok h
    obtain ⟨_, w₃, hwrite, h⟩ := bind_eq_ok h
    obtain ⟨m, w₄, hmetadata, h⟩ := bind_eq_ok h
    have hw₁ := createParent_contents hfs.createDirAll (components (g.resolvePath path)) w
    rw [hparent] at hw₁
    have hw₂ := hfs.createFile _ _ _ (mapError_eq_ok hcreate)
    have hw₃ := hfs.writeAll _ _ _ _ (by rw [hw₂, Function.update_self]) (mapError_eq_ok hwrite)
    have hw₄ := hfs.metadata (components (g.resolvePath path)) w₃
    rw [mapError_eq_ok hmetadata] at hw₄
    obtain rfl : w₄ = w' := (Prod.mk.inj h).2
    rw [hw₄, hw₃, hw₂, hw₁, Function.update_idem]
    rfl
  cases hover : options.overwrite with
  | true =>
    rw [write_of_overwrite hover] at h
    exact hoverwrite w h
  | false =>
    rw [write_of_not_overwrite hover] at h
    obtain ⟨found, w₁, hfound, h⟩ := bind_eq_ok h
    obtain ⟨found', hfound'⟩ := orElseReturn_eq_ok GatewayError false
      (fs.tryExists (components (g.resolvePath path))) w
    rw [hfound] at hfound'
    obtain rfl := (Prod.mk.inj hfound').2
    cases found with
    | true => cases h
    | false => rw [hoverwrite _ h, hfs.tryExists]

/-- A write changes no other file. -/
theorem maintains_write (hfs : fs.Keeps cwd contents) {path : String} {l : FilePlace}
    (hl : l ≠ g.key cwd path) (bytes : List UInt8) (options : UploadOptions)
    (v : Option (List UInt8)) :
    Maintains (fun w => contents w l = v) (g.write fs path bytes options) := by
  have hoverwrite : Maintains (fun w => contents w l = v)
      (g.write fs path bytes { overwrite := true }) := by
    rw [overwriting_eq]
    refine (maintains_createParent hfs _ fun files => files l = v).bind fun _ => ?_
    refine Maintains.bind (Maintains.mapError fun w hw => ?_) fun _ => ?_
    · exact (hfs.createFile_frame _ w l hl).trans hw
    refine Maintains.bind (Maintains.mapError fun w hw => ?_) fun _ => ?_
    · exact (hfs.writeAll_frame _ bytes w l hl).trans hw
    refine (maintains_of_unchanged (hfs.metadata _) fun files => files l = v).mapError.bind
      fun m => ?_
    exact fun _ h => h
  cases hover : options.overwrite with
  | true =>
    rw [write_of_overwrite hover]
    exact hoverwrite
  | false =>
    rw [write_of_not_overwrite hover]
    refine (maintains_of_unchanged (hfs.tryExists _) fun files => files l = v).orElseReturn.bind
      fun found => ?_
    cases found with
    | true => exact maintains_fail _
    | false => exact hoverwrite

theorem createParent_eq_error {path : FilePath} {w w' : W} {e : GatewayError}
    (h : createParent fs path w = (.error e, w')) : ∃ e', e = ioError e' := by
  unfold createParent at h
  cases hparent : parent path with
  | none =>
    rw [hparent] at h
    cases h
  | some dir =>
    rw [hparent] at h
    obtain ⟨e', -, he⟩ := mapError_eq_error h
    exact ⟨e', he⟩

/-- A write that may overwrite fails with errors of the operating system. -/
theorem overwriting_eq_error {path : String} {bytes : List UInt8} {w w' : W}
    {e : GatewayError} (h : g.write fs path bytes { overwrite := true } w = (.error e, w')) :
    ∃ e', e = ioError e' := by
  rw [overwriting_eq] at h
  rcases bind_eq_error h with h | ⟨_, w₁, -, h⟩
  · exact createParent_eq_error h
  rcases bind_eq_error h with h | ⟨_, w₂, -, h⟩
  · obtain ⟨e', -, he⟩ := mapError_eq_error h
    exact ⟨e', he⟩
  rcases bind_eq_error h with h | ⟨_, w₃, -, h⟩
  · obtain ⟨e', -, he⟩ := mapError_eq_error h
    exact ⟨e', he⟩
  rcases bind_eq_error h with h | ⟨m, w₄, -, h⟩
  · obtain ⟨e', -, he⟩ := mapError_eq_error h
    exact ⟨e', he⟩
  · cases h

/-- A write that finds its file, and may not overwrite it, leaves it. -/
theorem contents_write_of_conflict (hfs : fs.Keeps cwd contents) {path : String}
    {bytes : List UInt8} {options : UploadOptions} {w w' : W} {message : String}
    (h : g.write fs path bytes options w = (.error (.conflict message), w')) :
    contents w' = contents w := by
  have hoverwrite : ∀ w, g.write fs path bytes { overwrite := true } w ≠
      (.error (.conflict message), w') := by
    intro w h
    obtain ⟨e', he⟩ := overwriting_eq_error h
    cases he
  cases hover : options.overwrite with
  | true =>
    rw [write_of_overwrite hover] at h
    exact absurd h (hoverwrite w)
  | false =>
    rw [write_of_not_overwrite hover] at h
    obtain ⟨found', hfound'⟩ := orElseReturn_eq_ok GatewayError false
      (fs.tryExists (components (g.resolvePath path))) w
    rw [bind_of_ok hfound'] at h
    cases found' with
    | true =>
      obtain rfl := (Prod.mk.inj h).2
      exact hfs.tryExists _ w
    | false => exact absurd h (hoverwrite _)

/-! Copying and renaming. -/

/-- How a copy or a rename ends, if moving the files does `change` to them: before they are moved,
by the call that moves them, or after it. -/
inductive TransferCase (contents : W → FilePlace → Option (List UInt8))
    (change : (FilePlace → Option (List UInt8)) → FilePlace → Option (List UInt8))
    (move : Eff W IoError Unit) (w w' : W) : GatewayResult FileInfo → Prop
  | before (e : IoError) (h : contents w' = contents w) :
      TransferCase contents change move w w' (.error (ioError e))
  | failed (e : IoError) (message : String) (w₁ : W) (h₁ : contents w₁ = contents w)
      (h : move w₁ = (.error e, w')) :
      TransferCase contents change move w w' (.error (notFoundOr message e))
  | after (e : IoError) (h : contents w' = change (contents w)) :
      TransferCase contents change move w w' (.error (ioError e))
  | ok (info : FileInfo) (h : contents w' = change (contents w)) :
      TransferCase contents change move w w' (.ok info)

theorem transfer_cases (hfs : fs.Keeps cwd contents)
    {move : FilePath → FilePath → Eff W IoError Unit} {source destination : String}
    {change : (FilePlace → Option (List UInt8)) → FilePlace → Option (List UInt8)}
    (hmove : ∀ w w', move (components (g.resolvePath source))
      (components (g.resolvePath destination)) w = (.ok (), w') →
        contents w' = change (contents w)) {w w' : W} {result : GatewayResult FileInfo}
    (h : g.transfer fs move source destination w = (result, w')) :
    TransferCase contents change (move (components (g.resolvePath source))
      (components (g.resolvePath destination))) w w' result := by
  have hw₁ := createParent_contents hfs.createDirAll (components (g.resolvePath destination)) w
  unfold transfer at h
  rcases ok_or_error (createParent fs (components (g.resolvePath destination))) w with
    ⟨_, w₁, hparent⟩ | ⟨e, w₁, hparent⟩
  · rw [bind_of_ok hparent] at h
    rw [hparent] at hw₁
    rcases ok_or_error (move (components (g.resolvePath source))
        (components (g.resolvePath destination))) w₁ with ⟨_, w₂, hmoved⟩ | ⟨e, w₂, hmoved⟩
    · rw [bind_of_ok (mapError_of_ok hmoved)] at h
      have hw₂ := hmove w₁ w₂ hmoved
      have hw₃ := hfs.metadata (components (g.resolvePath destination)) w₂
      rw [hw₁] at hw₂
      rcases ok_or_error (fs.metadata (components (g.resolvePath destination))) w₂ with
        ⟨m, w₃, hmetadata⟩ | ⟨e, w₃, hmetadata⟩
      · rw [bind_of_ok (mapError_of_ok hmetadata)] at h
        rw [hmetadata] at hw₃
        cases h
        exact .ok _ (hw₃.trans hw₂)
      · rw [bind_of_error (mapError_of_error hmetadata)] at h
        rw [hmetadata] at hw₃
        cases h
        exact .after e (hw₃.trans hw₂)
    · rw [bind_of_error (mapError_of_error hmoved)] at h
      cases h
      exact .failed e _ w₁ hw₁ hmoved
  · rw [bind_of_error hparent] at h
    obtain ⟨e', rfl⟩ := createParent_eq_error hparent
    cases h
    rw [hparent] at hw₁
    exact .before e' hw₁

theorem contents_copy_cases (hfs : fs.Keeps cwd contents) {source destination : String} {w w' : W}
    {result : GatewayResult FileInfo} (h : g.copy fs source destination w = (result, w')) :
    TransferCase contents (fun files => copied files (g.key cwd source) (g.key cwd destination))
      (fs.copy (components (g.resolvePath source)) (components (g.resolvePath destination)))
      w w' result :=
  transfer_cases hfs (hfs.copy _ _) h

theorem contents_rename_cases (hfs : fs.Keeps cwd contents) {source destination : String}
    {w w' : W} {result : GatewayResult FileInfo}
    (h : g.rename fs source destination w = (result, w')) :
    TransferCase contents (fun files => moved files (g.key cwd source) (g.key cwd destination))
      (fs.rename (components (g.resolvePath source)) (components (g.resolvePath destination)))
      w w' result :=
  transfer_cases hfs (hfs.rename _ _) h

/-! Any call. -/

/-- The call changes no file, whatever it returns. -/
def Quiet : FileCall → Prop
  | .read _ | .metadata _ | .list _ | .exists _ | .createDirectory _ | .deleteDirectory _ false =>
    True
  | .write _ _ _ | .delete _ | .copy _ _ | .rename _ _ | .deleteDirectory _ true => False

theorem source_of_quiet {call : FileCall} (h : Quiet call) (l : FilePlace) :
    g.source cwd call l = .kept l := by
  cases call with
  | write | delete | copy | rename => exact h.elim
  | read | metadata | list | «exists» | createDirectory => rfl
  | deleteDirectory path recursive =>
    cases recursive with
    | true => exact h.elim
    | false => rfl

theorem contents_run_of_quiet (hfs : fs.Keeps cwd contents) {call : FileCall} (h : Quiet call)
    (w : W) : contents (g.run fs call w).2 = contents w := by
  have hmaintains : Maintains (fun w' => contents w' = contents w) (g.run fs call) := by
    have hunchanged : ∀ {Err α : Type} {x : Eff W Err α}, (∀ w, contents (x w).2 = contents w) →
        Maintains (fun w' => contents w' = contents w) x :=
      fun h => maintains_of_unchanged h fun files => files = contents w
    cases call with
    | write | delete | copy | rename => exact h.elim
    | read path =>
      refine Maintains.bind ?_ fun _ => maintains_pure _
      exact (hunchanged (hfs.openFile _)).mapError.bind fun _ =>
        (hunchanged (hfs.readToEnd _)).mapError
    | metadata path =>
      refine Maintains.bind ?_ fun _ => maintains_pure _
      exact (hunchanged (hfs.metadata _)).mapError.bind fun m _ h => h
    | list options =>
      refine Maintains.bind ?_ fun _ => maintains_pure _
      exact maintains_list hfs options fun files => files = contents w
    | «exists» path =>
      exact (hunchanged (hfs.tryExists _)).orElseReturn.bind fun _ => maintains_pure _
    | createDirectory path => exact (hunchanged (hfs.createDirAll _)).mapError
    | deleteDirectory path recursive =>
      cases recursive with
      | true => exact h.elim
      | false => exact (hunchanged (hfs.removeDir _)).mapError
  exact hmaintains w rfl

/-- What a call that returns `Ok` is without its result. -/
theorem run_eq_ok {α : Type} {x : Eff W GatewayError α} {w w' : W}
    (h : (do let _ ← x; return () : Eff W GatewayError Unit) w = (.ok (), w')) :
    ∃ a, x w = (.ok a, w') := by
  obtain ⟨a, w₁, hx, hpure⟩ := bind_eq_ok h
  obtain rfl := (Prod.mk.inj hpure).2
  exact ⟨a, hx⟩

/-- A call that fails fails without its result. -/
theorem run_eq_error {α : Type} {x : Eff W GatewayError α} {w w' : W} {e : GatewayError}
    (h : (do let _ ← x; return () : Eff W GatewayError Unit) w = (.error e, w')) :
    x w = (.error e, w') := by
  rcases bind_eq_error h with h | ⟨a, w₁, -, h⟩
  · exact h
  · cases h

theorem value_copied (files : FilePlace → Option (List UInt8)) (source destination : String)
    (l : FilePlace) : (g.source cwd (.copy source destination) l).value files =
      copied files (g.key cwd source) (g.key cwd destination) l := by
  simp only [LocalFileGateway.source, copied, Function.update_apply]
  by_cases hl : l = g.key cwd destination
  · rw [if_pos hl, if_pos hl]
    split <;> rfl
  · rw [if_neg hl, if_neg hl, if_neg hl]
    rfl

/-- A copy leaves every place but its destination. -/
theorem ne_of_source_copy {source destination : String} {l : FilePlace}
    (h : g.source cwd (.copy source destination) l = .kept l) : l ≠ g.key cwd destination := by
  intro hl
  rw [LocalFileGateway.source, if_pos hl] at h
  split at h
  · cases h
  · next hne => exact hne ((Source.kept.inj h).trans hl)

theorem value_moved (files : FilePlace → Option (List UInt8)) (source destination : String)
    (l : FilePlace) : (g.source cwd (.rename source destination) l).value files =
      moved files (g.key cwd source) (g.key cwd destination) l := by
  simp only [LocalFileGateway.source, moved, apply_ite (Source.value files)]
  rfl

/-- **A call that returns `Ok`** has done to every place what its source says. -/
theorem contents_run_of_ok (hfs : fs.Keeps cwd contents) {call : FileCall} {w w' : W}
    (h : g.run fs call w = (.ok (), w')) (l : FilePlace) :
    contents w' l = (g.source cwd call l).value (contents w) := by
  by_cases hquiet : Quiet call
  · rw [source_of_quiet hquiet, ← contents_run_of_quiet (g := g) hfs hquiet w, h]
    rfl
  cases call with
  | read | metadata | list | «exists» | createDirectory => exact absurd trivial hquiet
  | write path bytes options =>
    obtain ⟨info, h⟩ := run_eq_ok h
    rw [contents_write_of_ok hfs h, Function.update_apply, source, apply_ite (Source.value _)]
    rfl
  | delete path =>
    rw [hfs.removeFile _ _ _ (mapError_eq_ok h), Function.update_apply, source,
      apply_ite (Source.value _)]
    rfl
  | copy source destination =>
    obtain ⟨info, h⟩ := run_eq_ok h
    rw [value_copied]
    cases contents_copy_cases hfs h with
    | ok _ h => rw [h]
  | rename source destination =>
    obtain ⟨info, h⟩ := run_eq_ok h
    rw [value_moved]
    cases contents_rename_cases hfs h with
    | ok _ h => rw [h]
  | deleteDirectory path recursive =>
    cases recursive with
    | false => exact absurd trivial hquiet
    | true =>
      rw [hfs.removeDirAll _ _ _ (mapError_eq_ok h), source, apply_ite (Source.value _)]
      rfl

/-- **A call that fails** has done nothing to the places that it would not have changed, and nothing
at all if the failure is clean. -/
theorem contents_run_of_error (hfs : fs.Keeps cwd contents) {call : FileCall} {w w' : W}
    {e : GatewayError} (h : g.run fs call w = (.error e, w')) {l : FilePlace}
    (hl : g.source cwd call l = .kept l ∨ Clean call e) : contents w' l = contents w l := by
  by_cases hquiet : Quiet call
  · rw [← contents_run_of_quiet (g := g) hfs hquiet w, h]
  cases call with
  | read | metadata | list | «exists» | createDirectory => exact absurd trivial hquiet
  | write path bytes options =>
    have h := run_eq_error h
    rcases hl with hl | hclean
    · have hne : l ≠ g.key cwd path := by
        intro heq
        rw [source, if_pos heq] at hl
        cases hl
      have hkeeps := maintains_write hfs hne bytes options (contents w l) w rfl
      rw [h] at hkeeps
      exact hkeeps
    · cases e with
      | conflict message => rw [contents_write_of_conflict hfs h]
      | _ => exact hclean.elim
  | delete path =>
    obtain ⟨e', h, -⟩ := mapError_eq_error h
    rw [hfs.removeFile_error _ _ _ _ h]
  | copy source destination =>
    have hkept := hl.resolve_right id
    cases contents_copy_cases hfs (run_eq_error h) with
    | before e hw => rw [hw]
    | failed e message w₁ hw₁ hcopy =>
      have hframe := hfs.copy_frame (components (g.resolvePath source))
        (components (g.resolvePath destination)) w₁ l (ne_of_source_copy hkept)
      rw [hcopy, hw₁] at hframe
      exact hframe
    | after e hw =>
      rw [hw, ← value_copied, hkept]
      rfl
  | rename source destination =>
    cases contents_rename_cases hfs (run_eq_error h) with
    | before e hw => rw [hw]
    | failed e message w₁ hw₁ hrename => rw [hfs.rename_error _ _ _ _ _ hrename, hw₁]
    | after e hw =>
      rw [hw, ← value_moved, hl.resolve_right id]
      rfl
  | deleteDirectory path recursive =>
    cases recursive with
    | false => exact absurd trivial hquiet
    | true =>
      have hnot : ¬ g.key cwd path <+: l := by
        intro hpre
        have hl := hl.resolve_right id
        rw [source, if_pos hpre] at hl
        cases hl
      obtain ⟨e', h, -⟩ := mapError_eq_error h
      have hframe := hfs.removeDirAll_frame (components (g.resolvePath path)) w l hnot
      rw [h] at hframe
      exact hframe

/-- A read that returns `Ok` returns what is at its place. -/
theorem contents_of_read (hfs : fs.Keeps cwd contents) {path : String} {w w' : W}
    {bytes : List UInt8} (h : g.read fs path w = (.ok bytes, w')) :
    contents w (g.key cwd path) = some bytes := by
  obtain ⟨_, w₁, hopen, h⟩ := bind_eq_ok h
  have hw₁ := hfs.openFile (components (g.resolvePath path)) w
  rw [mapError_eq_ok hopen] at hw₁
  rw [← hw₁]
  exact hfs.bytes _ _ _ _ (mapError_eq_ok h)

/-! ### Runs -/

/-- The last call of a history, and those before it. -/
theorem history_concat (g : LocalFileGateway) (fs : FileSystem W) (calls : List FileCall)
    (call : FileCall) (w : W) :
    g.history fs (calls ++ [call]) w =
      ((call, (g.run fs call (g.history fs calls w).2).1) :: (g.history fs calls w).1,
        (g.run fs call (g.history fs calls w).2).2) := by
  rw [history, Runs.exec_append]
  rfl

/-- What is at a place after a run is what its trace leads to. -/
theorem contents_history (hfs : fs.Keeps cwd contents) (calls : List FileCall) (w : W)
    {s s' : Source} (htrace : g.trace cwd (g.history fs calls w).1 s = some s') :
    s.value (contents (g.history fs calls w).2) = s'.value (contents w) := by
  induction calls using List.reverseRecOn generalizing s with
  | nil =>
    cases htrace
    rfl
  | append_singleton calls call ih =>
    rw [history_concat] at htrace ⊢
    cases s with
    | new bytes =>
      cases htrace
      rfl
    | gone =>
      cases htrace
      rfl
    | kept l =>
      rcases ok_or_error (g.run fs call) (g.history fs calls w).2 with ⟨_, w', h⟩ | ⟨e, w', h⟩
      · rw [h] at htrace ⊢
        rw [← ih htrace]
        exact contents_run_of_ok hfs h l
      · rw [h] at htrace ⊢
        obtain ⟨hl, htrace⟩ := Option.ite_none_right_eq_some.mp htrace
        rw [← ih htrace]
        exact contents_run_of_error hfs h hl

/-- **A read that returns `Ok`** after any run of calls, some of which may have failed, returns what
the trace of its file leads to. -/
theorem read_traced (hfs : fs.Keeps cwd contents) {calls : List FileCall} {w w' : W} {path : String}
    {bytes : List UInt8} {s : Source}
    (htrace : g.trace cwd (g.history fs calls w).1 (.kept (g.key cwd path)) = some s)
    (hread : g.read fs path (g.history fs calls w).2 = (.ok bytes, w')) :
    s.value (contents w) = some bytes := by
  rw [← contents_history hfs calls w htrace]
  exact contents_of_read hfs hread

end Calls

/-! ### Files in memory -/

/-- The files of a file system in memory, with directories that are always there. -/
def namedFiles (cwd : FilePlace) : FileSystem (FilePlace → Option (List UInt8)) :=
  { placedFiles (resolve cwd) with
    readToEnd := fun p files =>
      match files (resolve cwd p) with
      | some bytes => (.ok bytes, files)
      | none => (.error ⟨true, "not found"⟩, files)
    rename := fun source dest files =>
      if (files (resolve cwd source)).isSome then
        (.ok (), moved files (resolve cwd source) (resolve cwd dest))
      else (.error ⟨true, "not found"⟩, files)
    removeDirAll := fun p files =>
      (.ok (), fun l => if resolve cwd p <+: l then none else files l) }

theorem keeps_namedFiles (cwd : FilePlace) : (namedFiles cwd).Keeps cwd id where
  openFile _ _ := rfl
  readToEnd p files := by
    unfold namedFiles
    dsimp only
    cases files (resolve cwd p) <;> rfl
  bytes p files files' bytes h := by
    unfold namedFiles at h
    dsimp only at h
    cases hp : files (resolve cwd p) with
    | none =>
      rw [hp] at h
      cases h
    | some bytes' =>
      rw [hp] at h
      cases h
      exact hp
  metadata := (copies_placedFiles (resolve cwd)).metadata
  tryExists _ _ := rfl
  readDir _ _ := rfl
  entryMetadata _ _ := rfl
  createDirAll _ _ := rfl
  createFile p files files' h := by
    cases h
    rfl
  createFile_frame p files l hl := Function.update_of_ne hl _ _
  writeAll p bytes files files' hempty h := by
    have hempty : files (resolve cwd p) = some [] := hempty
    cases h
    show Function.update files _ ((files (resolve cwd p)).map _) = _
    rw [hempty]
    simp
  writeAll_frame p bytes files l hl := Function.update_of_ne hl _ _
  removeFile p files files' h := by
    cases h
    rfl
  removeFile_error p files files' e h := by cases h
  copy source dest files files' h := ((copies_placedFiles (resolve cwd)).copy _ _ _ _ h).2
  copy_frame source dest files l hl := by
    unfold namedFiles placedFiles
    dsimp only
    split
    · show copied files _ _ l = files l
      rw [copied, Function.update_of_ne hl, Function.update_of_ne hl]
    · rfl
  rename source dest files files' h := by
    unfold namedFiles at h
    dsimp only at h
    split at h
    · cases h
      rfl
    · cases h
  rename_error source dest files files' e h := by
    unfold namedFiles at h
    dsimp only at h
    split at h
    · cases h
    · cases h
      rfl
  removeDir _ _ := rfl
  removeDirAll p files files' h := by
    cases h
    rfl
  removeDirAll_frame p files l hl := if_neg hl

/-- A file is written and renamed, a missing one is deleted, and another one cannot be moved. -/
def writeAndMove : List FileCall :=
  [.write "a" [7] {}, .rename "a" "d/b", .delete "c", .rename "a" "d"]

/-- The file is found where it has been moved to. -/
theorem read_traced_writeAndMove :
    ∃ s, trace ⟨"/data".toList⟩ [] (history ⟨"/data".toList⟩ (namedFiles []) writeAndMove
        fun _ => none).1 (.kept (key ⟨"/data".toList⟩ [] "d/b")) = some s ∧
      s.value (fun _ => none) = some [7] := by
  have htrace : trace ⟨"/data".toList⟩ [] (history ⟨"/data".toList⟩ (namedFiles []) writeAndMove
      fun _ => none).1 (.kept (key ⟨"/data".toList⟩ [] "d/b")) = some (.new [7]) := by
    decide +kernel
  have hread : (read ⟨"/data".toList⟩ (namedFiles []) "d/b" (history ⟨"/data".toList⟩
      (namedFiles []) writeAndMove fun _ => none).2).1 = .ok [7] := by
    decide +kernel
  exact ⟨_, htrace, read_traced (keeps_namedFiles []) htrace (Prod.ext hread rfl)⟩

end LocalFileGateway

end SweGateway

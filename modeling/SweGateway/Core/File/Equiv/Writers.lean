import SweGateway.Core.File.Concurrent
import SweGateway.Core.File.Equiv.Copying
import SweGateway.Lib.Runs

/-!
# Writes that may not overwrite, at the same time

A `write` without `overwrite` looks for the file and creates it in two calls of the file system, and
the second one truncates a file that is there.  If the file comes to be between the two, the write
destroys what another one has written, and both return `Ok`.

What one may expect of any number of such writes to one file is `Intact`: at most one has returned
`Ok`, and then the file has its contents.  It holds throughout every run in which no write creates
the file while it is there already (`intact_of_fresh`).  The invariant is `Owned`: from the creation
of the file on, one write may be on its way to `Ok`, and the file has what this write has put there
so far.

`FileSystem.Stores` is what the writes rely on of the file system.  The writes may have different
paths, as long as these lead to one place.
-/

namespace SweGateway

open LexicalPath Runs

/-- The file system stores files, each at the place that its paths lead to: what its calls do to
their contents.  Calls may fail. -/
structure FileSystem.Stores {W Loc : Type} (fs : FileSystem W) (place : FilePath → Loc)
    (contents : W → Loc → Option (List UInt8)) : Prop where
  tryExists : ∀ p w, contents (fs.tryExists p w).2 = contents w
  createDirAll : ∀ dir w, contents (fs.createDirAll dir w).2 = contents w
  metadata : ∀ p w, contents (fs.metadata p w).2 = contents w
  /-- A file that is created is empty, also if it was there already. -/
  createFile : ∀ p w w', fs.createFile p w = (.ok (), w') → contents w' (place p) = some []
  /-- What is written replaces as much of the file, from its beginning. -/
  writeAll : ∀ p bytes w w' old, contents w (place p) = some old →
    fs.writeAll p bytes w = (.ok (), w') →
      contents w' (place p) = some (bytes ++ old.drop bytes.length)

namespace Writers

variable {ι W Loc : Type} [DecidableEq ι]

/-- The writers after a run. -/
def after (g : LocalFileGateway) (fs : FileSystem W) (calls : ι → WriteCall) (w : W)
    (turns : List ι) : Writers ι W :=
  exec (step g fs calls) (start calls w) turns

/-- At most one write has returned `Ok`, and then the file has its contents. -/
def Intact (contents : W → Loc → Option (List UInt8)) (target : Loc)
    (calls : ι → WriteCall) (σ : Writers ι W) : Prop :=
  ∀ i info, σ.phase i = .done (.ok info) →
    contents σ.world target = some (calls i).contents ∧
    ∀ j info', σ.phase j = .done (.ok info') → j = i

/-- If the turn is with a write that creates the file, it is not there. -/
def CreatesFresh (contents : W → Loc → Option (List UInt8)) (target : Loc)
    (σ : Writers ι W) (i : ι) : Prop :=
  σ.phase i = .create → contents σ.world target = none

end Writers

/-! ### One turn -/

/-- What a write has put into the file it has created, if it is on its way to `Ok`. -/
def WriteCall.written (call : WriteCall) : WritePhase → Option (List UInt8)
  | .writeAll => some []
  | .metadata | .done (.ok _) => some call.contents
  | .tryExists | .createDirAll | .create | .done (.error _) => none

namespace WriteCall

variable {W Loc : Type} {g : LocalFileGateway} {fs : FileSystem W} {place : FilePath → Loc}
  {contents : W → Loc → Option (List UInt8)} {call : WriteCall}

/-! What leaves the files alone. -/

theorem contents_check (hfs : fs.Stores place contents) (g : LocalFileGateway) (call : WriteCall)
    (w : W) :
    contents (call.check g fs w).2 = contents w := by
  obtain ⟨found, hfound⟩ := Eff.orElseReturn_eq_ok GatewayError false
    (fs.tryExists (call.fullPath g)) w
  rw [← hfs.tryExists (call.fullPath g) w, check, Eff.bind_of_ok hfound]
  cases found with
  | true => rfl
  | false => rfl

theorem contents_createParent (hfs : fs.Stores place contents) (path : FilePath) (w : W) :
    contents (LocalFileGateway.createParent fs path w).2 = contents w := by
  unfold LocalFileGateway.createParent
  cases parent path with
  | none => rfl
  | some dir =>
    dsimp only
    rw [Eff.mapError_snd, hfs.createDirAll]

theorem contents_info (hfs : fs.Stores place contents) (g : LocalFileGateway) (call : WriteCall)
    (w : W) :
    contents (call.info g fs w).2 = contents w := by
  rw [← hfs.metadata (call.fullPath g) w, info]
  rcases Eff.ok_or_error ((fs.metadata (call.fullPath g)).mapError LocalFileGateway.ioError) w with
    ⟨m, w', h⟩ | ⟨e, w', h⟩
  · rw [Eff.bind_of_ok h, ← Eff.mapError_snd LocalFileGateway.ioError, h]
    rfl
  · rw [Eff.bind_of_error h, ← Eff.mapError_snd LocalFileGateway.ioError, h]

/-- What a turn can do.  `after` and `before` are the contents of the file that the write is to. -/
inductive TurnCase (call : WriteCall) (phase phase' : WritePhase)
    (before after : Option (List UInt8)) : Prop
  /-- The file stays as it is, and the write stays on its way to `Ok` or off it. -/
  | keeps (hcontents : after = before)
    (hwritten : call.written phase' = call.written phase)
  /-- The file stays as it is, and the write fails. -/
  | fails (hcontents : after = before) (hwritten : call.written phase' = none)
  /-- The file is created. -/
  | creates (hphase : phase = .create) (hphase' : phase' = .writeAll) (hcontents : after = some [])
  /-- Creating the file fails. -/
  | createFails (hphase : phase = .create) (hwritten : call.written phase' = none)
  /-- The contents are written. -/
  | writes (hphase : phase = .writeAll) (hphase' : phase' = .metadata)
    (hcontents : ∀ old, before = some old →
      after = some (call.contents ++ old.drop call.contents.length))
  /-- Writing the contents fails. -/
  | writeFails (hphase : phase = .writeAll) (hwritten : call.written phase' = none)

theorem turnCase (hfs : fs.Stores place contents) (g : LocalFileGateway) (call : WriteCall)
    (phase : WritePhase) (w : W) :
    TurnCase call phase (call.advance g fs (phase, w)).1 (contents w (place (call.fullPath g)))
      (contents (call.advance g fs (phase, w)).2 (place (call.fullPath g))) := by
  cases phase with
  | tryExists =>
    have hcontents := contents_check hfs g call w
    rcases advance_cases g fs call .tryExists rfl w with
      ⟨_, w', hx, h⟩ | ⟨e, w', hx, h⟩
    · rw [hx] at hcontents
      rw [h, ← hcontents]
      exact .keeps rfl rfl
    · rw [hx] at hcontents
      rw [h, ← hcontents]
      exact .fails rfl rfl
  | createDirAll =>
    have hcontents := contents_createParent hfs (call.fullPath g) w
    rcases advance_cases g fs call .createDirAll rfl w with
      ⟨_, w', hx, h⟩ | ⟨e, w', hx, h⟩
    · rw [hx] at hcontents
      rw [h, ← hcontents]
      exact .keeps rfl rfl
    · rw [hx] at hcontents
      rw [h, ← hcontents]
      exact .fails rfl rfl
  | create =>
    rcases advance_cases g fs call .create rfl w with
      ⟨_, w', hx, h⟩ | ⟨e, w', hx, h⟩
    · rw [h]
      exact .creates rfl rfl (hfs.createFile _ _ _ (Eff.mapError_eq_ok hx))
    · rw [h]
      exact .createFails rfl rfl
  | writeAll =>
    rcases advance_cases g fs call .writeAll rfl w with
      ⟨_, w', hx, h⟩ | ⟨e, w', hx, h⟩
    · rw [h]
      exact .writes rfl rfl fun old hold => hfs.writeAll _ _ _ _ old hold (Eff.mapError_eq_ok hx)
    · rw [h]
      exact .writeFails rfl rfl
  | metadata =>
    have hcontents := contents_info hfs g call w
    rcases advance_cases g fs call .metadata rfl w with
      ⟨info, w', hx, h⟩ | ⟨e, w', hx, h⟩
    · rw [hx] at hcontents
      rw [h, ← hcontents]
      exact .keeps rfl rfl
    · rw [hx] at hcontents
      rw [h, ← hcontents]
      exact .fails rfl rfl
  | done result => exact .keeps rfl rfl

end WriteCall

/-! ### Runs -/

namespace Writers

open LocalFileGateway

variable {ι W Loc : Type} [DecidableEq ι] {g : LocalFileGateway} {fs : FileSystem W}
  {place : FilePath → Loc} {contents : W → Loc → Option (List UInt8)} {calls : ι → WriteCall}
  {target : Loc}

/-- **The invariant**: at most one write is on its way to `Ok`, and then the file has what it has
put there. -/
def Owned (contents : W → Loc → Option (List UInt8)) (target : Loc)
    (calls : ι → WriteCall) (σ : Writers ι W) : Prop :=
  ∀ i bytes, (calls i).written (σ.phase i) = some bytes →
    contents σ.world target = some bytes ∧
    ∀ j bytes', (calls j).written (σ.phase j) = some bytes' → j = i

omit [DecidableEq ι] in
theorem Owned.intact {σ : Writers ι W} (h : Owned contents target calls σ) :
    Intact contents target calls σ := by
  intro i info hi
  obtain ⟨hcontents, hunique⟩ := h i (calls i).contents (by rw [hi]; rfl)
  refine ⟨hcontents, fun j info' hj => hunique j (calls j).contents ?_⟩
  rw [hj]
  rfl

omit [DecidableEq ι] in
/-- Fewer writes are on their way, and the file is as it was. -/
theorem Owned.mono {σ σ' : Writers ι W} (h : Owned contents target calls σ)
    (hcontents : contents σ'.world target = contents σ.world target)
    (hwritten : ∀ j bytes, (calls j).written (σ'.phase j) = some bytes →
      (calls j).written (σ.phase j) = some bytes) : Owned contents target calls σ' := by
  intro i bytes hi
  obtain ⟨hold, hunique⟩ := h i bytes (hwritten i bytes hi)
  exact ⟨hcontents.trans hold, fun j bytes' hj => hunique j bytes' (hwritten j bytes' hj)⟩

omit [DecidableEq ι] in
/-- At most the write `i` is on its way. -/
theorem owned_of_only {σ : Writers ι W} {i : ι}
    (hself : ∀ bytes, (calls i).written (σ.phase i) = some bytes →
      contents σ.world target = some bytes)
    (hother : ∀ j, j ≠ i → (calls j).written (σ.phase j) = none) :
    Owned contents target calls σ := by
  have hi : ∀ j bytes, (calls j).written (σ.phase j) = some bytes → j = i := by
    intro j bytes hj
    by_contra hne
    rw [hother j hne] at hj
    cases hj
  intro j bytes hj
  obtain rfl := hi j bytes hj
  exact ⟨hself bytes hj, hi⟩

omit [DecidableEq ι] in
/-- If a write is on its way, the others are not. -/
theorem Owned.others {σ : Writers ι W} (h : Owned contents target calls σ) {i j : ι}
    {bytes : List UInt8} (hi : (calls i).written (σ.phase i) = some bytes) (hj : j ≠ i) :
    (calls j).written (σ.phase j) = none := by
  cases hwritten : (calls j).written (σ.phase j) with
  | none => rfl
  | some bytes' => exact absurd ((h i bytes hi).2 j bytes' hwritten) hj

omit [DecidableEq ι] in
/-- If the file is not there, no write is on its way. -/
theorem Owned.nobody {σ : Writers ι W} (h : Owned contents target calls σ)
    (habsent : contents σ.world target = none) (j : ι) :
    (calls j).written (σ.phase j) = none := by
  cases hwritten : (calls j).written (σ.phase j) with
  | none => rfl
  | some bytes =>
    have hcontents := (h j bytes hwritten).1
    rw [habsent] at hcontents
    cases hcontents

/-- **One turn keeps the invariant**, unless it truncates the file. -/
theorem owned_step (hfs : fs.Stores place contents)
    (hplace : ∀ i, place ((calls i).fullPath g) = target) {σ : Writers ι W}
    (h : Owned contents target calls σ) {i : ι} (hfresh : CreatesFresh contents target σ i) :
    Owned contents target calls (step g fs calls σ i) := by
  have hturn := WriteCall.turnCase hfs g (calls i) (σ.phase i) σ.world
  rw [hplace i] at hturn
  set s := (calls i).advance g fs (σ.phase i, σ.world) with hs
  have hself : (step g fs calls σ i).phase i = s.1 := Function.update_self ..
  have hother : ∀ j, j ≠ i → (step g fs calls σ i).phase j = σ.phase j :=
    fun j hj => Function.update_of_ne hj ..
  -- the writes but `i` are on their way afterwards if they were before
  have hmono : (∀ bytes, (calls i).written s.1 = some bytes →
      (calls i).written (σ.phase i) = some bytes) → ∀ j bytes,
      (calls j).written ((step g fs calls σ i).phase j) = some bytes →
      (calls j).written (σ.phase j) = some bytes := by
    intro hi j bytes hj
    by_cases hji : j = i
    · subst hji
      rw [hself] at hj
      exact hi bytes hj
    · rwa [hother j hji] at hj
  have honly : (∀ bytes, (calls i).written s.1 = some bytes → contents s.2 target = some bytes) →
      (∀ j, j ≠ i → (calls j).written (σ.phase j) = none) →
      Owned contents target calls (step g fs calls σ i) := by
    intro hi hj
    refine owned_of_only (i := i) (fun bytes => ?_) (fun j hji => ?_)
    · rw [hself]
      exact hi bytes
    · rw [hother j hji]
      exact hj j hji
  cases hturn with
  | keeps hcontents hwritten =>
    exact h.mono hcontents (hmono fun bytes hi => hwritten ▸ hi)
  | fails hcontents hwritten =>
    refine h.mono hcontents (hmono fun bytes hi => ?_)
    rw [hwritten] at hi
    cases hi
  | creates hphase hphase' hcontents =>
    refine honly (fun bytes hi => ?_) fun j _ => h.nobody (hfresh hphase) j
    rw [hphase'] at hi
    rw [hcontents, ← hi]
    rfl
  | createFails hphase hwritten =>
    refine honly (fun bytes hi => ?_) fun j _ => h.nobody (hfresh hphase) j
    rw [hwritten] at hi
    cases hi
  | writes hphase hphase' hcontents =>
    have howner : (calls i).written (σ.phase i) = some [] := by rw [hphase]; rfl
    refine honly (fun bytes hi => ?_) fun j => h.others howner
    rw [hphase'] at hi
    rw [hcontents [] (h i [] howner).1, List.drop_nil, List.append_nil]
    exact hi
  | writeFails hphase hwritten =>
    have howner : (calls i).written (σ.phase i) = some [] := by rw [hphase]; rfl
    refine honly (fun bytes hi => ?_) fun j => h.others howner
    rw [hwritten] at hi
    cases hi

omit [DecidableEq ι] in
theorem owned_start (w : W) : Owned contents target calls (start calls w) := by
  intro i bytes hi
  have hnone : (calls i).written (calls i).start = none := by
    unfold WriteCall.start
    split <;> rfl
  rw [start, hnone] at hi
  cases hi

/-- **Writes that do not meet the file** when they create it leave it intact: whatever the order of
their turns, at every point at most one of them has returned `Ok`, and then the file has its
contents. -/
theorem intact_of_fresh (g : LocalFileGateway) (fs : FileSystem W) (place : FilePath → Loc)
    (contents : W → Loc → Option (List UInt8)) (hfs : fs.Stores place contents)
    (calls : ι → WriteCall) (target : Loc) (hplace : ∀ i, place ((calls i).fullPath g) = target)
    (w : W) (turns : List ι)
    (hfresh : EachStep (fun pre i => CreatesFresh contents target (after g fs calls w pre) i)
      turns) :
    Always (fun pre => Intact contents target calls (after g fs calls w pre)) turns := by
  have howned : Always (fun pre => Owned contents target calls (after g fs calls w pre)) turns := by
    refine always_of_eachStep (owned_start w) (fun pre i hpre hi => ?_) hfresh
    rw [after, exec_append]
    exact owned_step hfs hplace hpre hi
  exact fun pre hpre => (howned pre hpre).intact

/-! ### Files in memory -/

theorem stores_placedFiles [DecidableEq Loc] (place : FilePath → Loc) :
    (placedFiles place).Stores place id where
  tryExists _ _ := rfl
  createDirAll _ _ := rfl
  metadata p files := (copies_placedFiles place).metadata p files
  createFile p files files' h := by
    cases h
    exact Function.update_self ..
  writeAll p bytes files files' old hold h := by
    cases h
    refine (Function.update_self ..).trans ?_
    rw [show files (place p) = some old from hold]
    rfl

/-- Two writes to the same file, which is not there. -/
def twoWrites (second : Bool) : WriteCall :=
  if second then ⟨"/log", [2, 2], {}⟩ else ⟨"log", [1, 1, 1], {}⟩

/-- Two writes to one file under different paths. -/
def twoSpellings (options : UploadOptions) (second : Bool) : WriteCall :=
  if second then ⟨"x/../log", [2, 2], options⟩ else ⟨"log", [1, 1, 1], options⟩

instance (phase : WritePhase) : Decidable (phase = .create) :=
  match phase with
  | .create => isTrue rfl
  | .tryExists | .createDirAll | .writeAll | .metadata | .done _ => isFalse nofun

instance {contents : W → Loc → Option (List UInt8)} (σ : Writers ι W) (i : ι) :
    Decidable (CreatesFresh contents target σ i) :=
  inferInstanceAs (Decidable (_ → _))

/-- One after the other, the writes leave the file to the first of them. -/
theorem intact_of_fresh_inTurn :
    Always (fun pre => Intact id ["data".toList, "log".toList] (twoSpellings {})
        (after ⟨"/data".toList⟩ (placedFiles lexicalPlace) (twoSpellings {}) (fun _ => none) pre))
      [false, false, false, false, false, true, true] :=
  intact_of_fresh ⟨"/data".toList⟩ (placedFiles lexicalPlace) lexicalPlace id
    (stores_placedFiles lexicalPlace) (twoSpellings {}) ["data".toList, "log".toList] (by decide)
    (fun _ => none) [false, false, false, false, false, true, true]
    (eachStep_iff_getElem.mpr (by decide))

/-- Two writes that both look for the file before one creates it both return `Ok`. -/
theorem both_writes_return_ok :
    ¬ ∀ (ι W : Type) [DecidableEq ι] (g : LocalFileGateway) (fs : FileSystem W)
      (contents : W → FilePath → Option (List UInt8)), fs.Stores id contents →
      ∀ (calls : ι → WriteCall) (target : FilePath),
        (∀ i, (calls i).options.overwrite = false) → (∀ i, (calls i).fullPath g = target) →
        ∀ (w : W), contents w target = none → ∀ (turns : List ι),
          Intact contents target calls (after g fs calls w turns) := by
  intro h
  have hintact := h Bool (FilePath → Option (List UInt8)) ⟨"/data".toList⟩ (placedFiles id) id
    (stores_placedFiles id) twoWrites [.root, .name "data".toList, .name "log".toList]
    (by decide) (by decide) (fun _ => none) rfl
    [false, true, false, true, false, true, false, true, false, true]
  obtain ⟨-, hunique⟩ := hintact false _ rfl
  exact Bool.noConfusion (hunique true _ rfl)

end Writers

end SweGateway

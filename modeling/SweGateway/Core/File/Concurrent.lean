import SweGateway.Core.File.Local
import Mathlib.Logic.Function.Basic

/-!
# Writes at the same time (`core/file/local.rs`)

`LocalFileGateway::write` awaits every call of the file system, so that other calls may run between
two of them.  `WritePhase` says which call a write makes next, and `WriteCall.next` makes it; the
phases one after another are `LocalFileGateway.write` (`advance_all`).

`Writers` are any number of calls of `write` on one file system, told apart by `ι`; a run of them is
the list of the calls whose turn it is.
-/

namespace SweGateway

open LexicalPath

/-- A call of `write`. -/
structure WriteCall where
  path : String
  contents : List UInt8
  options : UploadOptions

/-- Where a call of `write` stands: what it does next, or what it has returned.  `writeAll` is
`write_all` with the `flush` that follows it. -/
inductive WritePhase where
  | tryExists
  | createDirAll
  | create
  | writeAll
  | metadata
  | done (result : GatewayResult FileInfo)

namespace WriteCall

variable {W : Type}

/-- Where the call starts: it looks for the file only if it may not overwrite it. -/
def start (call : WriteCall) : WritePhase :=
  if !call.options.overwrite then .tryExists else .createDirAll

/-- The path that the call hands to the file system. -/
def fullPath (g : LocalFileGateway) (call : WriteCall) : FilePath :=
  components (g.resolvePath call.path)

/-- Fails if the file is found.  A file that cannot be looked for counts as not found. -/
def check (g : LocalFileGateway) (fs : FileSystem W) (call : WriteCall) :
    Eff W GatewayError Unit := do
  let found ← (fs.tryExists (call.fullPath g)).orElseReturn false
  if found then
    Eff.fail (.conflict ("File already exists: " ++ call.path))

/-- The file as it is after the write, for the response. -/
def info (g : LocalFileGateway) (fs : FileSystem W) (call : WriteCall) :
    Eff W GatewayError FileInfo := do
  let metadata ← (fs.metadata (call.fullPath g)).mapError LocalFileGateway.ioError
  LocalFileGateway.metadataToInfo fs call.path metadata

/-- Makes the next call of the file system. -/
def next (g : LocalFileGateway) (fs : FileSystem W) (call : WriteCall) :
    WritePhase → Eff W GatewayError WritePhase
  | .tryExists => do
    call.check g fs
    return .createDirAll
  | .createDirAll => do
    LocalFileGateway.createParent fs (call.fullPath g)
    return .create
  | .create => do
    (fs.createFile (call.fullPath g)).mapError LocalFileGateway.ioError
    return .writeAll
  | .writeAll => do
    (fs.writeAll (call.fullPath g) call.contents).mapError LocalFileGateway.ioError
    return .metadata
  | .metadata => do
    let info ← call.info g fs
    return .done (.ok info)
  | .done result => return .done result

/-- Where the call stands after that: an error ends it. -/
def advance (g : LocalFileGateway) (fs : FileSystem W) (call : WriteCall) (s : WritePhase × W) :
    WritePhase × W :=
  match call.next g fs s.1 s.2 with
  | (.ok phase, w) => (phase, w)
  | (.error e, w) => (.done (.error e), w)

end WriteCall

/-- Calls of `write` that run at the same time. -/
structure Writers (ι W : Type) where
  world : W
  phase : ι → WritePhase

namespace Writers

variable {ι W : Type} [DecidableEq ι]

/-- No call has begun. -/
def start (calls : ι → WriteCall) (w : W) : Writers ι W where
  world := w
  phase i := (calls i).start

/-- It is the turn of the call `i`. -/
def step (g : LocalFileGateway) (fs : FileSystem W) (calls : ι → WriteCall) (σ : Writers ι W)
    (i : ι) : Writers ι W :=
  let (phase, w) := (calls i).advance g fs (σ.phase i, σ.world)
  { world := w, phase := Function.update σ.phase i phase }

end Writers

/-! ### A call alone -/

namespace WriteCall

variable {W : Type} {g : LocalFileGateway} {fs : FileSystem W} {call : WriteCall}

/-- One turn of a phase that does `x` and then hands its result to `f`. -/
theorem advance_cases (g : LocalFileGateway) (fs : FileSystem W) (call : WriteCall)
    (phase : WritePhase) {α : Type} {x : Eff W GatewayError α} {f : α → WritePhase}
    (hnext : call.next g fs phase = x >>= fun a => pure (f a)) (w : W) :
    (∃ a w', x w = (.ok a, w') ∧ call.advance g fs (phase, w) = (f a, w')) ∨
      ∃ e w', x w = (.error e, w') ∧ call.advance g fs (phase, w) = (.done (.error e), w') := by
  rcases Eff.ok_or_error x w with ⟨a, w', hx⟩ | ⟨e, w', hx⟩
  · refine .inl ⟨a, w', hx, ?_⟩
    simp only [advance, hnext, Eff.bind_of_ok hx, Eff.pure_apply]
  · refine .inr ⟨e, w', hx, ?_⟩
    simp only [advance, hnext, Eff.bind_of_error hx]

/-- A call that has returned stays so. -/
theorem iterate_advance_done (n : ℕ) (result : GatewayResult FileInfo) (w : W) :
    (call.advance g fs)^[n] (.done result, w) = (.done result, w) := by
  induction n with
  | zero => rfl
  | succ n ih =>
    rw [Function.iterate_succ_apply]
    exact ih

/-- From the phase, the call alone returns within `n` turns what `x` returns, and leaves the world
that `x` leaves. -/
def Ends (g : LocalFileGateway) (fs : FileSystem W) (call : WriteCall) (n : ℕ) (phase : WritePhase)
    (x : Eff W GatewayError FileInfo) : Prop :=
  ∀ w, (call.advance g fs)^[n] (phase, w) = (.done (x w).1, (x w).2)

/-- A phase that ends in what comes after it. -/
theorem ends_bind (g : LocalFileGateway) (fs : FileSystem W) (call : WriteCall)
    (phase : WritePhase) {α : Type} {x : Eff W GatewayError α} {f : α → WritePhase}
    {k : α → Eff W GatewayError FileInfo} {n : ℕ}
    (hnext : call.next g fs phase = x >>= fun a => pure (f a))
    (hrest : ∀ a, call.Ends g fs n (f a) (k a)) : call.Ends g fs (n + 1) phase (x >>= k) := by
  intro w
  rw [Function.iterate_succ_apply]
  rcases advance_cases g fs call phase hnext w with ⟨a, w', hx, h⟩ | ⟨e, w', hx, h⟩
  · rw [h, Eff.bind_of_ok hx]
    exact hrest a w'
  · rw [h, Eff.bind_of_error hx]
    exact iterate_advance_done n _ w'

/-- **A call alone** does what `write` does, in at most five turns. -/
theorem ends_write (g : LocalFileGateway) (fs : FileSystem W) (call : WriteCall) :
    call.Ends g fs 5 call.start (g.write fs call.path call.contents call.options) := by
  have hinfo : call.Ends g fs 1 .metadata (call.info g fs) := by
    have hdone : ∀ info, call.Ends g fs 0 (.done (.ok info)) (pure info) := fun _ _ => rfl
    have h := ends_bind g fs call .metadata rfl hdone
    rwa [bind_pure] at h
  have hwriteAll := ends_bind g fs call .writeAll rfl fun _ => hinfo
  have hcreate := ends_bind g fs call .create rfl fun _ => hwriteAll
  have hparent := ends_bind g fs call .createDirAll rfl fun _ => hcreate
  cases hoverwrite : call.options.overwrite with
  | true =>
    have hstart : call.start = .createDirAll := by rw [start, hoverwrite]; rfl
    have hwrite : g.write fs call.path call.contents call.options =
        LocalFileGateway.createParent fs (call.fullPath g) >>= fun _ =>
          (fs.createFile (call.fullPath g)).mapError LocalFileGateway.ioError >>= fun _ =>
            (fs.writeAll (call.fullPath g) call.contents).mapError LocalFileGateway.ioError >>=
              fun _ => call.info g fs := by
      rw [LocalFileGateway.write, hoverwrite]
      rfl
    intro w
    rw [hstart, hwrite, Function.iterate_succ_apply', hparent w]
    rfl
  | false =>
    have hstart : call.start = .tryExists := by rw [start, hoverwrite]; rfl
    have hwrite : g.write fs call.path call.contents call.options =
        call.check g fs >>= fun _ => LocalFileGateway.createParent fs (call.fullPath g) >>= fun _ =>
          (fs.createFile (call.fullPath g)).mapError LocalFileGateway.ioError >>= fun _ =>
            (fs.writeAll (call.fullPath g) call.contents).mapError LocalFileGateway.ioError >>=
              fun _ => call.info g fs := by
      rw [LocalFileGateway.write, hoverwrite, check, bind_assoc]
      show (fs.tryExists (call.fullPath g)).orElseReturn false >>= _ = _
      congr 1
      funext found
      cases found with
      | true => rfl
      | false => rfl
    rw [hstart, hwrite]
    exact ends_bind g fs call .tryExists rfl fun _ => hparent

end WriteCall

end SweGateway

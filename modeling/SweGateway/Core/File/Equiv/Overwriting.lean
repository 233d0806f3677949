import SweGateway.Core.File.Equiv.Writers
import SweGateway.Lib.Overlay

/-!
# Writes over one another, at the same time

Every `write` empties the file when it creates it, and writes its contents from the beginning of the
file afterwards, in a call of its own.  Between the two another write may do the same, so that the
file can end up with parts of what several of them wrote, though all have returned `Ok`.

`landed` are the writes that have written since the file was last created.  What they have put there
lies over one another, and nothing else is in the file (`contents_of_landed`).  Once all writes have
returned `Ok` there is a last one among them, and the file is what this one wrote exactly if none of
the others was longer (`contents_of_ok`).
-/

namespace SweGateway

open LexicalPath Runs Overlay

/-! ### The phases of one write -/

/-- What a turn makes of a phase. -/
inductive WritePhase.Next : WritePhase → WritePhase → Prop
  | tryExists : Next .tryExists .createDirAll
  | createDirAll : Next .createDirAll .create
  | create : Next .create .writeAll
  | writeAll : Next .writeAll .metadata
  | metadata (info : FileInfo) : Next .metadata (.done (.ok info))
  | done (result : GatewayResult FileInfo) : Next (.done result) (.done result)
  | fails (phase : WritePhase) (e : GatewayError) : Next phase (.done (.error e))

/-- The write has created the file and has not failed. -/
def WritePhase.HasCreated : WritePhase → Prop
  | .writeAll | .metadata | .done (.ok _) => True
  | .tryExists | .createDirAll | .create | .done (.error _) => False

namespace WriteCall

variable {W : Type} {g : LocalFileGateway} {fs : FileSystem W} {call : WriteCall}
  {phase phase' : WritePhase}
  {before after : Option (List UInt8)}

theorem next_advance (g : LocalFileGateway) (fs : FileSystem W) (call : WriteCall)
    (phase : WritePhase) (w : W) : phase.Next (call.advance g fs (phase, w)).1 := by
  have hcases {α : Type} {x : Eff W GatewayError α} {f : α → WritePhase}
      (hnext : call.next g fs phase = x >>= fun a => pure (f a)) (hf : ∀ a, phase.Next (f a)) :
      phase.Next (call.advance g fs (phase, w)).1 := by
    rcases advance_cases g fs call phase hnext w with ⟨a, w', -, h⟩ | ⟨e, w', -, h⟩
    · rw [h]
      exact hf a
    · rw [h]
      exact .fails phase e
  cases phase with
  | tryExists => exact hcases rfl fun _ => .tryExists
  | createDirAll => exact hcases rfl fun _ => .createDirAll
  | create => exact hcases rfl fun _ => .create
  | writeAll => exact hcases rfl fun _ => .writeAll
  | metadata => exact hcases rfl fun info => .metadata info
  | done result => exact .done result

/-! What a turn does to the file, by the phase it is the turn of. -/

theorem TurnCase.of_other (h : TurnCase call phase phase' before after) (hcreate : phase ≠ .create)
    (hwriteAll : phase ≠ .writeAll) : after = before := by
  cases h with
  | keeps hcontents | fails hcontents => exact hcontents
  | creates hphase | createFails hphase => exact absurd hphase hcreate
  | writes hphase | writeFails hphase => exact absurd hphase hwriteAll

theorem TurnCase.of_create (h : TurnCase call .create .writeAll before after) :
    after = some [] := by
  cases h with
  | creates _ _ hcontents => exact hcontents
  | keeps _ hwritten | fails _ hwritten | createFails _ hwritten => cases hwritten
  | writes hphase | writeFails hphase => cases hphase

theorem TurnCase.of_writeAll {old : List UInt8}
    (h : TurnCase call .writeAll .metadata (some old) after) :
    after = some (writeOver old call.contents) := by
  cases h with
  | writes _ _ hcontents => exact hcontents old rfl
  | keeps hcontents hwritten =>
    -- nothing is written, and this is what was to be written
    have hnil : call.contents = [] := Option.some.inj hwritten
    rw [hcontents, hnil]
    rfl
  | fails _ hwritten | writeFails _ hwritten => cases hwritten
  | creates hphase | createFails hphase => cases hphase

end WriteCall

namespace Writers

open LocalFileGateway

variable {ι W Loc : Type} [DecidableEq ι] {g : LocalFileGateway} {fs : FileSystem W}
  {place : FilePath → Loc} {contents : W → Loc → Option (List UInt8)} {calls : ι → WriteCall}
  {target : Loc} {w : W}

/-! ### The writes since the last creation -/

/-- What a turn of `i` makes of the writes since the last creation.  They are not known after a call
of the file system that failed half way. -/
def landedAfter (i : ι) (landed : Option (List ι)) : WritePhase → WritePhase → Option (List ι)
  | .create, .writeAll => some []
  | .create, _ => none
  | .writeAll, .metadata => landed.map (· ++ [i])
  | .writeAll, _ => none
  | _, _ => landed

/-- A turn, with the writes since the last creation. -/
def stepLanded (g : LocalFileGateway) (fs : FileSystem W) (calls : ι → WriteCall)
    (s : Writers ι W × Option (List ι)) (i : ι) : Writers ι W × Option (List ι) :=
  let σ := step g fs calls s.1 i
  (σ, landedAfter i s.2 (s.1.phase i) (σ.phase i))

/-- The writes of a run that have written since the file was last created, one after the other. -/
def landed (g : LocalFileGateway) (fs : FileSystem W) (calls : ι → WriteCall) (w : W)
    (turns : List ι) : Option (List ι) :=
  (exec (stepLanded g fs calls) (start calls w, none) turns).2

theorem exec_stepLanded_fst (s : Writers ι W × Option (List ι)) (turns : List ι) :
    (exec (stepLanded g fs calls) s turns).1 = exec (step g fs calls) s.1 turns := by
  induction turns generalizing s with
  | nil => rfl
  | cons i turns ih => exact ih _

theorem after_concat (turns : List ι) (i : ι) :
    after g fs calls w (turns ++ [i]) = step g fs calls (after g fs calls w turns) i :=
  exec_append ..

theorem landed_concat (turns : List ι) (i : ι) :
    landed g fs calls w (turns ++ [i]) = landedAfter i (landed g fs calls w turns)
      ((after g fs calls w turns).phase i)
      ((after g fs calls w (turns ++ [i])).phase i) := by
  have hfst : (exec (stepLanded g fs calls) (start calls w, none) turns).1 =
      exec (step g fs calls) (start calls w) turns := exec_stepLanded_fst _ turns
  rw [after_concat, landed, exec_append, landed, after, ← hfst]
  rfl

theorem phase_step_self (σ : Writers ι W) (i : ι) :
    (step g fs calls σ i).phase i = ((calls i).advance g fs (σ.phase i, σ.world)).1 :=
  Function.update_self ..

theorem phase_step_of_ne (σ : Writers ι W) {i j : ι} (h : j ≠ i) :
    (step g fs calls σ i).phase j = σ.phase j :=
  Function.update_of_ne h ..

/-- What writes have put into the file, one over the other. -/
def layers (calls : ι → WriteCall) (ws : List ι) : List UInt8 :=
  overlay (ws.map fun i => (calls i).contents)

omit [DecidableEq ι] in
/-- Every place of the file has what the last write that reaches it has put there. -/
theorem getElem?_layers_eq_some_iff (ws : List ι) (k : ℕ) (byte : UInt8) :
    (layers calls ws)[k]? = some byte ↔
      ∃ before i behind, ws = before ++ i :: behind ∧ (calls i).contents[k]? = some byte ∧
        ∀ j ∈ behind, (calls j).contents.length ≤ k := by
  rw [layers, getElem?_overlay_eq_some_iff]
  constructor
  · rintro ⟨before, written, behind, heq, hbyte, hbehind⟩
    obtain ⟨before, rest, hsplit, rfl, hrest⟩ := List.map_eq_append_iff.mp heq
    obtain ⟨i, behind, rfl, rfl, rfl⟩ := List.map_eq_cons_iff.mp hrest
    exact ⟨before, i, behind, hsplit, hbyte, fun j hj => hbehind _ (List.mem_map_of_mem hj)⟩
  · rintro ⟨before, i, behind, heq, hbyte, hbehind⟩
    refine ⟨before.map fun i => (calls i).contents, (calls i).contents,
      behind.map fun i => (calls i).contents, ?_, hbyte, ?_⟩
    · rw [heq, List.map_append, List.map_cons]
    · exact List.forall_mem_map.mpr hbehind

omit [DecidableEq ι] in
theorem layers_concat (ws : List ι) (i : ι) :
    layers calls (ws ++ [i]) = writeOver (layers calls ws) (calls i).contents := by
  rw [layers, List.map_append, List.map_singleton, overlay_concat]
  rfl

/-- **One turn** keeps the file what the writes since the last creation have put there. -/
theorem contents_step (hfs : fs.Stores place contents)
    (hplace : ∀ i, place ((calls i).fullPath g) = target) {σ : Writers ι W} {i : ι}
    {known : Option (List ι)}
    (hknown : ∀ ws, known = some ws → contents σ.world target = some (layers calls ws))
    {ws : List ι}
    (h : landedAfter i known (σ.phase i) ((step g fs calls σ i).phase i) = some ws) :
    contents (step g fs calls σ i).world target = some (layers calls ws) := by
  have hturn := WriteCall.turnCase hfs g (calls i) (σ.phase i) σ.world
  rw [hplace i, ← phase_step_self] at hturn
  change WriteCall.TurnCase _ _ _ _ (contents (step g fs calls σ i).world target) at hturn
  unfold landedAfter at h
  split at h
  case h_1 hphase hphase' =>
    rw [hphase, hphase'] at hturn
    obtain rfl := Option.some.inj h
    exact hturn.of_create
  case h_2 | h_4 => cases h
  case h_3 hphase hphase' =>
    obtain ⟨old, hold, rfl⟩ := Option.map_eq_some_iff.mp h
    rw [hphase, hphase', hknown old hold] at hturn
    rw [layers_concat]
    exact hturn.of_writeAll
  case h_5 hcreate hwriteAll _ _ =>
    rw [hturn.of_other hcreate hwriteAll]
    exact hknown ws h

/-- **The file** is what the writes since its last creation have put there. -/
theorem contents_of_landed (hfs : fs.Stores place contents)
    (hplace : ∀ i, place ((calls i).fullPath g) = target) {turns ws : List ι}
    (h : landed g fs calls w turns = some ws) :
    contents (after g fs calls w turns).world target = some (layers calls ws) := by
  induction turns using List.reverseRecOn generalizing ws with
  | nil => cases h
  | append_singleton turns i ih =>
    rw [landed_concat] at h
    rw [after_concat] at h ⊢
    exact contents_step hfs hplace (fun _ => ih) h

/-! ### Writes that all return `Ok` -/

/-- No write that has had a turn has failed. -/
def NoneFails (g : LocalFileGateway) (fs : FileSystem W) (calls : ι → WriteCall) (w : W)
    (turns : List ι) : Prop :=
  ∀ i ∈ turns, ∀ e, (after g fs calls w turns).phase i ≠ .done (.error e)

/-- A write that has failed stays so. -/
theorem NoneFails.of_concat {turns : List ι} {i : ι} (h : NoneFails g fs calls w (turns ++ [i])) :
    NoneFails g fs calls w turns := by
  intro j hj e he
  refine h j (List.mem_append_left _ hj) e ?_
  rw [after_concat]
  by_cases hji : j = i
  · subst hji
    rw [phase_step_self, he]
    rfl
  · rw [phase_step_of_ne _ hji, he]

/-- As soon as a write has created the file, it is known which ones have written since, and one of
the writes of the run has either done so or is about to. -/
def Tracked (σ : Writers ι W) (turns : List ι) (known : Option (List ι)) : Prop :=
  ∀ i, (σ.phase i).HasCreated →
    ∃ ws, known = some ws ∧ ∃ c ∈ turns, σ.phase c = .writeAll ∨ c ∈ ws

/-- The turn of a phase that neither creates the file nor writes into it changes nothing. -/
theorem Tracked.of_other {σ : Writers ι W} {turns : List ι} {known : Option (List ι)} {i : ι}
    (h : Tracked σ turns known)
    (hcreated : ((step g fs calls σ i).phase i).HasCreated → (σ.phase i).HasCreated)
    (hwriteAll : σ.phase i ≠ .writeAll) :
    Tracked (step g fs calls σ i) (turns ++ [i]) known := by
  intro j hj
  have hj' : (σ.phase j).HasCreated := by
    by_cases hji : j = i
    · subst hji
      exact hcreated hj
    · rwa [phase_step_of_ne _ hji] at hj
  obtain ⟨ws, hws, c, hc, hphase⟩ := h j hj'
  refine ⟨ws, hws, c, List.mem_append_left _ hc, hphase.imp_left fun hphase => ?_⟩
  rw [phase_step_of_ne, hphase]
  rintro rfl
  exact hwriteAll hphase

/-- **It stays so** as long as no write fails. -/
theorem tracked_landed {turns : List ι} (h : NoneFails g fs calls w turns) :
    Tracked (after g fs calls w turns) turns (landed g fs calls w turns) := by
  induction turns using List.reverseRecOn with
  | nil =>
    intro i hi
    have hstart : ¬ (calls i).start.HasCreated := by
      unfold WriteCall.start
      split <;> exact id
    exact absurd hi hstart
  | append_singleton turns i ih =>
    have hold := ih h.of_concat
    have hok := h i (by simp)
    have hnext := WriteCall.next_advance g fs (calls i)
      ((after g fs calls w turns).phase i) (after g fs calls w turns).world
    rw [landed_concat]
    rw [after_concat] at hok ⊢
    rw [← phase_step_self] at hnext
    generalize after g fs calls w turns = σ at *
    generalize landed g fs calls w turns = known at *
    generalize hphase' : (step g fs calls σ i).phase i = phase' at *
    generalize hphase : σ.phase i = phase at *
    have hother (hcreated : phase'.HasCreated → phase.HasCreated) (hwriteAll : phase ≠ .writeAll) :
        Tracked (step g fs calls σ i) (turns ++ [i]) known := by
      subst hphase hphase'
      exact hold.of_other hcreated hwriteAll
    cases hnext with
    | tryExists | createDirAll | done => exact hother id nofun
    | metadata info => exact hother (fun _ => trivial) nofun
    | fails phase e => exact absurd rfl (hok e)
    | create =>
      intro _ _
      exact ⟨[], rfl, i, by simp, .inl hphase'⟩
    | writeAll =>
      intro _ _
      obtain ⟨ws, hws, -⟩ := hold i (by rw [hphase]; trivial)
      refine ⟨ws ++ [i], ?_, i, by simp, .inr (by simp)⟩
      rw [hws]
      rfl

/-- **Writes over one another.** Any number of writes to one file have all returned `Ok`, whatever
the order of their turns was.  Then one of them was the last to write, and the file has at every
place what the last of those that have written since its last creation and that reach the place has
put there.  It is what the last one wrote exactly if none of these is longer. -/
theorem contents_of_ok (g : LocalFileGateway) (fs : FileSystem W) (place : FilePath → Loc)
    (contents : W → Loc → Option (List UInt8)) (hfs : fs.Stores place contents)
    (calls : ι → WriteCall) (target : Loc) (hplace : ∀ i, place ((calls i).fullPath g) = target)
    (w : W) (turns : List ι) (hne : turns ≠ [])
    (hok : ∀ i ∈ turns, ∃ info, (after g fs calls w turns).phase i = .done (.ok info)) :
    ∃ ws last bytes, landed g fs calls w turns = some (ws ++ [last]) ∧
      contents (after g fs calls w turns).world target = some bytes ∧
      (∀ (k : ℕ) (byte : UInt8), bytes[k]? = some byte ↔
        ∃ before i behind, ws ++ [last] = before ++ i :: behind ∧
          (calls i).contents[k]? = some byte ∧ ∀ j ∈ behind, (calls j).contents.length ≤ k) ∧
      (bytes = (calls last).contents ↔
        ∀ i ∈ ws, (calls i).contents.length ≤ (calls last).contents.length) := by
  have hnone : NoneFails g fs calls w turns := by
    intro i hi e he
    obtain ⟨info, hinfo⟩ := hok i hi
    rw [hinfo] at he
    cases he
  obtain ⟨i, hi⟩ := List.exists_mem_of_ne_nil turns hne
  obtain ⟨info, hinfo⟩ := hok i hi
  obtain ⟨ws, hws, c, hc, hphase⟩ := tracked_landed hnone i (by rw [hinfo]; trivial)
  have hmem : c ∈ ws := by
    refine hphase.resolve_left fun hwriteAll => ?_
    obtain ⟨info, hinfo⟩ := hok c hc
    rw [hinfo] at hwriteAll
    cases hwriteAll
  rcases List.eq_nil_or_concat ws with rfl | ⟨ws, last, rfl⟩
  · cases hmem
  rw [List.concat_eq_append] at hws
  refine ⟨ws, last, layers calls (ws ++ [last]), hws, contents_of_landed hfs hplace hws,
    getElem?_layers_eq_some_iff _, ?_⟩
  rw [layers, List.map_append, List.map_singleton, overlay_concat_eq_iff, List.forall_mem_map]

/-- Both create the file before one writes.  The shorter one writes last, and the file ends as the
longer one does. -/
theorem contents_of_ok_torn :
    let calls := twoSpellings { overwrite := true }
    let turns := [false, true, false, true, false, true, false, true]
    let σ := after ⟨"/data".toList⟩ (placedFiles lexicalPlace) calls (fun _ => none) turns
    ∃ ws last bytes,
      landed ⟨"/data".toList⟩ (placedFiles lexicalPlace) calls (fun _ => none) turns =
        some (ws ++ [last]) ∧
      σ.world ["data".toList, "log".toList] = some bytes ∧
      (∀ (k : ℕ) (byte : UInt8), bytes[k]? = some byte ↔
        ∃ before i behind, ws ++ [last] = before ++ i :: behind ∧
          (calls i).contents[k]? = some byte ∧ ∀ j ∈ behind, (calls j).contents.length ≤ k) ∧
      (bytes = (calls last).contents ↔
        ∀ i ∈ ws, (calls i).contents.length ≤ (calls last).contents.length) :=
  contents_of_ok ⟨"/data".toList⟩ (placedFiles lexicalPlace) lexicalPlace id
    (stores_placedFiles lexicalPlace) (twoSpellings { overwrite := true })
    ["data".toList, "log".toList] (by decide) (fun _ => none)
    [false, true, false, true, false, true, false, true] (by decide) (by
      intro i _
      cases i with
      | false => exact ⟨_, rfl⟩
      | true => exact ⟨_, rfl⟩)

/-- So the file is what neither of them wrote. -/
example : (after ⟨"/data".toList⟩ (placedFiles lexicalPlace) (twoSpellings { overwrite := true })
    (fun _ => none) [false, true, false, true, false, true, false, true]).world
      ["data".toList, "log".toList] = some [2, 2, 1] := by decide

end Writers

end SweGateway

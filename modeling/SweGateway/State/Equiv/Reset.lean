import SweGateway.Lib.Runs
import SweGateway.State.Equiv.CachedService

/-!
# Resetting a `CachedService`

A reset empties the cell so that the next access initializes it anew, and a call that starts after a
reset should not see an instance from before it.  But an `init` that was running when the reset began
may return afterwards, and `get_or_init` then stores its instance in the cell that the reset has
emptied (`stale_after_reset`).

`StoresFresh` excludes just that step.  In a run whose steps are all `StoresFresh`, no call that
starts after a reset has returned obtains an instance whose `init` had started before that reset
(`fresh_after_reset`).  Two invariants carry the proof, both for a given reset and an `init` that was
running before it: from the point where the reset has emptied the cell, the cell does not hold the
instance of that `init` (`cell_fresh`), and then no call that starts later obtains it
(`obtained_fresh`).
-/

namespace SweGateway.CachedService

open Concurrent

variable {ι S : Type} [DecidableEq ι] [Fintype ι]

/-- The next step of the call `i` is the one in which it stores the instance `a`, if there is none
yet. -/
def Stores (c : Running ι S) (i : ι) (a : Arc ι S) : Prop :=
  (c.threads i).prog.atAccess = true ∧ c.flow i = (storeBody a).flow

/-- The reset `j` has emptied the cell. -/
def HasReset (calls : ι → CachedCall S) (c : Running ι S) (j : ι) : Prop :=
  calls j = .reset ∧ c.flow j = .done .unit

/-- When the call `i` stores its instance in the empty cell, no reset has emptied the cell that had
not begun while the call's `init` was running. -/
def StoresFresh (calls : ι → CachedCall S) (history : List ι) (i : ι) : Prop :=
  ∀ c a, (launch calls).run? history = some c → Stores c i a → c.store = none →
    ∀ pre c₀ j, pre <+: history → (launch calls).run? pre = some c₀ → Initialising calls c₀ i →
      NotBegun calls c₀ j → ¬ HasReset calls c j

/-- A call that starts after the reset `j` has returned has not obtained an instance whose `init` had
started before the reset. -/
def FreshAfterReset (calls : ι → CachedCall S) (history : List ι) : Prop :=
  ∀ pre mid c₀ c₁ c₂, pre <+: mid → mid <+: history → (launch calls).run? pre = some c₀ →
    (launch calls).run? mid = some c₁ → (launch calls).run? history = some c₂ →
      ∀ j k, calls j = .reset → Initialising calls c₀ k → NotBegun calls c₀ j →
        Returned c₁ j .unit → ∀ i a, NotBegun calls c₁ i → Obtained c₂ i a → a.creator ≠ k

/-! ### One step -/

theorem at_of_run? {calls : ι → CachedCall S} {schedule : List ι} {c : Running ι S}
    (h : (launch calls).run? schedule = some c) (i : ι) :
    At (fun _ => True) i (calls i) (c.flow i) := by
  have hstart : At (fun _ => True) i (calls i) ((launch calls).flow i) := .start _
  exact (Config.reaches_of_run? h).one_flow_invariant hstart fun cell f k hat =>
    hat.access rfl fun _ _ => trivial

/-- A reset that has emptied the cell stays so. -/
theorem HasReset.step {calls : ι → CachedCall S} {c c' : Running ι S} {i j : ι}
    (h : HasReset calls c j) (hstep : c.step? i = some c') : HasReset calls c' j := by
  refine ⟨h.1, ?_⟩
  cases Config.step?_flow hstep with
  | lock _ hflow => rw [hflow, h.2]
  | access f k _ hflow _ _ hother =>
    by_cases hj : j = i
    · subst hj
      rw [h.2] at hflow
      cases hflow
    · rw [hother j hj, h.2]

theorem HasReset.run {calls : ι → CachedCall S} {mid rest : List ι} {c₁ c₂ : Running ι S} {j : ι}
    (h : HasReset calls c₁ j) (hmid : (launch calls).run? mid = some c₁)
    (hrun : (launch calls).run? (mid ++ rest) = some c₂) : HasReset calls c₂ j := by
  induction rest using List.reverseRecOn generalizing c₂ with
  | nil =>
    rw [List.append_nil, hmid] at hrun
    obtain rfl := Option.some.inj hrun
    exact h
  | append_singleton rest i ih =>
    rw [← List.append_assoc] at hrun
    obtain ⟨c, hc, hstep⟩ := Config.run?_concat_eq_some hrun
    exact (ih hc).step hstep

/-! ### Runs -/

section Run

variable {calls : ι → CachedCall S} {schedule pre : List ι} {c₀ : Running ι S} {j k : ι}

/-- **The cell after a reset.** Once the reset `j` has emptied the cell, the cell does not hold an
instance whose `init` was running before the reset began. -/
theorem cell_fresh (hok : Runs.EachStep (StoresFresh calls) schedule)
    (hpre : (launch calls).run? pre = some c₀) (hinit : Initialising calls c₀ k)
    (hbegun : NotBegun calls c₀ j) {rest : List ι} {c : Running ι S}
    (hrest : pre ++ rest <+: schedule) (hrun : (launch calls).run? (pre ++ rest) = some c)
    (hreset : HasReset calls c j) : ∀ a, c.store = some a → a.creator ≠ k := by
  induction rest using List.reverseRecOn generalizing c with
  | nil =>
    -- the reset has not begun yet
    rw [List.append_nil, hpre] at hrun
    obtain rfl := Option.some.inj hrun
    have hflow := hreset.2
    rw [Config.flow, hbegun, hreset.1] at hflow
    cases hflow
  | append_singleton rest i ih =>
    rw [← List.append_assoc] at hrun hrest
    obtain ⟨c₁, hc₁, hstep⟩ := Config.run?_concat_eq_some hrun
    have hprefix : pre ++ rest <+: schedule := (List.prefix_append _ [i]).trans hrest
    have hat := at_of_run? hc₁ i
    cases Config.step?_flow hstep with
    | lock hstore hflow =>
      rw [hstore]
      exact ih hprefix hc₁ ⟨hreset.1, by rw [← hflow, hreset.2]⟩
    | access f k' hacc hflow hstore hself hother =>
      intro a ha
      rw [hstore] at ha
      by_cases hji : j = i
      · -- the reset itself leaves no instance
        subst hji
        rcases hat.access_cases hflow c₁.store with ⟨hne, -⟩ | ⟨service, hcall, -⟩ | ⟨-, hnone⟩
        · exact absurd hreset.1 hne
        · rw [hreset.1] at hcall
          cases hcall
        · rw [hnone] at ha
          cases ha
      · have hreset₁ : HasReset calls c₁ j := ⟨hreset.1, by rw [← hother j hji, hreset.2]⟩
        have hcell := ih hprefix hc₁ hreset₁
        rcases hat.access_cases hflow c₁.store with ⟨-, hid⟩ | ⟨service, -, hflow', hput⟩ | ⟨-, hnone⟩
        · exact hcell a (hid ▸ ha)
        · rw [hput] at ha
          obtain rfl := Option.some.inj ha
          cases hc : c₁.store with
          | some b => exact hcell b hc
          | none =>
            -- the call stores its own instance, and its `init` was not running before the reset
            rintro (rfl : i = k)
            exact hok (pre ++ rest) i hrest c₁ ⟨i, service⟩ hc₁ ⟨hacc, hflow'⟩ hc pre c₀ j
              (List.prefix_append _ _) hpre hinit hbegun hreset₁
        · rw [hnone] at ha
          cases ha

/-- **A call after a reset.** What a call obtains that starts when the reset `j` has returned. -/
theorem obtained_fresh (hok : Runs.EachStep (StoresFresh calls) schedule)
    (hpre : (launch calls).run? pre = some c₀) (hinit : Initialising calls c₀ k)
    (hbegun : NotBegun calls c₀ j) {mid rest : List ι} {c₁ c₂ : Running ι S} {i : ι}
    (hmid : pre <+: mid) (hc₁ : (launch calls).run? mid = some c₁) (hreset : HasReset calls c₁ j)
    (hbegun' : NotBegun calls c₁ i) (hrest : mid ++ rest <+: schedule)
    (hc₂ : (launch calls).run? (mid ++ rest) = some c₂) :
    At (fun a => a.creator ≠ k) i (calls i) (c₂.flow i) := by
  induction rest using List.reverseRecOn generalizing c₂ with
  | nil =>
    rw [List.append_nil, hc₁] at hc₂
    obtain rfl := Option.some.inj hc₂
    rw [Config.flow, hbegun']
    exact .start _
  | append_singleton rest i' ih =>
    have hcell : ∀ a, c₂.store = some a → a.creator ≠ k := by
      obtain ⟨middle, rfl⟩ := hmid
      have hrun := hc₂
      rw [List.append_assoc] at hrun hrest
      exact cell_fresh hok hpre hinit hbegun hrest hrun
        (hreset.run hc₁ (by rw [List.append_assoc]; exact hrun))
    rw [← List.append_assoc] at hc₂ hrest
    obtain ⟨c, hc, hstep⟩ := Config.run?_concat_eq_some hc₂
    have hat := ih ((List.prefix_append _ [i']).trans hrest) hc
    cases Config.step?_flow hstep with
    | lock _ hflow =>
      rw [hflow]
      exact hat
    | access f k' _ hflow hstore hself hother =>
      by_cases hi : i = i'
      · subst hi
        rw [hself]
        exact hat.access hflow fun a ha => hcell a (hstore ▸ ha)
      · rw [hother i hi]
        exact hat

end Run

/-- **After a reset, nothing stale.** In every run in which no call stores, in the empty cell, an
instance whose `init` was running before a reset that has emptied the cell since, a call that starts
after a reset has returned never returns an instance whose `init` had started before that reset. -/
theorem fresh_after_reset {calls : ι → CachedCall S} {schedule : List ι}
    (hok : Runs.EachStep (StoresFresh calls) schedule) :
    Runs.Always (FreshAfterReset calls) schedule := by
  intro history hhistory pre mid c₀ c₁ c₂ hpre hmid hc₀ hc₁ hc₂ j k hcall hinit hbegun hreturned i a
    hbegun' hobtained
  obtain ⟨rest, rfl⟩ := hmid
  have hreset : HasReset calls c₁ j := ⟨hcall, Config.flow_of_done hreturned⟩
  exact (obtained_fresh hok hc₀ hinit hbegun hpre hc₁ hreset hbegun' hhistory hc₂).good_of_obtained
    hobtained

/-- A `get_or_init`, a reset and a `get`. -/
def initResetGet : Fin 3 → CachedCall ℕ
  | 0 => .getOrInit (.ok 1)
  | 1 => .reset
  | 2 => .get

/-- One call after the other. -/
def oneByOne : List (Fin 3) := [0, 0, 0, 0, 0, 0, 0, 0, 1, 1, 1, 2, 2, 2]

/-- A reset between a `get_or_init` and a `get`. -/
theorem fresh_after_reset_oneByOne :
    Runs.Always (FreshAfterReset initResetGet) oneByOne := by
  apply fresh_after_reset
  rw [Runs.eachStep_iff_getElem]
  intro n hn c a hc _ _ pre c₀ j _ _ hinit _ hreset
  obtain ⟨init, hcall, -⟩ := hinit
  obtain ⟨hj, hflow⟩ := hreset
  obtain rfl : j = 1 := by
    match j with
    | 0 | 2 => cases hj
    | 1 => rfl
  -- only the first call initialises, and all of its steps come before the reset
  have hfirst : ∀ i, initResetGet i = .getOrInit init → i = 0 := by
    intro i hi
    match i with
    | 0 => rfl
    | 1 | 2 => cases hi
  have hbefore : ∀ n (hn : n < oneByOne.length), oneByOne[n] = 0 → 1 ∉ oneByOne.take n := by decide
  have hnot := hbefore n hn (hfirst _ hcall)
  rw [Config.flow, Config.threads_run?_of_not_mem hc hnot] at hflow
  cases hflow

/-- An instance whose `init` was running when a reset began is stored after the reset, and a `get`
that starts then returns it. -/
theorem stale_after_reset :
    ¬ ∀ schedule, Runs.Always (FreshAfterReset initResetGet) schedule := by
  intro h
  have hrun : ((launch initResetGet).run? [0, 0, 0, 0, 1, 1, 1, 0, 0, 0, 0, 2, 2, 2]).map
      (fun c => (c.threads 2).prog) = some (.done (.got (some ⟨0, 1⟩))) := rfl
  have hmid : ((launch initResetGet).run? [0, 0, 0, 0, 1, 1, 1, 0, 0, 0, 0]).map
      (fun c => (c.threads 1).prog) = some (.done .unit) := rfl
  have hpre : ((launch initResetGet).run? [0, 0, 0, 0]).map
      (fun c => (c.threads 0).prog) = some (runningInitBody 0 (.ok 1)) := rfl
  rw [Option.map_eq_some_iff] at hrun hmid hpre
  obtain ⟨c₂, hc₂, hget⟩ := hrun
  obtain ⟨c₁, hc₁, hreset⟩ := hmid
  obtain ⟨c₀, hc₀, hinit⟩ := hpre
  refine h _ _ List.prefix_rfl [0, 0, 0, 0] [0, 0, 0, 0, 1, 1, 1, 0, 0, 0, 0] c₀ c₁ c₂
    ⟨_, rfl⟩ ⟨_, rfl⟩ hc₀ hc₁ hc₂ 1 0 rfl ⟨_, rfl, hinit⟩ ?_ hreset 2 ⟨0, 1⟩ ?_ (.inr hget) rfl
  · exact Config.threads_run?_of_not_mem hc₀ (by decide)
  · exact Config.threads_run?_of_not_mem hc₁ (by decide)

end SweGateway.CachedService

import Mathlib.Data.Finset.Max
import Mathlib.Data.Fintype.Basic
import Mathlib.Logic.Function.Basic
import Mathlib.Logic.Relation

/-!
# Threads that share a store behind reader-writer locks

A `Prog` is the body of an operation as a sequence of atomic steps: acquiring a lock, accessing the
store, releasing a lock.  A `Config` is a store together with the threads that run over it, each
with the locks it holds, and `Config.step?` is one step of one thread.  A read lock is granted if
no thread holds the lock for writing, a write lock if no thread holds it at all; a thread that is
not granted its lock cannot step.

The locks are the threads' own records of what they hold, so that no lock state has to be kept
consistent with them: that a write lock is exclusive is an invariant (`Config.exclusive_step`).

`Obeys I A held prog` says that a program follows a discipline: it keeps the store invariant `I`,
acquires a lock only when `A` allows it for the locks it holds by then, and ends holding nothing.
Disciplines are kept by every step (`Config.disciplined_step`).  Two rules are derived from them:

* threads that acquire locks in increasing order never deadlock, even together with one thread that
  acquires only locks of the highest level, in any order (`Config.not_deadlocked`);
* a thread that never asks for a lock it holds can run to its end while the others hold nothing, and
  then has the effect of its sequential meaning `Prog.exec` (`Config.reaches_alone`).
-/

namespace Concurrent

/-- How a lock is held. -/
inductive Mode where
  | read
  | write
  deriving DecidableEq, Repr

/-- The body of an operation: its accesses to a store `S` between steps that acquire and release
locks named by `L`, and its result.  An access replaces the store by `f` of it and goes on with
what it saw. -/
inductive Prog (L S R : Type) where
  | done (r : R)
  | acquire (m : Mode) (l : L) (k : Prog L S R)
  | access (f : S → S) (k : S → Prog L S R)
  | release (m : Mode) (l : L) (k : Prog L S R)

namespace Prog

variable {L S R : Type}

/-- The sequential meaning of a program: the result it returns and the store it leaves when nobody
else runs. -/
def exec : Prog L S R → S → R × S
  | .done r, s => (r, s)
  | .acquire _ _ k, s => k.exec s
  | .access f k, s => (k s).exec (f s)
  | .release _ _ k, s => k.exec s

/-- The program has returned. -/
def isDone : Prog L S R → Bool
  | .done _ => true
  | _ => false

/-- A body that reads the store under one lock. -/
def readSection (l : L) (f : S → R) : Prog L S R :=
  .acquire .read l <| .access id fun s => .release .read l <| .done (f s)

/-- A body that updates the store under one lock. -/
def writeSection (l : L) (f : S → R × S) : Prog L S R :=
  .acquire .write l <| .access (fun s => (f s).2) fun s => .release .write l <| .done (f s).1

end Prog

/-! ### Disciplines -/

section Discipline

variable {L S R : Type}

/-- Locks are acquired in increasing order of their levels. -/
def Ordered (level : L → ℕ) (held : List (Mode × L)) (l : L) : Prop :=
  ∀ h ∈ held, level h.2 < level l

/-- A lock is not acquired by a thread that holds it. -/
def Fresh (held : List (Mode × L)) (l : L) : Prop :=
  ∀ m, (m, l) ∉ held

/-- Only locks of the highest level are acquired, and none by a thread that holds it. -/
def Highest (level : L → ℕ) (held : List (Mode × L)) (l : L) : Prop :=
  (∀ l', level l' ≤ level l) ∧ Fresh held l

theorem Ordered.fresh {level : L → ℕ} {held : List (Mode × L)} {l : L}
    (h : Ordered level held l) : Fresh held l :=
  fun _ hmem => absurd (h _ hmem) (lt_irrefl _)

variable [DecidableEq L]

/-- **A discipline.** The program, run while holding `held`, keeps the store invariant `I`, acquires
a lock only when `A` allows it given the locks it holds, releases only what it holds, and ends
holding nothing. -/
def Obeys (I : S → Prop) (A : List (Mode × L) → L → Prop) :
    List (Mode × L) → Prog L S R → Prop
  | held, .done _ => held = []
  | held, .acquire m l k => A held l ∧ Obeys I A ((m, l) :: held) k
  | held, .access f k => ∀ s, I s → I (f s) ∧ Obeys I A held (k s)
  | held, .release m l k => (m, l) ∈ held ∧ Obeys I A (held.erase (m, l)) k

/-- A discipline implies every weaker one. -/
theorem Obeys.mono {I : S → Prop} {A B : List (Mode × L) → L → Prop}
    (hAB : ∀ held l, A held l → B held l) {prog : Prog L S R} :
    ∀ {held : List (Mode × L)}, Obeys I A held prog → Obeys I B held prog := by
  induction prog with
  | done r =>
    intro held h
    exact h
  | acquire m l k ih =>
    rintro held ⟨hA, hk⟩
    have hB : B held l := hAB held l hA
    exact ⟨hB, ih hk⟩
  | access f k ih =>
    intro held h s hs
    obtain ⟨hf, hk⟩ := h s hs
    exact ⟨hf, ih s hk⟩
  | release m l k ih =>
    rintro held ⟨hheld, hk⟩
    exact ⟨hheld, ih hk⟩

theorem obeys_readSection {I : S → Prop} {A : List (Mode × L) → L → Prop} {l : L} {f : S → R}
    (hA : A [] l) : Obeys I A [] (Prog.readSection l f) := by
  refine ⟨hA, fun s hs => ⟨hs, List.mem_singleton_self _, ?_⟩⟩
  show [(Mode.read, l)].erase (Mode.read, l) = []
  exact List.erase_cons_head ..

theorem obeys_writeSection {I : S → Prop} {A : List (Mode × L) → L → Prop} {l : L}
    {f : S → R × S} (hA : A [] l) (hf : ∀ s, I s → I (f s).2) :
    Obeys I A [] (Prog.writeSection l f) := by
  refine ⟨hA, fun s hs => ⟨hf s hs, List.mem_singleton_self _, ?_⟩⟩
  show [(Mode.write, l)].erase (Mode.write, l) = []
  exact List.erase_cons_head ..

end Discipline

/-! ### Configurations -/

/-- A running operation: what is left of its body, and the locks it holds. -/
structure Thread (L S R : Type) where
  prog : Prog L S R
  held : List (Mode × L) := []

/-- The store and the threads. -/
structure Config (ι L S R : Type) where
  store : S
  threads : ι → Thread L S R

namespace Config

variable {ι L S R : Type}

/-- Every operation before its first step. -/
def start (s : S) (progs : ι → Prog L S R) : Config ι L S R :=
  { store := s, threads := fun i => { prog := progs i } }

/-- The lock `l` can be taken in the mode `m`. -/
def Grants (c : Config ι L S R) : Mode → L → Prop
  | .read, l => ∀ j, (.write, l) ∉ (c.threads j).held
  | .write, l => ∀ j, (.write, l) ∉ (c.threads j).held ∧ (.read, l) ∉ (c.threads j).held

instance [Fintype ι] [DecidableEq L] (c : Config ι L S R) (m : Mode) (l : L) :
    Decidable (c.Grants m l) :=
  match m with
  | .read => inferInstanceAs (Decidable (∀ j, (Mode.write, l) ∉ (c.threads j).held))
  | .write => inferInstanceAs
      (Decidable (∀ j, (Mode.write, l) ∉ (c.threads j).held ∧ (Mode.read, l) ∉ (c.threads j).held))

theorem not_grants_iff {c : Config ι L S R} {m : Mode} {l : L} :
    ¬ c.Grants m l ↔ ∃ j m', (m', l) ∈ (c.threads j).held ∧ (m = .write ∨ m' = .write) := by
  cases m with
  | read =>
    constructor
    · intro h
      simp only [Grants, not_forall, not_not] at h
      obtain ⟨j, hj⟩ := h
      exact ⟨j, .write, hj, .inr rfl⟩
    · rintro ⟨j, m', hj, h | rfl⟩ hg
      · cases h
      · exact hg j hj
  | write =>
    constructor
    · intro h
      simp only [Grants, not_forall, not_and_or, not_not] at h
      obtain ⟨j, hj | hj⟩ := h
      · exact ⟨j, .write, hj, .inl rfl⟩
      · exact ⟨j, .read, hj, .inl rfl⟩
    · rintro ⟨j, m', hj, -⟩ hg
      cases m' with
      | read => exact (hg j).2 hj
      | write => exact (hg j).1 hj

variable [DecidableEq ι]

/-- The configuration with the store and the thread `i` replaced. -/
def set (c : Config ι L S R) (i : ι) (s : S) (t : Thread L S R) : Config ι L S R :=
  { store := s, threads := Function.update c.threads i t }

@[simp] theorem store_set (c : Config ι L S R) (i : ι) (s : S) (t : Thread L S R) :
    (c.set i s t).store = s := rfl

@[simp] theorem threads_set_self (c : Config ι L S R) (i : ι) (s : S) (t : Thread L S R) :
    (c.set i s t).threads i = t := Function.update_self ..

theorem threads_set_of_ne {c : Config ι L S R} {i j : ι} (h : j ≠ i) (s : S) (t : Thread L S R) :
    (c.set i s t).threads j = c.threads j := Function.update_of_ne h ..

@[simp] theorem set_set (c : Config ι L S R) (i : ι) (s s' : S) (t t' : Thread L S R) :
    (c.set i s t).set i s' t' = c.set i s' t' := by
  simp [set]

variable [Fintype ι] [DecidableEq L]

/-- One step of the thread `i`, if it has one. -/
def step? (c : Config ι L S R) (i : ι) : Option (Config ι L S R) :=
  let t := c.threads i
  match t.prog with
  | .done _ => none
  | .acquire m l k =>
    if c.Grants m l then some (c.set i c.store { prog := k, held := (m, l) :: t.held }) else none
  | .access f k =>
    some (c.set i (f c.store) { prog := k c.store, held := t.held })
  | .release m l k => some (c.set i c.store { prog := k, held := t.held.erase (m, l) })

/-- What a step does, by the head of the thread's program. -/
inductive StepCase (c : Config ι L S R) (i : ι) (c' : Config ι L S R) : Prop
  | acquire (m : Mode) (l : L) (k : Prog L S R) (hprog : (c.threads i).prog = .acquire m l k)
      (hgrants : c.Grants m l)
      (heq : c' = c.set i c.store { prog := k, held := (m, l) :: (c.threads i).held })
  | access (f : S → S) (k : S → Prog L S R) (hprog : (c.threads i).prog = .access f k)
      (heq : c' = c.set i (f c.store) { prog := k c.store, held := (c.threads i).held })
  | release (m : Mode) (l : L) (k : Prog L S R) (hprog : (c.threads i).prog = .release m l k)
      (heq : c' = c.set i c.store { prog := k, held := (c.threads i).held.erase (m, l) })

theorem step?_cases {c c' : Config ι L S R} {i : ι} (h : c.step? i = some c') :
    StepCase c i c' := by
  unfold step? at h
  cases hprog : (c.threads i).prog with
  | done r => simp [hprog] at h
  | acquire m l k =>
    simp only [hprog, Option.ite_none_right_eq_some, Option.some.injEq] at h
    exact .acquire m l k hprog h.1 h.2.symm
  | access f k =>
    simp only [hprog, Option.some.injEq] at h
    exact .access f k hprog h.symm
  | release m l k =>
    simp only [hprog, Option.some.injEq] at h
    exact .release m l k hprog h.symm

theorem step?_acquire {c : Config ι L S R} {i : ι} {m : Mode} {l : L} {k : Prog L S R}
    (hprog : (c.threads i).prog = .acquire m l k) (hgrants : c.Grants m l) :
    c.step? i = some (c.set i c.store { prog := k, held := (m, l) :: (c.threads i).held }) := by
  simp only [step?, hprog, if_pos hgrants]

theorem step?_access {c : Config ι L S R} {i : ι} {f : S → S} {k : S → Prog L S R}
    (hprog : (c.threads i).prog = .access f k) :
    c.step? i = some (c.set i (f c.store) { prog := k c.store, held := (c.threads i).held }) := by
  simp only [step?, hprog]

theorem step?_release {c : Config ι L S R} {i : ι} {m : Mode} {l : L} {k : Prog L S R}
    (hprog : (c.threads i).prog = .release m l k) :
    c.step? i = some (c.set i c.store { prog := k, held := (c.threads i).held.erase (m, l) }) := by
  simp only [step?, hprog]

theorem of_step?_acquire {c c' : Config ι L S R} {i : ι} {m : Mode} {l : L} {k : Prog L S R}
    {held : List (Mode × L)} (ht : c.threads i = { prog := .acquire m l k, held := held })
    (h : c.step? i = some c') :
    c.Grants m l ∧ c' = c.set i c.store { prog := k, held := (m, l) :: held } := by
  simp only [step?, ht, Option.ite_none_right_eq_some, Option.some.injEq] at h
  exact ⟨h.1, h.2.symm⟩

theorem of_step?_access {c c' : Config ι L S R} {i : ι} {f : S → S} {k : S → Prog L S R}
    {held : List (Mode × L)} (ht : c.threads i = { prog := .access f k, held := held })
    (h : c.step? i = some c') :
    c' = c.set i (f c.store) { prog := k c.store, held := held } := by
  simp only [step?, ht, Option.some.injEq] at h
  exact h.symm

theorem of_step?_release {c c' : Config ι L S R} {i : ι} {m : Mode} {l : L} {k : Prog L S R}
    {held : List (Mode × L)} (ht : c.threads i = { prog := .release m l k, held := held })
    (h : c.step? i = some c') :
    c' = c.set i c.store { prog := k, held := held.erase (m, l) } := by
  simp only [step?, ht, Option.some.injEq] at h
  exact h.symm

/-- A thread that has returned does not step. -/
theorem not_step?_done {c c' : Config ι L S R} {i : ι} {r : R} {held : List (Mode × L)}
    (ht : c.threads i = { prog := .done r, held := held }) : c.step? i ≠ some c' := by
  simp [step?, ht]

/-- A thread cannot step only when it has returned or waits for a lock. -/
theorem step?_eq_none_iff {c : Config ι L S R} {i : ι} :
    c.step? i = none ↔ (c.threads i).prog.isDone ∨
      ∃ m l k, (c.threads i).prog = .acquire m l k ∧ ¬ c.Grants m l := by
  unfold step?
  cases hprog : (c.threads i).prog <;> simp [hprog, Prog.isDone]

/-- A step of one thread leaves the others as they are. -/
theorem threads_step?_of_ne {c c' : Config ι L S R} {i j : ι} (h : c.step? i = some c')
    (hj : j ≠ i) : c'.threads j = c.threads j := by
  cases step?_cases h with
  | acquire m l k hprog hgrants heq => rw [heq, threads_set_of_ne hj]
  | access f k hprog heq => rw [heq, threads_set_of_ne hj]
  | release m l k hprog heq => rw [heq, threads_set_of_ne hj]

/-- `c'` can be reached from `c` by some interleaving of the threads' steps. -/
def Reaches : Config ι L S R → Config ι L S R → Prop :=
  Relation.ReflTransGen fun c c' => ∃ i, c.step? i = some c'

/-- Some operation has not returned, and none of those that have not can take a step. -/
def Deadlocked (c : Config ι L S R) : Prop :=
  (∃ i, (c.threads i).prog.isDone = false) ∧
    ∀ i, (c.threads i).prog.isDone = false → c.step? i = none

/-- What holds at the start and is kept by every step holds of every reachable configuration. -/
theorem Reaches.invariant {P : Config ι L S R → Prop} {c c' : Config ι L S R}
    (hreach : Reaches c c') (h0 : P c)
    (hstep : ∀ c i c', P c → c.step? i = some c' → P c') : P c' := by
  induction hreach with
  | refl => exact h0
  | tail _ h ih =>
    obtain ⟨i, hi⟩ := h
    exact hstep _ i _ ih hi

/-- The configuration that a schedule, the threads in the order of their steps, leads to. -/
def run? (c : Config ι L S R) (schedule : List ι) : Option (Config ι L S R) :=
  schedule.foldlM step? c

theorem reaches_of_run? {c c' : Config ι L S R} {schedule : List ι}
    (h : c.run? schedule = some c') : Reaches c c' := by
  induction schedule generalizing c with
  | nil =>
    obtain rfl : c = c' := Option.some.inj h
    exact .refl
  | cons i schedule ih =>
    rw [run?, List.foldlM_cons, Option.bind_eq_bind, Option.bind_eq_some_iff] at h
    obtain ⟨c₁, hstep, hrest⟩ := h
    exact Relation.ReflTransGen.head ⟨i, hstep⟩ (ih hrest)

theorem run?_concat (c : Config ι L S R) (schedule : List ι) (i : ι) :
    c.run? (schedule ++ [i]) = (c.run? schedule).bind fun c' => c'.step? i := by
  simp [run?, List.foldlM_append]

/-- The last step of a schedule. -/
theorem run?_concat_eq_some {c c' : Config ι L S R} {schedule : List ι} {i : ι}
    (h : c.run? (schedule ++ [i]) = some c') :
    ∃ c₁, c.run? schedule = some c₁ ∧ c₁.step? i = some c' := by
  rw [run?_concat, Option.bind_eq_some_iff] at h
  exact h

/-- A schedule leaves the threads that are not in it as they are. -/
theorem threads_run?_of_not_mem {c c' : Config ι L S R} {schedule : List ι} {j : ι}
    (h : c.run? schedule = some c') (hj : j ∉ schedule) : c'.threads j = c.threads j := by
  induction schedule using List.reverseRecOn generalizing c' with
  | nil =>
    obtain rfl : c = c' := Option.some.inj h
    rfl
  | append_singleton schedule i ih =>
    rw [List.mem_append, List.mem_singleton, not_or] at hj
    obtain ⟨c₁, hrun, hstep⟩ := run?_concat_eq_some h
    rw [threads_step?_of_ne hstep hj.2, ih hrun hj.1]

/-! ### Write locks are exclusive -/

/-- While a thread holds a lock for writing, no other thread holds it. -/
def Exclusive (c : Config ι L S R) : Prop :=
  ∀ i j, i ≠ j → ∀ l, (.write, l) ∈ (c.threads i).held → ∀ m, (m, l) ∉ (c.threads j).held

omit [DecidableEq ι] [Fintype ι] [DecidableEq L] in
theorem exclusive_start (s : S) (progs : ι → Prog L S R) : (start s progs).Exclusive :=
  fun _ _ _ _ h => absurd h List.not_mem_nil

/-- A step adds to the held locks of its thread at most the lock that it was granted. -/
theorem mem_held_step? {c c' : Config ι L S R} {i : ι} (h : c.step? i = some c') {m : Mode}
    {l : L} (hmem : (m, l) ∈ (c'.threads i).held) :
    (m, l) ∈ (c.threads i).held ∨ c.Grants m l := by
  cases step?_cases h with
  | acquire m' l' k hprog hgrants heq =>
    subst heq
    rw [threads_set_self, List.mem_cons] at hmem
    rcases hmem with heq | hmem
    · cases heq
      exact .inr hgrants
    · exact .inl hmem
  | access f k hprog heq =>
    subst heq
    rw [threads_set_self] at hmem
    exact .inl hmem
  | release m' l' k hprog heq =>
    subst heq
    rw [threads_set_self] at hmem
    exact .inl (List.mem_of_mem_erase hmem)

theorem exclusive_step {c c' : Config ι L S R} {i : ι} (hex : c.Exclusive)
    (h : c.step? i = some c') : c'.Exclusive := by
  intro a b hab l ha m hb
  by_cases hai : a = i
  · -- the stepping thread holds the lock for writing now
    subst hai
    rw [threads_step?_of_ne h hab.symm] at hb
    rcases mem_held_step? h ha with ha | hg
    · exact hex a b hab l ha m hb
    · exact not_grants_iff.mpr ⟨b, m, hb, .inl rfl⟩ hg
  · rw [threads_step?_of_ne h hai] at ha
    by_cases hbi : b = i
    · -- the stepping thread holds a lock that another one holds for writing
      subst hbi
      rcases mem_held_step? h hb with hb | hg
      · exact hex a b hab l ha m hb
      · exact not_grants_iff.mpr ⟨a, .write, ha, .inr rfl⟩ hg
    · rw [threads_step?_of_ne h hbi] at hb
      exact hex a b hab l ha m hb

/-! ### Disciplined threads -/

/-- Every thread follows its discipline. -/
structure Disciplined (I : S → Prop) (A : ι → List (Mode × L) → L → Prop)
    (c : Config ι L S R) : Prop where
  store : I c.store
  threads : ∀ i, Obeys I (A i) (c.threads i).held (c.threads i).prog

/-- **Disciplines are kept** by every step. -/
theorem disciplined_step {I : S → Prop} {A : ι → List (Mode × L) → L → Prop}
    {c c' : Config ι L S R} {i : ι} (hc : Disciplined I A c) (h : c.step? i = some c') :
    Disciplined I A c' := by
  have hi := hc.threads i
  have hother : ∀ j, j ≠ i → Obeys I (A j) (c'.threads j).held (c'.threads j).prog := by
    intro j hj
    rw [threads_step?_of_ne h hj]
    exact hc.threads j
  cases step?_cases h with
  | acquire m l k hprog hgrants heq =>
    rw [hprog] at hi
    subst heq
    refine ⟨hc.store, fun j => ?_⟩
    by_cases hj : j = i
    · subst hj
      rw [threads_set_self]
      exact hi.2
    · exact hother j hj
  | access f k hprog heq =>
    rw [hprog] at hi
    subst heq
    obtain ⟨hstore, hk⟩ := hi c.store hc.store
    refine ⟨hstore, fun j => ?_⟩
    by_cases hj : j = i
    · subst hj
      rw [threads_set_self]
      exact hk
    · exact hother j hj
  | release m l k hprog heq =>
    rw [hprog] at hi
    subst heq
    refine ⟨hc.store, fun j => ?_⟩
    by_cases hj : j = i
    · subst hj
      rw [threads_set_self]
      exact hi.2
    · exact hother j hj

theorem Reaches.disciplined {I : S → Prop} {A : ι → List (Mode × L) → L → Prop}
    {c c' : Config ι L S R} (hreach : Reaches c c') (hc : Disciplined I A c) :
    Disciplined I A c' :=
  hreach.invariant hc fun _ _ _ hc h => disciplined_step hc h

/-! ### Freedom from deadlock -/

omit [DecidableEq ι] [Fintype ι] in
/-- Whoever holds a lock has not returned. -/
theorem Disciplined.isDone_of_held {I : S → Prop} {A : ι → List (Mode × L) → L → Prop}
    {c : Config ι L S R} (hc : Disciplined I A c) {i : ι} {m : Mode} {l : L}
    (hheld : (m, l) ∈ (c.threads i).held) : (c.threads i).prog.isDone = false := by
  have hi := hc.threads i
  cases hprog : (c.threads i).prog with
  | done r =>
    rw [hprog] at hi
    have hnil : (c.threads i).held = [] := hi
    rw [hnil] at hheld
    cases hheld
  | acquire | access | release => rfl

/-- In a deadlocked configuration of disciplined threads, whoever has not returned waits for a lock,
and whoever holds that lock has not returned either. -/
theorem Deadlocked.waits {I : S → Prop} {A : ι → List (Mode × L) → L → Prop}
    {c : Config ι L S R} (hdead : c.Deadlocked) (hc : Disciplined I A c) {i : ι}
    (hi : (c.threads i).prog.isDone = false) :
    ∃ m l k, (c.threads i).prog = .acquire m l k ∧ A i (c.threads i).held l ∧
      ∃ j m', (m', l) ∈ (c.threads j).held ∧ (c.threads j).prog.isDone = false := by
  rcases step?_eq_none_iff.mp (hdead.2 i hi) with hdone | ⟨m, l, k, hprog, hgrants⟩
  · rw [hi] at hdone
    cases hdone
  · obtain ⟨j, m', hheld, -⟩ := not_grants_iff.mp hgrants
    have hAi := hc.threads i
    rw [hprog] at hAi
    exact ⟨m, l, k, hprog, hAi.1, j, m', hheld, hc.isDone_of_held hheld⟩

/-- The level of the lock that a program asks for next. -/
def wanted (level : L → ℕ) : Prog L S R → ℕ
  | .acquire _ l _ => level l
  | _ => 0

/-- **Lock order.** Threads that acquire locks in increasing order, together with at most one that
acquires only locks of the highest level, do not deadlock. -/
theorem not_deadlocked {I : S → Prop} (level : L → ℕ) {exempt : ι → Prop}
    (hone : ∀ i j, exempt i → exempt j → i = j) {c : Config ι L S R}
    (hc : Disciplined I (fun i held l =>
      (exempt i → Highest level held l) ∧ (¬ exempt i → Ordered level held l)) c) :
    ¬ c.Deadlocked := by
  classical
  intro hdead
  -- of the threads in lock order, the one that wants the highest level
  by_cases hord : ∃ i, ¬ exempt i ∧ (c.threads i).prog.isDone = false
  · obtain ⟨i₀, hi₀⟩ := hord
    obtain ⟨i, hi, hmax⟩ := Finset.exists_max_image
      (Finset.univ.filter fun i => ¬ exempt i ∧ (c.threads i).prog.isDone = false)
      (fun i => wanted level (c.threads i).prog) ⟨i₀, by simpa using hi₀⟩
    simp only [Finset.mem_filter, Finset.mem_univ, true_and] at hi hmax
    -- a thread in lock order that holds a lock wants one of a higher level
    have habove : ∀ j, ¬ exempt j → ∀ m l, (m, l) ∈ (c.threads j).held →
        (c.threads j).prog.isDone = false → ∃ l', level l < level l' ∧
          level l' = wanted level (c.threads j).prog := by
      intro j hj m l hheld hnd
      obtain ⟨m', l', k, hprog, hA, -⟩ := hdead.waits hc hnd
      exact ⟨l', hA.2 hj _ hheld, by rw [hprog]; rfl⟩
    obtain ⟨m, l, k, hprog, -, j, m', hheld, hnd⟩ := hdead.waits hc hi.2
    by_cases hj : exempt j
    · -- the holder is the exempt thread, and it waits for one in lock order
      obtain ⟨m₁, l₁, k₁, hprog₁, hA₁, j₁, m₁', hheld₁, hnd₁⟩ := hdead.waits hc hnd
      obtain ⟨htop, hfresh⟩ := hA₁.1 hj
      have hj₁ : ¬ exempt j₁ := by
        intro h
        obtain rfl := hone j j₁ hj h
        exact hfresh m₁' hheld₁
      obtain ⟨l', hlt, -⟩ := habove j₁ hj₁ m₁' l₁ hheld₁ hnd₁
      exact absurd (htop l') (by omega)
    · obtain ⟨l', hlt, hwant⟩ := habove j hj m' l hheld hnd
      have hle := hmax j ⟨hj, hnd⟩
      have hi' : wanted level (c.threads i).prog = level l := by rw [hprog]; rfl
      omega
  · -- only the exempt thread is left, and it would wait for itself
    push Not at hord
    obtain ⟨i, hi⟩ := hdead.1
    have hexempt : ∀ j, (c.threads j).prog.isDone = false → exempt j := by
      intro j hj
      by_contra h
      exact hord j h hj
    obtain ⟨m, l, k, hprog, hA, j, m', hheld, hnd⟩ := hdead.waits hc hi
    obtain rfl := hone i j (hexempt i hi) (hexempt j hnd)
    exact (hA.1 (hexempt i hi)).2 m' hheld

/-! ### Running alone -/

theorem Reaches.head {c c' c'' : Config ι L S R} {i : ι} (h : c.step? i = some c')
    (hreach : Reaches c' c'') : Reaches c c'' :=
  Relation.ReflTransGen.head ⟨i, h⟩ hreach

theorem Reaches.tail {c c' c'' : Config ι L S R} {i : ι} (hreach : Reaches c c')
    (h : c'.step? i = some c'') : Reaches c c'' :=
  Relation.ReflTransGen.tail hreach ⟨i, h⟩

omit [DecidableEq ι] [Fintype ι] [DecidableEq L] in
/-- A lock that the asking thread does not hold is granted while the others hold nothing. -/
theorem grants_of_fresh {c : Config ι L S R} {i : ι} (m : Mode) {l : L}
    (hother : ∀ j, j ≠ i → (c.threads j).held = []) (hfresh : Fresh (c.threads i).held l) :
    c.Grants m l := by
  by_contra hg
  obtain ⟨j, m', hheld, -⟩ := not_grants_iff.mp hg
  by_cases hj : j = i
  · subst hj
    exact hfresh m' hheld
  · rw [hother j hj] at hheld
    cases hheld

omit [Fintype ι] [DecidableEq L] in
/-- A step of one thread leaves the others without locks. -/
theorem held_set_others {c : Config ι L S R} {i : ι}
    (hother : ∀ j, j ≠ i → (c.threads j).held = []) (s : S) (t : Thread L S R) :
    ∀ j, j ≠ i → ((c.set i s t).threads j).held = [] := by
  intro j hj
  rw [threads_set_of_ne hj]
  exact hother j hj

/-- As the thread `i`, the program can run to its end while the others hold nothing. -/
def EndsAlone (I : S → Prop) (i : ι) (prog : Prog L S R) : Prop :=
  ∀ c : Config ι L S R, (c.threads i).prog = prog → (∀ j, j ≠ i → (c.threads j).held = []) →
    I c.store → Obeys I Fresh (c.threads i).held prog →
    Reaches c (c.set i (prog.exec c.store).2 { prog := .done (prog.exec c.store).1 })

/-- A step to a program that can run to its end. -/
theorem EndsAlone.step {I : S → Prop} {i : ι} {c : Config ι L S R} {s : S} {t : Thread L S R}
    (h : EndsAlone I i t.prog) (hstep : c.step? i = some (c.set i s t))
    (hother : ∀ j, j ≠ i → (c.threads j).held = []) (hs : I s)
    (hobeys : Obeys I Fresh t.held t.prog) :
    Reaches c (c.set i (t.prog.exec s).2 { prog := .done (t.prog.exec s).1 }) := by
  have hself : (c.set i s t).threads i = t := threads_set_self c i s t
  have hother' : ∀ j, j ≠ i → ((c.set i s t).threads j).held = [] :=
    held_set_others hother s t
  have hrest := h (c.set i s t) (congrArg Thread.prog hself) hother' hs (by rw [hself]; exact hobeys)
  rw [set_set] at hrest
  exact Reaches.head hstep hrest

theorem endsAlone (I : S → Prop) (i : ι) (prog : Prog L S R) : EndsAlone I i prog := by
  induction prog with
  | done r =>
    intro c hprog hother hstore hobeys
    have hheld : (c.threads i).held = [] := hobeys
    have ht : c.threads i = { prog := .done r } := by
      rw [← hprog, ← hheld]
    simp only [Prog.exec, set, ← ht, Function.update_eq_self]
    exact Relation.ReflTransGen.refl
  | acquire m l k ih =>
    intro c hprog hother hstore hobeys
    obtain ⟨hfresh, hk⟩ := hobeys
    have hg : c.Grants m l := grants_of_fresh m hother hfresh
    exact EndsAlone.step ih (step?_acquire hprog hg) hother hstore hk
  | access f k ih =>
    intro c hprog hother hstore hobeys
    obtain ⟨hstore', hk⟩ := hobeys c.store hstore
    exact EndsAlone.step (ih c.store) (step?_access hprog) hother hstore' hk
  | release m l k ih =>
    intro c hprog hother hstore hobeys
    obtain ⟨-, hk⟩ := hobeys
    exact EndsAlone.step ih (step?_release hprog) hother hstore hk

/-- **Running alone.** A thread that never asks for a lock it holds can run to its end while the
others hold nothing; it then has returned what its sequential meaning returns. -/
theorem reaches_alone {I : S → Prop} {i : ι} (prog : Prog L S R) {c : Config ι L S R}
    (hprog : (c.threads i).prog = prog) (hother : ∀ j, j ≠ i → (c.threads j).held = [])
    (hstore : I c.store) (hobeys : Obeys I Fresh (c.threads i).held prog) :
    Reaches c (c.set i (prog.exec c.store).2 { prog := .done (prog.exec c.store).1 }) :=
  endsAlone I i prog c hprog hother hstore hobeys

end Config

end Concurrent

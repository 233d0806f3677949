import Mathlib.Logic.Hydra
import SweGateway.Lib.RwLock

/-!
# Runs of threads end

Every step of a thread leaves a smaller program, and replacing one of finitely many programs by a
smaller one cannot go on for ever (`Config.wellFounded_step?`).  So a run ends, and where it ends all
threads have returned or the others wait for each other.

A lock need not be granted as soon as it can be: a reader may have to stand back while a writer
waits for the lock.  Threads that acquire their locks in increasing order always return, even so
(`Config.alwaysReturns_of_ordered`).
-/

namespace Concurrent

variable {ι L S R : Type}

/-- What is left of a program after its next step. -/
inductive Prog.Rest : Prog L S R → Prog L S R → Prop
  | acquire (m : Mode) (l : L) (k : Prog L S R) : Rest k (.acquire m l k)
  | access (f : S → S) (k : S → Prog L S R) (s : S) : Rest (k s) (.access f k)
  | release (m : Mode) (l : L) (k : Prog L S R) : Rest k (.release m l k)

theorem Prog.wellFounded_rest : WellFounded (Prog.Rest : Prog L S R → Prog L S R → Prop) := by
  refine ⟨fun prog => ?_⟩
  induction prog with
  | done r => exact ⟨_, fun _ h => nomatch h⟩
  | acquire m l k ih =>
    refine ⟨_, fun _ h => ?_⟩
    cases h
    exact ih
  | access f k ih =>
    refine ⟨_, fun _ h => ?_⟩
    cases h with
    | access f k s => exact ih s
  | release m l k ih =>
    refine ⟨_, fun _ h => ?_⟩
    cases h
    exact ih

namespace Config

variable [Fintype ι] [DecidableEq ι] [DecidableEq L]

/-- The programs of the threads. -/
def progs (c : Config ι L S R) : Multiset (Prog L S R) :=
  Finset.univ.val.map fun i => (c.threads i).prog

theorem rest_of_step? {c c' : Config ι L S R} {i : ι} (h : c.step? i = some c') :
    Prog.Rest (c'.threads i).prog (c.threads i).prog := by
  cases step?_cases h with
  | acquire m l k hprog _ heq =>
    rw [heq, threads_set_self, hprog]
    exact .acquire m l k
  | access f k hprog heq =>
    rw [heq, threads_set_self, hprog]
    exact .access f k c.store
  | release m l k hprog heq =>
    rw [heq, threads_set_self, hprog]
    exact .release m l k

omit [DecidableEq L] in
/-- The program of one thread, and those of the others. -/
theorem progs_eq_cons (c : Config ι L S R) (i : ι) :
    c.progs = (c.threads i).prog ::ₘ
      (Finset.univ.val.erase i).map fun j => (c.threads j).prog := by
  rw [progs, ← Multiset.cons_erase (Finset.mem_univ_val i), Multiset.map_cons, Multiset.cons_erase]
  exact Finset.mem_univ_val i

/-- A step replaces one of the programs by what is left of it. -/
theorem cutExpand_of_step? {c c' : Config ι L S R} {i : ι} (h : c.step? i = some c') :
    Relation.CutExpand Prog.Rest c'.progs c.progs := by
  have hothers : (Finset.univ.val.erase i).map (fun j => (c'.threads j).prog) =
      (Finset.univ.val.erase i).map fun j => (c.threads j).prog := by
    refine Multiset.map_congr rfl fun j hj => ?_
    have hne : j ≠ i := (Finset.univ.nodup.mem_erase_iff.mp hj).1
    rw [threads_step?_of_ne h hne]
  rw [c.progs_eq_cons i, c'.progs_eq_cons i, hothers]
  exact Relation.cutExpand_single_add (rest_of_step? h) _

/-- **No run goes on for ever.** -/
theorem wellFounded_step? :
    WellFounded fun c' c : Config ι L S R => ∃ i, c.step? i = some c' := by
  refine Subrelation.wf (r := InvImage (Relation.CutExpand Prog.Rest) progs) ?_
    (InvImage.wf progs Prog.wellFounded_rest.cutExpand)
  rintro c' c ⟨i, h⟩
  exact cutExpand_of_step? h

/-- Some thread waits for the lock to write. -/
def WriterWaits (c : Config ι L S R) (l : L) : Prop :=
  ∃ i k, (c.threads i).prog = .acquire .write l k

/-- The thread can step, also if readers stand back while a writer waits for their lock. -/
def StepsBehindWriters (c : Config ι L S R) (i : ι) : Prop :=
  c.step? i ≠ none ∧ ∀ l k, (c.threads i).prog = .acquire .read l k → ¬ c.WriterWaits l

/-- No run goes on for ever, and all threads have returned in one that cannot go on, be it only that
readers stand back behind waiting writers. -/
structure AlwaysReturns (c : Config ι L S R) : Prop where
  ends : ∀ schedule : ℕ → ι, ∃ n, c.run? ((List.range n).map schedule) = none
  returned : ∀ c', c.Reaches c' → (∀ i, ¬ c'.StepsBehindWriters i) →
    ∀ i, (c'.threads i).prog.isDone = true

theorem exists_run?_eq_none (c : Config ι L S R) (schedule : ℕ → ι) :
    ∃ n, c.run? ((List.range n).map schedule) = none := by
  induction c using WellFounded.induction (wellFounded_step? (ι := ι) (L := L) (S := S) (R := R))
    generalizing schedule with
  | h c ih =>
    cases hstep : c.step? (schedule 0) with
    | none =>
      refine ⟨1, ?_⟩
      show (c.step? (schedule 0)).bind _ = none
      rw [hstep]
      rfl
    | some c' =>
      obtain ⟨n, hn⟩ := ih c' ⟨_, hstep⟩ fun k => schedule (k + 1)
      refine ⟨n + 1, ?_⟩
      rw [List.range_succ_eq_map, List.map_cons, List.map_map]
      show (c.step? (schedule 0)).bind _ = none
      rw [hstep]
      exact hn

/-- A thread that cannot step behind writers has returned, or waits for a lock that it is not
granted or that a writer waits for. -/
theorem exists_acquire_of_not_stepsBehindWriters {c : Config ι L S R} {i : ι}
    (h : ¬ c.StepsBehindWriters i) (hi : (c.threads i).prog.isDone = false) :
    ∃ m l k, (c.threads i).prog = .acquire m l k ∧
      (¬ c.Grants m l ∨ m = .read ∧ c.WriterWaits l) := by
  cases hstep : c.step? i with
  | none =>
    rcases step?_eq_none_iff.mp hstep with hdone | ⟨m, l, k, hprog, hgrants⟩
    · rw [hi] at hdone
      cases hdone
    · exact ⟨m, l, k, hprog, .inl hgrants⟩
  | some c' =>
    simp only [StepsBehindWriters, hstep, ne_eq, reduceCtorEq, not_false_eq_true, true_and,
      not_forall, not_not] at h
    obtain ⟨l, k, hprog, hwaits⟩ := h
    exact ⟨.read, l, k, hprog, .inr ⟨rfl, hwaits⟩⟩

/-- **Lock order.** Of threads that acquire their locks in increasing order and have not all
returned one can step, also behind writers: of those that want the highest lock, all hold only lower
ones. -/
theorem exists_stepsBehindWriters {I : S → Prop} {level : L → ℕ} {c : Config ι L S R}
    (hc : Disciplined I (fun _ => Ordered level) c)
    (hrunning : ∃ i, (c.threads i).prog.isDone = false) : ∃ i, c.StepsBehindWriters i := by
  by_contra hstuck
  rw [not_exists] at hstuck
  obtain ⟨i₀, hi₀⟩ := hrunning
  obtain ⟨i, hi, hmax⟩ := Finset.exists_max_image
    (Finset.univ.filter fun i => (c.threads i).prog.isDone = false)
    (fun i => wanted level (c.threads i).prog) ⟨i₀, by simpa using hi₀⟩
  simp only [Finset.mem_filter, Finset.mem_univ, true_and] at hi hmax
  -- whoever holds a lock wants a higher one
  have hheld : ∀ j m l, (m, l) ∈ (c.threads j).held →
      level l < wanted level (c.threads i).prog := by
    intro j m l hmem
    have hj := hc.isDone_of_held hmem
    obtain ⟨m', l', k', hprog, -⟩ := exists_acquire_of_not_stepsBehindWriters (hstuck j) hj
    have hobeys := hc.threads j
    rw [hprog] at hobeys
    have hlt : level l < level l' := hobeys.1 _ hmem
    have hle := hmax j hj
    rw [hprog] at hle
    exact hlt.trans_le hle
  obtain ⟨m, l, k, hprog, hwhy⟩ := exists_acquire_of_not_stepsBehindWriters (hstuck i) hi
  have hwanted : wanted level (c.threads i).prog = level l := by rw [hprog]; rfl
  rw [hwanted] at hheld
  rcases hwhy with hgrants | ⟨-, j, k', hprog'⟩
  · obtain ⟨j, m', hmem, -⟩ := not_grants_iff.mp hgrants
    exact lt_irrefl _ (hheld j m' l hmem)
  · -- the writer that waits does so because somebody holds the lock
    have hj : (c.threads j).prog.isDone = false := by rw [hprog']; rfl
    obtain ⟨m', l', k'', hprog'', hwhy'⟩ :=
      exists_acquire_of_not_stepsBehindWriters (hstuck j) hj
    rw [hprog'] at hprog''
    cases hprog''
    obtain ⟨j', m', hmem, -⟩ := not_grants_iff.mp (hwhy'.resolve_right fun h => nomatch h.1)
    exact lt_irrefl _ (hheld j' m' l hmem)

/-- **Returning.** Threads that acquire their locks in increasing order always return. -/
theorem alwaysReturns_of_ordered {I : S → Prop} (level : L → ℕ) {c : Config ι L S R}
    (hc : Disciplined I (fun _ => Ordered level) c) : AlwaysReturns c where
  ends := c.exists_run?_eq_none
  returned c' hreach hstuck i := by
    by_contra hi
    obtain ⟨j, hj⟩ := exists_stepsBehindWriters (hreach.disciplined hc) ⟨i, by simpa using hi⟩
    exact hstuck j hj

end Config

end Concurrent

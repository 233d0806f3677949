import Mathlib.Data.Finset.Sort
import Mathlib.Data.Fintype.Card
import Mathlib.Data.Fintype.EquivFin
import Mathlib.Logic.Relation
import Mathlib.Order.WellFounded

/-!
# Kahn's algorithm

A `DepGraph` is a finite set of vertices with a relation `needs` between them.  Kahn's algorithm
lists the vertices one after another, each after everything it needs: it keeps the vertices listed
so far and a queue of those that could be listed next, and when it lists a vertex it appends to the
queue, in order, the vertices that needed nothing else that is not listed.

Here the algorithm is a step relation on the two lists, `DepGraph.Step`, which looks only at the
graph; how the vertices to append are found is left to an implementation.  `DepGraph.Inv` is its
invariant: the two lists together have the vertices of which everything needed is listed.  When the
queue is empty, all vertices are listed if and only if the graph has no cycle
(`DepGraph.length_sorted_eq_iff`), and then they are in order (`DepGraph.isOrder`).  As the steps
are deterministic, two runs end with the same list (`DepGraph.sorted_unique`).
-/

/-- A finite set of vertices with a relation between them: `needs a b` says that `a` needs `b`. -/
@[ext] structure DepGraph (α : Type*) where
  vertices : Finset α
  needs : α → α → Prop
  mem : ∀ {a b}, needs a b → a ∈ vertices ∧ b ∈ vertices

namespace DepGraph

variable {α : Type*} (G : DepGraph α)

/-- No vertex needs itself, be it through others. -/
def Acyclic : Prop := ∀ a, ¬ Relation.TransGen G.needs a a

/-- The vertices, each once, in an order in which each comes after everything it needs. -/
structure IsOrder [DecidableEq α] (l : List α) : Prop where
  nodup : l.Nodup
  mem : ∀ a, a ∈ l ↔ a ∈ G.vertices
  after : ∀ a b, G.needs a b → l.idxOf b < l.idxOf a

/-- Everything that the vertex needs is in the list. -/
def Ready (l : List α) (a : α) : Prop := a ∈ G.vertices ∧ ∀ b, G.needs a b → b ∈ l

/-- The vertices that are listed, and those in the queue. -/
structure State (α : Type*) where
  sorted : List α
  queue : List α

variable {G}

/-- In a finite graph without cycles, what holds of a vertex whenever it holds of everything that
the vertex needs holds of every vertex. -/
theorem Acyclic.induction (h : G.Acyclic) {P : α → Prop}
    (hstep : ∀ a ∈ G.vertices, (∀ b, G.needs a b → P b) → P a) : ∀ a ∈ G.vertices, P a := by
  have hwf : WellFounded fun b a : G.vertices => Relation.TransGen G.needs a b := by
    have : IsTrans G.vertices fun b a => Relation.TransGen G.needs a b :=
      ⟨fun _ _ _ hab hbc => hbc.trans hab⟩
    have : Std.Irrefl fun b a : G.vertices => Relation.TransGen G.needs a b := ⟨fun a => h a⟩
    exact Finite.wellFounded_of_trans_of_irrefl _
  intro a ha
  have hall : ∀ x : G.vertices, P x := by
    intro x
    induction x using hwf.induction with
    | _ x ih =>
      refine hstep x x.2 fun b hb => ?_
      exact ih ⟨b, (G.mem hb).2⟩ (.single hb)
  exact hall ⟨a, ha⟩

section Steps

variable [LinearOrder α]

open Classical in
/-- The vertices that need `n` and nothing else that is not listed. -/
noncomputable def released (G : DepGraph α) (sorted : List α) (n : α) : Finset α :=
  G.vertices.filter fun a => G.needs a n ∧ G.Ready (sorted ++ [n]) a

open Classical in
/-- The vertices that need nothing. -/
noncomputable def sources (G : DepGraph α) : Finset α := G.vertices.filter (G.Ready [])

/-- Nothing is listed, and the vertices that need nothing are in the queue. -/
noncomputable def initial (G : DepGraph α) : State α where
  sorted := []
  queue := G.sources.sort

/-- One vertex is listed. -/
inductive Step (G : DepGraph α) : State α → State α → Prop
  | pop (sorted queue : List α) (n : α) :
    Step G { sorted := sorted, queue := n :: queue }
      { sorted := sorted ++ [n], queue := queue ++ (G.released sorted n).sort }

omit [LinearOrder α] in
theorem mem_released {sorted : List α} {n a : α} :
    a ∈ G.released sorted n ↔ G.needs a n ∧ G.Ready (sorted ++ [n]) a := by
  simp only [released, Finset.mem_filter, and_iff_right_iff_imp]
  exact fun h => h.2.1

omit [LinearOrder α] in
theorem mem_sources {a : α} : a ∈ G.sources ↔ G.Ready [] a := by
  simp only [sources, Finset.mem_filter, and_iff_right_iff_imp]
  exact fun h => h.1

/-! ### The invariant -/

/-- **The invariant.** The lists have the vertices of which everything needed is listed, and what is
listed is in order. -/
structure Inv (G : DepGraph α) (st : State α) : Prop where
  nodup : (st.sorted ++ st.queue).Nodup
  mem : ∀ a, a ∈ st.sorted ++ st.queue ↔ G.Ready st.sorted a
  after : ∀ a ∈ st.sorted, ∀ b, G.needs a b → st.sorted.idxOf b < st.sorted.idxOf a

theorem inv_initial (G : DepGraph α) : G.Inv G.initial where
  nodup := by
    rw [initial, List.nil_append]
    exact Finset.sort_nodup _ _
  mem a := by
    rw [initial, List.nil_append, Finset.mem_sort, mem_sources]
  after a ha := absurd ha List.not_mem_nil

omit [LinearOrder α] in
theorem Ready.concat {sorted : List α} {a : α} (h : G.Ready sorted a) (n : α) :
    G.Ready (sorted ++ [n]) a :=
  ⟨h.1, fun b hb => List.mem_append_left [n] (h.2 b hb)⟩

omit [LinearOrder α] in
/-- A vertex that becomes ready when `n` is listed needs `n`. -/
theorem ready_concat_iff {sorted : List α} {n a : α} :
    G.Ready (sorted ++ [n]) a ↔ G.Ready sorted a ∨ a ∈ G.released sorted n := by
  rw [mem_released]
  constructor
  · intro h
    by_cases hn : G.needs a n
    · exact .inr ⟨hn, h⟩
    · refine .inl ⟨h.1, fun b hb => ?_⟩
      rcases List.mem_append.mp (h.2 b hb) with hmem | hmem
      · exact hmem
      · rw [List.mem_singleton.mp hmem] at hb
        exact absurd hb hn
  · rintro (h | h)
    · exact h.concat n
    · exact h.2

/-- **One step** keeps the invariant. -/
theorem Inv.step {st st' : State α} (h : G.Inv st) (hstep : G.Step st st') : G.Inv st' := by
  cases hstep with
  | pop sorted queue n =>
    obtain ⟨hnodup, hmem, hafter⟩ := h
    dsimp only at hnodup hmem hafter
    have hn : n ∉ sorted := by
      intro hmem
      exact (List.nodup_append.mp hnodup).2.2 n hmem n List.mem_cons_self rfl
    have hready : G.Ready sorted n :=
      (hmem n).mp (List.mem_append_right sorted List.mem_cons_self)
    -- what is released was in neither list, for it was not ready
    have hnew : ∀ a ∈ G.released sorted n, a ∉ sorted ++ n :: queue := by
      intro a ha hold
      exact hn (((hmem a).mp hold).2 n (mem_released.mp ha).1)
    refine ⟨?_, fun a => ?_, ?_⟩
    · show (sorted ++ [n] ++ (queue ++ (G.released sorted n).sort)).Nodup
      rw [← List.append_assoc, List.append_assoc sorted, List.singleton_append]
      refine List.nodup_append.mpr ⟨hnodup, Finset.sort_nodup _ _, ?_⟩
      rintro a ha _ hb rfl
      exact hnew a (Finset.mem_sort (· ≤ ·) |>.mp hb) ha
    · show a ∈ sorted ++ [n] ++ (queue ++ (G.released sorted n).sort) ↔ G.Ready (sorted ++ [n]) a
      rw [← List.append_assoc, List.append_assoc sorted, List.singleton_append, List.mem_append,
        hmem, Finset.mem_sort, ready_concat_iff]
    · intro a ha b hb
      show (sorted ++ [n]).idxOf b < (sorted ++ [n]).idxOf a
      rcases List.mem_append.mp ha with ha | ha
      · have hsorted : G.Ready sorted a := (hmem a).mp (List.mem_append_left _ ha)
        rw [List.idxOf_append_of_mem ha, List.idxOf_append_of_mem (hsorted.2 b hb)]
        exact hafter a ha b hb
      · obtain rfl := List.mem_singleton.mp ha
        have hbs := hready.2 b hb
        have hlt := List.idxOf_lt_length_of_mem hbs
        rw [List.idxOf_append_of_mem hbs, List.idxOf_append_of_notMem hn]
        omega

/-- What the steps lead to from the start has the invariant. -/
theorem inv_of_reaches {st : State α} (h : Relation.ReflTransGen G.Step G.initial st) :
    G.Inv st := by
  induction h with
  | refl => exact G.inv_initial
  | tail _ hstep ih => exact ih.step hstep

/-- What is listed are vertices, each once. -/
theorem Inv.length_le {st : State α} (h : G.Inv st) :
    st.sorted.length + st.queue.length ≤ G.vertices.card := by
  have hsub : (st.sorted ++ st.queue).toFinset ⊆ G.vertices := by
    intro a ha
    exact ((h.mem a).mp (List.mem_toFinset.mp ha)).1
  have hcard := Finset.card_le_card hsub
  rwa [List.toFinset_card_of_nodup h.nodup, List.length_append] at hcard

/-! ### The end -/

section Final

variable {st : State α}

/-- If everything is listed, it is in order. -/
theorem Inv.isOrder (h : G.Inv st) (hqueue : st.queue = [])
    (hlength : st.sorted.length = G.vertices.card) : G.IsOrder st.sorted := by
  have hnodup := h.nodup
  have hmem := h.mem
  rw [hqueue, List.append_nil] at hnodup hmem
  have hsub : st.sorted.toFinset ⊆ G.vertices := by
    intro a ha
    exact ((hmem a).mp (List.mem_toFinset.mp ha)).1
  have heq : st.sorted.toFinset = G.vertices := by
    apply Finset.eq_of_subset_of_card_le hsub
    rw [List.toFinset_card_of_nodup hnodup, hlength]
  have hall : ∀ a, a ∈ st.sorted ↔ a ∈ G.vertices := by
    intro a
    rw [← heq, List.mem_toFinset]
  exact ⟨hnodup, hall, fun a b hab => h.after a ((hall a).mpr (G.mem hab).1) b hab⟩

/-- A graph that can be put in order has no cycle. -/
theorem IsOrder.acyclic {l : List α} (h : G.IsOrder l) : G.Acyclic := by
  have hlt : ∀ a b, Relation.TransGen G.needs a b → l.idxOf b < l.idxOf a := by
    intro a b hab
    induction hab with
    | single hab => exact h.after a _ hab
    | tail _ hbc ih => exact (h.after _ _ hbc).trans ih
  exact fun a ha => lt_irrefl _ (hlt a a ha)

/-- **Everything is listed** at the end exactly if the graph has no cycle. -/
theorem length_sorted_eq_iff (h : G.Inv st) (hqueue : st.queue = []) :
    st.sorted.length = G.vertices.card ↔ G.Acyclic := by
  constructor
  · exact fun hlength => (h.isOrder hqueue hlength).acyclic
  · intro hacyclic
    have hmem := h.mem
    have hle := h.length_le
    rw [hqueue, List.append_nil] at hmem
    rw [hqueue, List.length_nil, Nat.add_zero] at hle
    have hall : ∀ a ∈ G.vertices, a ∈ st.sorted :=
      hacyclic.induction fun a ha hneeds => (hmem a).mpr ⟨ha, hneeds⟩
    have hsub : G.vertices ⊆ st.sorted.toFinset := fun a ha => List.mem_toFinset.mpr (hall a ha)
    have hcard := (Finset.card_le_card hsub).trans (List.toFinset_card_le st.sorted)
    omega

/-- **The list is unique**: two runs that have come to an end have listed the same. -/
theorem sorted_unique {st st' : State α} (h : Relation.ReflTransGen G.Step G.initial st)
    (hqueue : st.queue = []) (h' : Relation.ReflTransGen G.Step G.initial st')
    (hqueue' : st'.queue = []) : st = st' := by
  have hunique : Relator.RightUnique G.Step := by
    intro a b c hab hac
    cases hab
    cases hac
    rfl
  have hstuck : ∀ {a b : State α}, a.queue = [] → Relation.ReflTransGen G.Step a b → a = b := by
    intro a b ha hab
    rcases Relation.ReflTransGen.cases_head hab with heq | ⟨c, hac, -⟩
    · exact heq
    · cases hac
      cases ha
  rcases Relation.ReflTransGen.total_of_right_unique hunique h h' with hto | hfrom
  · exact hstuck hqueue hto
  · exact (hstuck hqueue' hfrom).symm

end Final

end Steps

end DepGraph

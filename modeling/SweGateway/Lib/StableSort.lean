import Mathlib.Data.List.Perm.Basic
import SweGateway.Lib.Comparator

/-!
# Stable sorts

`IsStableSort cmp l l'` says that `l'` is `l` sorted stably: rearranged, in order, and with elements
that tie in the order they have in `l`.  If the comparator orders the elements of `l`, merge sort is
a stable sort (`isStableSort_mergeSort`), and there is only one (`IsStableSort.unique`).

Selecting elements and sorting commute (`IsStableSort.filter`).  A list that is sorted by ranks is
the elements of rank `0`, then those of rank `1`, and so on (`flatMap_range_filter_rank`).
-/

namespace Comparator

variable {α : Type*} {cmp : α → α → Ordering} {l l' : List α}

/-- The list `l'` is the list `l`, sorted stably. -/
structure IsStableSort (cmp : α → α → Ordering) (l l' : List α) : Prop where
  perm : l'.Perm l
  sorted : l'.Pairwise fun a b => cmp a b ≠ .gt
  stable : ∀ a ∈ l, (l'.filter fun b => cmp a b == .eq) = l.filter fun b => cmp a b == .eq

/-- Selecting and sorting commute. -/
theorem IsStableSort.filter (h : IsStableSort cmp l l') (p : α → Bool) :
    IsStableSort cmp (l.filter p) (l'.filter p) where
  perm := h.perm.filter p
  sorted := h.sorted.filter p
  stable a ha := by
    rw [List.filter_comm, h.stable a (List.mem_of_mem_filter ha), List.filter_comm]

/-! ### Existence -/

theorem IsTotalPreorderOn.ne_gt_of_eq {s : Set α} (h : IsTotalPreorderOn s cmp) {a b c : α}
    (ha : a ∈ s) (hb : b ∈ s) (hc : c ∈ s) (hab : cmp a b = .eq) (hac : cmp a c = .eq) :
    cmp b c ≠ .gt := by
  have hba : cmp b a = .eq := by rw [h.swap a ha b hb, hab]; rfl
  exact h.trans b hb a ha c hc (by rw [hba]; decide) (by rw [hac]; decide)

/-- Merge sort is stable, if the comparator orders everything. -/
theorem isStableSort_mergeSort_univ (h : IsTotalPreorderOn Set.univ cmp) (l : List α) :
    IsStableSort cmp l (l.mergeSort fun a b => cmp a b != .gt) := by
  have htrans : ∀ a b c, (cmp a b != .gt) = true → (cmp b c != .gt) = true →
      (cmp a c != .gt) = true := by
    intro a b c hab hbc
    rw [bne_iff_ne] at hab hbc ⊢
    exact h.trans a trivial b trivial c trivial hab hbc
  have htotal : ∀ a b, ((cmp a b != .gt) || (cmp b a != .gt)) = true := by
    intro a b
    rw [h.swap a trivial b trivial]
    cases cmp a b <;> rfl
  have hperm := List.mergeSort_perm l fun a b => cmp a b != .gt
  refine ⟨hperm, ?_, fun a _ => ?_⟩
  · refine (List.pairwise_mergeSort htrans htotal l).imp fun hab => ?_
    exact bne_iff_ne.mp hab
  · -- the elements that tie with `a` are in order already, so they stay a sublist
    have hties : (l.filter fun b => cmp a b == .eq).Pairwise
        fun b c => (cmp b c != .gt) = true := by
      refine List.pairwise_of_forall_mem_list fun b hb c hc => ?_
      rw [List.mem_filter, beq_iff_eq] at hb hc
      exact bne_iff_ne.mpr (h.ne_gt_of_eq trivial trivial trivial hb.2 hc.2)
    have hsub := (List.sublist_mergeSort htrans htotal hties List.filter_sublist).filter
      fun b => cmp a b == .eq
    simp only [List.filter_filter, Bool.and_self] at hsub
    exact (hsub.eq_of_length (hperm.filter _).length_eq.symm).symm

/-- Sorting the images of elements. -/
theorem IsStableSort.map {β : Type*} {cmp' : β → β → Ordering} (f : α → β)
    (hf : ∀ a b, cmp' (f a) (f b) = cmp a b) (h : IsStableSort cmp l l') :
    IsStableSort cmp' (l.map f) (l'.map f) where
  perm := h.perm.map f
  sorted := List.pairwise_map.mpr (h.sorted.imp fun hab => by rwa [hf])
  stable := by
    intro _ hmem
    obtain ⟨a, ha, rfl⟩ := List.mem_map.mp hmem
    have hties : ((fun b => cmp' (f a) b == .eq) ∘ f) = fun b => cmp a b == .eq :=
      funext fun b => congrArg (· == Ordering.eq) (hf a b)
    rw [List.filter_map, List.filter_map, hties, h.stable a ha]

/-- **Merge sort is stable**, if the comparator orders the elements of the list. -/
theorem isStableSort_mergeSort (h : IsTotalPreorderOn {a | a ∈ l} cmp) :
    IsStableSort cmp l (l.mergeSort fun a b => cmp a b != .gt) := by
  -- the list as a list of its own elements, on which the comparator orders everything
  let cmp' : {a // a ∈ l} → {a // a ∈ l} → Ordering := fun a b => cmp a b
  have hcmp' : IsTotalPreorderOn Set.univ cmp' := by
    rw [isTotalPreorderOn_comp (Subtype.val : {a // a ∈ l} → α)]
    refine h.mono ?_
    rintro _ ⟨a, -, rfl⟩
    exact a.2
  have hsort := (isStableSort_mergeSort_univ hcmp' l.attach).map Subtype.val fun _ _ => rfl
  have hmap := List.map_mergeSort (l := l.attach) (f := Subtype.val)
    (r := fun a b => cmp' a b != .gt) (s := fun a b => cmp a b != .gt) fun _ _ _ _ => rfl
  rw [hmap, List.attach_map_subtype_val] at hsort
  exact hsort

/-! ### Uniqueness -/

/-- The head of a sorted list is least. -/
theorem head_ne_gt {a b : α} (h : (a :: l).Pairwise fun a b => cmp a b ≠ .gt) (ha : cmp a a = .eq)
    (hb : b ∈ a :: l) : cmp a b ≠ .gt := by
  rcases List.mem_cons.mp hb with rfl | hb
  · rw [ha]
    decide
  · exact List.rel_of_pairwise_cons h hb

/-- Two sorted rearrangements of one another, in which ties come in the same order, are the same. -/
theorem eq_of_ties {l₁ l₂ : List α} (h : IsTotalPreorderOn {a | a ∈ l₁} cmp) (hperm : l₁.Perm l₂)
    (h₁ : l₁.Pairwise fun a b => cmp a b ≠ .gt) (h₂ : l₂.Pairwise fun a b => cmp a b ≠ .gt)
    (hties : ∀ a ∈ l₁,
      (l₁.filter fun b => cmp a b == .eq) = l₂.filter fun b => cmp a b == .eq) :
    l₁ = l₂ := by
  induction l₁ generalizing l₂ with
  | nil => exact (List.nil_perm.mp hperm).symm
  | cons a l₁ ih =>
    obtain ⟨b, l₂, rfl⟩ : ∃ b l₂', l₂ = b :: l₂' := by
      refine List.exists_cons_of_ne_nil ?_
      rintro rfl
      exact List.cons_ne_nil a l₁ hperm.eq_nil
    have ha : a ∈ a :: l₁ := List.mem_cons_self
    have hb : b ∈ a :: l₁ := hperm.mem_iff.mpr List.mem_cons_self
    have haa : cmp a a = .eq := h.refl a ha
    -- both heads are least, so they tie
    have hab : cmp a b = .eq := by
      have hle : cmp a b ≠ .gt := head_ne_gt h₁ haa hb
      have hge : cmp b a ≠ .gt := head_ne_gt h₂ (h.refl b hb) (hperm.mem_iff.mp ha)
      rw [h.swap a ha b hb] at hge
      cases hcmp : cmp a b with
      | lt => exact absurd (by rw [hcmp]; rfl) hge
      | eq => rfl
      | gt => exact absurd hcmp hle
    have hhead := hties a List.mem_cons_self
    rw [List.filter_cons_of_pos (by rw [haa]; rfl), List.filter_cons_of_pos (by rw [hab]; rfl)]
      at hhead
    obtain ⟨rfl, -⟩ := List.cons.inj hhead
    have htail := hperm.cons_inv
    congr 1
    refine ih (h.mono fun c hc => List.mem_cons_of_mem a hc) htail h₁.of_cons h₂.of_cons ?_
    intro c hc
    have hc' := hties c (List.mem_cons_of_mem a hc)
    by_cases hca : cmp c a = .eq
    · rw [List.filter_cons_of_pos (by rw [hca]; rfl), List.filter_cons_of_pos (by rw [hca]; rfl)]
        at hc'
      exact (List.cons.inj hc').2
    · rw [List.filter_cons_of_neg (by simpa using hca),
        List.filter_cons_of_neg (by simpa using hca)] at hc'
      exact hc'

/-- A list has one stable sort. -/
theorem IsStableSort.unique {l₁ l₂ : List α} (h : IsTotalPreorderOn {a | a ∈ l} cmp)
    (h₁ : IsStableSort cmp l l₁) (h₂ : IsStableSort cmp l l₂) : l₁ = l₂ := by
  refine eq_of_ties (h.mono fun a ha => h₁.perm.mem_iff.mp ha) (h₁.perm.trans h₂.perm.symm)
    h₁.sorted h₂.sorted fun a ha => ?_
  have hmem := h₁.perm.mem_iff.mp ha
  rw [h₁.stable a hmem, h₂.stable a hmem]

/-! ### Ranks -/

/-- A list in which the elements with `p` come first is those, and then the others. -/
theorem filter_append_filter_not {p : α → Bool}
    (h : l.Pairwise fun a b => p b = true → p a = true) :
    l.filter p ++ l.filter (fun a => !p a) = l := by
  induction l with
  | nil => rfl
  | cons a l ih =>
    by_cases ha : p a = true
    · rw [List.filter_cons_of_pos ha, List.filter_cons_of_neg (by rw [ha]; decide),
        List.cons_append, ih h.of_cons]
    · -- then no later element has `p`
      have hnone : ∀ b ∈ a :: l, ¬ p b = true :=
        List.forall_mem_cons.mpr ⟨ha, fun b hb hpb => ha (List.rel_of_pairwise_cons h hb hpb)⟩
      rw [List.filter_eq_nil_iff.mpr hnone, List.nil_append, List.filter_eq_self]
      intro b hb
      rw [Bool.eq_false_iff.mpr (hnone b hb)]
      rfl

/-- A list that is sorted by ranks is the concatenation of its ranks. -/
theorem flatMap_range_filter_rank {rank : α → ℕ} (h : l.Pairwise fun a b => rank a ≤ rank b)
    (n : ℕ) : (List.range n).flatMap (fun i => l.filter fun a => rank a == i) =
      l.filter fun a => rank a < n := by
  induction n with
  | zero =>
    refine (List.filter_eq_nil_iff.mpr fun a _ => ?_).symm
    rw [decide_eq_true_eq]
    exact Nat.not_lt_zero _
  | succ n ih =>
    rw [List.range_succ, List.flatMap_append, ih, List.flatMap_singleton]
    have hsplit := filter_append_filter_not (p := fun a => decide (rank a < n))
      ((h.filter fun a => rank a < n + 1).imp fun {a b} hab hb => by
        rw [decide_eq_true_eq] at hb ⊢
        exact hab.trans_lt hb)
    rw [List.filter_filter, List.filter_filter] at hsplit
    rw [← hsplit]
    congr 1
    · refine List.filter_congr fun a _ => ?_
      grind
    · refine List.filter_congr fun a _ => ?_
      grind

/-! ### Pivots -/

section Pivot

variable {β : Type*} {key : β → Option α} {v : α}

/-- The rank of an element by its key: before the pivot, with it, after it, or without a key. -/
def pivotRank (cmp : α → α → Ordering) (key : β → Option α) (v : α) (b : β) : ℕ :=
  (key b).elim 3 fun a => position (cmp a v)

/-- A list that is sorted by key is sorted by rank. -/
theorem pairwise_pivotRank {l : List β}
    (h : IsTotalPreorderOn (insert v {a | ∃ b ∈ l, key b = some a}) cmp)
    (hl : l.Pairwise fun a b => nullsLast cmp (key a) (key b) ≠ .gt) :
    l.Pairwise fun a b => pivotRank cmp key v a ≤ pivotRank cmp key v b := by
  refine hl.imp_of_mem fun {a b} ha hb hab => ?_
  unfold pivotRank
  cases hkb : key b with
  | none =>
    cases key a with
    | none => exact le_rfl
    | some x => exact (position_lt_three _).le
  | some y =>
    cases hka : key a with
    | none =>
      rw [hka, hkb] at hab
      exact absurd rfl hab
    | some x =>
      rw [hka, hkb] at hab
      exact h.position_le (.inr ⟨a, ha, hka⟩) (.inr ⟨b, hb, hkb⟩) (.inl rfl) hab

/-- A list that is sorted by key is its elements before the pivot, with it, after it, and without a
key. -/
theorem filter_pivotRank {l : List β}
    (h : IsTotalPreorderOn (insert v {a | ∃ b ∈ l, key b = some a}) cmp)
    (hl : l.Pairwise fun a b => nullsLast cmp (key a) (key b) ≠ .gt) :
    l.filter (fun b => pivotRank cmp key v b == 0) ++
        (l.filter (fun b => pivotRank cmp key v b == 1) ++
          (l.filter (fun b => pivotRank cmp key v b == 2) ++
            l.filter fun b => pivotRank cmp key v b == 3)) = l := by
  have hranks := flatMap_range_filter_rank (pairwise_pivotRank h hl) 4
  have hall : ∀ b ∈ l, decide (pivotRank cmp key v b < 4) = true := by
    intro b _
    rw [decide_eq_true_eq, pivotRank]
    cases key b with
    | none => exact Nat.lt_succ_self 3
    | some a => exact (position_lt_three _).trans (Nat.lt_succ_self 3)
  rw [List.filter_eq_self.mpr hall] at hranks
  simpa [List.range_succ] using hranks

end Pivot

end Comparator

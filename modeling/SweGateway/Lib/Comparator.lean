import Mathlib.Data.Set.Image
import Mathlib.Order.Defs.LinearOrder

/-!
# Comparators

What a sorting function asks of the comparator it is given is that it orders the elements at hand:
`IsTotalPreorderOn s cmp`.  A comparator that is put together from others does so exactly if its
parts do: one that compares by a key (`isTotalPreorderOn_comp`), one that goes the other way
(`isTotalPreorderOn_reverse`), one that puts missing values last (`isTotalPreorderOn_nullsLast`).

`mixed` is put together from two orders: elements that both have a number are compared by their
numbers, and others by their texts.  It is reflexive and antisymmetric, but it orders the elements
only if the texts of those without a number fit between the others (`isTotalPreorderOn_mixed`).
-/

namespace Comparator

variable {α β : Type*}

/-- The comparator orders the elements of `s`, up to ties. -/
structure IsTotalPreorderOn (s : Set α) (cmp : α → α → Ordering) : Prop where
  refl : ∀ a ∈ s, cmp a a = .eq
  swap : ∀ a ∈ s, ∀ b ∈ s, cmp b a = (cmp a b).swap
  trans : ∀ a ∈ s, ∀ b ∈ s, ∀ c ∈ s, cmp a b ≠ .gt → cmp b c ≠ .gt → cmp a c ≠ .gt

theorem IsTotalPreorderOn.mono {s t : Set α} {cmp : α → α → Ordering}
    (h : IsTotalPreorderOn t cmp) (hst : s ⊆ t) : IsTotalPreorderOn s cmp where
  refl a ha := h.refl a (hst ha)
  swap a ha b hb := h.swap a (hst ha) b (hst hb)
  trans a ha b hb c hc := h.trans a (hst ha) b (hst hb) c (hst hc)

theorem isTotalPreorderOn_comp {s : Set β} {cmp : α → α → Ordering} (f : β → α) :
    IsTotalPreorderOn s (fun a b => cmp (f a) (f b)) ↔ IsTotalPreorderOn (f '' s) cmp := by
  constructor
  · rintro ⟨hrefl, hswap, htrans⟩
    refine ⟨?_, ?_, ?_⟩
    · rintro _ ⟨a, ha, rfl⟩
      exact hrefl a ha
    · rintro _ ⟨a, ha, rfl⟩ _ ⟨b, hb, rfl⟩
      exact hswap a ha b hb
    · rintro _ ⟨a, ha, rfl⟩ _ ⟨b, hb, rfl⟩ _ ⟨c, hc, rfl⟩
      exact htrans a ha b hb c hc
  · rintro ⟨hrefl, hswap, htrans⟩
    have hmem : ∀ a ∈ s, f a ∈ f '' s := fun a ha => Set.mem_image_of_mem f ha
    refine ⟨fun a ha => hrefl _ (hmem a ha), fun a ha b hb => hswap _ (hmem a ha) _ (hmem b hb), ?_⟩
    exact fun a ha b hb c hc => htrans _ (hmem a ha) _ (hmem b hb) _ (hmem c hc)

/-! ### Positions -/

/-- Where an element stands that compares with another like this: before it, with it or after it. -/
def position : Ordering → ℕ
  | .lt => 0
  | .eq => 1
  | .gt => 2

theorem position_lt_three (o : Ordering) : position o < 3 := by cases o <;> decide

/-- Elements in order are in the order of their positions. -/
theorem IsTotalPreorderOn.position_le {s : Set α} {cmp : α → α → Ordering}
    (h : IsTotalPreorderOn s cmp) {a b v : α} (ha : a ∈ s) (hb : b ∈ s) (hv : v ∈ s)
    (hab : cmp a b ≠ .gt) : position (cmp a v) ≤ position (cmp b v) := by
  cases hav : cmp a v with
  | lt => exact Nat.zero_le _
  | eq =>
    -- otherwise `a`, and so `v`, is before `b`
    have hva : cmp v a ≠ .gt := by
      rw [h.swap a ha v hv, hav]
      decide
    have hvb : cmp v b ≠ .gt := h.trans v hv a ha b hb hva hab
    rw [h.swap b hb v hv] at hvb
    cases hbv : cmp b v with
    | lt => exact absurd (by rw [hbv]; rfl) hvb
    | eq => exact le_rfl
    | gt => decide
  | gt =>
    cases hbv : cmp b v with
    | gt => exact le_rfl
    | lt => exact absurd hav (h.trans a ha b hb v hv hab (by rw [hbv]; decide))
    | eq => exact absurd hav (h.trans a ha b hb v hv hab (by rw [hbv]; decide))

/-! ### The other way round -/

/-- The comparator with its answers reversed. -/
def reverse (cmp : α → α → Ordering) (a b : α) : Ordering := (cmp a b).swap

theorem reverse_reverse (cmp : α → α → Ordering) : reverse (reverse cmp) = cmp := by
  funext a b
  exact Ordering.swap_swap

theorem IsTotalPreorderOn.reverse {s : Set α} {cmp : α → α → Ordering}
    (h : IsTotalPreorderOn s cmp) : IsTotalPreorderOn s (reverse cmp) where
  refl a ha := by
    rw [Comparator.reverse, h.refl a ha]
    rfl
  swap a ha b hb := congrArg Ordering.swap (h.swap a ha b hb)
  trans a ha b hb c hc hab hbc := by
    unfold Comparator.reverse at hab hbc ⊢
    rw [← h.swap a ha b hb] at hab
    rw [← h.swap b hb c hc] at hbc
    rw [← h.swap a ha c hc]
    exact h.trans c hc b hb a ha hbc hab

theorem isTotalPreorderOn_reverse {s : Set α} {cmp : α → α → Ordering} :
    IsTotalPreorderOn s (reverse cmp) ↔ IsTotalPreorderOn s cmp := by
  constructor
  · intro h
    rw [← reverse_reverse cmp]
    exact h.reverse
  · exact IsTotalPreorderOn.reverse

/-! ### Missing values -/

/-- Missing values are the same, and after all others. -/
def nullsLast (cmp : α → α → Ordering) : Option α → Option α → Ordering
  | none, none => .eq
  | none, some _ => .gt
  | some _, none => .lt
  | some a, some b => cmp a b

theorem isTotalPreorderOn_nullsLast {s : Set (Option α)} {cmp : α → α → Ordering} :
    IsTotalPreorderOn s (nullsLast cmp) ↔ IsTotalPreorderOn {a | some a ∈ s} cmp := by
  constructor
  · rintro ⟨hrefl, hswap, htrans⟩
    exact ⟨fun a ha => hrefl (some a) ha, fun a ha b hb => hswap (some a) ha (some b) hb,
      fun a ha b hb c hc => htrans (some a) ha (some b) hb (some c) hc⟩
  · rintro ⟨hrefl, hswap, htrans⟩
    refine ⟨?_, ?_, ?_⟩
    · rintro (_ | a) ha
      · rfl
      · exact hrefl a ha
    · rintro (_ | a) ha (_ | b) hb
      · rfl
      · rfl
      · rfl
      · exact hswap a ha b hb
    · rintro (_ | a) ha (_ | b) hb (_ | c) hc hab hbc
      · exact hab
      · exact hbc
      · exact absurd rfl hab
      · exact absurd rfl hab
      · exact nofun
      · exact absurd rfl hbc
      · exact nofun
      · exact htrans a ha b hb c hc hab hbc

/-! ### Numbers and texts -/

section Mixed

variable {N T : Type*} [LinearOrder N] [LinearOrder T] (num : α → Option N) (text : α → T)

/-- Compares by the numbers if both elements have one, and by the texts otherwise. -/
def mixed (a b : α) : Ordering :=
  match num a, num b with
  | some x, some y => compare x y
  | _, _ => compare (text a) (text b)

/-- Whenever the text of an element without a number is between those of two elements with one, the
numbers of the two are in the same order; or they are the same, and so are the texts. -/
def TextsFit (s : Set α) : Prop :=
  ∀ a ∈ s, ∀ b ∈ s, ∀ t ∈ s, ∀ x y, num a = some x → num b = some y → num t = none →
    text a ≤ text t → text t ≤ text b → x < y ∨ (x = y ∧ text a = text b)

variable {num text}

theorem mixed_of_some {a b : α} {x y : N} (ha : num a = some x) (hb : num b = some y) :
    mixed num text a b = compare x y := by
  rw [mixed, ha, hb]

theorem mixed_of_none_left {a b : α} (ha : num a = none) :
    mixed num text a b = compare (text a) (text b) := by
  rw [mixed, ha]

theorem mixed_of_none_right {a b : α} (hb : num b = none) :
    mixed num text a b = compare (text a) (text b) := by
  rw [mixed, hb]
  cases num a <;> rfl

theorem mixed_self (a : α) : mixed num text a a = .eq := by
  cases ha : num a with
  | none => rw [mixed_of_none_left ha, compare_eq_iff_eq]
  | some x => rw [mixed_of_some ha ha, compare_eq_iff_eq]

theorem mixed_swap (a b : α) : mixed num text b a = (mixed num text a b).swap := by
  cases ha : num a with
  | none =>
    rw [mixed_of_none_left ha, mixed_of_none_right ha]
    exact Std.OrientedCmp.eq_swap
  | some x =>
    cases hb : num b with
    | none =>
      rw [mixed_of_none_left hb, mixed_of_none_right hb]
      exact Std.OrientedCmp.eq_swap
    | some y =>
      rw [mixed_of_some ha hb, mixed_of_some hb ha]
      exact Std.OrientedCmp.eq_swap

/-- An order of the elements has the texts of those without a number between the others. -/
theorem IsTotalPreorderOn.textsFit {s : Set α} (h : IsTotalPreorderOn s (mixed num text)) :
    TextsFit num text s := by
  intro a ha b hb t ht x y hx hy hnone hat htb
  have hat' : mixed num text a t ≠ .gt := by
    rw [mixed_of_none_right hnone]
    exact compare_le_iff_le.mpr hat
  have htb' : mixed num text t b ≠ .gt := by
    rw [mixed_of_none_left hnone]
    exact compare_le_iff_le.mpr htb
  have hab : mixed num text a b ≠ .gt := h.trans a ha t ht b hb hat' htb'
  rw [mixed_of_some hx hy, compare_le_iff_le] at hab
  rcases lt_or_eq_of_le hab with hlt | rfl
  · exact .inl hlt
  · -- the numbers are the same, so both texts are that of `t`
    have hba : mixed num text b a ≠ .gt := by
      rw [mixed_of_some hy hx]
      exact compare_le_iff_le.mpr le_rfl
    have hta : mixed num text t a ≠ .gt := h.trans t ht b hb a ha htb' hba
    rw [mixed_of_none_left hnone, compare_le_iff_le] at hta
    have hbt : mixed num text b t ≠ .gt := h.trans b hb a ha t ht hba hat'
    rw [mixed_of_none_right hnone, compare_le_iff_le] at hbt
    exact .inr ⟨rfl, (le_antisymm hat hta).trans (le_antisymm htb hbt)⟩

/-- Where the texts fit, the comparator is transitive, whichever of the elements have a number. -/
theorem TextsFit.mixed_trans {s : Set α} (hfit : TextsFit num text s) {a b c : α} (ha : a ∈ s)
    (hb : b ∈ s) (hc : c ∈ s) (hab : mixed num text a b ≠ .gt) (hbc : mixed num text b c ≠ .gt) :
    mixed num text a c ≠ .gt := by
  cases hna : num a with
  | none =>
    rw [mixed_of_none_left hna, compare_le_iff_le] at hab ⊢
    cases hnb : num b with
    | none =>
      rw [mixed_of_none_left hnb, compare_le_iff_le] at hbc
      exact hab.trans hbc
    | some y =>
      cases hnc : num c with
      | none =>
        rw [mixed_of_none_right hnc, compare_le_iff_le] at hbc
        exact hab.trans hbc
      | some z =>
        -- if the text of `a` came after that of `c`, it would be between `c` and `b`
        rw [mixed_of_some hnb hnc, compare_le_iff_le] at hbc
        by_contra hca
        have hca' := (not_le.mp hca).le
        rcases hfit c hc b hb a ha z y hnc hnb hna hca' hab with hlt | ⟨-, heq⟩
        · exact absurd hbc hlt.not_ge
        · exact hca (hab.trans_eq heq.symm)
  | some x =>
    cases hnc : num c with
    | none =>
      rw [mixed_of_none_right hnc, compare_le_iff_le] at hbc ⊢
      cases hnb : num b with
      | none =>
        rw [mixed_of_none_right hnb, compare_le_iff_le] at hab
        exact hab.trans hbc
      | some y =>
        -- if the text of `a` came after that of `c`, `c` would be between `b` and `a`
        rw [mixed_of_some hna hnb, compare_le_iff_le] at hab
        by_contra hac
        have hca := (not_le.mp hac).le
        rcases hfit b hb a ha c hc y x hnb hna hnc hbc hca with hlt | ⟨-, heq⟩
        · exact absurd hab hlt.not_ge
        · exact hac (heq.symm.trans_le hbc)
    | some z =>
      rw [mixed_of_some hna hnc, compare_le_iff_le]
      cases hnb : num b with
      | none =>
        rw [mixed_of_none_right hnb, compare_le_iff_le] at hab
        rw [mixed_of_none_left hnb, compare_le_iff_le] at hbc
        rcases hfit a ha c hc b hb x z hna hnc hnb hab hbc with hlt | ⟨heq, -⟩
        · exact hlt.le
        · exact heq.le
      | some y =>
        rw [mixed_of_some hna hnb, compare_le_iff_le] at hab
        rw [mixed_of_some hnb hnc, compare_le_iff_le] at hbc
        exact hab.trans hbc

/-- **Numbers and texts in one order.** -/
theorem isTotalPreorderOn_mixed {s : Set α} :
    IsTotalPreorderOn s (mixed num text) ↔ TextsFit num text s := by
  refine ⟨IsTotalPreorderOn.textsFit, fun hfit => ⟨?_, ?_, ?_⟩⟩
  · exact fun a _ => mixed_self a
  · exact fun a _ b _ => mixed_swap a b
  · exact fun a ha b hb c hc => hfit.mixed_trans ha hb hc

end Mixed

end Comparator

import Mathlib.Data.List.Infix

/-!
# The first occurrence of a pattern

A text that contains a pattern is what stands before the first occurrence of the pattern, the
pattern, and the rest.  `IsBefore pat before` says that `before` can stand before a first occurrence
of `pat`: no occurrence of `pat` ends before the one that follows `before` does.  Each text that
contains the pattern is split by its first occurrence in exactly one way.
-/

namespace FirstOccurrence

variable {α : Type*} {pat : List α}

/-- No occurrence of the pattern ends within `before` followed by all but the end of the pattern. -/
def IsBefore (pat before : List α) : Prop := ¬ pat <:+: before ++ pat.dropLast

/-- A text that contains the pattern contains a first occurrence of it. -/
theorem exists_isBefore (hne : pat ≠ []) {text : List α} (h : pat <:+: text) :
    ∃ before after, text = before ++ (pat ++ after) ∧ IsBefore pat before := by
  induction text using List.reverseRecOn with
  | nil => exact absurd (List.infix_nil.mp h) hne
  | append_singleton text c ih =>
    by_cases hin : pat <:+: text
    · obtain ⟨before, after, htext, hbefore⟩ := ih hin
      refine ⟨before, after ++ [c], ?_, hbefore⟩
      rw [htext, List.append_assoc, List.append_assoc]
    · -- the only occurrence is at the end
      obtain ⟨before, hbefore⟩ := (List.infix_concat_iff.mp h).resolve_right hin
      refine ⟨before, [], by rw [List.append_nil, hbefore], ?_⟩
      have htext : before ++ pat.dropLast = text := by
        rw [← List.dropLast_append_of_ne_nil hne, hbefore, List.dropLast_concat]
      rw [IsBefore, htext]
      exact hin

/-- Of two first occurrences, neither is before the other. -/
theorem length_le_of_isBefore (hne : pat ≠ []) {before before' after after' : List α}
    (h : before ++ (pat ++ after) = before' ++ (pat ++ after')) (hbefore' : IsBefore pat before') :
    before'.length ≤ before.length := by
  by_contra hlt
  apply hbefore'
  have hpos : 0 < pat.length := List.length_pos_iff.mpr hne
  -- both are beginnings of the same text, and the occurrence after `before` is the shorter one
  have hleft : before ++ pat <+: before ++ (pat ++ after) :=
    ⟨after, List.append_assoc _ _ _⟩
  have hright : before' ++ pat.dropLast <+: before ++ (pat ++ after) := by
    rw [h, List.prefix_append_right_inj]
    exact (List.dropLast_prefix pat).trans (List.prefix_append pat after')
  have hlen : (before ++ pat).length ≤ (before' ++ pat.dropLast).length := by
    rw [List.length_append, List.length_append, List.length_dropLast]
    omega
  exact (List.suffix_append before pat).isInfix.trans
    (List.prefix_of_prefix_length_le hleft hright hlen).isInfix

/-- The first occurrence is unique. -/
theorem IsBefore.unique (hne : pat ≠ []) {before before' after after' : List α}
    (hbefore : IsBefore pat before) (hbefore' : IsBefore pat before')
    (h : before ++ (pat ++ after) = before' ++ (pat ++ after')) :
    before = before' ∧ after = after' := by
  have hlen : before.length = before'.length :=
    le_antisymm (length_le_of_isBefore hne h.symm hbefore) (length_le_of_isBefore hne h hbefore')
  obtain ⟨rfl, hrest⟩ := List.append_inj h hlen
  exact ⟨rfl, List.append_cancel_left hrest⟩

/-- A single letter occurs where it is first a member. -/
theorem isBefore_singleton_iff {a : α} {before : List α} : IsBefore [a] before ↔ a ∉ before := by
  rw [IsBefore, List.dropLast_singleton, List.append_nil, List.singleton_infix_iff]

/-- Two different letters can only occur as a whole. -/
theorem isBefore_pair_iff {a b : α} (hab : a ≠ b) {before : List α} :
    IsBefore [a, b] before ↔ ¬ [a, b] <:+: before := by
  rw [IsBefore, List.dropLast_cons_cons, List.dropLast_singleton, List.infix_concat_iff]
  refine not_congr (or_iff_right ?_)
  rintro ⟨l, hl⟩
  have hlast : (l ++ [a]) ++ [b] = before ++ [a] := by
    rw [← hl, List.append_assoc]
    rfl
  exact hab (List.singleton_inj.mp (List.append_inj_right' hlast rfl)).symm

end FirstOccurrence

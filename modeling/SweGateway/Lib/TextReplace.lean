import Mathlib.Data.List.Infix
import Mathlib.Data.Nat.Notation
import Mathlib.Tactic.Linarith

/-!
# Replacing the occurrences of a pattern

`replace pat new text` goes through the text from left to right and puts `new` in the place of every
occurrence of `pat`; the occurrences do not overlap, and what has been put in is not looked at
again.  An empty pattern occurs before every element and at the end.

The text stays as it is if the pattern does not occur (`replace_eq_self`) and if it is replaced by
itself (`replace_self`), and only then (`replace_eq_self_iff`): a first occurrence stands after a
part that stays (`exists_first`), and what replacing adds to the length grows with every occurrence
(`exists_length_replaceFrom`).  `split` gives the parts between the occurrences, and replacing
changes the text at one place only if there are two of them (`exists_split_eq`).
-/

namespace TextReplace

variable {α : Type} [DecidableEq α]

/-- The text with the occurrences of a nonempty pattern replaced, but without its first `skip`
elements, which belong to an occurrence that has been replaced. -/
def replaceFrom (pat new : List α) : ℕ → List α → List α
  | _, [] => []
  | skip + 1, _ :: text => replaceFrom pat new skip text
  | 0, c :: text =>
    if pat <+: c :: text then new ++ replaceFrom pat new (pat.length - 1) text
    else c :: replaceFrom pat new 0 text

/-- The text with every occurrence of the pattern replaced. -/
def replace (pat new text : List α) : List α :=
  if pat = [] then new ++ text.flatMap fun c => c :: new
  else replaceFrom pat new 0 text

/-- The parts of the text between the occurrences of a nonempty pattern, without the first `skip`
elements, as in `replaceFrom`. -/
def splitFrom (pat : List α) : ℕ → List α → List (List α)
  | _, [] => [[]]
  | skip + 1, _ :: text => splitFrom pat skip text
  | 0, c :: text =>
    if pat <+: c :: text then [] :: splitFrom pat (pat.length - 1) text
    else (splitFrom pat 0 text).modifyHead (c :: ·)

theorem replace_of_ne_nil {pat : List α} (h : pat ≠ []) (new text : List α) :
    replace pat new text = replaceFrom pat new 0 text :=
  if_neg h

theorem replaceFrom_skip (pat new : List α) (skip : ℕ) (text : List α) :
    replaceFrom pat new skip text = replaceFrom pat new 0 (text.drop skip) := by
  induction text generalizing skip with
  | nil =>
    rw [List.drop_nil]
    unfold replaceFrom
    rfl
  | cons c text ih =>
    cases skip with
    | zero => rfl
    | succ skip =>
      rw [replaceFrom, List.drop_succ_cons]
      exact ih skip

theorem replaceFrom_append {pat : List α} (h : pat ≠ []) (new text : List α) :
    replaceFrom pat new 0 (pat ++ text) = new ++ replaceFrom pat new 0 text := by
  obtain ⟨c, rest, rfl⟩ := List.exists_cons_of_ne_nil h
  rw [List.cons_append, replaceFrom, if_pos (by simp), replaceFrom_skip]
  simp

theorem replaceFrom_eq_self {pat : List α} (new : List α) {text : List α} (h : ¬ pat <:+: text) :
    replaceFrom pat new 0 text = text := by
  induction text with
  | nil => rfl
  | cons c text ih =>
    have hhead : ¬ pat <+: c :: text := fun hpre => h hpre.isInfix
    have htail : ¬ pat <:+: text := fun hin => h (List.infix_cons hin)
    rw [replaceFrom, if_neg hhead, ih htail]

/-- A text in which the pattern does not occur stays as it is. -/
theorem replace_eq_self {pat : List α} (new : List α) {text : List α} (h : ¬ pat <:+: text) :
    replace pat new text = text := by
  have hne : pat ≠ [] := by
    rintro rfl
    exact h List.nil_infix
  rw [replace_of_ne_nil hne, replaceFrom_eq_self new h]

/-- The first occurrence of the pattern is replaced, and what stands before it stays. -/
theorem exists_first {pat : List α} (new : List α) {text : List α} (hne : pat ≠ [])
    (h : pat <:+: text) :
    ∃ before after, text = before ++ (pat ++ after) ∧
      replaceFrom pat new 0 text = before ++ (new ++ replaceFrom pat new 0 after) := by
  induction text with
  | nil => exact absurd (List.infix_nil.mp h) hne
  | cons c text ih =>
    by_cases hpre : pat <+: c :: text
    · -- the occurrence is right here
      obtain ⟨after, hafter⟩ := hpre
      refine ⟨[], after, hafter.symm, ?_⟩
      rw [← hafter, replaceFrom_append hne, List.nil_append]
    · have hin : pat <:+: text := (List.infix_cons_iff.mp h).resolve_left hpre
      obtain ⟨before, after, htext, hreplace⟩ := ih hin
      refine ⟨c :: before, after, ?_, ?_⟩
      · rw [htext, List.cons_append]
      · rw [replaceFrom, if_neg hpre, hreplace, List.cons_append]

/-- Every occurrence that is replaced changes the length by the same amount. -/
theorem exists_length_replaceFrom {pat : List α} (new : List α) (hne : pat ≠ []) (text : List α) :
    ∃ n, (replaceFrom pat new 0 text).length + n * pat.length = text.length + n * new.length := by
  induction hlen : text.length using Nat.strong_induction_on generalizing text with
  | _ len ih =>
  by_cases hin : pat <:+: text
  · -- what is after the first occurrence is shorter, as the pattern is not empty
    obtain ⟨before, after, htext, hreplace⟩ := exists_first new hne hin
    have hpos : 0 < pat.length := List.length_pos_iff.mpr hne
    have hsplit : len = before.length + (pat.length + after.length) := by
      rw [← hlen, htext, List.length_append, List.length_append]
    obtain ⟨n, hn⟩ := ih after.length (by omega) after rfl
    refine ⟨n + 1, ?_⟩
    rw [hreplace, List.length_append, List.length_append]
    linarith
  · exact ⟨0, by rw [replaceFrom_eq_self new hin, hlen, Nat.zero_mul, Nat.zero_mul]⟩

@[simp] theorem replace_self (pat text : List α) : replace pat pat text = text := by
  by_cases hne : pat = []
  · subst hne
    simp [replace]
  · rw [replace_of_ne_nil hne]
    induction hlen : text.length using Nat.strong_induction_on generalizing text with
    | _ len ih =>
    by_cases hin : pat <:+: text
    · obtain ⟨before, after, htext, hreplace⟩ := exists_first pat hne hin
      have hpos : 0 < pat.length := List.length_pos_iff.mpr hne
      have hsplit : len = before.length + (pat.length + after.length) := by
        rw [← hlen, htext, List.length_append, List.length_append]
      rw [hreplace, ih after.length (by omega) after rfl, ← htext]
    · exact replaceFrom_eq_self pat hin

omit [DecidableEq α] in
/-- Where something is put after every element, the text gets longer by as much for each. -/
theorem length_flatMap_cons (new text : List α) :
    (text.flatMap fun c => c :: new).length = text.length * new.length + text.length := by
  rw [List.length_flatMap]
  simp [Nat.mul_succ]

/-- **Replacing is visible**: a text stays as it is only if the pattern does not occur or is
replaced by itself. -/
theorem replace_eq_self_iff {pat new text : List α} :
    replace pat new text = text ↔ new = pat ∨ ¬ pat <:+: text := by
  constructor
  · intro h
    by_cases hin : pat <:+: text
    · left
      by_cases hne : pat = []
      · -- the empty pattern occurs everywhere, so each replacement makes the text longer
        subst hne
        have hlen := congrArg List.length h
        rw [replace, if_pos rfl, List.length_append, length_flatMap_cons] at hlen
        exact List.eq_nil_of_length_eq_zero (by omega)
      · rw [replace_of_ne_nil hne] at h
        obtain ⟨before, after, htext, hreplace⟩ := exists_first new hne hin
        have hrest : new ++ replaceFrom pat new 0 after = pat ++ after := by
          have heq : before ++ (new ++ replaceFrom pat new 0 after) = before ++ (pat ++ after) := by
            rw [← hreplace, h, htext]
          exact List.append_cancel_left heq
        -- the lengths leave only one possibility, whatever is replaced in the rest
        obtain ⟨n, hn⟩ := exists_length_replaceFrom new hne after
        have hlen := congrArg List.length hrest
        rw [List.length_append, List.length_append] at hlen
        have hmul : (n + 1) * new.length = (n + 1) * pat.length := by linarith
        have hsame : new.length = pat.length := Nat.eq_of_mul_eq_mul_left n.succ_pos hmul
        exact (List.append_inj hrest hsame).1
    · exact .inr hin
  · rintro (rfl | h)
    · exact replace_self _ text
    · exact replace_eq_self new h

/-! ### Splitting a text at the pattern -/

theorem splitFrom_ne_nil (pat : List α) (skip : ℕ) (text : List α) :
    splitFrom pat skip text ≠ [] := by
  induction text generalizing skip with
  | nil => simp [splitFrom]
  | cons c text ih =>
    cases skip with
    | succ skip => exact ih skip
    | zero =>
      rw [splitFrom]
      split
      · exact List.cons_ne_nil _ _
      · cases hparts : splitFrom pat 0 text with
        | nil => exact absurd hparts (ih 0)
        | cons part parts => exact List.cons_ne_nil _ _

omit [DecidableEq α] in
theorem intercalate_modifyHead_cons (sep : List α) (c : α) {parts : List (List α)}
    (h : parts ≠ []) :
    sep.intercalate (parts.modifyHead (c :: ·)) = c :: sep.intercalate parts := by
  obtain ⟨part, parts, rfl⟩ := List.exists_cons_of_ne_nil h
  cases parts with
  | nil => rfl
  | cons next parts =>
    show sep.intercalate ((c :: part) :: next :: parts) = _
    rw [List.intercalate_cons_cons, List.intercalate_cons_cons, List.cons_append, List.cons_append]

theorem replaceFrom_eq_intercalate (pat new : List α) (skip : ℕ) (text : List α) :
    replaceFrom pat new skip text = new.intercalate (splitFrom pat skip text) := by
  induction text generalizing skip with
  | nil =>
    unfold replaceFrom splitFrom
    rw [List.intercalate_singleton]
  | cons c text ih =>
    cases skip with
    | succ skip => exact ih skip
    | zero =>
      rw [replaceFrom, splitFrom]
      split
      · rw [List.intercalate_cons_of_ne_nil (splitFrom_ne_nil _ _ _), List.nil_append, ih]
      · rw [intercalate_modifyHead_cons _ _ (splitFrom_ne_nil _ _ _), ih]

/-- The parts of the text between the occurrences of the pattern. -/
def split (pat text : List α) : List (List α) :=
  if pat = [] then [] :: (text.map fun c => [c]) ++ [[]] else splitFrom pat 0 text

/-- **Replacing** puts the parts together again with the new text between them. -/
theorem replace_eq_intercalate (pat new text : List α) :
    replace pat new text = new.intercalate (split pat text) := by
  unfold replace split
  by_cases hpat : pat = []
  · rw [if_pos hpat, if_pos hpat, List.cons_append,
      List.intercalate_cons_of_ne_nil (by simp), List.nil_append, List.append_cancel_left_eq]
    induction text with
    | nil => rfl
    | cons c text ih =>
      rw [List.flatMap_cons, ih, List.map_cons, List.cons_append, List.cons_append,
        List.intercalate_cons_of_ne_nil (by simp)]
      rfl
  · rw [if_neg hpat, if_neg hpat, replaceFrom_eq_intercalate]

theorem intercalate_split (pat text : List α) : pat.intercalate (split pat text) = text := by
  rw [← replace_eq_intercalate, replace_self]

/-- What stands before the first occurrence is not longer than what stands before another one. -/
theorem length_le_of_splitFrom {pat text before after part : List α} {parts : List (List α)}
    (htext : text = before ++ (pat ++ after)) (hsplit : splitFrom pat 0 text = part :: parts) :
    parts = [] ∨ part.length ≤ before.length := by
  induction text generalizing before part parts with
  | nil =>
    cases hsplit
    exact .inl rfl
  | cons c text ih =>
    rw [splitFrom] at hsplit
    by_cases hpre : pat <+: c :: text
    · rw [if_pos hpre] at hsplit
      cases hsplit
      exact .inr (Nat.zero_le _)
    · rw [if_neg hpre] at hsplit
      cases before with
      | nil => exact absurd ⟨after, htext.symm⟩ hpre
      | cons c' before =>
        cases hrest : splitFrom pat 0 text with
        | nil => exact absurd hrest (splitFrom_ne_nil _ _ _)
        | cons part' parts' =>
          rw [hrest] at hsplit
          cases hsplit
          exact (ih (List.cons.inj htext).2 hrest).imp_right Nat.succ_le_succ

omit [DecidableEq α] in
theorem length_intercalate_cons (sep part : List α) (parts : List (List α)) :
    (sep.intercalate (part :: parts)).length =
      (part :: parts).flatten.length + parts.length * sep.length := by
  induction parts generalizing part with
  | nil => simp
  | cons next parts ih =>
    rw [List.intercalate_cons_cons, List.length_append, List.length_append, ih]
    simp only [List.flatten_cons, List.length_append, List.length_cons, Nat.succ_mul]
    omega

omit [DecidableEq α] in
/-- A text that goes on with itself after `start` is determined by its length. -/
theorem eq_of_prefix_append {start text text' : List α} (hstart : start ≠ [])
    (hlen : text.length = text'.length) (h : text <+: start ++ text)
    (h' : text' <+: start ++ text') : text = text' := by
  -- one more copy of `start` at a time
  have htake : ∀ n, text.take (n * start.length) = text'.take (n * start.length) := by
    intro n
    induction n with
    | zero => rw [Nat.zero_mul, List.take_zero, List.take_zero]
    | succ n ih =>
      have hstep : ∀ t : List α, t <+: start ++ t → t.take ((n + 1) * start.length) =
          (start ++ t.take (n * start.length)).take t.length := by
        intro t ht
        conv_lhs => rw [List.prefix_iff_eq_take.mp ht]
        rw [List.take_take, min_comm, ← List.take_take, Nat.succ_mul, Nat.add_comm,
          List.take_length_add_append]
      rw [hstep text h, hstep text' h', ih, hlen]
  have hlong : text.length ≤ text.length * start.length :=
    Nat.le_mul_of_pos_right _ (List.length_pos_iff.mpr hstart)
  have hall := htake text.length
  rwa [List.take_of_length_le hlong, List.take_of_length_le (hlen ▸ hlong)] at hall

/-- **One occurrence.**  If replacing has changed the text at one place only, then the pattern
occurs once, not after that place. -/
theorem exists_split_eq {pat new text before after : List α} (hne : new ≠ pat)
    (htext : text = before ++ (pat ++ after))
    (hreplace : replace pat new text = before ++ (new ++ after)) :
    ∃ front rest, split pat text = [front, rest] ∧ front <+: before := by
  by_cases hpat : pat = []
  · -- the empty pattern occurs once in the empty text only
    have hlen := congrArg List.length hreplace
    subst hpat
    rw [replace, if_pos rfl, List.length_append, length_flatMap_cons, List.length_append,
      List.length_append] at hlen
    have hlen' := congrArg List.length htext
    rw [List.nil_append, List.length_append] at hlen'
    have hzero : text.length * new.length = 0 := by omega
    rcases Nat.mul_eq_zero.mp hzero with hnil | hnil
    · rw [List.eq_nil_of_length_eq_zero hnil]
      exact ⟨[], [], rfl, List.nil_prefix⟩
    · exact absurd (List.eq_nil_of_length_eq_zero hnil) hne
  have hsplit : split pat text = splitFrom pat 0 text := if_neg hpat
  have hold := intercalate_split pat text
  have hnew := replace_eq_intercalate pat new text
  cases hparts : splitFrom pat 0 text with
  | nil => exact absurd hparts (splitFrom_ne_nil _ _ _)
  | cons front parts =>
    rw [hsplit, hparts] at hold hnew
    cases parts with
    | nil =>
      -- the pattern would not occur at all
      rw [List.intercalate_singleton] at hold hnew
      have hsame : replace pat new text = text := hnew.trans hold
      have hin : pat <:+: text := ⟨before, after, by rw [htext, List.append_assoc]⟩
      exact ((replace_eq_self_iff.mp hsame).elim hne fun hnot => hnot hin).elim
    | cons rest parts =>
      have hle := (length_le_of_splitFrom htext hparts).resolve_left (List.cons_ne_nil _ _)
      have hfront : front <+: before := by
        have h₁ : front <+: text := by
          rw [← hold, List.intercalate_cons_cons, List.append_assoc]
          exact List.prefix_append _ _
        have h₂ : before <+: text := htext ▸ List.prefix_append _ _
        exact List.prefix_of_prefix_length_le h₁ h₂ hle
      cases parts with
      | nil => exact ⟨front, rest, hsplit.trans hparts, hfront⟩
      | cons next parts =>
        -- a second occurrence changes the length again, or the text
        exfalso
        obtain ⟨start, rfl⟩ := hfront
        have hlen : new.length = pat.length := by
          have h₁ := congrArg List.length (hold.trans htext)
          have h₂ := congrArg List.length (hnew.symm.trans hreplace)
          rw [length_intercalate_cons] at h₁ h₂
          have hmul : (parts.length + 1) * new.length = (parts.length + 1) * pat.length := by
            simp only [List.length_cons, List.length_append, Nat.succ_mul] at h₁ h₂ ⊢
            omega
          exact Nat.eq_of_mul_eq_mul_left (Nat.succ_pos _) hmul
        have hold' : pat ++ pat.intercalate (rest :: next :: parts) = start ++ (pat ++ after) := by
          have h := hold.trans htext
          rwa [List.intercalate_cons_cons, List.append_assoc, List.append_assoc,
            List.append_cancel_left_eq] at h
        have hnew' : new ++ new.intercalate (rest :: next :: parts) = start ++ (new ++ after) := by
          have h := hnew.symm.trans hreplace
          rwa [List.intercalate_cons_cons, List.append_assoc, List.append_assoc,
            List.append_cancel_left_eq] at h
        have hpre : ∀ {t u v : List α}, t ++ u = start ++ (t ++ v) → t <+: start ++ t := by
          intro t u v h
          have h₁ : t <+: start ++ (t ++ v) := h ▸ List.prefix_append t u
          have h₂ : start ++ t <+: start ++ (t ++ v) :=
            (List.prefix_append_right_inj start).mpr (List.prefix_append t v)
          exact List.prefix_of_prefix_length_le h₁ h₂ (by simp)
        by_cases hstart : start = []
        · subst hstart
          rw [List.nil_append, List.append_cancel_left_eq] at hold' hnew'
          have hrest := hnew'.trans hold'.symm
          rw [List.intercalate_cons_cons, List.intercalate_cons_cons, List.append_assoc,
            List.append_assoc, List.append_cancel_left_eq] at hrest
          exact hne (List.append_inj hrest hlen).1
        · exact hne (eq_of_prefix_append hstart hlen (hpre hnew') (hpre hold'))

example : replace ['a', 'a'] ['b'] ['a', 'a', 'a', 'c', 'a', 'a'] = ['b', 'a', 'c', 'b'] := by
  decide

end TextReplace

import Mathlib.Data.List.Induction
import Mathlib.Order.MinMax

/-!
# Writes over one another

A write from the beginning of a file replaces as much of it as it is long, and leaves what is behind
that (`writeOver`).  `overlay` is what several such writes, one after the other, leave of a file that was
empty: at every place what the last write that reaches the place has put there
(`getElem?_overlay_eq_some_iff`), so that the file is what the last of the writes wrote exactly if
none before it was longer (`overlay_concat_eq_iff`).
-/

namespace Overlay

variable {α : Type*}

/-- What a write makes of a file. -/
def writeOver (file written : List α) : List α := written ++ file.drop written.length

/-- What writes make of an empty file. -/
def overlay (writes : List (List α)) : List α := writes.foldl writeOver []

@[simp] theorem overlay_nil : overlay ([] : List (List α)) = [] := rfl

@[simp] theorem overlay_concat (writes : List (List α)) (written : List α) :
    overlay (writes ++ [written]) = writeOver (overlay writes) written :=
  List.foldl_append

theorem length_writeOver (file written : List α) :
    (writeOver file written).length = max file.length written.length := by
  rw [writeOver, List.length_append, List.length_drop]
  omega

theorem length_writeOverlay_le_iff (writes : List (List α)) (n : ℕ) :
    (overlay writes).length ≤ n ↔ ∀ written ∈ writes, written.length ≤ n := by
  induction writes using List.reverseRecOn with
  | nil => simp
  | append_singleton writes written ih =>
    rw [overlay_concat, length_writeOver, max_le_iff, ih]
    simp only [List.mem_append, List.mem_singleton]
    constructor
    · rintro ⟨hwrites, hwritten⟩ x (hx | rfl)
      · exact hwrites x hx
      · exact hwritten
    · intro h
      exact ⟨fun x hx => h x (.inl hx), h written (.inr rfl)⟩

theorem writeOver_eq_self_iff (file written : List α) :
    writeOver file written = written ↔ file.length ≤ written.length := by
  rw [writeOver, List.append_right_eq_self, List.drop_eq_nil_iff]

/-- The last write decides alone exactly if it covers all the others. -/
theorem overlay_concat_eq_iff (writes : List (List α)) (last : List α) :
    overlay (writes ++ [last]) = last ↔ ∀ written ∈ writes, written.length ≤ last.length := by
  rw [overlay_concat, writeOver_eq_self_iff, length_writeOverlay_le_iff]

theorem getElem?_writeOver_of_lt {file written : List α} {k : ℕ} (h : k < written.length) :
    (writeOver file written)[k]? = written[k]? :=
  List.getElem?_append_left h

theorem getElem?_writeOver_of_le {file written : List α} {k : ℕ} (h : written.length ≤ k) :
    (writeOver file written)[k]? = file[k]? := by
  rw [writeOver, List.getElem?_append_right h, List.getElem?_drop, Nat.add_sub_cancel' h]

/-- **Every place** of the file has what the last write that reaches it has put there. -/
theorem getElem?_overlay_eq_some_iff (writes : List (List α)) (k : ℕ) (a : α) :
    (overlay writes)[k]? = some a ↔
      ∃ before written behind, writes = before ++ written :: behind ∧ written[k]? = some a ∧
        ∀ later ∈ behind, later.length ≤ k := by
  induction writes using List.reverseRecOn with
  | nil => simp
  | append_singleton writes last ih =>
    rw [overlay_concat]
    rcases lt_or_ge k last.length with hk | hk
    · rw [getElem?_writeOver_of_lt hk]
      constructor
      · intro ha
        exact ⟨writes, last, [], rfl, ha, nofun⟩
      · rintro ⟨before, written, behind, heq, ha, hbehind⟩
        rcases List.eq_nil_or_concat behind with rfl | ⟨behind, later, rfl⟩
        · obtain ⟨-, hlast⟩ := List.append_inj' heq rfl
          obtain rfl := List.singleton_inj.mp hlast
          exact ha
        · -- a write behind it would be the last one, and does reach the place
          rw [List.concat_eq_append, ← List.cons_append, ← List.append_assoc] at heq
          obtain ⟨-, hlast⟩ := List.append_inj' heq rfl
          obtain rfl := List.singleton_inj.mp hlast
          have hle : last.length ≤ k := hbehind last (by simp)
          omega
    · rw [getElem?_writeOver_of_le hk, ih]
      constructor
      · rintro ⟨before, written, behind, rfl, ha, hbehind⟩
        refine ⟨before, written, behind ++ [last], by simp, ha, ?_⟩
        intro later hlater
        rcases List.mem_append.mp hlater with h | h
        · exact hbehind later h
        · rwa [List.mem_singleton.mp h]
      · rintro ⟨before, written, behind, heq, ha, hbehind⟩
        rcases List.eq_nil_or_concat behind with rfl | ⟨behind, later, rfl⟩
        · -- the last write itself does not reach the place
          obtain ⟨-, hlast⟩ := List.append_inj' heq rfl
          obtain rfl := List.singleton_inj.mp hlast
          rw [List.getElem?_eq_none hk] at ha
          cases ha
        · rw [List.concat_eq_append, ← List.cons_append, ← List.append_assoc] at heq
          obtain ⟨hwrites, -⟩ := List.append_inj' heq rfl
          exact ⟨before, written, behind, hwrites, ha, fun later hlater =>
            hbehind later (by simp [hlater])⟩

end Overlay

import Mathlib.Data.List.Nodup

/-!
# Association lists

A table is a list of keys with values; `List.lookup` finds the first value for a key, and
`modifyKey` changes it where it stands.
-/

namespace AssocList

variable {K V : Type} [DecidableEq K]

/-- The list with the first value for the key changed. -/
def modifyKey (key : K) (f : V → V) : List (K × V) → List (K × V)
  | [] => []
  | (k, v) :: entries => if k = key then (k, f v) :: entries else (k, v) :: modifyKey key f entries

/-- What changing a value does to a lookup. -/
theorem lookup_modifyKey (key k : K) (f : V → V) (entries : List (K × V)) :
    (modifyKey key f entries).lookup k =
      if k = key then (entries.lookup k).map f else entries.lookup k := by
  induction entries with
  | nil => simp [modifyKey]
  | cons entry entries ih =>
    obtain ⟨k', v⟩ := entry
    unfold modifyKey
    by_cases hk' : k' = key
    · subst hk'
      rw [if_pos rfl, List.lookup_cons, List.lookup_cons]
      by_cases hk : k = k'
      · rw [if_pos hk, beq_iff_eq.mpr hk]
        rfl
      · rw [if_neg hk, beq_false_of_ne hk]
    · rw [if_neg hk', List.lookup_cons, List.lookup_cons, ih]
      by_cases hk : k = k'
      · subst hk
        simp only [beq_self_eq_true, if_neg hk']
      · rw [beq_false_of_ne hk]

@[simp] theorem lookup_modifyKey_self (key : K) (f : V → V) (entries : List (K × V)) :
    (modifyKey key f entries).lookup key = (entries.lookup key).map f := by
  rw [lookup_modifyKey, if_pos rfl]

/-- A value in a list without repeated keys is what its key is bound to. -/
theorem lookup_eq_some_of_mem {entries : List (K × V)} (hnodup : (entries.map Prod.fst).Nodup)
    {k : K} {v : V} (h : (k, v) ∈ entries) : entries.lookup k = some v := by
  induction entries with
  | nil => cases h
  | cons entry entries ih =>
    obtain ⟨k', v'⟩ := entry
    rw [List.map_cons, List.nodup_cons] at hnodup
    rcases List.mem_cons.mp h with heq | hmem
    · obtain ⟨rfl, rfl⟩ := Prod.mk.inj heq
      exact List.lookup_cons_self
    · have hne : (k == k') = false := by
        refine beq_false_of_ne fun heq => hnodup.1 ?_
        exact List.mem_map.mpr ⟨(k, v), hmem, heq⟩
      rw [List.lookup_cons, hne]
      exact ih hnodup.2 hmem

end AssocList

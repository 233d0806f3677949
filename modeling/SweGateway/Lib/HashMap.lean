import Std.Data.ExtTreeMap
import Std.Data.ExtTreeSet
import Mathlib.Algebra.BigOperators.Group.List.Basic
import Mathlib.Algebra.Ring.Int.Defs
import Mathlib.Data.Fintype.EquivFin
import Mathlib.Data.List.Perm.Basic

/-!
# Hash maps as finite maps

A hash map is modelled by the finite map it holds, `HashMap K V`: two maps with the same bindings
are equal, whatever was inserted in which order.  Code that iterates over a hash map sees the
bindings in an order that the map does not fix; `IterOrder` is such an order, an arbitrary
rearrangement of the bindings, and `HashMap.iter` the bindings in that order.

`foldl_erase_selected` and `foldl_changeStep_iter` are about two loops over the bindings that a
predicate selects: one that removes them and one that replaces their values.

`total f m` adds up an integer `f k v` over the bindings of `m`; an insertion or a removal changes
it by one summand (`total_insert`, `total_erase_add`).
-/

/-- A finite map from `K` to `V`. -/
abbrev HashMap (K V : Type) [Ord K] := Std.ExtTreeMap K V compare

/-- A finite set of `K`s. -/
abbrev HashSet (K : Type) [Ord K] := Std.ExtTreeSet K compare

/-- An order in which an iteration may visit the bindings of a map. -/
structure IterOrder (K V : Type) where
  /-- The bindings, rearranged. -/
  order : List (K × V) → List (K × V)
  /-- Every binding is visited once. -/
  perm : ∀ l, (order l).Perm l

namespace IterOrder

/-- The order that visits the keys from the least to the greatest. -/
def sorted {K V : Type} : IterOrder K V := ⟨id, fun l => List.Perm.refl l⟩

end IterOrder

namespace HashMap

variable {K V : Type} [Ord K] [Std.TransOrd K] [Std.LawfulEqOrd K]

/-- The bindings of `m`, in the order `it` visits them. -/
def iter (it : IterOrder K V) (m : HashMap K V) : List (K × V) := it.order m.toList

/-- The values of `m`, in the order `it` visits them. -/
def values (it : IterOrder K V) (m : HashMap K V) : List V := (iter it m).map Prod.snd

theorem mem_iter {it : IterOrder K V} {m : HashMap K V} {k : K} {v : V} :
    (k, v) ∈ iter it m ↔ m[k]? = some v := by
  rw [iter, (it.perm _).mem_iff, Std.ExtTreeMap.mem_toList_iff_getElem?_eq_some]

omit [Std.LawfulEqOrd K] in
theorem values_empty (it : IterOrder K V) : values it (∅ : HashMap K V) = [] := by
  have h := it.perm (∅ : HashMap K V).toList
  rw [Std.ExtTreeMap.toList_eq_nil_iff.mpr rfl] at h
  rw [values, iter, Std.ExtTreeMap.toList_eq_nil_iff.mpr rfl, List.perm_nil.mp h, List.map_nil]

/-! ### The list of bindings -/

theorem nodup_toList (m : HashMap K V) : m.toList.Nodup := by
  apply Std.ExtTreeMap.distinct_keys_toList.imp
  intro a b hne heq
  apply hne
  rw [heq, Std.LawfulEqOrd.compare_eq_iff_eq]

theorem nodup_iter (it : IterOrder K V) (m : HashMap K V) : (iter it m).Nodup :=
  (it.perm _).nodup_iff.mpr (nodup_toList m)

omit [Std.LawfulEqOrd K] in
/-- An iteration visits every key once. -/
theorem nodup_keys_iter (it : IterOrder K V) (m : HashMap K V) :
    ((iter it m).map Prod.fst).Nodup := by
  refine ((it.perm m.toList).map Prod.fst).nodup_iff.mpr ?_
  rw [Std.ExtTreeMap.map_fst_toList_eq_keys]
  exact Std.ExtTreeMap.nodup_keys

/-- An iteration visits the binding of a key once, if the key is bound. -/
theorem filter_key_iter [DecidableEq K] (it : IterOrder K V) (m : HashMap K V) (k : K) :
    (iter it m).filter (fun e => e.1 = k) = m[k]?.toList.map (Prod.mk k) := by
  have hmem : ∀ e, e ∈ (iter it m).filter (fun e => e.1 = k) ↔ e.1 = k ∧ m[k]? = some e.2 := by
    rintro ⟨a, v⟩
    rw [List.mem_filter, mem_iter, decide_eq_true_eq, and_comm]
    exact and_congr_right fun h => by rw [← h]
  have hnodup := (nodup_iter it m).filter fun e => decide (e.1 = k)
  cases hk : m[k]? with
  | none =>
    refine List.eq_nil_iff_forall_not_mem.mpr fun e he => ?_
    rw [hmem, hk] at he
    cases he.2
  | some v =>
    have hperm : ((iter it m).filter fun e => e.1 = k).Perm [(k, v)] := by
      refine (List.perm_ext_iff_of_nodup hnodup (by simp)).mpr fun e => ?_
      rw [hmem, hk, List.mem_singleton, Prod.ext_iff, Option.some.injEq, eq_comm (a := v)]
    exact List.perm_singleton.mp hperm

theorem getElem?_insert_of_ne {m : HashMap K V} {k a : K} {v : V} (h : k ≠ a) :
    (m.insert k v)[a]? = m[a]? := by
  rw [Std.ExtTreeMap.getElem?_insert, if_neg]
  rwa [Std.LawfulEqOrd.compare_eq_iff_eq]

theorem getElem?_erase_of_ne {m : HashMap K V} {k a : K} (h : k ≠ a) :
    (m.erase k)[a]? = m[a]? := by
  rw [Std.ExtTreeMap.getElem?_erase, if_neg]
  rwa [Std.LawfulEqOrd.compare_eq_iff_eq]

/-- What an insertion does to a lookup. -/
theorem getElem?_insert_ite [DecidableEq K] (m : HashMap K V) (k a : K) (v : V) :
    (m.insert k v)[a]? = if k = a then some v else m[a]? := by
  by_cases h : k = a
  · subst h
    simp
  · rw [getElem?_insert_of_ne h, if_neg h]

theorem getD_insert_ite [DecidableEq K] (m : HashMap K V) (k a : K) (v d : V) :
    (m.insert k v).getD a d = if k = a then v else m.getD a d := by
  rw [Std.ExtTreeMap.getD_eq_getD_getElem?, getElem?_insert_ite,
    Std.ExtTreeMap.getD_eq_getD_getElem?]
  split <;> rfl

/-- A map does not bind all of infinitely many keys. -/
theorem exists_getElem?_eq_none [DecidableEq K] [Infinite K] (m : HashMap K V) :
    ∃ k : K, m[k]? = none := by
  obtain ⟨k, hk⟩ := Infinite.exists_notMem_finset m.keys.toFinset
  rw [List.mem_toFinset, Std.ExtTreeMap.mem_keys] at hk
  exact ⟨k, Std.ExtTreeMap.getElem?_eq_none hk⟩

/-- The bindings after an insertion: the new one, and the old ones of the other keys. -/
theorem toList_insert_perm (m : HashMap K V) (k : K) (v : V) :
    (m.insert k v).toList.Perm ((k, v) :: (m.erase k).toList) := by
  have hk : (k, v) ∉ (m.erase k).toList := by
    rw [Std.ExtTreeMap.mem_toList_iff_getElem?_eq_some]
    simp
  have hnodup : ((k, v) :: (m.erase k).toList).Nodup :=
    List.nodup_cons.mpr ⟨hk, nodup_toList (m.erase k)⟩
  refine (List.perm_ext_iff_of_nodup (nodup_toList (m.insert k v)) hnodup).mpr ?_
  rintro ⟨a, w⟩
  rw [List.mem_cons, Std.ExtTreeMap.mem_toList_iff_getElem?_eq_some,
    Std.ExtTreeMap.mem_toList_iff_getElem?_eq_some]
  by_cases h : k = a
  · subst h
    simp [eq_comm]
  · rw [getElem?_insert_of_ne h, getElem?_erase_of_ne h]
    simp [Ne.symm h]

/-- The bindings of a map, with the one of a bound key pulled out. -/
theorem toList_perm_erase {m : HashMap K V} {k : K} {v : V} (h : m[k]? = some v) :
    m.toList.Perm ((k, v) :: (m.erase k).toList) := by
  have hins : m = m.insert k v := by
    refine Std.ExtTreeMap.ext_getElem? fun a => ?_
    by_cases ha : k = a
    · subst ha
      simp [h]
    · rw [getElem?_insert_of_ne ha]
  conv_lhs => rw [hins]
  exact toList_insert_perm m k v

theorem erase_of_getElem?_none {m : HashMap K V} {k : K} (h : m[k]? = none) : m.erase k = m := by
  refine Std.ExtTreeMap.ext_getElem? fun a => ?_
  by_cases ha : k = a
  · subst ha
    simp [h]
  · rw [getElem?_erase_of_ne ha]

/-- Maps that bind the same keys list the same keys. -/
theorem keys_eq_of_mem_iff {V' : Type} {m : HashMap K V} {m' : HashMap K V'}
    (h : ∀ k, k ∈ m ↔ k ∈ m') : m.keys = m'.keys := by
  rw [← Std.ExtTreeMap.keys_map (t := m) (f := fun _ _ => ()),
    ← Std.ExtTreeMap.keys_map (t := m') (f := fun _ _ => ())]
  refine congrArg _ (Std.ExtTreeMap.ext_mem_unit fun k => ?_)
  rw [Std.ExtTreeMap.mem_map, Std.ExtTreeMap.mem_map, h]

/-- The keys of the bindings are the bound keys. -/
theorem contains_map_fst_toList [DecidableEq K] (m : HashMap K V) (k : K) :
    (m.toList.map Prod.fst).contains k = m[k]?.isSome := by
  rw [List.contains_eq_mem, Bool.eq_iff_iff, decide_eq_true_iff, Option.isSome_iff_exists,
    List.mem_map]
  constructor
  · rintro ⟨⟨a, v⟩, hav, rfl⟩
    exact ⟨v, Std.ExtTreeMap.mem_toList_iff_getElem?_eq_some.mp hav⟩
  · rintro ⟨v, hv⟩
    exact ⟨(k, v), Std.ExtTreeMap.mem_toList_iff_getElem?_eq_some.mpr hv, rfl⟩

/-- A map is made up of its bindings. -/
theorem ofList_toList [DecidableEq K] (m : HashMap K V) : Std.ExtTreeMap.ofList m.toList = m := by
  have : Std.LawfulBEqCmp (compare : K → K → Ordering) :=
    ⟨by simp⟩
  refine Std.ExtTreeMap.ext_getElem? fun k => ?_
  cases hk : m[k]? with
  | some v =>
    exact Std.ExtTreeMap.getElem?_ofList_of_mem Std.ReflOrd.compare_self
      Std.ExtTreeMap.distinct_keys_toList (Std.ExtTreeMap.mem_toList_iff_getElem?_eq_some.mpr hk)
  | none =>
    refine Std.ExtTreeMap.getElem?_ofList_of_contains_eq_false ?_
    rw [contains_map_fst_toList, hk]
    rfl

/-- Inserting the bindings of one map into another. -/
theorem getElem?_insertMany_toList [DecidableEq K] (m updates : HashMap K V) (k : K) :
    (m.insertMany updates.toList)[k]? = updates[k]?.or m[k]? := by
  have : Std.LawfulBEqCmp (compare : K → K → Ordering) := ⟨by simp⟩
  cases hk : updates[k]? with
  | some v =>
    exact Std.ExtTreeMap.getElem?_insertMany_list_of_mem Std.ReflOrd.compare_self
      Std.ExtTreeMap.distinct_keys_toList (Std.ExtTreeMap.mem_toList_iff_getElem?_eq_some.mpr hk)
  | none =>
    refine Std.ExtTreeMap.getElem?_insertMany_list_of_contains_eq_false ?_
    rw [contains_map_fst_toList, hk]
    rfl

/-! ### Selected bindings -/

omit [Std.LawfulEqOrd K] in
/-- The bindings are those that `p` selects and the others. -/
theorem toList_perm_filter_append (m : HashMap K V) (p : V → Bool) :
    m.toList.Perm ((m.filter fun _ v => p v).toList ++ (m.filter fun _ v => !p v).toList) := by
  rw [Std.ExtTreeMap.toList_filter, Std.ExtTreeMap.toList_filter]
  exact (List.filter_append_perm (fun e : K × V => p e.2) m.toList).symm

omit [Std.LawfulEqOrd K] in
/-- Selecting among the values, in whatever order they are visited. -/
theorem values_filter_perm (it : IterOrder K V) (m : HashMap K V) (p : V → Bool) :
    ((values it m).filter p).Perm ((m.filter fun _ v => p v).toList.map Prod.snd) := by
  rw [values, iter, List.filter_map, Std.ExtTreeMap.toList_filter]
  exact ((it.perm m.toList).filter _).map Prod.snd

/-- A lookup after a loop of insertions finds what the last one under its key has inserted. -/
theorem getElem?_foldl_insert [DecidableEq K] {A : Type} (key : A → K) (value : A → V) (l : List A)
    (m : HashMap K V) (a : K) :
    (l.foldl (fun m x => m.insert (key x) (value x)) m)[a]? =
      ((l.reverse.find? fun x => key x = a).map value).or m[a]? := by
  induction l generalizing m with
  | nil => simp
  | cons x l ih =>
    rw [List.foldl_cons, ih, getElem?_insert_ite, List.reverse_cons, List.find?_append]
    cases l.reverse.find? fun x => key x = a with
    | some y => rfl
    | none => by_cases hx : key x = a <;> simp [hx]

/-- What removing a list of keys does to a lookup. -/
theorem getElem?_foldl_erase [DecidableEq K] (ks : List K) (m : HashMap K V) (a : K) :
    (ks.foldl (fun m k => m.erase k) m)[a]? = if a ∈ ks then none else m[a]? := by
  induction ks generalizing m with
  | nil => simp
  | cons k ks ih =>
    rw [List.foldl_cons, ih]
    by_cases hk : k = a
    · subst hk
      simp
    · rw [getElem?_erase_of_ne hk]
      simp [Ne.symm hk]

/-- Removing the keys of the bindings that `p` selects leaves the other bindings. -/
theorem foldl_erase_selected [DecidableEq K] (m : HashMap K V) (p : V → Bool) :
    ((m.toList.filter fun e => p e.2).map Prod.fst).foldl (fun m k => m.erase k) m =
      m.filter fun _ v => !p v := by
  refine Std.ExtTreeMap.ext_getElem? fun a => ?_
  have hmem : a ∈ (m.toList.filter fun e => p e.2).map Prod.fst ↔
      ∃ v, m[a]? = some v ∧ p v = true := by
    simp [List.mem_filter, Std.ExtTreeMap.mem_toList_iff_getElem?_eq_some]
  rw [getElem?_foldl_erase, Std.ExtTreeMap.getElem?_filter']
  cases ha : m[a]? with
  | none => simp
  | some v =>
    simp only [hmem, ha, Option.some.injEq, exists_eq_left']
    cases hv : p v <;> simp [Option.filter, hv]

/-- A loop over the bindings that replaces some of their values and counts them. -/
def changeStep (p : V → Bool) (f : V → V) (s : HashMap K V × ℕ) (e : K × V) : HashMap K V × ℕ :=
  if p e.2 then (s.1.insert e.1 (f e.2), s.2 + 1) else s

omit [Std.LawfulEqOrd K] in
theorem foldl_changeStep_snd (p : V → Bool) (f : V → V) (l : List (K × V))
    (s : HashMap K V × ℕ) :
    (l.foldl (changeStep p f) s).2 = s.2 + (l.filter fun e => p e.2).length := by
  induction l generalizing s with
  | nil => rfl
  | cons e l ih =>
    rw [List.foldl_cons, ih, changeStep]
    cases he : p e.2 with
    | true =>
      rw [if_pos rfl, List.filter_cons_of_pos (p := fun e : K × V => p e.2) he, List.length_cons]
      show s.2 + 1 + (l.filter fun e => p e.2).length = _
      omega
    | false =>
      rw [if_neg Bool.false_ne_true,
        List.filter_cons_of_neg (p := fun e : K × V => p e.2) (by simp [he])]

theorem getElem?_foldl_changeStep [DecidableEq K] (p : V → Bool) (f : V → V) (l : List (K × V))
    (hkeys : (l.map Prod.fst).Nodup) (s : HashMap K V × ℕ) (hs : ∀ e ∈ l, s.1[e.1]? = some e.2)
    (a : K) :
    (l.foldl (changeStep p f) s).1[a]? =
      if a ∈ l.map Prod.fst then s.1[a]?.map fun v => if p v then f v else v else s.1[a]? := by
  induction l generalizing s with
  | nil => simp
  | cons e l ih =>
    obtain ⟨hfresh, hkeys⟩ := List.nodup_cons.mp hkeys
    -- what the body does to the lookups
    have hstep : ∀ b, (changeStep p f s e).1[b]? =
        if e.1 = b then some (if p e.2 then f e.2 else e.2) else s.1[b]? := by
      intro b
      rw [changeStep]
      cases p e.2 with
      | true => exact getElem?_insert_ite s.1 e.1 b (f e.2)
      | false =>
        by_cases hb : e.1 = b
        · rw [if_pos hb, ← hb]
          exact hs e List.mem_cons_self
        · rw [if_neg hb]
          rfl
    have hrest : ∀ e' ∈ l, (changeStep p f s e).1[e'.1]? = some e'.2 := by
      intro e' he'
      have hne : e.1 ≠ e'.1 := by
        intro heq
        exact hfresh (heq ▸ List.mem_map_of_mem he')
      rw [hstep, if_neg hne]
      exact hs e' (List.mem_cons_of_mem e he')
    rw [List.foldl_cons, ih hkeys _ hrest, hstep]
    by_cases ha : e.1 = a
    · subst ha
      simp [hfresh, hs e List.mem_cons_self]
    · rw [if_neg ha]
      simp only [List.map_cons, List.mem_cons, Ne.symm ha, false_or]

/-- The loop changes the selected values, in whatever order it visits them. -/
theorem foldl_changeStep_iter [DecidableEq K] (it : IterOrder K V) (m : HashMap K V) (p : V → Bool)
    (f : V → V) :
    (iter it m).foldl (changeStep p f) (m, 0) =
      (m.map (fun _ v => if p v then f v else v), (m.toList.filter fun e => p e.2).length) := by
  have hperm := it.perm m.toList
  have hmem : ∀ e ∈ iter it m, m[e.1]? = some e.2 := fun e he => mem_iter.mp he
  refine Prod.ext ?_ ?_
  · refine Std.ExtTreeMap.ext_getElem? fun a => ?_
    rw [getElem?_foldl_changeStep p f _ (nodup_keys_iter it m) (m, 0) hmem,
      Std.ExtTreeMap.getElem?_map]
    split
    · rfl
    · next ha =>
      cases hv : m[a]? with
      | none => rfl
      | some v => exact absurd (List.mem_map_of_mem (mem_iter.mpr hv)) ha
  · rw [foldl_changeStep_snd, Nat.zero_add]
    exact (hperm.filter _).length_eq

/-! ### Sums over the bindings -/

/-- The sum of `f k v` over the bindings of `m`. -/
def total (f : K → V → ℤ) (m : HashMap K V) : ℤ := (m.toList.map fun e => f e.1 e.2).sum

omit [Std.LawfulEqOrd K] in
@[simp] theorem total_empty (f : K → V → ℤ) : total f (∅ : HashMap K V) = 0 := by
  rw [total, Std.ExtTreeMap.toList_eq_nil_iff.mpr rfl, List.map_nil, List.sum_nil]

theorem total_insert (f : K → V → ℤ) (m : HashMap K V) (k : K) (v : V) :
    total f (m.insert k v) = f k v + total f (m.erase k) := by
  rw [total, ((toList_insert_perm m k v).map _).sum_eq, List.map_cons, List.sum_cons, total]

theorem total_erase_add {f : K → V → ℤ} {m : HashMap K V} {k : K} {v : V} (h : m[k]? = some v) :
    f k v + total f (m.erase k) = total f m := by
  rw [total, total, ((toList_perm_erase h).map _).sum_eq, List.map_cons, List.sum_cons]

end HashMap

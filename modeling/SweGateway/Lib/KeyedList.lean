import Mathlib.Data.List.Induction
import Mathlib.Data.List.Nodup

/-!
# Lists as tables

A list whose elements may have a key is a table if no key occurs twice (`UniqueKeys`).  `upsert`
writes an element over those of its key, where they stand, and puts it at the end if there is none.

`withKey_upsert_self` and `withKey_upsert_of_ne` are the two laws of a map.  Repeating an `upsert`
changes nothing (`upsert_upsert_self`), and two of them with different keys commute up to the order
(`upsert_comm`).  `upsertAll_eq` says what a run of upserts leaves: every element of the list at its
place, overwritten by the last one of its key, and the new keys behind them; so a whole run can be
repeated without effect, too (`upsertAll_upsertAll`).
-/

namespace KeyedList

variable {α κ : Type} [DecidableEq κ] (key : α → Option κ)

/-- The elements of a key. -/
def withKey (k : κ) (l : List α) : List α := l.filter fun a => decide (key a = some k)

/-- No two elements have the same key. -/
def UniqueKeys (l : List α) : Prop := (l.filterMap key).Nodup

instance (l : List α) : Decidable (UniqueKeys key l) := inferInstanceAs (Decidable (List.Nodup _))

/-- Writes the element over those of its key, or at the end. -/
def upsert (k : κ) (v : α) (l : List α) : List α :=
  l.map (fun a => if key a = some k then v else a) ++
    if ∃ a ∈ l, key a = some k then [] else [v]

variable {key} {k k' : κ} {v v' a : α} {l : List α}

theorem withKey_append (l l' : List α) :
    withKey key k (l ++ l') = withKey key k l ++ withKey key k l' := by
  rw [withKey, List.filter_append]
  rfl

theorem mem_withKey : a ∈ withKey key k l ↔ a ∈ l ∧ key a = some k := by
  rw [withKey, List.mem_filter, decide_eq_true_eq]

theorem withKey_eq_nil : withKey key k l = [] ↔ ∀ a ∈ l, key a ≠ some k := by
  rw [withKey, List.filter_eq_nil_iff]
  simp only [decide_eq_true_eq, ne_eq]

/-- A table has at most one element of a key. -/
theorem uniqueKeys_iff : UniqueKeys key l ↔ ∀ k, (withKey key k l).length ≤ 1 := by
  rw [UniqueKeys, List.nodup_iff_count_le_one]
  refine forall_congr' fun k => ?_
  rw [List.count_filterMap, List.countP_eq_length_filter, withKey]
  have hcongr : (fun a => key a == some k) = fun a => decide (key a = some k) := by
    funext a
    rw [beq_eq_decide]
  rw [hcongr]

/-! ### One upsert -/

/-- The element in the place of one of its key has that key. -/
theorem key_overwrite (hv : key v = some k) (a : α) :
    key (if key a = some k then v else a) = key a := by
  split
  · next h => rw [hv, h]
  · rfl

/-- What is left of the elements of a key where they stand. -/
theorem withKey_map_overwrite (hv : key v = some k) (l : List α) :
    withKey key k' (l.map fun a => if key a = some k then v else a) =
      (withKey key k' l).map fun a => if key a = some k then v else a := by
  rw [withKey, List.filter_map, withKey]
  congr 1
  apply List.filter_congr
  intro a _
  rw [Function.comp_apply, key_overwrite hv]

/-- The element is the only one of its key. -/
theorem withKey_upsert_self (hv : key v = some k) (h : UniqueKeys key l) :
    withKey key k (upsert key k v l) = [v] := by
  have hlen : (withKey key k l).length ≤ 1 := uniqueKeys_iff.mp h k
  rw [upsert, withKey_append, withKey_map_overwrite hv]
  by_cases hex : ∃ a ∈ l, key a = some k
  · obtain ⟨a, ha, hk⟩ := hex
    have hmem : a ∈ withKey key k l := mem_withKey.mpr ⟨ha, hk⟩
    have hsingle : withKey key k l = [a] := by
      obtain ⟨b, hb⟩ := List.length_eq_one_iff.mp
        (Nat.le_antisymm hlen (List.length_pos_of_mem hmem))
      rw [hb, List.mem_singleton] at hmem
      rw [hb, hmem]
    rw [if_pos ⟨a, ha, hk⟩, hsingle, List.map_singleton, if_pos hk]
    rfl
  · have hnil : withKey key k l = [] :=
      withKey_eq_nil.mpr fun a ha hk => hex ⟨a, ha, hk⟩
    rw [if_neg hex, hnil, withKey, List.map_nil, List.nil_append,
      List.filter_cons_of_pos (by rw [hv, decide_eq_true_eq]), List.filter_nil]

/-- The elements of another key stay as they are. -/
theorem withKey_upsert_of_ne (hv : key v = some k) (hne : k' ≠ k) :
    withKey key k' (upsert key k v l) = withKey key k' l := by
  have hmap : (withKey key k' l).map (fun a => if key a = some k then v else a) =
      withKey key k' l := by
    conv_rhs => rw [← List.map_id (withKey key k' l)]
    apply List.map_congr_left
    intro a ha
    have hk' : key a = some k' := (mem_withKey.mp ha).2
    rw [if_neg fun hk => hne (Option.some.inj (hk'.symm.trans hk)), id]
  have hnew : withKey key k' (if ∃ a ∈ l, key a = some k then [] else [v]) = [] := by
    rw [withKey_eq_nil]
    intro a ha hk'
    split at ha
    · cases ha
    · rw [List.mem_singleton] at ha
      rw [ha, hv] at hk'
      exact hne (Option.some.inj hk').symm
  rw [upsert, withKey_append, withKey_map_overwrite hv, hmap, hnew, List.append_nil]

theorem uniqueKeys_upsert (hv : key v = some k) (h : UniqueKeys key l) :
    UniqueKeys key (upsert key k v l) := by
  rw [uniqueKeys_iff]
  intro k'
  by_cases hk : k' = k
  · rw [hk, withKey_upsert_self hv h]
    exact Nat.le_refl 1
  · rw [withKey_upsert_of_ne hv hk]
    exact uniqueKeys_iff.mp h k'

/-- An upsert always leaves its key in the table. -/
theorem exists_key_upsert (hv : key v = some k) (l : List α) :
    ∃ a ∈ upsert key k v l, key a = some k := by
  by_cases hex : ∃ a ∈ l, key a = some k
  · obtain ⟨a, ha, hk⟩ := hex
    refine ⟨v, List.mem_append_left _ ?_, hv⟩
    exact List.mem_map.mpr ⟨a, ha, if_pos hk⟩
  · refine ⟨v, List.mem_append_right _ ?_, hv⟩
    rw [if_neg hex]
    exact List.mem_singleton_self v

/-- Repeating an upsert changes nothing. -/
theorem upsert_upsert_self (hv : key v = some k) (l : List α) :
    upsert key k v (upsert key k v l) = upsert key k v l := by
  rw [upsert, if_pos (exists_key_upsert hv l), List.append_nil]
  conv_rhs => rw [← List.map_id (upsert key k v l)]
  apply List.map_congr_left
  intro a ha
  rw [id]
  split
  · next hk =>
    rcases List.mem_append.mp ha with ha | ha
    · obtain ⟨b, -, rfl⟩ := List.mem_map.mp ha
      rw [key_overwrite hv] at hk
      rw [if_pos hk]
    · split at ha
      · cases ha
      · exact (List.mem_singleton.mp ha).symm
  · rfl

/-- An upsert finds the same keys before and after one of another key. -/
theorem exists_key_upsert_of_ne (hv : key v = some k) (hne : k' ≠ k) (l : List α) :
    (∃ a ∈ upsert key k v l, key a = some k') ↔ ∃ a ∈ l, key a = some k' := by
  have h := withKey_upsert_of_ne (l := l) hv hne
  constructor
  · rintro ⟨a, ha, hk⟩
    have hmem : a ∈ withKey key k' (upsert key k v l) := mem_withKey.mpr ⟨ha, hk⟩
    rw [h] at hmem
    exact ⟨a, mem_withKey.mp hmem⟩
  · rintro ⟨a, ha, hk⟩
    have hmem : a ∈ withKey key k' l := mem_withKey.mpr ⟨ha, hk⟩
    rw [← h] at hmem
    exact ⟨a, mem_withKey.mp hmem⟩

/-- Overwriting the elements of two keys, in either order. -/
theorem overwrite_comm (hv : key v = some k) (hv' : key v' = some k') (hne : k' ≠ k) (a : α) :
    (if key (if key a = some k then v else a) = some k' then v'
        else if key a = some k then v else a) =
      if key (if key a = some k' then v' else a) = some k then v
        else if key a = some k' then v' else a := by
  rw [key_overwrite hv, key_overwrite hv']
  by_cases hk : key a = some k
  · have hk' : key a ≠ some k' := fun h => hne (Option.some.inj (h.symm.trans hk))
    rw [if_pos hk, if_neg hk', if_pos hk]
  · rw [if_neg hk, if_neg hk]

/-- Upserts of two different keys commute up to the order of the elements. -/
theorem upsert_comm (hv : key v = some k) (hv' : key v' = some k') (hne : k' ≠ k) (l : List α) :
    (upsert key k' v' (upsert key k v l)).Perm (upsert key k v (upsert key k' v' l)) := by
  have hold : (l.map fun a => if key a = some k then v else a).map
        (fun a => if key a = some k' then v' else a) =
      (l.map fun a => if key a = some k' then v' else a).map
        (fun a => if key a = some k then v else a) := by
    rw [List.map_map, List.map_map]
    exact List.map_congr_left fun a _ => overwrite_comm hv hv' hne a
  have hnew : ∀ {k k' : κ} {v v' : α}, key v = some k → k' ≠ k →
      (if ∃ a ∈ l, key a = some k then [] else [v]).map
        (fun a => if key a = some k' then v' else a) =
      if ∃ a ∈ l, key a = some k then [] else [v] := by
    intro k k' v v' hv hne
    split
    · rfl
    · rw [List.map_singleton, hv, if_neg fun h => hne (Option.some.inj h).symm]
  rw [upsert, if_congr (exists_key_upsert_of_ne hv hne l) rfl rfl]
  rw [upsert.eq_1 key k v (upsert key k' v' l),
    if_congr (exists_key_upsert_of_ne hv' hne.symm l) rfl rfl]
  rw [upsert, upsert, List.map_append, List.map_append, hold, hnew hv hne, hnew hv' hne.symm,
    List.append_assoc, List.append_assoc]
  exact List.Perm.append_left _ List.perm_append_comm

/-! ### Runs of upserts -/

variable (key)

/-- The upserts one after the other. -/
def upsertAll (puts : List (κ × α)) (l : List α) : List α :=
  puts.foldl (fun l p => upsert key p.1 p.2 l) l

/-- The last of the upserts that has the key of the element, or the element itself. -/
def overwritten (puts : List (κ × α)) (a : α) : α :=
  ((puts.reverse.find? fun p => decide (key a = some p.1)).map Prod.snd).getD a

variable {key} {puts : List (κ × α)}

theorem upsertAll_append (puts puts' : List (κ × α)) (l : List α) :
    upsertAll key (puts ++ puts') l = upsertAll key puts' (upsertAll key puts l) :=
  List.foldl_append

theorem upsertAll_concat (puts : List (κ × α)) (k : κ) (v : α) (l : List α) :
    upsertAll key (puts ++ [(k, v)]) l = upsert key k v (upsertAll key puts l) :=
  upsertAll_append puts [(k, v)] l

/-- An element that no upsert has the key of stays as it is. -/
theorem overwritten_of_forall_ne (h : ∀ p ∈ puts, key a ≠ some p.1) :
    overwritten key puts a = a := by
  have hnone : (puts.reverse.find? fun p => decide (key a = some p.1)) = none := by
    rw [List.find?_eq_none]
    intro p hp
    rw [decide_eq_true_eq]
    exact h p (List.mem_reverse.mp hp)
  rw [overwritten, hnone]
  rfl

theorem overwritten_concat (puts : List (κ × α)) (k : κ) (v a : α) :
    overwritten key (puts ++ [(k, v)]) a =
      if key a = some k then v else overwritten key puts a := by
  rw [overwritten, List.reverse_concat, List.find?_cons]
  by_cases hk : key a = some k
  · rw [if_pos hk, decide_eq_true hk]
    rfl
  · rw [if_neg hk, decide_eq_false hk]
    rfl

/-- An element that is overwritten keeps its key. -/
theorem key_overwritten (hputs : ∀ p ∈ puts, key p.2 = some p.1) (a : α) :
    key (overwritten key puts a) = key a := by
  induction puts using List.reverseRecOn with
  | nil => rfl
  | append_singleton puts p ih =>
    obtain ⟨k, v⟩ := p
    have hv : key v = some k := hputs (k, v) List.mem_concat_self
    rw [overwritten_concat]
    split
    · next hk => rw [hv, hk]
    · exact ih fun p hp => hputs p (List.mem_append_left _ hp)

/-- **A run of upserts** overwrites the elements where they stand, and puts behind them elements of
keys that were not there. -/
theorem upsertAll_eq (hputs : ∀ p ∈ puts, key p.2 = some p.1) (l : List α) :
    ∃ added, upsertAll key puts l = l.map (overwritten key puts) ++ added ∧
      ∀ a ∈ added, ∃ p ∈ puts, a = p.2 ∧ ∀ b ∈ l, key b ≠ some p.1 := by
  induction puts using List.reverseRecOn with
  | nil =>
    refine ⟨[], ?_, fun a ha => absurd ha List.not_mem_nil⟩
    rw [List.append_nil]
    exact (List.map_id l).symm
  | append_singleton puts p ih =>
    obtain ⟨k, v⟩ := p
    have hputs' : ∀ p ∈ puts, key p.2 = some p.1 :=
      fun p hp => hputs p (List.mem_append_left _ hp)
    obtain ⟨added, heq, hadded⟩ := ih hputs'
    rw [upsertAll_concat, heq, upsert, List.map_append, List.append_assoc]
    refine ⟨_, congrArg₂ (· ++ ·) ?_ rfl, ?_⟩
    · rw [List.map_map]
      apply List.map_congr_left
      intro a _
      rw [Function.comp_apply, key_overwritten hputs', overwritten_concat]
    · intro a ha
      rcases List.mem_append.mp ha with ha | ha
      · obtain ⟨b, hb, rfl⟩ := List.mem_map.mp ha
        obtain ⟨p, hp, rfl, hfresh⟩ := hadded b hb
        split
        · -- the key is the one of an element that was put there before
          next hk =>
          refine ⟨(k, v), List.mem_concat_self, rfl, ?_⟩
          have hpk : p.1 = k := Option.some.inj ((hputs' p hp).symm.trans hk)
          rw [← hpk]
          exact hfresh
        · exact ⟨p, List.mem_append_left _ hp, rfl, hfresh⟩
      · split at ha
        · cases ha
        · next hnone =>
          refine ⟨(k, v), List.mem_concat_self, List.mem_singleton.mp ha, ?_⟩
          intro b hb hk
          refine hnone ⟨overwritten key puts b, ?_, ?_⟩
          · exact List.mem_append_left _ (List.mem_map_of_mem hb)
          · rw [key_overwritten hputs', hk]

/-- What a run of upserts leaves is overwritten already. -/
theorem overwritten_of_mem_upsertAll (hputs : ∀ p ∈ puts, key p.2 = some p.1)
    (ha : a ∈ upsertAll key puts l) : overwritten key puts a = a := by
  induction puts using List.reverseRecOn generalizing a with
  | nil => rfl
  | append_singleton puts p ih =>
    obtain ⟨k, v⟩ := p
    have hv : key v = some k := hputs (k, v) List.mem_concat_self
    have hputs' : ∀ p ∈ puts, key p.2 = some p.1 :=
      fun p hp => hputs p (List.mem_append_left _ hp)
    rw [upsertAll_concat, upsert] at ha
    rw [overwritten_concat]
    rcases List.mem_append.mp ha with ha | ha
    · obtain ⟨b, hb, rfl⟩ := List.mem_map.mp ha
      rw [key_overwrite hv]
      by_cases hk : key b = some k
      · rw [if_pos hk, if_pos hk]
      · rw [if_neg hk, if_neg hk]
        exact ih hputs' hb
    · split at ha
      · cases ha
      · rw [List.mem_singleton.mp ha, if_pos hv]

/-- A run of upserts leaves its keys in the table. -/
theorem exists_key_upsertAll (hputs : ∀ p ∈ puts, key p.2 = some p.1) {p : κ × α} (hp : p ∈ puts)
    (l : List α) : ∃ a ∈ upsertAll key puts l, key a = some p.1 := by
  induction puts using List.reverseRecOn with
  | nil => cases hp
  | append_singleton puts q ih =>
    obtain ⟨k, v⟩ := q
    have hv : key v = some k := hputs (k, v) List.mem_concat_self
    rw [upsertAll_concat]
    by_cases hk : p.1 = k
    · rw [hk]
      exact exists_key_upsert hv _
    · rw [exists_key_upsert_of_ne hv hk]
      refine ih (fun p hp => hputs p (List.mem_append_left _ hp)) ?_
      refine (List.mem_append.mp hp).resolve_right fun h => hk ?_
      rw [List.mem_singleton.mp h]

/-- **Repeating a run of upserts** changes nothing. -/
theorem upsertAll_upsertAll (hputs : ∀ p ∈ puts, key p.2 = some p.1) (l : List α) :
    upsertAll key puts (upsertAll key puts l) = upsertAll key puts l := by
  obtain ⟨added, heq, hadded⟩ := upsertAll_eq hputs (upsertAll key puts l)
  have hnone : added = [] := by
    rw [List.eq_nil_iff_forall_not_mem]
    intro a ha
    obtain ⟨p, hp, -, hfresh⟩ := hadded a ha
    obtain ⟨b, hb, hk⟩ := exists_key_upsertAll hputs hp l
    exact hfresh b hb hk
  rw [heq, hnone, List.append_nil]
  conv_rhs => rw [← List.map_id (upsertAll key puts l)]
  exact List.map_congr_left fun a ha => overwritten_of_mem_upsertAll hputs ha

theorem uniqueKeys_upsertAll (hputs : ∀ p ∈ puts, key p.2 = some p.1) (h : UniqueKeys key l) :
    UniqueKeys key (upsertAll key puts l) := by
  induction puts using List.reverseRecOn with
  | nil => exact h
  | append_singleton puts p ih =>
    rw [upsertAll_concat puts p.1 p.2]
    refine uniqueKeys_upsert (hputs p List.mem_concat_self) ?_
    exact ih fun p hp => hputs p (List.mem_append_left _ hp)

/-- The elements of a key that no upsert has stay as they are. -/
theorem withKey_upsertAll_of_forall_ne (hputs : ∀ p ∈ puts, key p.2 = some p.1)
    (hne : ∀ p ∈ puts, p.1 ≠ k) (l : List α) :
    withKey key k (upsertAll key puts l) = withKey key k l := by
  induction puts generalizing l with
  | nil => rfl
  | cons p puts ih =>
    have hmem : p ∈ p :: puts := List.mem_cons_self
    have hrest := ih (fun p hp => hputs p (List.mem_cons_of_mem _ hp))
      (fun p hp => hne p (List.mem_cons_of_mem _ hp)) (upsert key p.1 p.2 l)
    exact hrest.trans (withKey_upsert_of_ne (hputs p hmem) (hne p hmem).symm)

/-- **The last upsert of a key** is its only element. -/
theorem withKey_upsertAll_last {post : List (κ × α)} (h : UniqueKeys key l)
    (hputs : ∀ p ∈ puts ++ (k, v) :: post, key p.2 = some p.1) (hlast : ∀ p ∈ post, p.1 ≠ k) :
    withKey key k (upsertAll key (puts ++ (k, v) :: post) l) = [v] := by
  have hpre : ∀ p ∈ puts, key p.2 = some p.1 := fun p hp => hputs p (List.mem_append_left _ hp)
  have hpost : ∀ p ∈ post, key p.2 = some p.1 :=
    fun p hp => hputs p (List.mem_append_right _ (List.mem_cons_of_mem _ hp))
  have hv : key v = some k := hputs (k, v) (List.mem_append_right _ List.mem_cons_self)
  have hsplit : upsertAll key (puts ++ (k, v) :: post) l =
      upsertAll key post (upsert key k v (upsertAll key puts l)) := by
    rw [upsertAll_append]
    rfl
  rw [hsplit, withKey_upsertAll_of_forall_ne hpost hlast]
  exact withKey_upsert_self hv (uniqueKeys_upsertAll hpre h)

end KeyedList

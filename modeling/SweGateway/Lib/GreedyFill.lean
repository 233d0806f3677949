import Mathlib.Data.List.Chain

/-!
# Greedy filling

Items are put into groups in their order.  An item goes into the group that is being filled if it
fits behind what is there, and begins the next group if it does not.  `fill` are the groups.

Whatever the test `fits` is, no item is lost or moved (`flatten_fill`), a property that a group keeps
with every item that fits is one of all the groups (`forall_mem_fill`), and the first item of a group
has not fitted behind the group before it (`isChain_fill`).
-/

namespace GreedyFill

variable {α : Type} (fits : List α → α → Prop) [∀ group, DecidablePred (fits group)]

/-- The groups, the first of which begins with `group`. -/
def fill : List α → List α → List (List α)
  | group, [] => [group]
  | group, item :: items =>
    if fits group item then fill (group ++ [item]) items else group :: fill [item] items

variable {fits}

theorem fill_of_fits {group items : List α} {item : α} (h : fits group item) :
    fill fits group (item :: items) = fill fits (group ++ [item]) items := if_pos h

theorem fill_of_not_fits {group items : List α} {item : α} (h : ¬ fits group item) :
    fill fits group (item :: items) = group :: fill fits [item] items := if_neg h

/-- **No item is lost**, and the order is kept. -/
theorem flatten_fill (group items : List α) :
    (fill fits group items).flatten = group ++ items := by
  induction items generalizing group with
  | nil => rw [fill, List.flatten_singleton, List.append_nil]
  | cons item items ih =>
    by_cases h : fits group item
    · rw [fill_of_fits h, ih, List.append_assoc, List.singleton_append]
    · rw [fill_of_not_fits h, List.flatten_cons, ih, List.singleton_append]

/-- The first group begins as it is begun. -/
theorem exists_fill_eq_cons (group items : List α) :
    ∃ rest groups, fill fits group items = (group ++ rest) :: groups := by
  induction items generalizing group with
  | nil => exact ⟨[], [], by rw [List.append_nil]; rfl⟩
  | cons item items ih =>
    by_cases h : fits group item
    · obtain ⟨rest, groups, heq⟩ := ih (group ++ [item])
      exact ⟨item :: rest, groups, by rw [fill_of_fits h, heq, List.append_assoc]; rfl⟩
    · exact ⟨[], fill fits [item] items, by rw [fill_of_not_fits h, List.append_nil]⟩

theorem fill_ne_nil (group items : List α) : fill fits group items ≠ [] := by
  obtain ⟨rest, groups, heq⟩ := @exists_fill_eq_cons α fits _ group items
  rw [heq]
  exact List.cons_ne_nil _ _

/-- **A property of all groups** is one that those of one item have, and that items which fit
preserve. -/
theorem forall_mem_fill {P : List α → Prop} {group items : List α} (hgroup : P group)
    (hone : ∀ item ∈ items, P [item])
    (hadd : ∀ g, P g → ∀ item ∈ items, fits g item → P (g ++ [item])) :
    ∀ g ∈ fill fits group items, P g := by
  induction items generalizing group with
  | nil => exact List.forall_mem_singleton.mpr hgroup
  | cons item items ih =>
    have ih := fun g (hg : P g) => @ih g hg
      (fun x hx => hone x (List.mem_cons_of_mem item hx))
      fun g hg x hx => hadd g hg x (List.mem_cons_of_mem item hx)
    by_cases h : fits group item
    · rw [fill_of_fits h]
      exact ih _ (hadd group hgroup item List.mem_cons_self h)
    · rw [fill_of_not_fits h]
      exact List.forall_mem_cons.mpr ⟨hgroup, ih _ (hone item List.mem_cons_self)⟩

/-- **Greediness.**  The first item of a group did not fit behind the group before. -/
theorem isChain_fill (group items : List α) :
    (fill fits group items).IsChain fun g next =>
      ∃ item rest, next = item :: rest ∧ ¬ fits g item := by
  induction items generalizing group with
  | nil => exact .singleton group
  | cons item items ih =>
    by_cases h : fits group item
    · rw [fill_of_fits h]
      exact ih (group ++ [item])
    · have hchain := ih [item]
      rw [fill_of_not_fits h]
      obtain ⟨rest, groups, heq⟩ := @exists_fill_eq_cons α fits _ [item] items
      rw [heq] at hchain ⊢
      exact .cons_cons ⟨item, rest, rfl, h⟩ hchain

end GreedyFill

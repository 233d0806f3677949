import Mathlib.Data.List.Infix
import Mathlib.Data.Nat.Notation

/-!
# Trees of directories

A directory is the list of the names on the way to it from the root.  `DirTree` is a set of
directories that has the directories above each of its own, so that whatever is in it can be reached
from the root.

`relocate a b` is where a directory is once `a` has become `b`: with `a`, the directories below it
move.  `DirTree.rename` does this to a tree where the operating system would (`Renames`), and
`DirTree.createAll` adds directories with everything above them.  `follow` takes a directory through
several moves.
-/

namespace DirTree

variable {α : Type} [DecidableEq α]

/-- Where a directory is once `a` has become `b`. -/
def relocate (a b dir : List α) : List α :=
  if a <+: dir then b ++ dir.drop a.length else dir

/-- Where a directory is after the moves, each from the first place to the second. -/
def follow (moves : List (List α × List α)) (dir : List α) : List α :=
  moves.foldl (fun d move => relocate move.1 move.2 d) dir

@[simp] theorem relocate_append (a b rest : List α) : relocate a b (a ++ rest) = b ++ rest := by
  rw [relocate, if_pos (List.prefix_append a rest), List.drop_left]

theorem relocate_of_not {a dir : List α} (b : List α) (h : ¬ a <+: dir) : relocate a b dir = dir :=
  if_neg h

theorem follow_append (moves moves' : List (List α × List α)) (dir : List α) :
    follow (moves ++ moves') dir = follow moves' (follow moves dir) :=
  List.foldl_append

omit [DecidableEq α] in
/-- What is strictly above a directory is at or above its parent. -/
theorem prefix_dropLast {above dir : List α} (h : above <+: dir) (hne : above ≠ dir) :
    above <+: dir.dropLast := by
  obtain ⟨rest, rfl⟩ := h
  have hrest : rest ≠ [] := by
    rintro rfl
    exact hne (List.append_nil above).symm
  rw [List.dropLast_append_of_ne_nil hrest]
  exact List.prefix_append _ _

end DirTree

/-- A set of directories with the directories above them. -/
structure DirTree (α : Type) where
  dirs : List (List α)
  closed : ∀ dir ∈ dirs, ∀ above, above <+: dir → above ∈ dirs

namespace DirTree

variable {α : Type} [DecidableEq α]

instance : Membership (List α) (DirTree α) := ⟨fun tree dir => dir ∈ tree.dirs⟩

instance (dir : List α) (tree : DirTree α) : Decidable (dir ∈ tree) :=
  inferInstanceAs (Decidable (dir ∈ tree.dirs))

omit [DecidableEq α] in
theorem mem_of_isPrefix {tree : DirTree α} {dir above : List α} (hdir : dir ∈ tree)
    (habove : above <+: dir) : above ∈ tree :=
  tree.closed dir hdir above habove

/-- The tree with directories added, and everything above them. -/
def createAll (tree : DirTree α) (new : List (List α)) : DirTree α where
  dirs := tree.dirs ++ new.flatMap List.inits
  closed dir hdir above habove := by
    rcases List.mem_append.mp hdir with h | h
    · exact List.mem_append_left _ (tree.closed dir h above habove)
    · obtain ⟨d, hd, hinit⟩ := List.mem_flatMap.mp h
      have habove' : above <+: d := habove.trans ((List.mem_inits _ _).mp hinit)
      exact List.mem_append_right _
        (List.mem_flatMap.mpr ⟨d, hd, (List.mem_inits _ _).mpr habove'⟩)

omit [DecidableEq α] in
theorem mem_createAll_of_mem {tree : DirTree α} {dir : List α} (h : dir ∈ tree)
    (new : List (List α)) : dir ∈ tree.createAll new :=
  List.mem_append_left _ h

/-- `a` can become `b`: it is there, and so is the directory that is to hold it; and `b` is `a`
itself, or it does not lie below `a` and nothing lies below it. -/
structure Renames (tree : DirTree α) (a b : List α) : Prop where
  source_mem : a ∈ tree.dirs
  parent_mem : b.dropLast ∈ tree.dirs
  target : b = a ∨ ¬ a <+: b ∧ ∀ dir ∈ tree.dirs, b <+: dir → dir = b

instance (tree : DirTree α) (a b : List α) : Decidable (tree.Renames a b) :=
  decidable_of_iff (a ∈ tree.dirs ∧ b.dropLast ∈ tree.dirs ∧
      (b = a ∨ ¬ a <+: b ∧ ∀ dir ∈ tree.dirs, b <+: dir → dir = b))
    ⟨fun h => ⟨h.1, h.2.1, h.2.2⟩, fun h => ⟨h.source_mem, h.parent_mem, h.target⟩⟩

omit [DecidableEq α] in
/-- What is strictly above the target of a rename does not move. -/
theorem Renames.not_prefix {tree : DirTree α} {a b above : List α} (h : tree.Renames a b)
    (habove : above <+: b) (hne : above ≠ b) : ¬ a <+: above := by
  intro ha
  rcases h.target with rfl | ⟨hnot, -⟩
  · exact hne (habove.eq_of_length_le ha.length_le)
  · exact hnot (ha.trans habove)

/-- The tree once `a` has become `b`. -/
def rename (tree : DirTree α) (a b : List α) (h : tree.Renames a b) : DirTree α where
  dirs := tree.dirs.map (relocate a b)
  closed := by
    intro dir hdir above habove
    obtain ⟨d, hd, rfl⟩ := List.mem_map.mp hdir
    by_cases had : a <+: d
    · obtain ⟨rest, rfl⟩ := had
      rw [relocate_append] at habove
      by_cases hbelow : b <+: above
      · -- at or below the target: it has moved there with the source
        obtain ⟨rest', rfl⟩ := hbelow
        have hrest : a ++ rest' <+: a ++ rest :=
          (List.prefix_append_right_inj a).mpr ((List.prefix_append_right_inj b).mp habove)
        exact List.mem_map.mpr
          ⟨a ++ rest', tree.closed _ hd _ hrest, relocate_append a b rest'⟩
      · -- strictly above the target: it has been there before
        have hb : above <+: b :=
          (List.prefix_or_prefix_of_prefix habove (List.prefix_append b rest)).resolve_right hbelow
        have hne : above ≠ b := fun heq => hbelow (heq ▸ List.prefix_refl _)
        have hparent : above <+: b.dropLast := prefix_dropLast hb hne
        exact List.mem_map.mpr ⟨above, tree.closed _ h.parent_mem _ hparent,
          relocate_of_not b (h.not_prefix hb hne)⟩
    · rw [relocate_of_not b had] at habove
      have hnot : ¬ a <+: above := fun ha => had (ha.trans habove)
      exact List.mem_map.mpr ⟨above, tree.closed d hd above habove, relocate_of_not b hnot⟩

theorem mem_rename {tree : DirTree α} {a b dir : List α} (h : tree.Renames a b) (hdir : dir ∈ tree) :
    relocate a b dir ∈ tree.rename a b h :=
  List.mem_map_of_mem hdir

end DirTree

import SweGateway.Lib.PathPrefix
import SweGateway.Xtask.Manifest

/-!
# What a rename does to the paths of a manifest

A rename of a directory should move the paths that are the directory's or lie under it, and no
others: `MovesPath` compares a path before and after component by component.

`updateCargoTomlPaths` looks for the text of the directory instead, and replaces it wherever it
occurs.  So a sibling whose name begins with the directory's name is changed too
(`sibling_renamed`).  `movesPaths_iff` is the exact condition: what is found is under the directory,
the text of the directory occurs in it once and in front, and the new text fits in its place
(`RenamesCleanly`).

The proof is path by path.  A path that is not under the directory stays exactly if it is not found,
as replacing changes every text that it finds something in (`replace_eq_self_iff`).  A path under it
is changed at one place only if the text occurs once (`exists_split_eq`).
-/

namespace SweGateway.Xtask.Manifest

open LexicalPath TextReplace

/-- The components of the path after the directory `source`, put after those of `target`. -/
def movedParts (source target path : List Char) : Path (List Char) :=
  parts target ++ (parts path).drop (parts source).length

/-- The path once `target` has taken the place of `source` at its front, if it is at or under
`source`: the components follow, and at most that piece of the text has changed. -/
structure MovedInFront (source target path newPath : List Char) : Prop where
  parts_eq : parts newPath = movedParts source target path
  once : newPath = path ∨ ∃ front rest, relative front = [] ∧
    path = front ++ (source ++ rest) ∧ newPath = front ++ (target ++ rest)

/-- The path after the directory `source` has been moved to `target`: what is at or under `source`
is now under `target`, and the rest stays where it is. -/
def MovesPath (source target path newPath : List Char) : Prop :=
  if Under source path then MovedInFront source target path newPath else newPath = path

/-- The paths of the second manifest are those of the first one after the directory `source` has
been moved to `target`. -/
structure MovesPaths (source target : List Char) (before after : Manifest) : Prop where
  members : List.Forall₂ (MovesPath source target) before.memberPaths after.memberPaths
  dependencies : List.Forall₂ (MovesPath source target) before.dependencyPaths
    after.dependencyPaths

/-- The text of the directory occurs once in the path, with dots before it at most, and the new text
fits in its place: the components of the rest follow those of the new text. -/
def NamedOnce (source target path : List Char) : Prop :=
  match split source path with
  | [front, rest] =>
    relative front = [] ∧ parts (front ++ (target ++ rest)) = movedParts source target path
  | _ => False

/-- A path under the directory names it once and in front, if it is found, and a path that is not
under it is not found.  A path under the directory that is not found may stay if the directory is
the same. -/
def NamedInFront (found : List Char → Prop) [DecidablePred found] (source target path : List Char) :
    Prop :=
  if Under source path then
    if found path then NamedOnce source target path else parts target = parts source
  else ¬ found path

/-- Every path of the manifest that the rename of the directory should change is found, and is
found in front only. -/
structure RenamesCleanly (source target : List Char) (doc : Manifest) : Prop where
  members : ∀ path ∈ doc.memberPaths, NamedInFront (memberMatches source) source target path
  tableDependencies :
    ∀ path ∈ doc.tableDependencyPaths, NamedInFront (source <:+: ·) source target path
  /-- An inline table is not updated at all. -/
  inlineDependencies :
    ∀ path ∈ doc.inlineDependencyPaths, Under source path → parts target = parts source

theorem infix_of_memberMatches {source path : List Char} (h : memberMatches source path) :
    source <:+: path := by
  have hslash : source <:+: '/' :: source := (List.suffix_cons '/' source).isInfix
  rcases h with h | h | h
  · exact h.isInfix
  · have hfront : '/' :: source <+: '/' :: source ++ ['/'] := List.prefix_append _ _
    exact hslash.trans (hfront.isInfix.trans h)
  · exact hslash.trans h

/-- A path under the directory that stays is moved as it should be exactly if the directory stays,
component by component. -/
theorem parts_eq_movedParts_iff {source target path : List Char} (h : Under source path) :
    parts path = movedParts source target path ↔ parts target = parts source := by
  conv_lhs => lhs; rw [h.parts_eq]
  rw [movedParts, List.append_cancel_right_eq]
  exact eq_comm

theorem movedInFront_self_iff {source target path : List Char} (h : Under source path) :
    MovedInFront source target path path ↔ parts target = parts source := by
  rw [← parts_eq_movedParts_iff h]
  constructor
  · exact fun hmoved => hmoved.parts_eq
  · exact fun hparts => ⟨hparts, .inl rfl⟩

/-- Replacing moves a path in which it finds something exactly if the text occurs once, in front. -/
theorem movedInFront_replace_iff {source target path : List Char} (htarget : target ≠ source)
    (hin : source <:+: path) :
    MovedInFront source target path (replace source target path) ↔
      NamedOnce source target path := by
  have hold := intercalate_split source path
  have hnew := replace_eq_intercalate source target path
  unfold NamedOnce
  constructor
  · rintro ⟨hparts, hsame | ⟨front, rest, hfront, hpath, hreplace⟩⟩
    · exact ((replace_eq_self_iff.mp hsame).elim htarget fun hnot => hnot hin).elim
    · obtain ⟨front', rest', hsplit, hprefix⟩ := exists_split_eq htarget hpath hreplace
      rw [hsplit, List.intercalate_cons_cons, List.intercalate_singleton, List.append_assoc] at hnew
      rw [hsplit]
      exact ⟨relative_of_prefix_eq_nil hprefix hfront, hnew ▸ hparts⟩
  · intro h
    split at h
    · next front rest hsplit =>
      rw [hsplit, List.intercalate_cons_cons, List.intercalate_singleton, List.append_assoc]
        at hold hnew
      rw [hnew]
      exact ⟨h.2, .inr ⟨front, rest, h.1, hold.symm, rfl⟩⟩
    · exact h.elim

/-- **One path.**  It is moved as it should be exactly if the directory is the same text or the path
names it in front at most. -/
theorem movesPath_iff {source target path : List Char} {found : List Char → Prop}
    [DecidablePred found] (hfound : ∀ {path}, found path → source <:+: path) :
    MovesPath source target path (if found path then replace source target path else path) ↔
      target = source ∨ NamedInFront found source target path := by
  by_cases htarget : target = source
  · -- nothing changes
    subst htarget
    rw [replace_self, ite_self]
    refine iff_of_true ?_ (.inl rfl)
    unfold MovesPath
    split
    · next hunder => exact (movedInFront_self_iff hunder).mpr rfl
    · rfl
  · rw [or_iff_right htarget]
    unfold MovesPath NamedInFront
    by_cases hunder : Under source path
    · rw [if_pos hunder, if_pos hunder]
      by_cases hfind : found path
      · rw [if_pos hfind, if_pos hfind]
        exact movedInFront_replace_iff htarget (hfound hfind)
      · rw [if_neg hfind, if_neg hfind]
        exact movedInFront_self_iff hunder
    · rw [if_neg hunder, if_neg hunder]
      by_cases hfind : found path
      · have hin := hfound hfind
        rw [if_pos hfind, replace_eq_self_iff]
        simp only [htarget, hin, hfind, not_true_eq_false, or_self]
      · rw [if_neg hfind]
        simp only [hfind, not_false_eq_true]

/-- A path that is not touched is moved as it should be exactly if it is not under the directory, or
the directory is the same. -/
theorem movesPath_self_iff {source target path : List Char} :
    MovesPath source target path path ↔
      target = source ∨ (Under source path → parts target = parts source) := by
  have hsame : target = source → Under source path → parts target = parts source := by
    rintro rfl -
    rfl
  rw [or_iff_right_of_imp hsame]
  unfold MovesPath
  by_cases hunder : Under source path
  · rw [if_pos hunder, movedInFront_self_iff hunder, forall_prop_of_true hunder]
  · rw [if_neg hunder]
    simp only [hunder, false_imp_iff]

/-- A statement about all elements of a list, or about none of them. -/
theorem forall_or_iff {α : Type} {l : List α} {p : Prop} {q : α → Prop} :
    (∀ a ∈ l, p ∨ q a) ↔ p ∨ ∀ a ∈ l, q a := by
  by_cases hp : p
  · simp [hp]
  · simp [hp]

/-- All paths of a list that is gone through. -/
theorem forall₂_map_iff {α : Type} {R : α → α → Prop} {f : α → α} {l : List α} :
    List.Forall₂ R l (l.map f) ↔ ∀ a ∈ l, R a (f a) := by
  rw [List.forall₂_map_right_iff, List.forall₂_same]

/-- Two pairs of lists, one after the other. -/
theorem forall₂_append_iff {α : Type} {R : α → α → Prop} {l₁ l₂ l₁' l₂' : List α}
    (h : l₁.length = l₁'.length) :
    List.Forall₂ R (l₁ ++ l₂) (l₁' ++ l₂') ↔ List.Forall₂ R l₁ l₁' ∧ List.Forall₂ R l₂ l₂' := by
  induction l₁ generalizing l₁' with
  | nil =>
    obtain rfl : l₁' = [] := List.eq_nil_of_length_eq_zero h.symm
    simp
  | cons a l₁ ih =>
    cases l₁' with
    | nil => simp at h
    | cons a' l₁' =>
      rw [List.cons_append, List.cons_append, List.forall₂_cons, List.forall₂_cons,
        ih (Nat.succ.inj h), and_assoc]

/-- **The exact condition.**  After `updateCargoTomlPaths` the paths of the manifest are those of
the directory moved from `source` to `target` exactly if the two are the same text, or every path
names the directory in front if it is under it and is not found otherwise. -/
theorem movesPaths_iff (source target : List Char) (doc : Manifest) :
    MovesPaths source target doc (updateCargoTomlPaths source target doc) ↔
      target = source ∨ RenamesCleanly source target doc := by
  -- members are found at the front or after a slash
  have hmembers : List.Forall₂ (MovesPath source target) doc.memberPaths
        (updateCargoTomlPaths source target doc).memberPaths ↔
      target = source ∨
        ∀ path ∈ doc.memberPaths, NamedInFront (memberMatches source) source target path := by
    unfold updateCargoTomlPaths updateDependencyPaths
    rw [memberPaths_updateDependencies, memberPaths_updateMembers, forall₂_map_iff, ← forall_or_iff]
    exact forall₂_congr fun path _ => movesPath_iff infix_of_memberMatches
  -- dependencies are found anywhere in a path, and those of an inline table are not looked at
  have hdependencies : List.Forall₂ (MovesPath source target) doc.dependencyPaths
        (updateCargoTomlPaths source target doc).dependencyPaths ↔
      (target = source ∨
        ∀ path ∈ doc.tableDependencyPaths, NamedInFront (source <:+: ·) source target path) ∧
      (target = source ∨
        ∀ path ∈ doc.inlineDependencyPaths, Under source path → parts target = parts source) := by
    unfold updateCargoTomlPaths updateDependencyPaths dependencyPaths
    rw [tableDependencyPaths_updateDependencies, inlineDependencyPaths_updateDependencies,
      tableDependencyPaths_updateMembers, inlineDependencyPaths_updateMembers,
      forall₂_append_iff (by simp), forall₂_map_iff, List.forall₂_same, ← forall_or_iff,
      ← forall_or_iff]
    exact and_congr (forall₂_congr fun path _ => movesPath_iff id)
      (forall₂_congr fun path _ => movesPath_self_iff)
  constructor
  · intro h
    obtain hm := hmembers.mp h.members
    obtain ⟨ht, hi⟩ := hdependencies.mp h.dependencies
    by_cases htarget : target = source
    · exact .inl htarget
    · exact .inr ⟨hm.resolve_left htarget, ht.resolve_left htarget, hi.resolve_left htarget⟩
  · rintro (htarget | ⟨hm, ht, hi⟩)
    · exact ⟨hmembers.mpr (.inl htarget), hdependencies.mpr ⟨.inl htarget, .inl htarget⟩⟩
    · exact ⟨hmembers.mpr (.inr hm), hdependencies.mpr ⟨.inr ht, .inr hi⟩⟩

/-- The members `foo` and `foobar`. -/
def siblings : Manifest where
  members := .value (.array [.string "foo".toList, .string "foobar".toList])
  dependencies := .none

/-- The rename of `foo` to `qux` changes the path of its sibling `foobar`. -/
theorem sibling_renamed :
    ¬ MovesPaths "foo".toList "qux".toList siblings
      (updateCargoTomlPaths "foo".toList "qux".toList siblings) := by
  intro h
  have hmembers := h.members
  have hafter : (updateCargoTomlPaths "foo".toList "qux".toList siblings).memberPaths =
      ["qux".toList, "quxbar".toList] := by decide
  rw [hafter] at hmembers
  obtain ⟨-, hsibling⟩ := List.forall₂_cons.mp hmembers
  have hmoves := (List.forall₂_cons.mp hsibling).1
  rw [MovesPath, if_neg (by decide)] at hmoves
  revert hmoves
  decide

end SweGateway.Xtask.Manifest

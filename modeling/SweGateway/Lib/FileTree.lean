import Mathlib.Data.List.Infix
import Mathlib.Data.Nat.Notation

/-!
# Walking through the files of a directory

A set of files is given by the names on the way to each of them, and has the directories that these
names lead through.  `Listing` is a way to list the directories; the order in which the names of a
directory are listed, and whether some are listed again, is left open.

`Listing.walk` is the usual recursion, which skips some names.  If no file is a directory, too, it
finds the files that no skipped name leads to (`Listing.mem_walk`).
-/

namespace FileTree

variable {α : Type} [DecidableEq α]

/-- The names lead to a directory: some of the files are below. -/
def IsDir (files : List (List α)) (p : List α) : Prop := ∃ file ∈ files, p <+: file ∧ p ≠ file

instance (files : List (List α)) (p : List α) : Decidable (IsDir files p) :=
  inferInstanceAs (Decidable (∃ file ∈ files, p <+: file ∧ p ≠ file))

/-- The names lead to a file. -/
def isFile (files : List (List α)) (p : List α) : Bool := files.contains p

theorem isFile_iff {files : List (List α)} {p : List α} : isFile files p = true ↔ p ∈ files :=
  List.contains_iff_mem

/-- No file is a directory, too. -/
def IsTree (files : List (List α)) : Prop := ∀ file ∈ files, ¬ IsDir files file

/-- The number of names on the longest way to a file. -/
def depth (files : List (List α)) : ℕ := (files.map List.length).foldr max 0

omit [DecidableEq α] in
theorem length_le_depth {files : List (List α)} {file : List α} (h : file ∈ files) :
    file.length ≤ depth files := by
  induction files with
  | nil => cases h
  | cons f files ih =>
    show _ ≤ max f.length (depth files)
    rcases List.mem_cons.mp h with rfl | h
    · exact le_max_left _ _
    · exact (ih h).trans (le_max_right _ _)

/-- The names in each of the directories. -/
structure Listing (files : List (List α)) where
  names : List α → List α
  mem_names : ∀ dir n, n ∈ names dir ↔ ∃ file ∈ files, dir ++ [n] <+: file

namespace Listing

variable {files : List (List α)}

/-- The names in the order of the files. -/
def ofFiles (files : List (List α)) : Listing files where
  names dir := files.filterMap fun file => if dir <+: file then file[dir.length]? else none
  mem_names dir n := by
    rw [List.mem_filterMap]
    refine exists_congr fun file => and_congr_right fun _ => ?_
    constructor
    · intro h
      split at h
      · next hpre =>
        obtain ⟨rest, rfl⟩ := hpre
        rw [List.getElem?_append_right le_rfl, Nat.sub_self] at h
        obtain ⟨rest, rfl⟩ : ∃ rest', rest = n :: rest' := by
          cases rest with
          | nil => cases h
          | cons m rest => exact ⟨rest, by rw [Option.some.inj h]⟩
        exact ⟨rest, by rw [List.append_assoc]; rfl⟩
      · cases h
    · rintro ⟨rest, rfl⟩
      rw [List.append_assoc, if_pos (List.prefix_append _ _),
        List.getElem?_append_right le_rfl, Nat.sub_self]
      rfl

/-- The files below a directory, but for those that a skipped name leads to. -/
def walk (listing : Listing files) (skip : α → Bool) : ℕ → List α → List (List α)
  | 0, _ => []
  | fuel + 1, dir => (listing.names dir).flatMap fun n =>
    if skip n then []
    else if IsDir files (dir ++ [n]) then listing.walk skip fuel (dir ++ [n])
    else if isFile files (dir ++ [n]) then [dir ++ [n]]
    else []

/-- **Walking** finds all the files that no skipped name leads to, if it may go down far enough. -/
theorem mem_walk (listing : Listing files) (htree : IsTree files) (skip : α → Bool) (fuel : ℕ)
    {dir : List α} (hfuel : depth files ≤ fuel + dir.length) {p : List α} :
    p ∈ listing.walk skip fuel dir ↔
      p ∈ files ∧ ∃ rest, rest ≠ [] ∧ p = dir ++ rest ∧ ∀ n ∈ rest, skip n = false := by
  induction fuel generalizing dir with
  | zero =>
    refine iff_of_false List.not_mem_nil ?_
    rintro ⟨hp, rest, hrest, rfl, -⟩
    have hle := (length_le_depth hp).trans hfuel
    rw [List.length_append] at hle
    have := List.length_pos_iff.mpr hrest
    omega
  | succ fuel ih =>
    have ih := fun n => @ih (dir ++ [n]) (by rw [List.length_append, List.length_singleton]; omega)
    rw [walk, List.mem_flatMap]
    constructor
    · -- the branches of the walk: skipped, a directory, a file
      rintro ⟨n, hn, hp⟩
      split at hp
      · cases hp
      next hskip =>
      have hskip : skip n = false := by simpa using hskip
      split at hp
      · obtain ⟨hmem, rest, -, rfl, hrest⟩ := (ih n).mp hp
        refine ⟨hmem, n :: rest, List.cons_ne_nil _ _, by rw [List.append_assoc]; rfl, ?_⟩
        exact List.forall_mem_cons.mpr ⟨hskip, hrest⟩
      · split at hp
        · next hmem =>
          obtain rfl := List.mem_singleton.mp hp
          refine ⟨isFile_iff.mp hmem, [n], List.cons_ne_nil _ _, rfl, ?_⟩
          exact List.forall_mem_singleton.mpr hskip
        · cases hp
    · rintro ⟨hmem, rest, hne, rfl, hrest⟩
      obtain ⟨n, rest, rfl⟩ := List.exists_cons_of_ne_nil hne
      have hsplit : dir ++ n :: rest = dir ++ [n] ++ rest := by rw [List.append_assoc]; rfl
      obtain ⟨hskip, hrest⟩ := List.forall_mem_cons.mp hrest
      refine ⟨n, (listing.mem_names dir n).mpr ⟨_, hmem, rest, hsplit.symm⟩, ?_⟩
      rw [if_neg (by rw [hskip]; exact Bool.false_ne_true)]
      by_cases hnil : rest = []
      · subst hnil
        rw [if_neg (htree _ hmem), if_pos (isFile_iff.mpr hmem)]
        exact List.mem_singleton_self _
      · have hdir : IsDir files (dir ++ [n]) := by
          refine ⟨_, hmem, ⟨rest, hsplit.symm⟩, fun heq => hnil ?_⟩
          rw [hsplit] at heq
          exact List.self_eq_append_right.mp heq
        rw [if_pos hdir]
        exact (ih n).mpr ⟨hmem, rest, hnil, hsplit, hrest⟩

end Listing

end FileTree

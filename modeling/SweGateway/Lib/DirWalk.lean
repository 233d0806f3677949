import SweGateway.Lib.DirTree
import SweGateway.Lib.LexicalPath

/-!
# Walking a path through a tree

The operating system follows a path one component after the other and fails at the first directory
that is not there, also where the path leaves it again by `..`.  `Walks` says that it comes through;
it is then in the directory that `resolve` gives.

Where that directory is there, so is everything above it.  Hence a path walks if only the
directories that it leaves by `..` are there as well (`walks_iff_of_mem`).
-/

namespace DirTree

open LexicalPath

variable {α : Type} {tree : DirTree α} {dir : List α}

/-- From the directory `dir`, every path at the front of `path` leads to a directory of the tree. -/
def Walks (tree : DirTree α) (dir : List α) (path : Path α) : Prop :=
  ∀ front ∈ path.inits, resolve dir front ∈ tree

instance [DecidableEq α] (tree : DirTree α) (dir : List α) (path : Path α) :
    Decidable (tree.Walks dir path) :=
  inferInstanceAs (Decidable (∀ front ∈ path.inits, resolve dir front ∈ tree))

theorem Walks.mem {path : Path α} (h : tree.Walks dir path) : resolve dir path ∈ tree :=
  h path ((List.mem_inits _ _).mpr List.prefix_rfl)

/-- A path in two parts. -/
theorem walks_append_iff {path path' : Path α} :
    tree.Walks dir (path ++ path') ↔ tree.Walks dir path ∧ tree.Walks (resolve dir path) path' := by
  simp only [Walks, List.mem_inits, forall_prefix_append_iff, resolve_append]

/-- One component more. -/
theorem walks_concat_iff {path : Path α} {c : Component α} :
    tree.Walks dir (path ++ [c]) ↔ tree.Walks dir path ∧ resolve dir (path ++ [c]) ∈ tree := by
  constructor
  · intro h
    exact ⟨(walks_append_iff.mp h).1, h.mem⟩
  · rintro ⟨hpath, hmem⟩
    refine walks_append_iff.mpr ⟨hpath, fun front hfront => ?_⟩
    rw [List.mem_inits] at hfront
    rcases List.prefix_cons_iff.mp hfront with rfl | ⟨rest, rfl, hrest⟩
    · exact hpath.mem
    · rw [List.prefix_nil.mp hrest, ← resolve_append]
      exact hmem

/-- **A path walks** to a directory of the tree if the directories that it leaves by `..` are there
too. -/
theorem walks_iff_of_mem {path : Path α} (hroot : .root ∉ path.tail)
    (hmem : resolve [] path ∈ tree) :
    tree.Walks [] path ↔
      ∀ front ∈ path.inits, front ++ [.up] <+: path → resolve [] front ∈ tree := by
  constructor
  · exact fun h front hfront _ => h front hfront
  induction path using List.reverseRecOn with
  | nil =>
    intro _ front hfront
    rw [List.mem_inits, List.prefix_nil] at hfront
    rw [hfront]
    exact hmem
  | append_singleton path c ih =>
    intro hup
    -- without its last component the path is in the tree, too
    have hpath : resolve [] path ∈ tree := by
      have hwalk : walk (resolve [] path) c ∈ tree := by
        rw [resolve_append] at hmem
        exact hmem
      cases c with
      | root =>
        have hnil : path = [] := by
          cases path with
          | nil => rfl
          | cons c path => simp at hroot
        rw [hnil]
        exact hwalk
      | here => exact hwalk
      | up => exact hup path ((List.mem_inits _ _).mpr (List.prefix_append _ _)) List.prefix_rfl
      | name n => exact mem_of_isPrefix hwalk (List.prefix_append _ _)
    have hroot' : .root ∉ path.tail := by
      intro h
      cases path with
      | nil => cases h
      | cons c' path => exact hroot (List.mem_append_left _ h)
    refine walks_concat_iff.mpr ⟨ih hroot' hpath fun front hfront hfront' => ?_, hmem⟩
    rw [List.mem_inits] at hfront
    exact hup front ((List.mem_inits _ _).mpr (hfront.trans (List.prefix_append _ _)))
      (hfront'.trans (List.prefix_append _ _))

/-- Joined to another path, a text walks on from where that leads. -/
theorem walks_join_iff {tree : DirTree (List Char)} {base text : List Char}
    (h : text.head? ≠ some '/') :
    tree.Walks [] (components (join base text)) ↔
      tree.Walks [] (components base) ∧
        tree.Walks (resolve [] (components base)) (relative text) := by
  by_cases hbase : base = []
  · subst hbase
    have hstart : ∀ front ∈ (start text).inits, resolve ([] : List (List Char)) front = [] := by
      intro front hfront
      rw [List.mem_inits, start, if_neg h] at hfront
      split_ifs at hfront
      · rcases List.prefix_cons_iff.mp hfront with rfl | ⟨rest, rfl, hrest⟩
        · rfl
        · rw [List.prefix_nil.mp hrest]
          rfl
      · rw [List.prefix_nil.mp hfront]
        rfl
    rw [join_nil, components, walks_append_iff, resolve_start_of_relative h]
    refine and_congr_left fun hwalks => ?_
    have hnil : ([] : List (List Char)) ∈ tree := mem_of_isPrefix hwalks.mem List.nil_prefix
    refine iff_of_true (fun front hfront => ?_) (fun front hfront => ?_)
    · rw [hstart front hfront]
      exact hnil
    · have hcomp : components ([] : List Char) = [] := by simp [components, start]
      rw [List.mem_inits, hcomp, List.prefix_nil] at hfront
      rw [hfront]
      exact hnil
  · rw [components_join hbase h, walks_append_iff]

end DirTree

import Mathlib.Data.Nat.Notation
import Mathlib.Data.List.Infix

/-!
# Paths, read component by component

A path is a list of components over some type of names, and `resolve dir path` is the directory that
it leads to from `dir`, itself a list of names from the root down.  This is what a path denotes when
no symbolic link is involved: `up` removes the last name, and stays at the root.

A path without a root component ends up some levels above its start and then goes down along some
names; `climb` computes the two (`resolve_eq_of_climb`).  So where a path leads below its start is a
question about the names it comes back down along (`prefix_resolve_iff`): it must come back through
the directories that it climbed out of.

The second part reads Unix path texts: `components` splits a text into components, `join` appends a
path to another, and `resolve_join` says that joining texts resolves one path after the other.  A
separator or a `/.` at the end of a text is no component, so paths that differ in it are the same
here, though an operating system that is handed the texts need not treat them alike.
-/

namespace LexicalPath

/-- A component of a path: the root, the current directory, the parent directory, or a name. -/
inductive Component (α : Type) where
  | root
  | here
  | up
  | name (n : α)
  deriving DecidableEq, Repr

/-- A path. -/
abbrev Path (α : Type) := List (Component α)

variable {α : Type}

/-! ### Where a path leads -/

/-- One component, from the directory `dir`. -/
def walk (dir : List α) : Component α → List α
  | .root => []
  | .here => dir
  | .up => dir.dropLast
  | .name n => dir ++ [n]

/-- The directory that the path leads to from `dir`. -/
def resolve (dir : List α) (path : Path α) : List α := path.foldl walk dir

@[simp] theorem resolve_nil (dir : List α) : resolve dir [] = dir := rfl

@[simp] theorem resolve_append (dir : List α) (path path' : Path α) :
    resolve dir (path ++ path') = resolve (resolve dir path) path' :=
  List.foldl_append

/-- One component of a climb: how many levels above the start, and the names down from there. -/
def climbStep : ℕ × List α → Component α → ℕ × List α
  | (ups, names), .up => if names.isEmpty then (ups + 1, []) else (ups, names.dropLast)
  | (ups, names), .name n => (ups, names ++ [n])
  | s, _ => s

/-- How many levels above its start a path ends up, and the names it goes down from there. -/
def climb (path : Path α) : ℕ × List α := path.foldl climbStep (0, [])

theorem climb_concat (path : Path α) (c : Component α) :
    climb (path ++ [c]) = climbStep (climb path) c := by
  simp [climb]

/-- **A path without a root** leads up `(climb path).1` levels and down the names
`(climb path).2`. -/
theorem resolve_eq_of_climb (dir : List α) {path : Path α} (h : .root ∉ path) :
    resolve dir path = dir.take (dir.length - (climb path).1) ++ (climb path).2 := by
  induction path using List.reverseRecOn with
  | nil => simp [climb]
  | append_singleton path c ih =>
    rw [List.mem_append, not_or] at h
    rw [resolve_append, ih h.1, climb_concat]
    show walk _ c = _
    obtain ⟨ups, names⟩ := climb path
    cases c with
    | root => simp at h
    | here => rfl
    | name n => simp [walk, climbStep]
    | up =>
      rw [climbStep]
      by_cases hn : names = []
      · subst hn
        simp only [List.isEmpty_nil, if_true, walk, List.append_nil]
        rw [List.dropLast_eq_take, List.take_take, List.length_take]
        congr 1
        omega
      · rw [if_neg (by simpa using hn)]
        simp only [walk]
        rw [List.dropLast_append_of_ne_nil hn]

/-- The path comes back down through the directories that it climbed out of: from `dir`, the names
it goes down along begin with the last names of `dir`, as many as the levels it climbed. -/
def Reenters (dir : List α) (path : Path α) : Prop :=
  dir.drop (dir.length - (climb path).1) <+: (climb path).2

instance [DecidableEq α] (dir : List α) (path : Path α) : Decidable (Reenters dir path) :=
  inferInstanceAs (Decidable (_ <+: _))

/-- **Containment.** A path without a root leads to a directory at or below its start exactly if it
comes back down through the directories that it climbed out of. -/
theorem prefix_resolve_iff (dir : List α) {path : Path α} (h : .root ∉ path) :
    dir <+: resolve dir path ↔ Reenters dir path := by
  rw [resolve_eq_of_climb dir h, Reenters]
  conv_lhs => lhs; rw [← List.take_append_drop (dir.length - (climb path).1) dir]
  exact List.prefix_append_right_inj _

/-- The parent of a path, if it has one: the path without its last component. -/
def parent (path : Path α) : Option (Path α) :=
  match path.getLast? with
  | none | some .root => none
  | some _ => some path.dropLast

theorem parent_concat (path : Path α) {c : Component α} (h : c ≠ .root) :
    parent (path ++ [c]) = some path := by
  unfold parent
  rw [List.getLast?_concat, List.dropLast_concat]
  cases c with
  | root => exact absurd rfl h
  | here | up | name => rfl

/-! ### Path texts -/

/-- The component that a piece between separators stands for; empty pieces and dots stand for
none. -/
def ofPiece : List Char → Option (Component (List Char))
  | [] => none
  | ['.'] => none
  | ['.', '.'] => some .up
  | piece => some (.name piece)

/-- The components between the separators of a text. -/
def relative (text : List Char) : Path (List Char) := (text.splitOn '/').filterMap ofPiece

/-- What a text begins with: the root, or the dot of a path like `./a`. -/
def start (text : List Char) : Path (List Char) :=
  if text.head? = some '/' then [.root]
  else if (text.splitOn '/').head? = some ['.'] then [.here]
  else []

/-- The components of a path text. -/
def components (text : List Char) : Path (List Char) := start text ++ relative text

/-- Appends a path text to another: an absolute one replaces it. -/
def join (base text : List Char) : List Char :=
  if text.head? = some '/' then text
  else if base = [] ∨ base.getLast? = some '/' then base ++ text
  else base ++ '/' :: text

/-- The text without separators and dots at its front. -/
def trimStart : List Char → List Char
  | '/' :: text => trimStart text
  | ['.'] => []
  | '.' :: '/' :: text => trimStart text
  | text => text

/-- The text after the components of a path at its front. -/
def advance : Path (List Char) → List Char → List Char
  | [], text => text
  | .root :: path, text => advance path (text.drop 1)
  | .here :: path, text => advance path (text.drop 1)
  | _ :: path, text => advance path ((trimStart text).dropWhile (· ≠ '/'))

/-- The rest of a path text after a base, if the base is at its front. -/
def stripPrefix (base text : List Char) : Option (List Char) :=
  if (components base).isPrefixOf (components text) then
    if components base = [] then some text
    else some (trimStart (advance (components base) text))
  else none

/-- What holds at the front of a path in two parts. -/
theorem forall_prefix_append_iff {P : Path α → Prop} {path path' : Path α} :
    (∀ front, front <+: path ++ path' → P front) ↔
      (∀ front, front <+: path → P front) ∧ ∀ front, front <+: path' → P (path ++ front) := by
  constructor
  · intro h
    exact ⟨fun front hfront => h front (hfront.trans (List.prefix_append _ _)),
      fun front hfront => h _ ((List.prefix_append_right_inj path).mpr hfront)⟩
  · rintro ⟨hpath, hpath'⟩ front hfront
    rcases List.prefix_or_prefix_of_prefix hfront (List.prefix_append path path') with
      h | ⟨rest, rfl⟩
    · exact hpath front h
    · exact hpath' rest ((List.prefix_append_right_inj path).mp hfront)

theorem ofPiece_ne_root (piece : List Char) : ofPiece piece ≠ some .root := by
  unfold ofPiece
  split <;> simp

theorem root_not_mem_relative (text : List Char) : .root ∉ relative text := by
  intro h
  obtain ⟨piece, -, hpiece⟩ := List.mem_filterMap.mp h
  exact ofPiece_ne_root piece hpiece

/-- Only a path's first component can be the root. -/
theorem root_not_mem_tail_components (text : List Char) : .root ∉ (components text).tail := by
  have hrelative := root_not_mem_relative text
  unfold components start
  split_ifs
  · exact hrelative
  · exact hrelative
  · exact fun h => hrelative (List.mem_of_mem_tail h)

theorem relative_append (text text' : List Char) :
    relative (text ++ '/' :: text') = relative text ++ relative text' := by
  rw [relative, List.splitOn_append_cons_self, List.filterMap_append]
  rfl

@[simp] theorem relative_nil : relative [] = [] := by
  simp [relative, ofPiece]

/-- What a text begins with does not depend on what follows a separator in it. -/
theorem start_append {text : List Char} (h : text ≠ []) (rest : List Char) :
    start (text ++ '/' :: rest) = start text := by
  have hhead : (text ++ '/' :: rest).head? = text.head? := by
    cases text with
    | nil => exact absurd rfl h
    | cons c text => rfl
  have hpiece : ((text ++ '/' :: rest).splitOn '/').head? = (text.splitOn '/').head? := by
    rw [List.splitOn_append_cons_self, List.head?_append_of_ne_nil _ (List.splitOn_ne_nil '/' text)]
  rw [start, start, hhead, hpiece]

/-- The dot that a text begins with leads nowhere. -/
theorem resolve_start_of_relative {text : List Char} (h : text.head? ≠ some '/')
    (dir : List (List Char)) : resolve dir (start text) = dir := by
  unfold start
  rw [if_neg h]
  split_ifs <;> rfl

/-- **Joining** a relative text to a base appends its components. -/
theorem components_join {base text : List Char} (hbase : base ≠ [])
    (h : text.head? ≠ some '/') :
    components (join base text) = components base ++ relative text := by
  unfold join
  rw [if_neg h]
  by_cases hsep : base.getLast? = some '/'
  · -- the separator is there already
    rw [if_pos (.inr hsep)]
    obtain ⟨b, rfl⟩ : ∃ b, base = b ++ ['/'] :=
      ⟨base.dropLast, (List.dropLast_append_getLast? '/' hsep).symm⟩
    have hstart : start (b ++ '/' :: text) = start (b ++ ['/']) := by
      by_cases hb : b = []
      · subst hb
        simp [start]
      · rw [start_append hb, start_append hb]
    rw [List.append_assoc, List.singleton_append]
    simp only [components, hstart, relative_append, relative_nil, List.append_nil,
      List.append_assoc]
  · rw [if_neg (by simp [hbase, hsep])]
    simp only [components, start_append hbase, relative_append, List.append_assoc]

/-- Joined to an empty base, a text stays as it is. -/
@[simp] theorem join_nil (text : List Char) : join [] text = text := by
  simp [join]

/-- A joined text resolves after its base. -/
theorem resolve_join {base text : List Char} (h : text.head? ≠ some '/') (dir : List (List Char)) :
    resolve dir (components (join base text)) =
      resolve (resolve dir (components base)) (relative text) := by
  by_cases hbase : base = []
  · subst hbase
    rw [join_nil, components, resolve_append, resolve_start_of_relative h]
    simp [components, start]
  · rw [components_join hbase h, resolve_append]

/-! ### Path texts, piece by piece -/

/-- What stands between the separators of a text. -/
def pieces (text : List Char) : List (List Char) := text.splitOn '/'

/-- Changing the characters of joined pieces changes those of each piece. -/
theorem map_intercalate (f : Char → Char) (sep : List Char) : ∀ pieces : List (List Char),
    (sep.intercalate pieces).map f = (sep.map f).intercalate (pieces.map (List.map f))
  | [] => rfl
  | [piece] => by rw [List.intercalate_singleton, List.map_singleton, List.intercalate_singleton]
  | piece :: next :: pieces => by
    rw [List.intercalate_cons_cons, List.map_append, List.map_append,
      map_intercalate f sep (next :: pieces)]
    exact List.intercalate_cons_cons.symm

/-! ### One path under another -/

/-- The components of a path text, without the dot that it may begin with. -/
def parts (text : List Char) : Path (List Char) :=
  if text.head? = some '/' then .root :: relative text else relative text

/-- The text is a path to the base or below it, component by component. -/
def Under (base text : List Char) : Prop := parts base <+: parts text

instance (base text : List Char) : Decidable (Under base text) :=
  inferInstanceAs (Decidable (_ <+: _))

/-- The components of a path below the base are those of the base and more. -/
theorem Under.parts_eq {base text : List Char} (h : Under base text) :
    parts text = parts base ++ (parts text).drop (parts base).length := by
  obtain ⟨rest, hrest⟩ := h
  rw [← hrest, List.drop_left]

end LexicalPath

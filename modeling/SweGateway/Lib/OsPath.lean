import SweGateway.Lib.PathPrefix

/-!
# Paths of the operating system

A file name need not be text.  `OsName` is a name that is, or the bytes of one that is not valid
UTF-8, and a `PathBuf` a path of such names, as its components: a separator at its end is not kept.
`PathBuf.toStringLossy` writes a path as text, where it has to make up text for the names that have
none; `lossy` does that.

`components_render` is the round trip for the paths whose names are text.
-/

namespace LexicalPath

/-- A name of a file: text, or bytes that are not valid UTF-8. -/
inductive OsName where
  | utf8 (name : List Char)
  | other (bytes : List UInt8)
  deriving DecidableEq, Repr

namespace OsName

/-- The name, if it is text. -/
def toStr : OsName → Option (List Char)
  | .utf8 name => some name
  | .other _ => none

def toStringLossy (lossy : List UInt8 → List Char) : OsName → List Char
  | .utf8 name => name
  | .other bytes => lossy bytes

end OsName

variable {α β : Type}

/-- The component with its name in another form. -/
def Component.map (f : α → β) : Component α → Component β
  | .root => .root
  | .here => .here
  | .up => .up
  | .name n => .name (f n)

/-- A path text as a path of the operating system. -/
def ofUtf8 (path : Path (List Char)) : Path OsName := path.map (Component.map OsName.utf8)

theorem isFileName_of_mem_components {text n : List Char} (h : .name n ∈ components text) :
    IsFileName n := by
  rcases List.mem_append.mp h with h | h
  · unfold start at h
    split_ifs at h <;> simp at h
  · exact isFileName_of_mem_relative h

theorem tail_components_subset (text : List Char) : (components text).tail ⊆ relative text := by
  unfold components start
  split_ifs
  · exact List.Subset.refl _
  · exact List.Subset.refl _
  · exact List.tail_subset _

/-- A path as its components: the root and the current directory only at its front, and no name that
would be read as another component. -/
structure PathBuf where
  components : Path OsName
  root_not_mem : .root ∉ components.tail
  here_not_mem : .here ∉ components.tail
  isFileName : ∀ n, .name (.utf8 n) ∈ components → IsFileName n

namespace PathBuf

/-- The empty path. -/
def empty : PathBuf := ⟨[], nofun, nofun, nofun⟩

/-- The path `.`. -/
def here : PathBuf :=
  ⟨[.here], nofun, nofun, fun _ h => nomatch List.mem_singleton.mp h⟩

/-- The path that a text is read as. -/
def ofText (text : List Char) : PathBuf where
  components := ofUtf8 (LexicalPath.components text)
  root_not_mem h := by
    rw [ofUtf8, ← List.map_tail] at h
    obtain ⟨c, hc, hroot⟩ := List.mem_map.mp h
    cases c with
    | root => exact root_not_mem_relative text (tail_components_subset text hc)
    | here | up | name => cases hroot
  here_not_mem h := by
    rw [ofUtf8, ← List.map_tail] at h
    obtain ⟨c, hc, hhere⟩ := List.mem_map.mp h
    cases c with
    | here => exact here_not_mem_relative text (tail_components_subset text hc)
    | root | up | name => cases hhere
  isFileName n h := by
    obtain ⟨c, hc, hname⟩ := List.mem_map.mp h
    cases c with
    | root | here | up => cases hname
    | name m =>
      cases hname
      exact isFileName_of_mem_components hc

/-- The path without its last component, unless this is the root. -/
def parent (path : PathBuf) : Option PathBuf :=
  match path.components.getLast? with
  | none | some .root => none
  | some _ => some {
      components := path.components.dropLast
      root_not_mem := fun h => path.root_not_mem (by
        rw [List.tail_dropLast] at h
        exact List.mem_of_mem_dropLast h)
      here_not_mem := fun h => path.here_not_mem (by
        rw [List.tail_dropLast] at h
        exact List.mem_of_mem_dropLast h)
      isFileName := fun n h => path.isFileName n (List.mem_of_mem_dropLast h) }

/-- The last component, if it is a name. -/
def fileName (path : PathBuf) : Option OsName :=
  match path.components.getLast? with
  | some (.name n) => some n
  | _ => none

/-- The path is text. -/
def IsUtf8 (path : PathBuf) : Prop := ∀ n, .name n ∈ path.components → ∃ name, n = .utf8 name

end PathBuf

/-! ### Writing paths -/

/-- The text of a component other than the root. -/
def Component.piece : Component (List Char) → List Char
  | .root => []
  | .here => ['.']
  | .up => ['.', '.']
  | .name n => n

/-- A path as text. -/
def render : Path (List Char) → List Char
  | .root :: path => '/' :: ['/'].intercalate (path.map Component.piece)
  | path => ['/'].intercalate (path.map Component.piece)

def PathBuf.toStringLossy (lossy : List UInt8 → List Char) (path : PathBuf) : List Char :=
  render (path.components.map (Component.map (OsName.toStringLossy lossy)))

/-- The path can be read back from its text. -/
structure Readable (path : Path (List Char)) : Prop where
  root_not_mem : .root ∉ path.tail
  here_not_mem : .here ∉ path.tail
  isFileName : ∀ n, .name n ∈ path → IsFileName n

theorem ofPiece_piece {c : Component (List Char)} (hroot : c ≠ .root) (hhere : c ≠ .here)
    (hname : ∀ n, c = .name n → IsFileName n) : ofPiece c.piece = some c := by
  cases c with
  | root => exact absurd rfl hroot
  | here => exact absurd rfl hhere
  | up => rfl
  | name n => exact (hname n rfl).name

theorem slash_not_mem_piece {c : Component (List Char)} (hname : ∀ n, c = .name n → IsFileName n) :
    '/' ∉ c.piece := by
  cases c with
  | root | here | up => decide
  | name n => exact (hname n rfl).slash

theorem slash_not_mem_of_mem_map_piece {path : Path (List Char)}
    (hname : ∀ n, .name n ∈ path → IsFileName n) : ∀ l ∈ path.map Component.piece, '/' ∉ l := by
  intro l hl
  obtain ⟨c, hc, rfl⟩ := List.mem_map.mp hl
  exact slash_not_mem_piece fun n hn => hname n (hn ▸ hc)

/-- Components without a root or a dot are read back from their pieces. -/
theorem relative_intercalate {path : Path (List Char)} (hroot : .root ∉ path) (hhere : .here ∉ path)
    (hname : ∀ n, .name n ∈ path → IsFileName n) :
    relative (['/'].intercalate (path.map Component.piece)) = path := by
  have hpiece : ∀ c ∈ path, ofPiece c.piece = some c := by
    intro c hc
    exact ofPiece_piece (fun h => hroot (h ▸ hc)) (fun h => hhere (h ▸ hc))
      fun n hn => hname n (hn ▸ hc)
  rw [relative_intercalate_pieces (slash_not_mem_of_mem_map_piece hname), List.filterMap_map]
  calc path.filterMap (ofPiece ∘ Component.piece) = path.filterMap some :=
        List.filterMap_congr hpiece
    _ = path := List.filterMap_some

/-- A text that begins with a component other than the root and the dot starts with neither. -/
theorem start_intercalate {c : Component (List Char)} {path : Path (List Char)} (hroot : c ≠ .root)
    (hhere : c ≠ .here) (hname : ∀ n, .name n ∈ c :: path → IsFileName n) :
    start (['/'].intercalate ((c :: path).map Component.piece)) = [] := by
  have hslash := slash_not_mem_of_mem_map_piece hname
  have hpiece := ofPiece_piece hroot hhere fun n hn => hname n (hn ▸ List.mem_cons_self)
  rw [List.map_cons] at hslash ⊢
  rw [start_eq_nil_iff, takeWhile_intercalate hslash]
  exact .inr ⟨c, hpiece⟩

theorem components_intercalate {c : Component (List Char)} {path : Path (List Char)}
    (hc : c ≠ .root) (hc' : c ≠ .here) (hroot : .root ∉ path) (hhere : .here ∉ path)
    (hname : ∀ n, .name n ∈ c :: path → IsFileName n) :
    components (['/'].intercalate ((c :: path).map Component.piece)) = c :: path := by
  have hroot' : .root ∉ c :: path := fun h => (List.mem_cons.mp h).elim (fun h => hc h.symm) hroot
  have hhere' : .here ∉ c :: path := fun h => (List.mem_cons.mp h).elim (fun h => hc' h.symm) hhere
  rw [components, start_intercalate hc hc' hname, relative_intercalate hroot' hhere' hname]
  rfl

/-- **Round trip.**  The components of the text of a path are those of the path. -/
theorem components_render {path : Path (List Char)} (h : Readable path) :
    components (render path) = path := by
  cases path with
  | nil => rfl
  | cons c path =>
    have hroot : .root ∉ path := h.root_not_mem
    have hhere : .here ∉ path := h.here_not_mem
    have hname : ∀ n, .name n ∈ path → IsFileName n :=
      fun n hn => h.isFileName n (List.mem_cons_of_mem c hn)
    have hrest := relative_intercalate hroot hhere hname
    cases c with
    | root =>
      show components ('/' :: _) = _
      rw [components, relative_slash_cons, hrest]
      rfl
    | here =>
      cases path with
      | nil => rfl
      | cons c path =>
        show components (['.'] ++ '/' :: ['/'].intercalate ((c :: path).map Component.piece)) = _
        rw [components, start_append (List.cons_ne_nil _ _), relative_append, hrest]
        rfl
    | up => exact components_intercalate (by simp) (by simp) hroot hhere h.isFileName
    | name n => exact components_intercalate (by simp) (by simp) hroot hhere h.isFileName

/-! ### Paths that are text -/

theorem Component.map_map {γ : Type} (g : β → γ) (f : α → β) (c : Component α) :
    (c.map f).map g = c.map (g ∘ f) := by
  cases c <;> rfl

theorem name_of_map_eq_name {f : α → β} {c : Component α} {n : β} (h : c.map f = .name n) :
    ∃ m, c = .name m ∧ f m = n := by
  cases c with
  | root | here | up => cases h
  | name m =>
    injection h with h
    exact ⟨m, rfl, h⟩

theorem Component.map_injective {f : α → β} (hf : Function.Injective f) :
    Function.Injective (Component.map f) := by
  intro c d h
  cases c with
  | root | here | up => cases d <;> first | rfl | cases h
  | name n =>
    obtain ⟨m, rfl, hm⟩ := name_of_map_eq_name h.symm
    rw [hf hm]

theorem ofUtf8_injective : Function.Injective ofUtf8 :=
  List.map_injective_iff.mpr (Component.map_injective fun _ _ h => OsName.utf8.inj h)

namespace PathBuf

theorem isUtf8_ofText (text : List Char) : (ofText text).IsUtf8 := by
  intro n h
  obtain ⟨c, -, hc⟩ := List.mem_map.mp h
  obtain ⟨name, -, rfl⟩ := name_of_map_eq_name hc
  exact ⟨name, rfl⟩

/-- A path that ends in a name is the one of its parent with the name. -/
theorem components_of_fileName {path : PathBuf} {n : OsName} (h : path.fileName = some n) :
    ∃ dir, path.parent = some dir ∧ path.components = dir.components ++ [.name n] := by
  have hlast : path.components.getLast? = some (.name n) := by
    unfold fileName at h
    split at h
    · next m hm =>
      obtain rfl := Option.some.inj h
      exact hm
    · cases h
  unfold parent
  rw [hlast]
  exact ⟨_, rfl, (List.dropLast_append_getLast? _ hlast).symm⟩

/-- What is written of a path that is text is read as the path. -/
theorem ofUtf8_components_toStringLossy (lossy : List UInt8 → List Char) {path : PathBuf}
    (h : path.IsUtf8) : ofUtf8 (LexicalPath.components (path.toStringLossy lossy)) =
      path.components := by
  have hback : ofUtf8 (path.components.map (Component.map (OsName.toStringLossy lossy))) =
      path.components := by
    rw [ofUtf8, List.map_map]
    conv_rhs => rw [← List.map_id path.components]
    refine List.map_congr_left fun c hc => ?_
    rw [Function.comp_apply, Component.map_map]
    cases c with
    | root | here | up => rfl
    | name n =>
      obtain ⟨name, rfl⟩ := h n hc
      rfl
  have hreadable : Readable (path.components.map (Component.map (OsName.toStringLossy lossy))) := by
    refine ⟨fun hmem => ?_, fun hmem => ?_, fun n hmem => ?_⟩
    · rw [← List.map_tail] at hmem
      obtain ⟨c, hc, hroot⟩ := List.mem_map.mp hmem
      cases c with
      | root => exact path.root_not_mem hc
      | here | up | name => cases hroot
    · rw [← List.map_tail] at hmem
      obtain ⟨c, hc, hhere⟩ := List.mem_map.mp hmem
      cases c with
      | here => exact path.here_not_mem hc
      | root | up | name => cases hhere
    · obtain ⟨c, hc, hname⟩ := List.mem_map.mp hmem
      obtain ⟨m, rfl, hm⟩ := name_of_map_eq_name hname
      obtain ⟨name, rfl⟩ := h m hc
      obtain rfl : name = n := hm
      exact path.isFileName name hc
  rw [toStringLossy, components_render hreadable, hback]

end PathBuf

end LexicalPath

import SweGateway.Lib.PathPrefix

/-!
# The parent of a path text

`parentText` is the text of the parent of a path: the text is cut before its last component, and the
separators and dots that are then at its end are cut off, too, but for the root and the dot that the
text begins with.  The components of what is left are those of the path without the last one
(`map_components_parentText`).
-/

namespace LexicalPath

/-- The pieces without those at the front that stand for no component. -/
def dropSkipped (pieces : List (List Char)) : List (List Char) :=
  pieces.dropWhile fun piece => (ofPiece piece).isNone

/-- The text of the parent of a path, if it has one. -/
def parentText (text : List Char) : Option (List Char) :=
  let front := text.take (start text).length
  let body := text.drop (start text).length
  match dropSkipped (body.splitOn '/').reverse with
  | [] => if start text = [.here] then some [] else none
  | _ :: pieces => some (front ++ ['/'].intercalate (dropSkipped pieces).reverse)

/-! ### What is skipped -/

/-- What is left begins with a component. -/
theorem dropSkipped_eq_nil_or (pieces : List (List Char)) :
    dropSkipped pieces = [] ∨
      ∃ piece c rest, dropSkipped pieces = piece :: rest ∧ ofPiece piece = some c := by
  induction pieces with
  | nil => exact .inl rfl
  | cons piece pieces ih =>
    cases hpiece : ofPiece piece with
    | none =>
      rw [dropSkipped, List.dropWhile_cons_of_pos (by simp [hpiece])]
      exact ih
    | some c =>
      refine .inr ⟨piece, c, pieces, ?_, hpiece⟩
      rw [dropSkipped, List.dropWhile_cons_of_neg (by simp [hpiece])]

theorem filterMap_dropSkipped (pieces : List (List Char)) :
    (dropSkipped pieces).filterMap ofPiece = pieces.filterMap ofPiece := by
  induction pieces with
  | nil => rfl
  | cons piece pieces ih =>
    cases hpiece : ofPiece piece with
    | none =>
      rw [dropSkipped, List.dropWhile_cons_of_pos (by simp [hpiece]),
        List.filterMap_cons_none hpiece]
      exact ih
    | some c => rw [dropSkipped, List.dropWhile_cons_of_neg (by simp [hpiece])]

/-! ### The parent -/

/-- Behind a dot, the pieces of a text are the empty one and those behind the separator. -/
theorem components_here_append {text : List Char} {pieces : List (List Char)}
    (htext : text = [] ∨ ∃ rest, text = '/' :: rest) (hpre : pieces <+: text.splitOn '/')
    (hlast : ∀ piece, pieces.getLast? = some piece → ∃ c, ofPiece piece = some c) :
    components ('.' :: ['/'].intercalate pieces) = .here :: pieces.filterMap ofPiece := by
  have hrelative := relative_intercalate_pieces fun piece hpiece =>
    TextLines.not_mem_of_mem_splitOn (hpre.subset hpiece)
  rcases pieces with _ | ⟨piece, _ | ⟨piece', pieces⟩⟩
  · rfl
  all_goals
    obtain ⟨rest, hrest⟩ := hpre
    have hpiece : piece = [] := by
      have hhead := head?_splitOn text
      rw [← hrest] at hhead
      rcases htext with rfl | ⟨rest', rfl⟩ <;> exact Option.some.inj hhead
    subst hpiece
  · obtain ⟨c, hc⟩ := hlast [] rfl
    cases hc
  · show components (['.'] ++ '/' :: ['/'].intercalate (piece' :: pieces)) = _
    have hback : relative ('/' :: ['/'].intercalate (piece' :: pieces)) = _ := hrelative
    rw [relative_slash_cons] at hback
    rw [components, start_append (List.cons_ne_nil _ _), relative_append, hback]
    rfl

/-- The pieces at the front of a text that begins with neither the root nor the dot begin so, too. -/
theorem start_intercalate_pieces {text piece : List Char} {pieces : List (List Char)}
    (h : start text = []) (hpre : piece :: pieces <+: text.splitOn '/')
    (hlast : ∀ p, (piece :: pieces).getLast? = some p → ∃ c, ofPiece p = some c) :
    start (['/'].intercalate (piece :: pieces)) = [] := by
  have hslash : ∀ p ∈ piece :: pieces, '/' ∉ p := fun p hp =>
    TextLines.not_mem_of_mem_splitOn (hpre.subset hp)
  have hfirst : text.takeWhile (· ≠ '/') = piece := by
    have hhead := head?_splitOn text
    obtain ⟨rest, hrest⟩ := hpre
    rw [← hrest] at hhead
    exact (Option.some.inj hhead).symm
  rw [start_eq_nil_iff, takeWhile_intercalate hslash]
  rcases start_eq_nil_iff.mp h with rfl | hc
  · -- an empty text has one piece, and this is no component
    exfalso
    obtain rfl : [] = piece := hfirst
    obtain rfl : pieces = [] := by
      have hle := hpre.length_le
      rw [List.length_cons] at hle
      exact List.eq_nil_of_length_eq_zero (by simpa using hle)
    obtain ⟨c, hc⟩ := hlast [] rfl
    cases hc
  · rw [hfirst] at hc
    exact .inr hc

/-- **Cutting** a text after some of its pieces, the last of which is a component, leaves the
components up to there. -/
theorem components_take_append {text : List Char} {pieces : List (List Char)}
    (hpre : pieces <+: (text.drop (start text).length).splitOn '/')
    (hlast : ∀ piece, pieces.getLast? = some piece → ∃ c, ofPiece piece = some c) :
    components (text.take (start text).length ++ ['/'].intercalate pieces) =
      start text ++ pieces.filterMap ofPiece := by
  have hrelative := relative_intercalate_pieces fun piece hpiece =>
    TextLines.not_mem_of_mem_splitOn (hpre.subset hpiece)
  rcases start_cases text with h | h | h
  · obtain ⟨rest, rfl⟩ := start_eq_root h
    rw [h]
    show components ('/' :: ['/'].intercalate pieces) = _
    rw [components, relative_slash_cons, hrelative]
    rfl
  · obtain ⟨rest, rfl, hrest⟩ := start_eq_here h
    rw [h] at hpre ⊢
    exact components_here_append hrest hpre hlast
  · rw [h] at hpre ⊢
    show components (['/'].intercalate pieces) = _
    cases pieces with
    | nil => rfl
    | cons piece pieces =>
      rw [components, start_intercalate_pieces h hpre hlast, hrelative]

/-- **The parent** of a path text has the components without the last one. -/
theorem map_components_parentText (text : List Char) :
    (parentText text).map components = parent (components text) := by
  have hpieces := filterMap_dropSkipped ((text.drop (start text).length).splitOn '/').reverse
  rw [List.filterMap_reverse] at hpieces
  have hrelative : relative text = (dropSkipped
      ((text.drop (start text).length).splitOn '/').reverse).reverse.filterMap ofPiece := by
    rw [List.filterMap_reverse, hpieces, List.reverse_reverse, ← relative_drop_start text]
    rfl
  unfold parentText
  dsimp only
  rcases dropSkipped_eq_nil_or ((text.drop (start text).length).splitOn '/').reverse with
    hnil | ⟨piece, c, rest, hcons, hc⟩
  · rw [hnil] at hrelative ⊢
    rw [components, hrelative]
    dsimp only
    rcases start_cases text with h | h | h
    · rw [h, if_neg (by decide)]
      rfl
    · rw [h, if_pos rfl]
      rfl
    · rw [h, if_neg (by decide)]
      rfl
  · rw [hcons] at hrelative ⊢
    -- the pieces that are kept are the first ones, up to a component
    have hsuffix : dropSkipped rest <:+ ((text.drop (start text).length).splitOn '/').reverse := by
      refine (List.dropWhile_suffix _).trans ((List.suffix_cons piece rest).trans ?_)
      rw [← hcons]
      exact List.dropWhile_suffix _
    have hpre := List.reverse_prefix.mpr hsuffix
    rw [List.reverse_reverse] at hpre
    have hcut := components_take_append hpre fun p hp => by
      rw [List.getLast?_reverse] at hp
      rcases dropSkipped_eq_nil_or rest with hnil | ⟨p', c', rest', hcons', hc'⟩
      · rw [hnil] at hp
        cases hp
      · rw [hcons'] at hp
        obtain rfl := Option.some.inj hp
        exact ⟨c', hc'⟩
    rw [List.filterMap_reverse, filterMap_dropSkipped, ← List.filterMap_reverse] at hcut
    rw [List.reverse_cons, List.filterMap_append, List.filterMap_cons_some hc,
      List.filterMap_nil] at hrelative
    dsimp only
    rw [Option.map_some, hcut, components, hrelative, ← List.append_assoc]
    refine (parent_concat _ fun hroot => ?_).symm
    exact ofPiece_ne_root piece (hroot ▸ hc)

theorem exists_parentText {text : List Char} {front : Path (List Char)} {c : Component (List Char)}
    (hc : c ≠ .root) (h : components text = front ++ [c]) :
    ∃ text', parentText text = some text' ∧ components text' = front := by
  have hmap := map_components_parentText text
  rw [h, parent_concat front hc] at hmap
  exact Option.map_eq_some_iff.mp hmap

end LexicalPath

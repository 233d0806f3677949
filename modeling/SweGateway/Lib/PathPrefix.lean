import SweGateway.Lib.LexicalPath
import SweGateway.Lib.TextLines

/-!
# What stripping a base leaves of a path text

`stripPrefix` cuts the base off a path text, character by character.  The components of what is left
are those of the text without those of the base (`relative_of_stripPrefix`).  In particular the name
at the end of a path is still there, so that paths of different names in one directory stay different
(`stripPrefix_join_inj`).
-/

namespace LexicalPath

/-- A text that is a name of a file in a directory. -/
structure IsFileName (text : List Char) : Prop where
  slash : '/' ∉ text
  name : ofPiece text = some (.name text)

theorem IsFileName.head? {text : List Char} (h : IsFileName text) : text.head? ≠ some '/' :=
  fun hhead => h.slash (List.mem_of_head? hhead)

theorem ofPiece_ne_here (piece : List Char) : ofPiece piece ≠ some .here := by
  unfold ofPiece
  split <;> simp

theorem here_not_mem_relative (text : List Char) : .here ∉ relative text := by
  intro h
  obtain ⟨piece, -, hpiece⟩ := List.mem_filterMap.mp h
  exact ofPiece_ne_here piece hpiece

theorem relative_of_not_mem {text : List Char} (h : '/' ∉ text) :
    relative text = (ofPiece text).toList := by
  rw [relative, List.splitOn_eq_singleton h]
  cases hpiece : ofPiece text <;> simp [hpiece]

theorem IsFileName.relative {text : List Char} (h : IsFileName text) :
    relative text = [.name text] := by
  rw [relative_of_not_mem h.slash, h.name]
  rfl

@[simp] theorem relative_slash_cons (text : List Char) :
    relative ('/' :: text) = relative text := by
  have happend := relative_append [] text
  rwa [relative_nil, List.nil_append, List.nil_append] at happend

/-- A text is joined with a separator, or directly. -/
theorem exists_join_eq (base : List Char) {text : List Char} (h : text.head? ≠ some '/') :
    ∃ sep, (sep = [] ∨ sep = ['/']) ∧ join base text = base ++ (sep ++ text) := by
  unfold join
  rw [if_neg h]
  split
  · exact ⟨[], .inl rfl, rfl⟩
  · exact ⟨['/'], .inr rfl, rfl⟩

/-- The components of a joined text are those of its two parts. -/
theorem relative_join {base text : List Char} (h : text.head? ≠ some '/') :
    relative (join base text) = relative base ++ relative text := by
  unfold join
  rw [if_neg h]
  split
  · next hsep =>
    rcases hsep with rfl | hsep
    · simp
    · obtain ⟨b, rfl⟩ : ∃ b, base = b ++ ['/'] :=
        ⟨base.dropLast, (List.dropLast_append_getLast? '/' hsep).symm⟩
      rw [List.append_assoc, List.singleton_append, relative_append, relative_append, relative_nil,
        List.append_nil]
  · rw [relative_append]

theorem slash_not_mem_takeWhile (text : List Char) : '/' ∉ text.takeWhile (· ≠ '/') := by
  intro h
  have := List.all_eq_true.mp List.all_takeWhile _ h
  simp at this

/-- After the first piece, a text ends or goes on with a separator. -/
theorem dropWhile_eq_nil_or (text : List Char) :
    text.dropWhile (· ≠ '/') = [] ∨ ∃ rest, text.dropWhile (· ≠ '/') = '/' :: rest := by
  cases hrest : text.dropWhile (· ≠ '/') with
  | nil => exact .inl rfl
  | cons c rest =>
    obtain rfl : c = '/' := by
      have hhead := List.head?_dropWhile_not (fun c => decide (c ≠ '/')) text
      rw [hrest] at hhead
      simpa using hhead
    exact .inr ⟨rest, rfl⟩

/-- The first piece of a text, and the rest. -/
theorem relative_eq (text : List Char) :
    relative text =
      (ofPiece (text.takeWhile (· ≠ '/'))).toList ++ relative (text.dropWhile (· ≠ '/')) := by
  have htext := List.takeWhile_append_dropWhile (p := fun c => decide (c ≠ '/')) (l := text)
  rw [← relative_of_not_mem (slash_not_mem_takeWhile text)]
  rcases dropWhile_eq_nil_or text with hrest | ⟨rest, hrest⟩
  · rw [hrest, List.append_nil] at htext
    rw [hrest, htext, relative_nil, List.append_nil]
  · conv_lhs => rw [← htext, hrest]
    rw [hrest, relative_append, relative_slash_cons]

theorem ofPiece_eq_none_iff {piece : List Char} :
    ofPiece piece = none ↔ piece = [] ∨ piece = ['.'] := by
  unfold ofPiece
  split <;> simp_all

/-- The front of a text without components has none. -/
theorem relative_of_prefix_eq_nil {front text : List Char} (h : front <+: text)
    (hnil : relative text = []) : relative front = [] := by
  induction hlen : front.length using Nat.strong_induction_on generalizing front text with
  | _ len ih =>
  obtain ⟨rest, rfl⟩ := h
  by_cases hslash : '/' ∈ front
  · -- the first piece is the same, and what comes after it is shorter
    obtain ⟨piece, below, rfl, -⟩ := List.eq_append_cons_of_mem hslash
    have hsplit : piece ++ '/' :: below ++ rest = piece ++ '/' :: (below ++ rest) := by simp
    rw [hsplit, relative_append, List.append_eq_nil_iff] at hnil
    have hshort : below.length < len := by
      rw [← hlen]
      simp
      omega
    rw [relative_append, hnil.1, ih _ hshort (List.prefix_append below rest) hnil.2 rfl]
    rfl
  · -- the first piece of the text goes on after the front, but is no longer than a dot
    have hpiece : (front ++ rest).takeWhile (· ≠ '/') = front ++ rest.takeWhile (· ≠ '/') :=
      List.takeWhile_append_of_pos fun c hc => by
        simpa using fun h : c = '/' => hslash (h ▸ hc)
    rw [relative_eq, hpiece, List.append_eq_nil_iff] at hnil
    rw [relative_of_not_mem hslash]
    have hnone : ofPiece (front ++ rest.takeWhile (· ≠ '/')) = none := by
      simpa using hnil.1
    have hfront : front = [] ∨ front = ['.'] := by
      rcases ofPiece_eq_none_iff.mp hnone with h | h
      · exact .inl (List.append_eq_nil_iff.mp h).1
      · rcases List.append_eq_singleton_iff.mp h with ⟨hnil, -⟩ | ⟨hdot, -⟩
        · exact .inl hnil
        · exact .inr hdot
    rw [ofPiece_eq_none_iff.mpr hfront]
    rfl

theorem eq_of_ofPiece_eq_name {piece n : List Char} (h : ofPiece piece = some (.name n)) :
    piece = n := by
  unfold ofPiece at h
  split at h
  · cases h
  · cases h
  · cases h
  · injection h with h
    injection h

/-- The names in a path text are names of files. -/
theorem isFileName_of_mem_relative {text n : List Char} (h : .name n ∈ relative text) :
    IsFileName n := by
  obtain ⟨piece, hpiece, hname⟩ := List.mem_filterMap.mp h
  obtain rfl := eq_of_ofPiece_eq_name hname
  exact ⟨TextLines.not_mem_of_mem_splitOn hpiece, hname⟩

theorem head?_splitOn (text : List Char) :
    (text.splitOn '/').head? = some (text.takeWhile (· ≠ '/')) := by
  induction text with
  | nil => rfl
  | cons c text ih =>
    rw [List.splitOn_cons_eq_if_modifyHead]
    by_cases hc : c = '/'
    · subst hc
      rfl
    · rw [if_neg (by simpa using hc), List.head?_modifyHead, ih,
        List.takeWhile_cons_of_pos (by simpa using hc)]
      rfl

/-- The components of joined pieces are those of the pieces. -/
theorem relative_intercalate_pieces {pieces : List (List Char)}
    (h : ∀ piece ∈ pieces, '/' ∉ piece) :
    relative (['/'].intercalate pieces) = pieces.filterMap ofPiece := by
  by_cases hnil : pieces = []
  · subst hnil
    exact relative_nil
  · rw [relative, List.splitOn_intercalate '/' h hnil]

/-- Joined names are the text of a relative path along them. -/
theorem relative_intercalate_names {names : List (List Char)} (h : ∀ n ∈ names, IsFileName n) :
    relative (['/'].intercalate names) = names.map Component.name := by
  rw [relative_intercalate_pieces fun n hn => (h n hn).slash, ← List.filterMap_eq_map]
  exact List.filterMap_congr fun n hn => (h n hn).name

theorem head?_intercalate_names {names : List (List Char)} (h : ∀ n ∈ names, IsFileName n) :
    (['/'].intercalate names).head? ≠ some '/' := by
  cases names with
  | nil => exact nofun
  | cons n rest =>
    have hn : IsFileName n := h n List.mem_cons_self
    have hhead : (['/'].intercalate (n :: rest)).head? = n.head? := by
      cases n with
      | nil => exact absurd hn.name nofun
      | cons c n => rw [List.intercalate_cons_cons_left, List.head?_cons, List.head?_cons]
    rw [hhead]
    exact hn.head?

/-- The first of joined pieces. -/
theorem takeWhile_intercalate {piece : List Char} {pieces : List (List Char)}
    (h : ∀ p ∈ piece :: pieces, '/' ∉ p) :
    (['/'].intercalate (piece :: pieces)).takeWhile (· ≠ '/') = piece := by
  have hhead := head?_splitOn (['/'].intercalate (piece :: pieces))
  rw [List.splitOn_intercalate '/' h (List.cons_ne_nil _ _), List.head?_cons] at hhead
  exact (Option.some.inj hhead).symm

/-! ### The front of a text -/

/-- A text that begins with neither the root nor the dot begins with another component. -/
theorem start_eq_nil_iff {text : List Char} :
    start text = [] ↔ text = [] ∨ ∃ c, ofPiece (text.takeWhile (· ≠ '/')) = some c := by
  cases text with
  | nil => simp [start]
  | cons d text =>
    by_cases hd : d = '/'
    · subst hd
      simp [start, ofPiece]
    · have htake : (d :: text).takeWhile (· ≠ '/') = d :: text.takeWhile (· ≠ '/') :=
        List.takeWhile_cons_of_pos (by simpa using hd)
      rw [start, if_neg (by simpa using hd), head?_splitOn, htake]
      by_cases hdot : d :: text.takeWhile (· ≠ '/') = ['.']
      · rw [if_pos (by rw [hdot]), hdot]
        refine iff_of_false (List.cons_ne_nil _ _) ?_
        rintro (hnil | ⟨c, hc⟩)
        · cases hnil
        · cases hc
      · rw [if_neg (by simpa using hdot)]
        refine iff_of_true rfl (.inr ?_)
        unfold ofPiece
        split
        · contradiction
        · contradiction
        · exact ⟨_, rfl⟩
        · exact ⟨_, rfl⟩

theorem start_eq_here {text : List Char} (h : start text = [.here]) :
    ∃ rest, text = '.' :: rest ∧ (rest = [] ∨ ∃ rest', rest = '/' :: rest') := by
  unfold start at h
  split at h
  · cases h
  split at h
  case isFalse => cases h
  next hdot =>
  rw [head?_splitOn, Option.some.injEq] at hdot
  refine ⟨text.dropWhile (· ≠ '/'), ?_, ?_⟩
  · conv_lhs => rw [← List.takeWhile_append_dropWhile (p := (· ≠ '/')) (l := text), hdot]
    rfl
  · exact dropWhile_eq_nil_or text

theorem start_eq_root {text : List Char} (h : start text = [.root]) :
    ∃ rest, text = '/' :: rest := by
  unfold start at h
  split at h
  · next hroot => exact ⟨_, List.eq_cons_of_mem_head? hroot⟩
  · split at h <;> cases h

/-- A text begins with the root, or with the dot, or with neither. -/
theorem start_cases (text : List Char) :
    start text = [.root] ∨ start text = [.here] ∨ start text = [] := by
  unfold start
  split_ifs <;> simp

/-- What a text begins with is not one of the components that follow. -/
theorem relative_drop_start (text : List Char) :
    relative (text.drop (start text).length) = relative text := by
  rcases start_cases text with h | h | h
  · obtain ⟨rest, rfl⟩ := start_eq_root h
    rw [h]
    exact (relative_slash_cons rest).symm
  · obtain ⟨rest, rfl, hrest⟩ := start_eq_here h
    rw [h]
    rcases hrest with rfl | ⟨rest, rfl⟩
    · rfl
    · show relative ('/' :: rest) = _
      rw [relative_slash_cons]
      exact (relative_append ['.'] rest).symm
  · rw [h]
    rfl

/-! ### Advancing over components -/

@[simp] theorem relative_trimStart (text : List Char) :
    relative (trimStart text) = relative text := by
  fun_induction trimStart text with
  | case1 text ih => rw [ih, relative_slash_cons]
  | case2 => rfl
  | case3 text ih =>
    have hdot := relative_append ['.'] text
    rw [ih]
    exact hdot.symm
  | case4 text => rfl

/-- A text without separators and dots at its front begins with a component. -/
theorem trimStart_eq_nil_or (text : List Char) :
    trimStart text = [] ∨ ∃ c, ofPiece ((trimStart text).takeWhile (· ≠ '/')) = some c := by
  fun_induction trimStart text with
  | case1 text ih => exact ih
  | case2 => exact .inl rfl
  | case3 text ih => exact ih
  | case4 text hslash hdot hdotslash =>
    cases text with
    | nil => exact .inl rfl
    | cons c text =>
      have hc : c ≠ '/' := fun h => hslash text (h ▸ rfl)
      right
      rw [List.takeWhile_cons_of_pos (by simpa using hc)]
      unfold ofPiece
      split
      · next h => cases h
      · next h =>
        obtain ⟨rfl, hnil⟩ := List.cons.inj h
        cases text with
        | nil => exact absurd rfl hdot
        | cons d text =>
          obtain rfl : d = '/' := by
            by_contra hd
            rw [List.takeWhile_cons_of_pos (by simpa using hd)] at hnil
            cases hnil
          exact absurd rfl (hdotslash text)
      · exact ⟨_, rfl⟩
      · exact ⟨_, rfl⟩

/-- Past the first component, the others are left. -/
theorem relative_dropWhile_trimStart {text : List Char} {c : Component (List Char)}
    {rest : Path (List Char)} (h : relative text = c :: rest) :
    relative ((trimStart text).dropWhile (· ≠ '/')) = rest := by
  rw [← relative_trimStart] at h
  rcases trimStart_eq_nil_or text with hnil | ⟨c', hc'⟩
  · rw [hnil, relative_nil] at h
    cases h
  · rw [relative_eq, hc'] at h
    exact (List.cons.inj h).2

theorem relative_advance {path : Path (List Char)} {text : List Char}
    (h : path <+: relative text) :
    relative (advance path text) = (relative text).drop path.length := by
  induction path generalizing text with
  | nil => rfl
  | cons c path ih =>
    obtain ⟨rest, hrest⟩ := h
    have hdrop := relative_dropWhile_trimStart hrest.symm
    have hc : c ∈ relative text := hrest ▸ List.mem_cons_self
    have hpath : path <+: relative ((trimStart text).dropWhile (· ≠ '/')) := by
      rw [hdrop]
      exact List.prefix_append path rest
    have hadvance : advance (c :: path) text =
        advance path ((trimStart text).dropWhile (· ≠ '/')) := by
      cases c with
      | root => exact absurd hc (root_not_mem_relative text)
      | here => exact absurd hc (here_not_mem_relative text)
      | up | name => rfl
    rw [hadvance, ih hpath, hdrop, ← hrest]
    rfl

/-- Past the components at the front of a text, the other components are left. -/
theorem relative_advance_components {path : Path (List Char)} {text : List Char}
    (hne : path ≠ []) (h : path <+: components text) :
    relative (advance path text) = (components text).drop path.length := by
  unfold components start at h ⊢
  split at h
  · next hroot =>
    obtain ⟨rest, rfl⟩ : ∃ rest, text = '/' :: rest :=
      ⟨text.tail, (List.eq_cons_of_mem_head? hroot)⟩
    rw [if_pos hroot]
    cases path with
    | nil => exact absurd rfl hne
    | cons c path =>
      obtain ⟨rfl, hpath⟩ := List.cons_prefix_cons.mp h
      rw [relative_slash_cons] at hpath
      rw [advance, List.drop_one, List.tail_cons, relative_advance hpath, relative_slash_cons]
      rfl
  · next hroot =>
    rw [if_neg hroot]
    split at h
    · next hhere =>
      rw [if_pos hhere]
      -- the text is a dot, and then nothing or a separator
      rw [head?_splitOn, Option.some.injEq] at hhere
      have hsplit := List.takeWhile_append_dropWhile (p := fun c => decide (c ≠ '/')) (l := text)
      have hrest : text.drop 1 = text.dropWhile (· ≠ '/') := by
        rw [hhere] at hsplit
        exact congrArg (List.drop 1) hsplit.symm
      have hrel : relative text = relative (text.drop 1) := by
        rw [relative_eq, hhere, hrest]
        rfl
      cases path with
      | nil => exact absurd rfl hne
      | cons c path =>
        obtain ⟨rfl, hpath⟩ := List.cons_prefix_cons.mp h
        rw [hrel] at hpath
        rw [advance, relative_advance hpath, hrel]
        rfl
    · next hhere =>
      rw [if_neg hhere]
      exact relative_advance h

/-! ### Stripping a base -/

/-- What is left of a text are its components without those of the base. -/
theorem relative_of_stripPrefix {base text rest : List Char} (hbase : components base ≠ [])
    (h : stripPrefix base text = some rest) :
    relative rest = (components text).drop (components base).length := by
  unfold stripPrefix at h
  split at h
  · next hprefix =>
    obtain rfl := Option.some.inj h
    rw [relative_trimStart]
    exact relative_advance_components hbase (List.isPrefixOf_iff_prefix.mp hprefix)
  · cases h

/-- Joining the name of a file appends it. -/
theorem components_join_fileName (dir : List Char) {name : List Char} (h : IsFileName name) :
    components (join dir name) = components dir ++ [.name name] := by
  by_cases hnil : dir = []
  · subst hnil
    have hstart : start name = [] := by
      have hpiece : name ≠ ['.'] := by
        rintro rfl
        exact absurd h.name (by decide)
      rw [start, if_neg h.head?, List.splitOn_eq_singleton h.slash, if_neg (by simpa using hpiece)]
    rw [join_nil, components, hstart, h.relative]
    rfl
  · rw [components_join hnil h.head?, h.relative]

/-- A base that a text is joined to can be stripped off again, and the text is at the end of what is
left. -/
theorem stripPrefix_join {base dir name : List Char} (hdir : components base <+: components dir)
    (h : IsFileName name) :
    ∃ rest front, stripPrefix base (join dir name) = some rest ∧
      relative rest = front ++ [.name name] := by
  have hrelative : relative (join dir name) = relative dir ++ [.name name] := by
    rw [relative_join h.head?, h.relative]
  have hcomponents := components_join_fileName dir h
  have hlen : (components base).length ≤ (components dir).length := hdir.length_le
  have hprefix : components base <+: components (join dir name) := by
    rw [hcomponents]
    exact hdir.trans (List.prefix_append _ _)
  have hisPrefix := List.isPrefixOf_iff_prefix.mpr hprefix
  by_cases hbase : components base = []
  · refine ⟨join dir name, relative dir, ?_, hrelative⟩
    rw [stripPrefix, if_pos hisPrefix, if_pos hbase]
  · refine ⟨trimStart (advance (components base) (join dir name)),
      (components dir).drop (components base).length, ?_, ?_⟩
    · rw [stripPrefix, if_pos hisPrefix, if_neg hbase]
    · rw [relative_trimStart, relative_advance_components hbase hprefix, hcomponents,
        List.drop_append_of_le_length hlen]

/-- Paths of different names in a directory are still different without a base. -/
theorem stripPrefix_join_inj {base dir name name' : List Char}
    (hdir : components base <+: components dir) (h : IsFileName name) (h' : IsFileName name')
    (heq : stripPrefix base (join dir name) = stripPrefix base (join dir name')) :
    name = name' := by
  obtain ⟨rest, front, hrest, hrel⟩ := stripPrefix_join hdir h
  obtain ⟨rest', front', hrest', hrel'⟩ := stripPrefix_join hdir h'
  rw [hrest, hrest'] at heq
  obtain rfl := Option.some.inj heq
  have hlast := (List.append_inj' (hrel.symm.trans hrel') rfl).2
  injection hlast with hname
  injection hname

end LexicalPath

import SweGateway.Xtask.Registry

/-!
# Registry URLs

`indexUrl` writes the path of the index directory as a URL, and `rootFromIndexUrl` reads the root of
the registry from such a URL.  What the URL leaves of a root are its components with the
backslashes read as separators, after a root component; but if the path begins, after its slashes,
with a one-byte character and a colon (`hasDrive`), it is taken for a Windows path and the root
component is left out (`exists_rootFromIndexUrl`).

So the URL leads back to the root exactly if this has no backslash and is absolute or else looks
like a Windows path (`registryRoundTrips_iff`).
-/

namespace SweGateway.Xtask

open LexicalPath

/-- The paths have the same components. -/
structure SamePaths (a b : RegistryPaths) : Prop where
  root : components a.root = components b.root
  index : components a.index = components b.index
  crates : components a.crates = components b.crates

/-- The URL of the registry's index leads back to the root, and to the registry if it is set in the
environment. -/
def RegistryRoundTrips (root : List Char) : Prop :=
  (∃ root', rootFromIndexUrl (indexUrl (pathsFromRoot root)) = .ok root' ∧
    components root' = components root) ∧
  ∀ vars : Vars,
    vars.var "CARGO_REGISTRIES_LOCAL_INDEX" = some (indexUrl (pathsFromRoot root)) →
      ∃ paths, resolveRegistry vars none = .ok paths ∧ SamePaths paths (pathsFromRoot root)

/-- The path begins with a one-byte character and a colon. -/
def hasDrive : List Char → Bool
  | c :: ':' :: _ => c.utf8Size == 1
  | _ => false

theorem hasDrive_iff {text : List Char} :
    hasDrive text = true ↔ ∃ c rest, text = c :: ':' :: rest ∧ c.utf8Size = 1 := by
  constructor
  · intro h
    unfold hasDrive at h
    split at h
    · next c rest => exact ⟨c, rest, rfl, eq_of_beq h⟩
    · cases h
  · rintro ⟨c, rest, rfl, hc⟩
    exact beq_iff_eq.mpr hc

/-- What follows the colon does not matter. -/
theorem hasDrive_cons_cons (c d : Char) (rest rest' : List Char) :
    hasDrive (c :: d :: rest) = hasDrive (c :: d :: rest') := by
  by_cases hd : d = ':'
  · subst hd
    rfl
  · simp [hasDrive, hd]

/-- The drive is recognised by the bytes of the path. -/
theorem hasDrive_iff_bytes {text : List Char} :
    hasDrive text = true ↔ (Utf8.bytes ('/' :: text))[2]? = some 0x3a := by
  have hslash : Char.utf8Size '/' = 1 := by decide
  rw [hasDrive_iff, Utf8.getElem?_bytes_eq_some_iff (by decide)]
  constructor
  · rintro ⟨c, rest, rfl, hc⟩
    refine ⟨['/', c], ':', rest, rfl, ?_, by decide⟩
    rw [Utf8.byteLength_cons, Utf8.byteLength_cons, Utf8.byteLength_nil, hslash, hc]
  · rintro ⟨front, c, rest, htext, hlength, hc⟩
    obtain rfl : c = ':' := Char.toNat_inj.mp hc
    cases front with
    | nil => cases hlength
    | cons d front =>
      obtain ⟨rfl, rfl⟩ := List.cons.inj htext
      rw [Utf8.byteLength_cons, hslash] at hlength
      cases front with
      | nil => cases hlength
      | cons d front =>
        rw [Utf8.byteLength_cons] at hlength
        have hpos := d.utf8Size_pos
        cases front with
        | nil =>
          rw [Utf8.byteLength_nil] at hlength
          exact ⟨d, rest, rfl, by omega⟩
        | cons d' front =>
          have := d'.utf8Size_pos
          rw [Utf8.byteLength_cons] at hlength
          omega

/-- The decoder's test for a path with a drive. -/
theorem hasDrive_iff_test (path : List Char) :
    (3 ≤ Utf8.byteLength ('/' :: path) ∧ ('/' :: path).head? = some '/' ∧
      (Utf8.bytes ('/' :: path))[2]? = some 0x3a) ↔ hasDrive path = true := by
  rw [← hasDrive_iff_bytes]
  refine ⟨fun h => h.2.2, fun h => ⟨?_, rfl, h⟩⟩
  obtain ⟨c, rest, rfl, hc⟩ := hasDrive_iff.mp h
  have hslash : Char.utf8Size '/' = 1 := by decide
  have hcolon : Char.utf8Size ':' = 1 := by decide
  rw [Utf8.byteLength_cons, Utf8.byteLength_cons, Utf8.byteLength_cons, hslash, hcolon, hc]
  omega

/-- A relative path with a drive begins with a name. -/
theorem start_of_hasDrive {text : List Char} (h : hasDrive text = true)
    (hhead : text.head? ≠ some '/') : start text = [] := by
  obtain ⟨c, rest, rfl, -⟩ := hasDrive_iff.mp h
  have hc : c ≠ '/' := by simpa using hhead
  have htake : (c :: ':' :: rest).takeWhile (· ≠ '/') = c :: ':' :: rest.takeWhile (· ≠ '/') := by
    simp [hc]
  rw [start, if_neg hhead, head?_splitOn, htake, if_neg (by simp)]

/-! ### What is written and read -/

theorem isFileName_index : IsFileName "index".toList := ⟨by decide, by decide⟩

theorem isFileName_crates : IsFileName "crates".toList := ⟨by decide, by decide⟩

/-- Leading slashes have no part in the components that follow. -/
theorem relative_dropWhile_slash (text : List Char) :
    relative (text.dropWhile (· = '/')) = relative text := by
  induction text with
  | nil => rfl
  | cons c text ih =>
    by_cases hc : c = '/'
    · subst hc
      rw [List.dropWhile_cons_of_pos (by simp), ih, relative_slash_cons]
    · rw [List.dropWhile_cons_of_neg (by simpa using hc)]

/-- What is written after the last slash of the scheme. -/
theorem relative_urlPath (root : List Char) :
    relative (((pathsFromRoot root).index.map replaceBackslash).dropWhile (· = '/')) =
      relative (root.map replaceBackslash) ++ [.name "index".toList] := by
  have hindex : "index".toList.map replaceBackslash = "index".toList := by decide
  have hrelative := isFileName_index.relative
  rw [relative_dropWhile_slash]
  show relative ((join root "index".toList).map replaceBackslash) = _
  unfold join
  rw [if_neg isFileName_index.head?]
  split
  · next hsep =>
    rcases hsep with rfl | hsep
    · rw [List.nil_append, hindex, hrelative, List.map_nil, relative_nil, List.nil_append]
    · obtain ⟨b, rfl⟩ : ∃ b, root = b ++ ['/'] :=
        ⟨root.dropLast, (List.dropLast_append_getLast? '/' hsep).symm⟩
      have hslash : ['/'].map replaceBackslash = ['/'] := by decide
      rw [List.map_append, List.map_append, hindex, hslash, List.append_assoc,
        List.singleton_append, relative_append, relative_append, hrelative, relative_nil,
        List.append_nil]
  · have hslash : replaceBackslash '/' = '/' := by decide
    rw [List.map_append, List.map_cons, hslash, hindex, relative_append, hrelative]

/-- What is left of a root: its components, backslashes read as separators, after the root component
unless there is a drive. -/
theorem exists_rootFromIndexUrl (root : List Char) :
    ∃ root', rootFromIndexUrl (indexUrl (pathsFromRoot root)) = .ok root' ∧
      components root' =
        (if hasDrive (((pathsFromRoot root).index.map replaceBackslash).dropWhile (· = '/')) then []
          else [.root]) ++ relative (root.map replaceBackslash) := by
  have hrelative := relative_urlPath root
  have hhead : (((pathsFromRoot root).index.map replaceBackslash).dropWhile (· = '/')).head? ≠
      some '/' := by
    intro h
    have := List.head?_dropWhile_not (fun c => decide (c = '/'))
      ((pathsFromRoot root).index.map replaceBackslash)
    rw [h] at this
    simp at this
  unfold rootFromIndexUrl indexUrl
  dsimp only
  generalize ((pathsFromRoot root).index.map replaceBackslash).dropWhile (· = '/') = path at *
  have hstrip : stripPrefixOr "file://".toList ("file:///".toList ++ path) = '/' :: path := rfl
  rw [hstrip]
  simp only [hasDrive_iff_test]
  -- the index directory is the last component of what is read, and the root is its parent
  have hindex : (Component.name "index".toList) ≠ Component.root := nofun
  by_cases h : hasDrive path = true
  · rw [if_pos h, if_pos h, List.drop_one, List.tail_cons]
    have hcomponents : components path =
        relative (root.map replaceBackslash) ++ [.name "index".toList] := by
      rw [components, start_of_hasDrive h hhead, hrelative, List.nil_append]
    obtain ⟨root', hroot', hback⟩ := exists_parentText hindex hcomponents
    exact ⟨root', by rw [hroot'], hback⟩
  · rw [if_neg h, if_neg h]
    have hcomponents : components ('/' :: path) =
        (.root :: relative (root.map replaceBackslash)) ++ [.name "index".toList] := by
      rw [components, relative_slash_cons, hrelative]
      rfl
    obtain ⟨root', hroot', hback⟩ := exists_parentText hindex hcomponents
    exact ⟨root', by rw [hroot'], hback⟩

/-! ### Backslashes -/

theorem map_replaceBackslash {text : List Char} (h : '\\' ∉ text) :
    text.map replaceBackslash = text := by
  conv_rhs => rw [← List.map_id text]
  refine List.map_congr_left fun c hc => if_neg ?_
  rintro rfl
  exact h hc

theorem backslash_not_mem_map (text : List Char) : '\\' ∉ text.map replaceBackslash := by
  intro h
  obtain ⟨c, -, hc⟩ := List.mem_map.mp h
  unfold replaceBackslash at hc
  split at hc
  · cases hc
  · next hne => exact hne hc

/-- A character of a name in a path is one of the path. -/
theorem mem_of_mem_name {text n : List Char} (h : .name n ∈ relative text) {c : Char}
    (hc : c ∈ n) : c ∈ text := by
  obtain ⟨piece, hpiece, hname⟩ := List.mem_filterMap.mp h
  obtain rfl := eq_of_ofPiece_eq_name hname
  exact (TextLines.mem_of_mem_splitOn hpiece hc).1

/-- A character that is not a separator or a dot is in one of the names. -/
theorem exists_mem_name {text : List Char} {c : Char} (hslash : c ≠ '/') (hdot : c ≠ '.')
    (h : c ∈ text) : ∃ n, .name n ∈ relative text ∧ c ∈ n := by
  induction hlen : text.length using Nat.strong_induction_on generalizing text with
  | _ k ih =>
    have hsplit := List.takeWhile_append_dropWhile (p := (· ≠ '/')) (l := text)
    rw [← hsplit, List.mem_append] at h
    rw [relative_eq]
    rcases h with h | h
    · -- the first piece is a name, as it is no dots
      have hpiece : ofPiece (text.takeWhile (· ≠ '/')) =
          some (.name (text.takeWhile (· ≠ '/'))) := by
        generalize text.takeWhile (· ≠ '/') = piece at h
        unfold ofPiece
        split
        · cases h
        · simp [hdot] at h
        · simp [hdot] at h
        · rfl
      exact ⟨_, by rw [hpiece]; simp, h⟩
    · rcases dropWhile_eq_nil_or text with hnil | ⟨rest, hcons⟩
      · rw [hnil] at h
        cases h
      · rw [hcons] at h ⊢
        have hle := (List.dropWhile_sublist (p := (· ≠ '/')) (l := text)).length_le
        rw [hcons, List.length_cons] at hle
        obtain ⟨n, hn, hc⟩ :=
          ih rest.length (by omega) ((List.mem_cons.mp h).resolve_left hslash) rfl
        refine ⟨n, List.mem_append_right _ ?_, hc⟩
        rwa [relative_slash_cons]

/-! ### The round trip -/

/-- The index directory has a drive if the root has. -/
theorem hasDrive_index (root : List Char) :
    hasDrive ((pathsFromRoot root).index.dropWhile (· = '/')) =
      hasDrive (root.dropWhile (· = '/')) := by
  have hindex : "index".toList = ['i', 'n', 'd', 'e', 'x'] := by decide
  show hasDrive ((join root "index".toList).dropWhile (· = '/')) = _
  obtain ⟨sep, hsep, hjoin⟩ := exists_join_eq root isFileName_index.head?
  rw [hjoin, List.dropWhile_append, hindex]
  rcases hroot : root.dropWhile (· = '/') with _ | ⟨c, _ | ⟨d, rest⟩⟩
  · rcases hsep with rfl | rfl <;> rfl
  · rcases hsep with rfl | rfl <;> rfl
  · exact hasDrive_cons_cons c d _ rest

/-- The root that is read has the right components exactly if nothing is taken for something
else. -/
theorem rootFromIndexUrl_eq_iff (root : List Char) :
    (∃ root', rootFromIndexUrl (indexUrl (pathsFromRoot root)) = .ok root' ∧
      components root' = components root) ↔
    '\\' ∉ root ∧ (root.head? = some '/' ↔ hasDrive (root.dropWhile (· = '/')) = false) := by
  obtain ⟨root', hroot', hcomponents⟩ := exists_rootFromIndexUrl root
  have hiff : (∃ root', rootFromIndexUrl (indexUrl (pathsFromRoot root)) = .ok root' ∧
      components root' = components root) ↔ components root' = components root := by
    constructor
    · rintro ⟨root'', hroot'', h⟩
      obtain rfl := Except.ok.inj (hroot'.symm.trans hroot'')
      exact h
    · exact fun h => ⟨root', hroot', h⟩
  rw [hiff, hcomponents]
  -- a backslash is in some name of the root, and in no name of what is read
  by_cases hback : '\\' ∈ root
  · refine iff_of_false (fun heq => ?_) fun h => h.1 hback
    obtain ⟨n, hn, hmem⟩ := exists_mem_name (by decide) (by decide) hback
    have hname : .name n ∈ components root := List.mem_append_right _ hn
    rw [← heq, List.mem_append] at hname
    rcases hname with hname | hname
    · split at hname <;> simp at hname
    · exact backslash_not_mem_map root (mem_of_mem_name hname hmem)
  · have hindex : '\\' ∉ (pathsFromRoot root).index := by
      show '\\' ∉ join root "index".toList
      obtain ⟨sep, hsep, hjoin⟩ := exists_join_eq root isFileName_index.head?
      rw [hjoin]
      rcases hsep with rfl | rfl <;> simp [hback]
    rw [map_replaceBackslash hback, map_replaceBackslash hindex, hasDrive_index, components,
      List.append_left_inj]
    simp only [hback, not_false_iff, true_and]
    -- the rest of the components are there, so only the beginnings are to be compared
    by_cases hhead : root.head? = some '/'
    · have hstart : start root = [.root] := if_pos hhead
      rw [hstart]
      cases hasDrive (root.dropWhile (· = '/')) <;> simp [hhead]
    · -- a relative path that looks like a Windows path does not begin with a dot
      have hdrop : root.dropWhile (· = '/') = root := by
        cases root with
        | nil => rfl
        | cons c root => exact List.dropWhile_cons_of_neg (by simpa using hhead)
      rw [hdrop]
      cases hdrive : hasDrive root with
      | true =>
        rw [start_of_hasDrive hdrive hhead]
        simp [hhead]
      | false =>
        refine iff_of_false (fun heq => ?_) fun h => hhead (h.mpr rfl)
        rw [if_neg Bool.false_ne_true] at heq
        obtain ⟨rest, rfl⟩ := start_eq_root heq.symm
        exact hhead rfl

/-- Paths of the same root are the same. -/
theorem samePaths_pathsFromRoot {root root' : List Char} (h : components root = components root') :
    SamePaths (pathsFromRoot root) (pathsFromRoot root') where
  root := h
  index := by
    show components (join root "index".toList) = components (join root' "index".toList)
    rw [components_join_fileName root isFileName_index,
      components_join_fileName root' isFileName_index, h]
  crates := by
    show components (join root "crates".toList) = components (join root' "crates".toList)
    rw [components_join_fileName root isFileName_crates,
      components_join_fileName root' isFileName_crates, h]

/-- **Registry URLs** lead back to the root exactly if this has no backslash and is either absolute,
with no drive after its slashes, or else begins with a drive. -/
theorem registryRoundTrips_iff (root : List Char) :
    RegistryRoundTrips root ↔
      '\\' ∉ root ∧ (root.head? = some '/' ↔ hasDrive (root.dropWhile (· = '/')) = false) := by
  rw [← rootFromIndexUrl_eq_iff, RegistryRoundTrips, and_iff_left_iff_imp]
  rintro ⟨root', hroot', hcomponents⟩ vars hvar
  refine ⟨pathsFromRoot root', ?_, samePaths_pathsFromRoot hcomponents⟩
  simp only [resolveRegistry, hvar, hroot']
  rfl

/-- The URL of a relative root leads to the root directory. -/
theorem not_registryRoundTrips_relative : ¬ RegistryRoundTrips "reg".toList := by
  rintro ⟨⟨root', hroot', hcomponents⟩, -⟩
  have hread : rootFromIndexUrl (indexUrl (pathsFromRoot "reg".toList)) = .ok "/reg".toList := by
    decide +kernel
  obtain rfl := Except.ok.inj (hroot'.symm.trans hread)
  exact absurd hcomponents (by decide)

end SweGateway.Xtask

import SweGateway.Xtask.Equiv.IndexMap
import SweGateway.Xtask.Scan

/-!
# Scanning what was published

`nameToPath` puts the index file of a crate into directories that are named after the front of its
name, `shard`; the file has the crate's name in lower case (`nameToPath_eq`).  No index file is a
directory, too (`isTree_indexPaths`), so the walk finds all of them (`walkIndexFiles_eq`), and what
the scan takes for the names of the crates are the names in lower case (`mem_scan`).

So the scan of what was published gives the published names exactly if these are in lower case and
nothing on the way to the index makes it skip the files (`scanInverts_iff`).
-/

namespace SweGateway.Xtask

open LexicalPath FileTree

/-! ### What the scan should find -/

/-- ASCII letters, digits, `-` and `_`. -/
def isCrateChar (c : Char) : Bool := c.isAlphanum || c == '-' || c == '_'

/-- A valid name of a crate. -/
def IsCrateName (name : String) : Prop := name ≠ "" ∧ ∀ c ∈ name.toList, isCrateChar c = true

/-- ASCII texts are lowered as ASCII texts. -/
def LowersAscii (toLowercase : String → String) : Prop :=
  ∀ name : String, (∀ c ∈ name.toList, c.toNat < 128) →
    toLowercase name = String.ofList (name.toList.map Char.toLower)

/-- After a sequence of upserts into an empty index, the scan finds the names that were upserted; and
a dependency that is not a workspace member and names no registry is assigned to the local registry
exactly if a crate of its name was upserted. -/
def ScanInverts (t : Tools) (paths : RegistryPaths) (entries : List IndexEntry) : Prop :=
  ∃ reg, forM entries t.upsertEntry { index := ∅, crates := ∅ } = (.ok (), reg) ∧
    ∀ listing : Listing reg.files,
      (∀ name, name ∈ scanLocalRegistryIndex listing paths.index ↔ ∃ e ∈ entries, e.name = name) ∧
      ∀ (pkgMap : HashMap String Package) (dep : Dependency) (idx : IndexDep),
        dep.name ∉ pkgMap → dep.registry = none →
        Tools.buildIndexDep
          { registryUrl := String.ofList (indexUrl paths)
            pkgMap := pkgMap
            localRegistryCrates := scanLocalRegistryIndex listing paths.index } dep = some idx →
        (idx.registry = some (String.ofList (indexUrl paths)) ↔ ∃ e ∈ entries, e.name = dep.name)

/-! ### Walking -/

theorem fileName_join (dir : List Char) {name : List Char} (h : IsFileName name) :
    fileName (join dir name) = some name := by
  rw [fileName, components_join_fileName dir h, List.getLast?_concat]

/-- The path along some names. -/
theorem components_foldl_join (dir : List Char) {names : List (List Char)}
    (h : ∀ n ∈ names, IsFileName n) :
    components (names.foldl join dir) = components dir ++ names.map Component.name := by
  induction names generalizing dir with
  | nil => simp
  | cons name names ih =>
    obtain ⟨hname, hnames⟩ := List.forall_mem_cons.mp h
    rw [List.foldl_cons, ih (join dir name) hnames, components_join_fileName dir hname,
      List.map_cons, List.append_assoc]
    rfl

variable {files : List (List (List Char))}

/-- What is found in a directory is below it. -/
theorem prefix_of_mem_walk {listing : Listing files} {skip : List Char → Bool} {fuel : ℕ}
    {below p : List (List Char)} (h : p ∈ listing.walk skip fuel below) : below <+: p := by
  induction fuel generalizing below with
  | zero => cases h
  | succ fuel ih =>
    rw [Listing.walk, List.mem_flatMap] at h
    obtain ⟨n, -, h⟩ := h
    split at h
    · cases h
    split at h
    · exact (List.prefix_append below [n]).trans (ih h)
    split at h
    · obtain rfl := List.mem_singleton.mp h
      exact List.prefix_append below [n]
    · cases h

/-- **The walk** is the one through the files, with their paths. -/
theorem walkIndexFiles_eq (listing : Listing files)
    (hnames : ∀ file ∈ files, ∀ n ∈ file, IsFileName n) (fuel : ℕ) (below : List (List Char))
    (dir : List Char) :
    walkIndexFiles listing fuel below dir =
      ((listing.walk (· = ".git".toList) fuel below).filter
        fun p => p.getLast? ≠ some "config.json".toList).map
        fun p => (p.drop below.length).foldl join dir := by
  -- on the depth that is left, for the directory and the names that lead to it at once
  induction fuel generalizing below dir with
  | zero => rfl
  | succ fuel ih =>
    rw [walkIndexFiles, Listing.walk, List.filter_flatMap, List.map_flatMap]
    refine List.flatMap_congr fun n hn => ?_
    obtain ⟨file, hfile, hpre⟩ := (listing.mem_names below n).mp hn
    have hname : IsFileName n := hnames file hfile n (hpre.subset (by simp))
    simp only [fileName_join dir hname, Option.some.injEq, decide_eq_true_eq]
    by_cases hgit : n = ".git".toList
    · rw [if_pos hgit, if_pos hgit]
      rfl
    rw [if_neg hgit, if_neg hgit]
    by_cases hdir : IsDir files (below ++ [n])
    · rw [if_pos hdir, if_pos hdir, ih]
      refine List.map_congr_left fun p hp => ?_
      obtain ⟨rest, rfl⟩ := prefix_of_mem_walk (List.mem_of_mem_filter hp)
      rw [List.drop_left, List.append_assoc, List.drop_left]
      rfl
    rw [if_neg hdir, if_neg hdir]
    by_cases hmem : isFile files (below ++ [n]) = true
    · rw [if_pos hmem, if_pos hmem, List.filter_cons, List.getLast?_concat]
      by_cases hconfig : some n = some "config.json".toList
      · rw [if_neg (not_not_intro hconfig), if_neg (by simp only [hconfig]; decide)]
        rfl
      · rw [if_pos hconfig, if_pos (decide_eq_true hconfig), List.filter_nil, List.map_singleton,
          List.drop_left]
        rfl
    · rw [if_neg hmem, if_neg hmem]
      rfl

/-- The walk reaches every file that is not below a directory `.git`. -/
theorem mem_walk_git_iff (listing : Listing files) (htree : IsTree files)
    (p : List (List Char)) :
    p ∈ listing.walk (· = ".git".toList) (depth files) [] ↔
      p ∈ files ∧ p ≠ [] ∧ ".git".toList ∉ p := by
  rw [listing.mem_walk htree _ _ le_rfl]
  refine and_congr_right fun _ => ?_
  constructor
  · rintro ⟨rest, hrest, rfl, hskip⟩
    exact ⟨hrest, fun hgit => by simpa using hskip _ hgit⟩
  · rintro ⟨hne, hgit⟩
    refine ⟨p, hne, rfl, fun n hn => decide_eq_false ?_⟩
    rintro rfl
    exact hgit hn

/-- The name that is taken from the path of a file is the last one on the way to it. -/
theorem scannedName_foldl_join (indexDir : List Char) {p : List (List Char)} {n : List Char}
    (hnames : ∀ m ∈ p, IsFileName m) (hlast : p.getLast? = some n) :
    scannedName (p.foldl join indexDir) =
      if n = "config.json".toList ∨ .name ".git".toList ∈ components indexDir ∨
        ".git".toList ∈ p then none else some (String.ofList n) := by
  have hcomponents := components_foldl_join indexDir hnames
  have hfile : fileName (p.foldl join indexDir) = some n := by
    obtain ⟨init, rfl⟩ := List.getLast?_eq_some_iff.mp hlast
    rw [fileName, hcomponents, List.map_append, List.map_singleton, ← List.append_assoc,
      List.getLast?_concat]
  have hgit : .name ".git".toList ∈ components (p.foldl join indexDir) ↔
      .name ".git".toList ∈ components indexDir ∨ ".git".toList ∈ p := by
    rw [hcomponents, List.mem_append, List.mem_map]
    simp
  simp only [scannedName, hfile, hgit]

/-- **What the scan finds** are the names of the files. -/
theorem mem_scanLocalRegistryIndex (listing : Listing files) (htree : IsTree files)
    (hnames : ∀ file ∈ files, ∀ n ∈ file, IsFileName n) (indexDir : List Char) (name : String) :
    name ∈ scanLocalRegistryIndex listing indexDir ↔
      .name ".git".toList ∉ components indexDir ∧ name.toList ≠ "config.json".toList ∧
        ∃ file ∈ files, file.getLast? = some name.toList ∧ ".git".toList ∉ file := by
  rw [scanLocalRegistryIndex, Std.ExtTreeSet.mem_ofList, List.contains_iff_mem, List.mem_filterMap,
    walkIndexFiles_eq listing hnames]
  constructor
  · rintro ⟨path, hpath, hname⟩
    obtain ⟨p, hp, rfl⟩ := List.mem_map.mp hpath
    obtain ⟨hmem, hne, hgit⟩ := (mem_walk_git_iff listing htree p).mp (List.mem_of_mem_filter hp)
    obtain ⟨n, hn⟩ := Option.isSome_iff_exists.mp (List.getLast?_isSome.mpr hne)
    rw [List.length_nil, List.drop_zero, scannedName_foldl_join indexDir (hnames p hmem) hn] at hname
    split at hname
    · cases hname
    · next hnot =>
      obtain rfl := Option.some.inj hname
      have hback : (String.ofList n).toList = n := String.toList_ofList
      rw [hback]
      exact ⟨fun h => hnot (.inr (.inl h)), fun h => hnot (.inl h), p, hmem, hn, hgit⟩
  · rintro ⟨hdir, hconfig, p, hmem, hlast, hgit⟩
    have hne : p ≠ [] := by
      rintro rfl
      cases hlast
    refine ⟨p.foldl join indexDir, List.mem_map.mpr ⟨p, List.mem_filter.mpr ⟨?_, ?_⟩, rfl⟩, ?_⟩
    · exact (mem_walk_git_iff listing htree p).mpr ⟨hmem, hne, hgit⟩
    · rw [hlast]
      simpa using hconfig
    · rw [scannedName_foldl_join indexDir (hnames p hmem) hlast, if_neg, String.ofList_toList]
      rintro (h | h | h)
      · exact hconfig h
      · exact hdir h
      · exact hgit h

/-! ### Names of crates -/

theorem toNat_lt_of_isCrateChar {c : Char} (h : isCrateChar c = true) : c.toNat < 128 := by
  have hval : c.val.toNat = c.toNat := rfl
  change ((((decide ('A'.val ≤ c.val ∧ c.val ≤ 'Z'.val) ||
    (decide ('a'.val ≤ c.val) && decide (c.val ≤ 'z'.val))) ||
      (decide ('0'.val ≤ c.val) && decide (c.val ≤ '9'.val))) || c == '-') || c == '_') = true at h
  simp only [Bool.or_eq_true, Bool.and_eq_true, decide_eq_true_eq, beq_iff_eq,
    UInt32.le_iff_toNat_le, hval, UInt32.reduceToNat, Char.reduceVal] at h
  rcases h with (((h | h) | h) | rfl) | rfl
  · omega
  · omega
  · omega
  · decide
  · decide

/-- Lowering a character of a name gives another one, which is not in upper case. -/
theorem isCrateChar_toLower {c : Char} (h : isCrateChar c = true) :
    isCrateChar c.toLower = true ∧ c.toLower.isUpper = false := by
  -- there are only so many ASCII characters
  have hall : ∀ n < 128, isCrateChar (Char.ofNat n) = true →
      isCrateChar (Char.ofNat n).toLower = true ∧ (Char.ofNat n).toLower.isUpper = false := by
    decide
  have hc := hall c.toNat (toNat_lt_of_isCrateChar h)
  rw [Char.ofNat_toNat] at hc
  exact hc h

theorem toLower_of_not_isUpper {c : Char} (h : c.isUpper = false) : c.toLower = c := by
  change decide (c.val ≥ 'A'.val ∧ c.val ≤ 'Z'.val) = false at h
  exact dif_neg (of_decide_eq_false h)

/-- A text of such characters is a name of a file. -/
theorem isFileName_of_isCrateChar {text : List Char} (hne : text ≠ [])
    (h : ∀ c ∈ text, isCrateChar c = true) : IsFileName text := by
  have hdot : '.' ∉ text := fun hmem => absurd (h '.' hmem) (by decide)
  refine ⟨fun hmem => absurd (h '/' hmem) (by decide), ?_⟩
  unfold ofPiece
  split
  · exact absurd rfl hne
  · simp at hdot
  · simp at hdot
  · rfl

/-- The name in lower case. -/
def lowered (name : String) : List Char := name.toList.map Char.toLower

theorem isCrateChar_lowered {name : String} (h : IsCrateName name) :
    lowered name ≠ [] ∧ ∀ c ∈ lowered name, isCrateChar c = true := by
  refine ⟨fun hnil => h.1 ?_, fun c hc => ?_⟩
  · exact String.toList_eq_nil_iff.mp (List.map_eq_nil_iff.mp hnil)
  · obtain ⟨d, hd, rfl⟩ := List.mem_map.mp hc
    exact (isCrateChar_toLower (h.2 d hd)).1

/-- The directories of an index file. -/
def shard : List Char → List (List Char)
  | [] => []
  | [_] => [['1']]
  | [_, _] => [['2']]
  | [a, _, _] => [['3'], [a]]
  | a :: b :: c :: d :: _ => [[a, b], [c, d]]

/-- The names on the way to an index file. -/
def indexPath (lower : List Char) : List (List Char) := shard lower ++ [lower]

/-- The names on the way are made of characters of the name and digits. -/
theorem isCrateChar_of_mem_indexPath {lower : List Char} (hne : lower ≠ [])
    (h : ∀ c ∈ lower, isCrateChar c = true) {n : List Char} (hn : n ∈ indexPath lower) :
    n ≠ [] ∧ ∀ c ∈ n, isCrateChar c = true := by
  rcases List.mem_append.mp hn with hn | hn
  · have hsub : n ≠ [] ∧ ∀ c ∈ n, c ∈ lower ∨ c ∈ ['1', '2', '3'] := by
      unfold shard at hn
      split at hn
      · cases hn
      · obtain rfl := List.mem_singleton.mp hn
        simp
      · obtain rfl := List.mem_singleton.mp hn
        simp
      · simp only [List.mem_cons, List.not_mem_nil, or_false] at hn
        rcases hn with rfl | rfl <;> simp
      · simp only [List.mem_cons, List.not_mem_nil, or_false] at hn
        rcases hn with rfl | rfl <;> simp
    refine ⟨hsub.1, fun c hc => ?_⟩
    rcases hsub.2 c hc with hc | hc
    · exact h c hc
    · simp only [List.mem_cons, List.not_mem_nil, or_false] at hc
      rcases hc with rfl | rfl | rfl <;> decide
  · obtain rfl := List.mem_singleton.mp hn
    exact ⟨hne, h⟩

theorem isFileName_of_mem_indexPath {lower : List Char} (hne : lower ≠ [])
    (h : ∀ c ∈ lower, isCrateChar c = true) : ∀ n ∈ indexPath lower, IsFileName n := by
  intro n hn
  obtain ⟨hn, hchars⟩ := isCrateChar_of_mem_indexPath hne h hn
  exact isFileName_of_isCrateChar hn hchars

/-- **No index file is a directory.** -/
theorem eq_of_prefix_indexPath {l l' : List Char} (hl : l ≠ []) (hl' : l' ≠ [])
    (h : indexPath l <+: indexPath l') : l = l' := by
  -- the first directory tells names of one, two, three and more characters apart
  rcases l with _ | ⟨a, _ | ⟨b, _ | ⟨c, _ | ⟨d, l⟩⟩⟩⟩
  · exact absurd rfl hl
  all_goals
    rcases l' with _ | ⟨a', _ | ⟨b', _ | ⟨c', _ | ⟨d', l'⟩⟩⟩⟩
    · exact absurd rfl hl'
    all_goals simp_all [indexPath, shard, List.cons_prefix_cons]

/-- A prefix of ASCII characters can be split off. -/
theorem splitAtByte_of_ascii {text : List Char} (h : ∀ c ∈ text, c.utf8Size = 1) {n : ℕ}
    (hn : n ≤ text.length) : splitAtByte n text = some (text.take n, text.drop n) := by
  induction text generalizing n with
  | nil =>
    obtain rfl : n = 0 := by simpa using hn
    rfl
  | cons c text ih =>
    obtain ⟨hc, htext⟩ := List.forall_mem_cons.mp h
    cases n with
    | zero => rfl
    | succ n =>
      have hn' : n ≤ text.length := Nat.le_of_succ_le_succ hn
      rw [splitAtByte, hc, if_pos (by omega), Nat.add_sub_cancel, ih htext hn']
      rfl

theorem join_of_ne {base text : List Char} (hbase : base ≠ []) (hlast : base.getLast? ≠ some '/')
    (htext : text.head? ≠ some '/') : join base text = base ++ '/' :: text := by
  rw [join, if_neg htext, if_neg (not_or_intro hbase hlast)]

variable {t : Tools}

/-- The path of an index file, by the length of the name. -/
theorem nameToPath_of_lower {toLowercase : String → String} {name : String} {lower : List Char}
    (hname : toLowercase name = String.ofList lower) (hne : lower ≠ [])
    (hchars : ∀ c ∈ lower, isCrateChar c = true) : nameToPath toLowercase name =
      some (String.ofList (['/'].intercalate (indexPath lower))) := by
  have hsize : ∀ c ∈ lower, c.utf8Size = 1 := by
    intro c hc
    rw [Char.utf8Size_eq_one_iff, UInt32.le_iff_toNat_le]
    exact Nat.le_of_lt_succ (toNat_lt_of_isCrateChar (hchars c hc))
  have hsep : ∀ c ∈ lower, c ≠ '/' := by
    rintro c hc rfl
    exact absurd (hchars _ hc) (by decide)
  unfold nameToPath
  -- characters and bytes of an ASCII name are the same, so the branches are those of `shard`
  rw [hname, String.toList_ofList, Utf8.utf8ByteSize_ofList, Utf8.byteLength_of_ascii hsize]
  rcases lower with _ | ⟨a, _ | ⟨b, _ | ⟨c, _ | ⟨d, rest⟩⟩⟩⟩
  · exact absurd rfl hne
  · have hjoin : join "1".toList [a] = ['1', '/', a] :=
      join_of_ne (by decide) (by decide) (by simpa using hsep a)
    show some (String.ofList (join "1".toList [a])) = _
    rw [hjoin]
    rfl
  · have hjoin : join "2".toList [a, b] = ['2', '/', a, b] :=
      join_of_ne (by decide) (by decide) (by simpa using hsep a)
    show some (String.ofList (join "2".toList [a, b])) = _
    rw [hjoin]
    rfl
  · have hfirst : splitAtByte 1 [a, b, c] = some ([a], [b, c]) :=
      splitAtByte_of_ascii hsize (by simp)
    have hjoin : join "3".toList [a] = ['3', '/', a] :=
      join_of_ne (by decide) (by decide) (by simpa using hsep a)
    have hjoin' : join ['3', '/', a] [a, b, c] = ['3', '/', a, '/', a, b, c] :=
      join_of_ne (by simp) (by simpa using hsep a) (by simpa using hsep a)
    dsimp only [List.length_cons, List.length_nil]
    rw [hfirst]
    show some (String.ofList (join (join "3".toList [a]) [a, b, c])) = _
    rw [hjoin, hjoin']
    rfl
  · have hfirst : splitAtByte 2 (a :: b :: c :: d :: rest) = some ([a, b], c :: d :: rest) :=
      splitAtByte_of_ascii hsize (by simp)
    have hsecond : splitAtByte 2 (c :: d :: rest) = some ([c, d], rest) :=
      splitAtByte_of_ascii (fun x hx => hsize x (by simp [hx])) (by simp)
    have hjoin : join [a, b] [c, d] = [a, b, '/', c, d] :=
      join_of_ne (by simp) (by simpa using hsep b) (by simpa using hsep c)
    have hjoin' : join [a, b, '/', c, d] (a :: b :: c :: d :: rest) =
        [a, b, '/', c, d, '/'] ++ (a :: b :: c :: d :: rest) :=
      join_of_ne (by simp) (by simpa using hsep d) (by simpa using hsep a)
    show (splitAtByte 2 (a :: b :: c :: d :: rest)).bind (fun first =>
      (splitAtByte 2 first.2).bind fun second => some (String.ofList
        (join (join first.1 second.1) (a :: b :: c :: d :: rest)))) = _
    rw [hfirst, Option.bind_some, hsecond, Option.bind_some, hjoin, hjoin']
    simp [indexPath, shard, List.intercalate]

/-- **The path** of an index file. -/
theorem nameToPath_eq (hlower : LowersAscii t.toLowercase) {name : String}
    (h : IsCrateName name) : nameToPath t.toLowercase name =
      some (String.ofList (['/'].intercalate (indexPath (lowered name)))) := by
  have hname := hlower name fun c hc => toNat_lt_of_isCrateChar (h.2 c hc)
  obtain ⟨hne, hchars⟩ := isCrateChar_lowered h
  exact nameToPath_of_lower hname hne hchars

/-! ### What was upserted -/

/-- The files that there are after some upserts. -/
theorem exists_forM_upsertEntry {entries : List IndexEntry}
    (hpaths : ∀ e ∈ entries, nameToPath t.toLowercase e.name ≠ none) (reg : Registry) :
    ∃ reg', forM entries t.upsertEntry reg = (.ok (), reg') ∧
      ∀ path, path ∈ reg'.index ↔
        path ∈ reg.index ∨ ∃ e ∈ entries, nameToPath t.toLowercase e.name = some path := by
  induction entries generalizing reg with
  | nil => exact ⟨reg, rfl, by simp⟩
  | cons entry entries ih =>
    obtain ⟨hentry, hentries⟩ := List.forall_mem_cons.mp hpaths
    obtain ⟨path, hpath⟩ := Option.ne_none_iff_exists'.mp hentry
    have hone := upsertEntry_eq reg hpath
    obtain ⟨reg', hrun, hmem⟩ := ih hentries _
    refine ⟨reg', (Eff.bind_of_ok hone).trans hrun, fun p => ?_⟩
    rw [hmem, Registry.setFile, Std.ExtTreeMap.mem_insert, Std.LawfulEqOrd.compare_eq_iff_eq,
      List.exists_mem_cons_iff, hpath, Option.some.injEq]
    tauto

section Upserted

variable {entries : List IndexEntry}

/-- The files of the index are those of the names. -/
theorem exists_upserted (hlower : LowersAscii t.toLowercase)
    (hnames : ∀ e ∈ entries, IsCrateName e.name) :
    ∃ reg, forM entries t.upsertEntry { index := ∅, crates := ∅ } = (.ok (), reg) ∧
      ∀ file, file ∈ reg.files ↔ ∃ e ∈ entries, indexPath (lowered e.name) = file := by
  have hpath := fun e he => nameToPath_eq hlower (hnames e he)
  have hpieces : ∀ e ∈ entries,
      pieces (['/'].intercalate (indexPath (lowered e.name))) = indexPath (lowered e.name) := by
    intro e he
    obtain ⟨hne, hchars⟩ := isCrateChar_lowered (hnames e he)
    refine List.splitOn_intercalate '/' (fun n hn => ?_) (by simp [indexPath])
    exact (isFileName_of_mem_indexPath hne hchars n hn).slash
  obtain ⟨reg, hrun, hmem⟩ := exists_forM_upsertEntry
    (fun e he => by rw [hpath e he]; exact Option.some_ne_none _) { index := ∅, crates := ∅ }
  refine ⟨reg, hrun, fun file => ?_⟩
  rw [Registry.files, List.mem_map]
  constructor
  · rintro ⟨path, hkey, rfl⟩
    rw [Std.ExtTreeMap.mem_keys, hmem] at hkey
    obtain ⟨e, he, heq⟩ := hkey.resolve_left Std.ExtTreeMap.not_mem_empty
    rw [hpath e he] at heq
    obtain rfl := Option.some.inj heq
    exact ⟨e, he, by rw [String.toList_ofList, hpieces e he]⟩
  · rintro ⟨e, he, rfl⟩
    refine ⟨String.ofList (['/'].intercalate (indexPath (lowered e.name))), ?_, ?_⟩
    · rw [Std.ExtTreeMap.mem_keys, hmem]
      exact .inr ⟨e, he, hpath e he⟩
    · rw [String.toList_ofList, hpieces e he]

/-- **What the scan finds** are the names in lower case, if it does not skip everything. -/
theorem mem_scan_upserted (hnames : ∀ e ∈ entries, IsCrateName e.name)
    {files : List (List (List Char))}
    (hfiles : ∀ file, file ∈ files ↔ ∃ e ∈ entries, indexPath (lowered e.name) = file)
    (listing : Listing files) (indexDir : List Char) (name : String) :
    name ∈ scanLocalRegistryIndex listing indexDir ↔
      .name ".git".toList ∉ components indexDir ∧ ∃ e ∈ entries, lowered e.name = name.toList := by
  have htree : IsTree files := by
    rintro file hfile ⟨file', hfile', hpre, hne⟩
    obtain ⟨e, he, rfl⟩ := (hfiles file).mp hfile
    obtain ⟨e', he', rfl⟩ := (hfiles file').mp hfile'
    obtain ⟨hl, -⟩ := isCrateChar_lowered (hnames e he)
    obtain ⟨hl', -⟩ := isCrateChar_lowered (hnames e' he')
    exact hne (congrArg indexPath (eq_of_prefix_indexPath hl hl' hpre))
  have hfileNames : ∀ file ∈ files, ∀ n ∈ file, IsFileName n := by
    intro file hfile
    obtain ⟨e, he, rfl⟩ := (hfiles file).mp hfile
    obtain ⟨hne, hchars⟩ := isCrateChar_lowered (hnames e he)
    exact isFileName_of_mem_indexPath hne hchars
  have hlast : ∀ lower, (indexPath lower).getLast? = some lower := fun _ => List.getLast?_concat
  rw [mem_scanLocalRegistryIndex listing htree hfileNames]
  refine and_congr_right fun _ => ?_
  constructor
  · rintro ⟨-, file, hfile, hname, -⟩
    obtain ⟨e, he, rfl⟩ := (hfiles file).mp hfile
    rw [hlast] at hname
    exact ⟨e, he, Option.some.inj hname⟩
  · -- a valid name has no dot, as the names that are skipped do
    rintro ⟨e, he, hname⟩
    obtain ⟨hne, hchars⟩ := isCrateChar_lowered (hnames e he)
    refine ⟨?_, _, (hfiles _).mpr ⟨e, he, rfl⟩, by rw [hlast, hname], ?_⟩
    · rintro hconfig
      rw [← hname] at hconfig
      exact absurd (hchars '.' (by rw [hconfig]; decide)) (by decide)
    · intro hgit
      obtain ⟨-, hall⟩ := isCrateChar_of_mem_indexPath hne hchars hgit
      exact absurd (hall '.' (by decide)) (by decide)

end Upserted

/-! ### The inverse -/

/-- The registry of a dependency's entry. -/
theorem registry_of_buildIndexDep {ws : Workspace} {dep : Dependency} {idx : IndexDep}
    (h : Tools.buildIndexDep ws dep = some idx) :
    idx.registry = some (Tools.dependencyRegistry ws dep) := by
  unfold Tools.buildIndexDep at h
  split at h
  dsimp only at h
  split at h
  · obtain rfl := Option.some.inj h
    rfl
  · obtain rfl := Option.some.inj h
    rfl
  · cases h
  · cases h

theorem indexUrl_ne_cratesIoIndex (paths : RegistryPaths) :
    String.ofList (indexUrl paths) ≠ cratesIoIndex := by
  intro h
  have hurl : indexUrl paths = cratesIoIndex.toList := by rw [← h, String.toList_ofList]
  have hfirst : (indexUrl paths).head? = some 'f' := rfl
  rw [hurl] at hfirst
  exact absurd hfirst (by decide)

/-- A dependency that is no member and names no registry is assigned to the local registry exactly
if it was scanned. -/
theorem registry_eq_local_iff {ws : Workspace} {dep : Dependency} {idx : IndexDep}
    (h : Tools.buildIndexDep ws dep = some idx) (hpkg : dep.name ∉ ws.pkgMap)
    (hregistry : dep.registry = none) (hurl : ws.registryUrl ≠ cratesIoIndex) :
    idx.registry = some ws.registryUrl ↔ dep.name ∈ ws.localRegistryCrates := by
  have hcontains : ws.pkgMap.contains dep.name = false := by
    rwa [← Bool.not_eq_true, Std.ExtTreeMap.contains_iff_mem]
  rw [registry_of_buildIndexDep h, Option.some.injEq, Tools.dependencyRegistry, hcontains,
    hregistry, Option.any_none, Bool.false_or, Bool.or_false, ← Std.ExtTreeSet.contains_iff_mem]
  split
  · next hin => exact iff_of_true rfl hin
  · next hout => exact iff_of_false hurl.symm hout

/-- A name that is in lower case already. -/
theorem lowered_eq_toList_iff {name : String} (h : IsCrateName name) :
    lowered name = name.toList ↔ ∀ c ∈ name.toList, c.isUpper = false := by
  constructor
  · intro heq c hc
    rw [← heq] at hc
    obtain ⟨d, hd, rfl⟩ := List.mem_map.mp hc
    exact (isCrateChar_toLower (h.2 d hd)).2
  · intro hall
    rw [lowered]
    conv_rhs => rw [← List.map_id name.toList]
    exact List.map_congr_left fun c hc => toLower_of_not_isUpper (hall c hc)

/-- **The scan inverts the layout of the index** exactly if all the names are in lower case, and
there are none or no directory on the way to the index is called `.git`. -/
theorem scanInverts_iff (t : Tools) (hlower : LowersAscii t.toLowercase) (paths : RegistryPaths)
    {entries : List IndexEntry} (hnames : ∀ e ∈ entries, IsCrateName e.name) :
    ScanInverts t paths entries ↔
      (∀ e ∈ entries, ∀ c ∈ e.name.toList, c.isUpper = false) ∧
        (entries = [] ∨ .name ".git".toList ∉ components paths.index) := by
  obtain ⟨reg, hrun, hfiles⟩ := exists_upserted hlower hnames
  have hscan := fun listing => mem_scan_upserted hnames hfiles listing paths.index
  constructor
  · rintro ⟨reg', hrun', h⟩
    obtain rfl : reg = reg' := congrArg Prod.snd (hrun.symm.trans hrun')
    have hfound : ∀ e ∈ entries, .name ".git".toList ∉ components paths.index ∧
        ∃ e' ∈ entries, lowered e'.name = e.name.toList := by
      intro e he
      rw [← hscan (.ofFiles reg.files)]
      exact ((h (.ofFiles reg.files)).1 e.name).mpr ⟨e, he, rfl⟩
    constructor
    · intro e he c hc
      obtain ⟨-, e', he', heq⟩ := hfound e he
      rw [← heq] at hc
      obtain ⟨d, hd, rfl⟩ := List.mem_map.mp hc
      exact (isCrateChar_toLower ((hnames e' he').2 d hd)).2
    · cases entries with
      | nil => exact .inl rfl
      | cons e entries => exact .inr (hfound e List.mem_cons_self).1
  · rintro ⟨hcase, hgit⟩
    refine ⟨reg, hrun, fun listing => ?_⟩
    have hmem : ∀ name, name ∈ scanLocalRegistryIndex listing paths.index ↔
        ∃ e ∈ entries, e.name = name := by
      intro name
      have hall : ∀ e ∈ entries, (lowered e.name = name.toList ↔ e.name = name) := by
        intro e he
        rw [(lowered_eq_toList_iff (hnames e he)).mpr (hcase e he), String.toList_inj]
      rw [hscan]
      constructor
      · rintro ⟨-, e, he, hname⟩
        exact ⟨e, he, (hall e he).mp hname⟩
      · rintro ⟨e, he, hname⟩
        exact ⟨hgit.resolve_left (List.ne_nil_of_mem he), e, he, (hall e he).mpr hname⟩
    refine ⟨hmem, fun pkgMap dep idx hpkg hregistry hidx => ?_⟩
    rw [← hmem dep.name]
    exact registry_eq_local_iff hidx hpkg hregistry (indexUrl_ne_cratesIoIndex paths)

/-- A crate with a name in lower case. -/
theorem scanInverts_iff_demo :
    ScanInverts (demoTools true) (pathsFromRoot "/registry".toList) [demoEntry] ↔
      (∀ e ∈ [demoEntry], ∀ c ∈ e.name.toList, c.isUpper = false) ∧
        ([demoEntry] = [] ∨
          .name ".git".toList ∉ components (pathsFromRoot "/registry".toList).index) := by
  refine scanInverts_iff (demoTools true) (fun name _ => rfl) (pathsFromRoot "/registry".toList)
    fun e he => ?_
  obtain rfl := List.mem_singleton.mp he
  exact ⟨by decide, List.all_eq_true.mp (by decide)⟩

/-- A crate `Foo` is published, but what the scan finds is `foo`. -/
theorem not_scanInverts_foo :
    ¬ ScanInverts (demoTools true) (pathsFromRoot "/registry".toList)
      [{ demoEntry with name := "Foo" }] := by
  have hnames : ∀ e ∈ [{ demoEntry with name := "Foo" }], IsCrateName e.name := by
    intro e he
    obtain rfl := List.mem_singleton.mp he
    exact ⟨by decide, List.all_eq_true.mp (by decide)⟩
  have hlower : LowersAscii (demoTools true).toLowercase := fun name _ => rfl
  obtain ⟨reg, hrun, hfiles⟩ := exists_upserted hlower hnames
  rintro ⟨reg', hrun', h⟩
  obtain rfl : reg = reg' := congrArg Prod.snd (hrun.symm.trans hrun')
  have hfound := ((h (.ofFiles reg.files)).1 "Foo").mpr ⟨_, List.mem_singleton_self _, rfl⟩
  obtain ⟨-, e, he, hname⟩ := (mem_scan_upserted hnames hfiles _ _ _).mp hfound
  obtain rfl := List.mem_singleton.mp he
  exact absurd hname (by decide)

end SweGateway.Xtask

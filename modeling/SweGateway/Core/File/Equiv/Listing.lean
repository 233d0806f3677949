import SweGateway.Core.File.Equiv.Sandbox
import SweGateway.Lib.PathPrefix

/-!
# What a listing reports

`list` goes through the entries of a directory in the order in which they come and stops behind the
one that makes the number of files reach the limit.  `taken` are the entries it gets to, and
`list_eq` says that they are what it returns.  It never says that it has left any out, so a listing
is truthful only where the limit leaves none out (`list_truthful_iff`).
-/

namespace SweGateway

open LexicalPath

/-- An entry of a directory: its name and what the operating system says about it. -/
abbrev DirEntry := List Char × Metadata

/-- The file system has the entries in the directory, in that order, and reading does not change
the world. -/
structure FileSystem.Yields {W : Type} (fs : FileSystem W) (w : W) (dir : FilePath)
    (entries : List DirEntry) : Prop where
  isDir : ∃ m, fs.metadata dir w = (.ok m, w) ∧ m.isDir = true
  readDir : fs.readDir dir w = (.ok (entries.map fun e => .ok e.1), w)
  entryMetadata : ∀ e ∈ entries, fs.entryMetadata (dir ++ [.name e.1]) w = (.ok e.2, w)
  names : ∀ e ∈ entries, IsFileName e.1
  nodup : (entries.map Prod.fst).Nodup

namespace ListOptions

/-- Whether the entry is listed as a file, and not as a prefix. -/
def asFile (options : ListOptions) (e : DirEntry) : Bool :=
  !(e.2.isDir && options.delimiter.isSome)

/-- Whether the loop stops with `n` files. -/
def stops (options : ListOptions) (n : ℕ) : Bool := options.maxResults.any (· ≤ n)

/-- The entries that the loop gets to, if it has `n` files already. -/
def taken (options : ListOptions) : ℕ → List DirEntry → List DirEntry
  | _, [] => []
  | n, e :: es =>
    let n := if options.asFile e then n + 1 else n
    if options.stops n then [e] else e :: options.taken n es

/-- The number of entries that are listed as files. -/
def fileCount (options : ListOptions) (es : List DirEntry) : ℕ := (es.filter options.asFile).length

/-! ### The entries that the loop gets to -/

theorem taken_prefix (options : ListOptions) (n : ℕ) (es : List DirEntry) :
    options.taken n es <+: es := by
  induction es generalizing n with
  | nil => exact List.prefix_rfl
  | cons e es ih =>
    rw [taken]
    split_ifs
    all_goals first
      | exact List.prefix_append [e] es
      | exact List.cons_prefix_cons.mpr ⟨rfl, ih _⟩

theorem stops_mono {options : ListOptions} {m n : ℕ} (hle : m ≤ n) (h : options.stops m = true) :
    options.stops n = true := by
  obtain ⟨keyPrefix, delimiter, maxResults⟩ := options
  cases maxResults with
  | none => cases h
  | some max =>
    simp only [stops, Option.any_some, decide_eq_true_eq] at h ⊢
    omega

theorem stops_eq_false_iff (options : ListOptions) (n : ℕ) :
    options.stops n = false ↔ ∀ max, options.maxResults = some max → n < max := by
  unfold stops
  cases options.maxResults <;> simp

theorem fileCount_cons (options : ListOptions) (e : DirEntry) (es : List DirEntry) (n : ℕ) :
    n + options.fileCount (e :: es) =
      (if options.asFile e then n + 1 else n) + options.fileCount es := by
  unfold fileCount
  rw [List.filter_cons]
  split
  · rw [List.length_cons]
    omega
  · rfl

/-- The loop gets to the end if the limit is not reached before the last entry. -/
theorem taken_eq_self_iff (options : ListOptions) (n : ℕ) (es : List DirEntry) :
    options.taken n es = es ↔
      es.length ≤ 1 ∨ options.stops (n + options.fileCount es.dropLast) = false := by
  induction es generalizing n with
  | nil => simp [taken]
  | cons e es ih =>
    rw [taken]
    cases es with
    | nil => simp [taken]
    | cons e' es =>
      rw [List.dropLast_cons_of_ne_nil (List.cons_ne_nil e' es), fileCount_cons]
      set m := if options.asFile e then n + 1 else n
      cases hm : options.stops m with
      | true =>
        have hstop := stops_mono (Nat.le_add_right m (options.fileCount (e' :: es).dropLast)) hm
        simp [hstop]
      | false =>
        rw [if_neg Bool.false_ne_true, List.cons.injEq, and_iff_right rfl, ih m]
        constructor
        · rintro (hlen | hstop)
          · obtain rfl : es = [] := by simpa using hlen
            right
            simpa [fileCount] using hm
          · exact .inr hstop
        · rintro (hlen | hstop)
          · simp at hlen
          · exact .inr hstop

end ListOptions

namespace LocalFileGateway

variable {W : Type} (g : LocalFileGateway) (fs : FileSystem W) (options : ListOptions) (w : W)

/-- The path under which an entry of the searched directory is listed. -/
def entryPath (e : DirEntry) : String := g.relativePath (join (g.searchPath options) e.1) e.1

/-- What is listed about an entry that is listed as a file. -/
def entryInfo (e : DirEntry) : FileInfo :=
  { path := g.entryPath options e
    size := e.2.size
    contentType := fs.guessMime (g.entryPath options e)
    lastModified := e.2.modified.getD (fs.now w)
    createdAt := e.2.created
    isDirectory := e.2.isDir }

theorem metadataToInfo_entry (e : DirEntry) :
    metadataToInfo fs (g.relativePath (join (g.searchPath options) e.1) e.1) e.2 w =
      (.ok (g.entryInfo fs options w e), w) := rfl

/-- The files among the entries. -/
def filesOf (es : List DirEntry) : List FileInfo :=
  (es.filter options.asFile).map (g.entryInfo fs options w)

/-- The common prefixes among the entries. -/
def prefixesOf (es : List DirEntry) : List String :=
  (es.filter fun e => !options.asFile e).map (g.entryPath options)

theorem filesOf_cons (e : DirEntry) (es : List DirEntry) :
    g.filesOf fs options w (e :: es) =
      g.filesOf fs options w [e] ++ g.filesOf fs options w es := by
  rw [filesOf, filesOf, filesOf, ← List.map_append, ← List.filter_append]
  rfl

theorem prefixesOf_cons (e : DirEntry) (es : List DirEntry) :
    g.prefixesOf options (e :: es) = g.prefixesOf options [e] ++ g.prefixesOf options es := by
  rw [prefixesOf, prefixesOf, prefixesOf, ← List.map_append, ← List.filter_append]
  rfl

theorem length_filesOf (es : List DirEntry) :
    (g.filesOf fs options w es).length = options.fileCount es := by
  rw [filesOf, List.length_map, ListOptions.fileCount]

/-! ### The loop -/

/-- What the loop has after an entry. -/
def listStep (e : DirEntry) (s : List FileInfo × List String) : List FileInfo × List String :=
  (s.1 ++ g.filesOf fs options w [e], s.2 ++ g.prefixesOf options [e])

/-- Whether the loop goes on after an entry. -/
def stepOrStop (s : List FileInfo × List String) : ForInStep (List FileInfo × List String) :=
  if options.stops s.1.length then .done s else .yield s

theorem listStep_of_prefix {e : DirEntry} {s : List FileInfo × List String}
    (h : (e.2.isDir && options.delimiter.isSome) = true) :
    g.listStep fs options w e s = (s.1, s.2 ++ [g.entryPath options e]) := by
  simp [listStep, filesOf, prefixesOf, ListOptions.asFile, h]

theorem listStep_of_file {e : DirEntry} {s : List FileInfo × List String}
    (h : (e.2.isDir && options.delimiter.isSome) = false) :
    g.listStep fs options w e s = (s.1 ++ [g.entryInfo fs options w e], s.2) := by
  simp [listStep, filesOf, prefixesOf, ListOptions.asFile, h]

/-- The end of the loop's body. -/
theorem stepOrStop_eq (s : List FileInfo × List String) :
    (match options.maxResults with
      | some max => if max ≤ s.1.length then pure (.done s) else pure (.yield s)
      | _ => pure (.yield s) :
        Eff W GatewayError (ForInStep (List FileInfo × List String))) w =
      (.ok (stepOrStop options s), w) := by
  rw [stepOrStop, ListOptions.stops]
  cases options.maxResults with
  | none => rfl
  | some max =>
    simp only [Option.any_some, decide_eq_true_eq]
    split <;> rfl

/-- A loop over the entries whose body does such steps. -/
theorem forIn_listStep {es : List DirEntry}
    {body : Except IoError (List Char) → List FileInfo × List String →
      Eff W GatewayError (ForInStep (List FileInfo × List String))}
    (hbody : ∀ e ∈ es, ∀ s,
      body (.ok e.1) s w = (.ok (stepOrStop options (g.listStep fs options w e s)), w))
    (s : List FileInfo × List String) :
    forIn (es.map fun e => .ok e.1) s body w =
      (.ok (s.1 ++ g.filesOf fs options w (options.taken s.1.length es),
        s.2 ++ g.prefixesOf options (options.taken s.1.length es)), w) := by
  induction es generalizing s with
  | nil => simp [ListOptions.taken, filesOf, prefixesOf]
  | cons e es ih =>
    have hlen : (g.listStep fs options w e s).1.length =
        if options.asFile e then s.1.length + 1 else s.1.length := by
      rw [listStep, List.length_append, length_filesOf, options.fileCount_cons e []]
      rfl
    have hrest := ih (fun e' he' => hbody e' (List.mem_cons_of_mem e he'))
      (g.listStep fs options w e s)
    rw [hlen] at hrest
    have hstep := hbody e List.mem_cons_self s
    rw [stepOrStop, hlen] at hstep
    rw [List.map_cons, List.forIn_cons, Eff.bind_of_ok hstep, ListOptions.taken]
    set n := if options.asFile e then s.1.length + 1 else s.1.length
    cases hstop : options.stops n with
    | true => rfl
    | false =>
      simp only [Bool.false_eq_true, if_false]
      rw [filesOf_cons, prefixesOf_cons, ← List.append_assoc, ← List.append_assoc]
      exact hrest

/-- The files and prefixes of a listing are those of the entries that the loop gets to. -/
theorem list_eq {entries : List DirEntry}
    (h : fs.Yields w (components (g.searchPath options)) entries) :
    g.list fs options w =
      (.ok {
        files := g.filesOf fs options w (options.taken 0 entries)
        prefixes := g.prefixesOf options (options.taken 0 entries) }, w) := by
  obtain ⟨m, hm, hdir⟩ := h.isDir
  have hisDir : (fs.isDir (components (g.searchPath options)) : Eff W GatewayError Bool) w =
      (.ok true, w) := by
    rw [FileSystem.isDir, Eff.orElseReturn, Eff.bind_of_ok hm, hdir]
    rfl
  unfold list
  rw [Eff.bind_of_ok hisDir, if_pos rfl, Eff.bind_of_ok (Eff.mapError_of_ok h.readDir)]
  rw [Eff.bind_of_ok (g.forIn_listStep fs options w (fun e he s => ?_) ([], []))]
  · rfl
  · have hmetadata := Eff.mapError_of_ok (f := ioError) (h.entryMetadata e he)
    have hname : Eff.ofExcept (Except.mapError ioError (Except.ok e.1)) w = (.ok e.1, w) := rfl
    dsimp only
    rw [Eff.bind_of_ok hname, Eff.bind_of_ok hmetadata]
    cases hpre : e.2.isDir && options.delimiter.isSome with
    | true =>
      rw [g.listStep_of_prefix fs options w hpre]
      exact stepOrStop_eq options w (s.1, s.2 ++ [g.entryPath options e])
    | false =>
      rw [g.listStep_of_file fs options w hpre, if_neg Bool.false_ne_true,
        Eff.bind_of_ok (g.metadataToInfo_entry fs options w e)]
      exact stepOrStop_eq options w (s.1 ++ [g.entryInfo fs options w e], s.2)

/-! ### The paths that are listed -/

theorem components_base_prefix :
    components g.basePath <+: components (g.searchPath options) := by
  unfold searchPath
  cases options.keyPrefix with
  | none => exact List.prefix_rfl
  | some keyPrefix =>
    by_cases hbase : g.basePath = []
    · rw [hbase]
      exact List.nil_prefix
    · dsimp only
      rw [components_join hbase (head?_dropWhile_slash _)]
      exact List.prefix_append _ _

/-- Different entries are listed under different paths. -/
theorem entryPath_inj {e e' : DirEntry} (h : IsFileName e.1) (h' : IsFileName e'.1)
    (heq : g.entryPath options e = g.entryPath options e') : e.1 = e'.1 := by
  have hbase := g.components_base_prefix options
  refine stripPrefix_join_inj hbase h h' ?_
  obtain ⟨rest, front, hrest, -⟩ := stripPrefix_join hbase h
  obtain ⟨rest', front', hrest', -⟩ := stripPrefix_join hbase h'
  rw [entryPath, entryPath, relativePath, relativePath, hrest, hrest', String.ofList_inj] at heq
  rw [hrest, hrest']
  exact congrArg some heq

/-- The paths of the files and prefixes among the entries. -/
theorem map_path_append_prefixesOf_perm (es : List DirEntry) :
    ((g.filesOf fs options w es).map (·.path) ++ g.prefixesOf options es).Perm
      (es.map (g.entryPath options)) := by
  have hpath : (g.filesOf fs options w es).map (·.path) =
      (es.filter options.asFile).map (g.entryPath options) := by
    rw [filesOf, List.map_map]
    rfl
  rw [hpath, prefixesOf, ← List.map_append]
  exact (List.filter_append_perm options.asFile es).map _

/-- What a listing of the entries should be: within the limit, without repetitions, and complete
unless it says otherwise. -/
structure Truthful (entries : List DirEntry) (result : ListResult) : Prop where
  limit : ∀ max, options.maxResults = some max → result.files.length ≤ max
  nodup : (result.files.map (·.path) ++ result.prefixes).Nodup
  complete : result.isTruncated = false → ∀ e ∈ entries,
    g.entryPath options e ∈ result.files.map (·.path) ++ result.prefixes

/-- A listing of the first entries is truthful if these are all of them, and the files among them
are not too many. -/
theorem truthful_iff {entries es : List DirEntry} (hpre : es <+: entries)
    (hnames : ∀ e ∈ entries, IsFileName e.1) (hnodup : (entries.map Prod.fst).Nodup) :
    g.Truthful options entries
        { files := g.filesOf fs options w es, prefixes := g.prefixesOf options es } ↔
      es = entries ∧ ∀ max, options.maxResults = some max → options.fileCount es ≤ max := by
  have hperm := g.map_path_append_prefixesOf_perm fs options w es
  have hinj : ∀ e ∈ entries, ∀ e' ∈ entries,
      g.entryPath options e = g.entryPath options e' → e = e' := by
    intro e he e' he' heq
    have hname := g.entryPath_inj options (hnames e he) (hnames e' he') heq
    exact List.inj_on_of_nodup_map hnodup he he' hname
  have hmem : ∀ e ∈ es, e ∈ entries := fun e he => hpre.subset he
  constructor
  · intro h
    refine ⟨?_, fun max hmax => ?_⟩
    · -- every entry has its path in the listing, and no other entry has that path
      have hsubset : entries ⊆ es := by
        intro e he
        obtain ⟨e', he', heq⟩ := List.mem_map.mp (hperm.mem_iff.mp (h.complete rfl e he))
        rwa [← hinj e' (hmem e' he') e he heq]
      exact hpre.eq_of_length_le (hnodup.of_map.subperm hsubset).length_le
    · rw [← g.length_filesOf fs options w]
      exact h.limit max hmax
  · rintro ⟨rfl, hcount⟩
    refine ⟨fun max hmax => ?_, ?_, fun _ e he => ?_⟩
    · rw [g.length_filesOf fs options w]
      exact hcount max hmax
    · exact hperm.nodup_iff.mpr (hnodup.of_map.map_on hinj)
    · exact hperm.mem_iff.mpr (List.mem_map_of_mem he)

/-- **A listing is truthful** exactly if no limit is given, or the limit allows for all the entries
that are listed as files and is not reached before the last entry. -/
theorem list_truthful_iff {entries : List DirEntry}
    (h : fs.Yields w (components (g.searchPath options)) entries) :
    (∃ result w', g.list fs options w = (.ok result, w') ∧ g.Truthful options entries result) ↔
      ∀ max, options.maxResults = some max → options.fileCount entries ≤ max ∧
        (entries.length ≤ 1 ∨ options.fileCount entries.dropLast < max) := by
  have hiff := g.truthful_iff fs options w (options.taken_prefix 0 entries) h.names h.nodup
  have hall := options.taken_eq_self_iff 0 entries
  rw [g.list_eq fs options w h]
  rw [ListOptions.stops_eq_false_iff, Nat.zero_add] at hall
  constructor
  · rintro ⟨result, w', heq, htruthful⟩ max hmax
    obtain ⟨hok, rfl⟩ := Prod.mk.inj heq
    obtain rfl := Except.ok.inj hok
    obtain ⟨htaken, hcount⟩ := hiff.mp htruthful
    refine ⟨htaken ▸ hcount max hmax, ?_⟩
    exact (hall.mp htaken).imp id fun hstop => hstop max hmax
  · intro hcond
    have htaken : options.taken 0 entries = entries := by
      rw [hall]
      by_contra hnot
      push Not at hnot
      obtain ⟨hlen, max, hmax, hle⟩ := hnot
      rcases (hcond max hmax).2 with hshort | hlt <;> omega
    refine ⟨_, w, rfl, hiff.mpr ⟨htaken, fun max hmax => ?_⟩⟩
    rw [htaken]
    exact (hcond max hmax).1

/-- A file system on which every path is a directory with the same files. -/
def flatFiles (names : List (List Char)) : FileSystem Unit :=
  { accepting [] with
    readDir := fun _ => pure (names.map .ok)
    entryMetadata := fun _ => pure { size := 0, isDir := false, modified := none, created := none } }

/-- The entries of its directories. -/
def flatEntries (names : List (List Char)) : List DirEntry :=
  names.map fun name => (name, { size := 0, isDir := false, modified := none, created := none })

theorem yields_flatFiles {names : List (List Char)} (hnames : ∀ name ∈ names, IsFileName name)
    (hnodup : names.Nodup) (dir : FilePath) :
    (flatFiles names).Yields () dir (flatEntries names) where
  isDir := ⟨_, rfl, rfl⟩
  readDir := by
    rw [flatEntries, List.map_map]
    rfl
  entryMetadata e he := by
    obtain ⟨name, -, rfl⟩ := List.mem_map.mp he
    rfl
  names e he := by
    obtain ⟨name, hname, rfl⟩ := List.mem_map.mp he
    exact hnames name hname
  nodup := by
    rw [flatEntries, List.map_map]
    exact (List.map_id names).symm ▸ hnodup

theorem yields_twoFiles (dir : FilePath) :
    (flatFiles [['a'], ['b']]).Yields () dir (flatEntries [['a'], ['b']]) := by
  refine yields_flatFiles (fun name hname => ?_) (by decide) dir
  have hcases : name = ['a'] ∨ name = ['b'] := by simpa using hname
  rcases hcases with rfl | rfl <;> exact ⟨by decide, rfl⟩

/-- Two files with a limit of two are listed truthfully. -/
theorem list_truthful_twoFiles :
    ∃ result w', list ⟨"/data".toList⟩ (flatFiles [['a'], ['b']]) { maxResults := some 2 } () =
        (.ok result, w') ∧
      Truthful ⟨"/data".toList⟩ { maxResults := some 2 } (flatEntries [['a'], ['b']]) result :=
  (list_truthful_iff _ _ _ () (yields_twoFiles _)).mpr fun max hmax => by
    obtain rfl := Option.some.inj hmax
    decide

/-- With a limit of one, one of two files is left out and the listing does not say so. -/
theorem list_twoFiles_untruthful :
    ∃ result, list ⟨"/data".toList⟩ (flatFiles [['a'], ['b']]) { maxResults := some 1 } () =
        (.ok result, ()) ∧ result.isTruncated = false ∧ result.files.map (·.path) = ["a"] ∧
      result.prefixes = [] ∧
      ¬Truthful ⟨"/data".toList⟩ { maxResults := some 1 } (flatEntries [['a'], ['b']]) result := by
  refine ⟨_, list_eq _ _ _ () (yields_twoFiles _), rfl, ?_, ?_, fun h => ?_⟩
  · decide +kernel
  · decide +kernel
  · have := h.complete rfl (['b'], _) (List.mem_cons_of_mem _ List.mem_cons_self)
    revert this
    decide +kernel

end LocalFileGateway

end SweGateway

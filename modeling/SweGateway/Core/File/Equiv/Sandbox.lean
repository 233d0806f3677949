import SweGateway.Core.File.Local

/-!
# Which calls stay below the base path

`resolve_path` removes the separators in front of a path and joins the rest to the base.  It does
not look for `..`, so a path may climb out of the base.  `Contained` says for which arguments a call
hands the file system only paths at or below the base and makes directories only there: each path
that climbs out of some directories of the base must come back down through the same ones, and
where an operation creates directories, so must every path at the front of the one that it creates,
unless it leads to a directory that is there already.  `contained_iff` shows that this is exact: a
call that is not contained touches a path outside the base on some file system.

Paths are resolved component by component, which is what the operating system does where there are
no symbolic links.  `cwd` is the working directory that a relative base starts from.
-/

namespace SweGateway.LocalFileGateway

open LexicalPath

variable {W : Type}

/-- The directory that the base path denotes. -/
def base (g : LocalFileGateway) (cwd : List (List Char)) : List (List Char) :=
  resolve cwd (components g.basePath)

/-- The path lies at or below the base path. -/
def AtOrBelow (g : LocalFileGateway) (cwd : List (List Char)) (path : FilePath) : Prop :=
  g.base cwd <+: resolve cwd path

/-- The components of a path argument, separators in front removed. -/
def argument (path : String) : FilePath := relative (path.toList.dropWhile (· = '/'))

/-- The path argument does not lead out of the base path. -/
def Stays (g : LocalFileGateway) (cwd : List (List Char)) (path : String) : Prop :=
  Reenters (g.base cwd) (argument path)

/-- On a way from the directory `dir` no directory is made outside of the base path: what each path
at the front of the way leads to is present, or lies at or below the base. -/
def WayStays (g : LocalFileGateway) (cwd : List (List Char)) (present : List (List Char) → Bool)
    (dir : List (List Char)) (way : FilePath) : Prop :=
  ∀ front, front <+: way → front ≠ [] →
    present (resolve dir front) = true ∨ g.base cwd <+: resolve dir front

/-- No directory is made outside on the way to the base and from there along an argument. -/
def DirStays (g : LocalFileGateway) (cwd : List (List Char)) (present : List (List Char) → Bool)
    (argument : FilePath) : Prop :=
  g.WayStays cwd present cwd (components g.basePath) ∧
    g.WayStays cwd present (g.base cwd) argument

/-- The argument's parent does not lead out of the base path, and no directory is made outside on
the way to it.  The parent of an argument without components is that of the base path. -/
def ParentStays (g : LocalFileGateway) (cwd : List (List Char))
    (present : List (List Char) → Bool) (path : String) : Prop :=
  if argument path = [] then
    ∀ dir, parent (components g.basePath) = some dir →
      g.AtOrBelow cwd dir ∧ g.WayStays cwd present cwd dir
  else
    Reenters (g.base cwd) (argument path).dropLast ∧
      g.DirStays cwd present (argument path).dropLast

/-- The arguments of the call do not lead out of the base path, and neither do the directories that
it makes. -/
def Contained (g : LocalFileGateway) (cwd : List (List Char))
    (present : List (List Char) → Bool) : FileCall → Prop
  | .read path | .metadata path | .exists path | .delete path | .deleteDirectory path _ =>
    g.Stays cwd path
  | .createDirectory path => g.Stays cwd path ∧ g.DirStays cwd present (argument path)
  | .list options => ∀ keyPrefix, options.keyPrefix = some keyPrefix → g.Stays cwd keyPrefix
  | .write path _ _ => g.Stays cwd path ∧ g.ParentStays cwd present path
  | .copy source destination | .rename source destination =>
    g.Stays cwd source ∧ g.Stays cwd destination ∧ g.ParentStays cwd present destination

/-! ### Where the arguments lead -/

theorem head?_dropWhile_slash (text : List Char) :
    (text.dropWhile (· = '/')).head? ≠ some '/' := by
  intro h
  have := List.head?_dropWhile_not (fun c => decide (c = '/')) text
  rw [h] at this
  simp at this

theorem resolve_resolvePath (g : LocalFileGateway) (cwd : List (List Char)) (path : String) :
    resolve cwd (components (g.resolvePath path)) = resolve (g.base cwd) (argument path) :=
  resolve_join (head?_dropWhile_slash _) cwd

/-- A path argument resolves to a path at or below the base exactly if it does not lead out. -/
theorem atOrBelow_resolvePath_iff (g : LocalFileGateway) (cwd : List (List Char)) (path : String) :
    g.AtOrBelow cwd (components (g.resolvePath path)) ↔ g.Stays cwd path := by
  rw [AtOrBelow, resolve_resolvePath]
  exact prefix_resolve_iff _ (root_not_mem_relative _)

theorem mem_made {cwd : List (List Char)} {present : List (List Char) → Bool} {path p : FilePath} :
    p ∈ FileSystem.made cwd present path ↔
      p <+: path ∧ p ≠ [] ∧ present (resolve cwd p) = false := by
  simp [FileSystem.made, List.mem_inits]

/-- The directories that are made on the way to a path lie at or below the base exactly if the way
stays. -/
theorem forall_made_iff (g : LocalFileGateway) (cwd : List (List Char))
    (present : List (List Char) → Bool) (path : FilePath) :
    (∀ p ∈ FileSystem.made cwd present path, g.AtOrBelow cwd p) ↔
      g.WayStays cwd present cwd path := by
  refine forall_congr' fun p => ?_
  rw [mem_made]
  constructor
  · intro h hfront hne
    cases hp : present (resolve cwd p) with
    | true => exact .inl rfl
    | false => exact .inr (h ⟨hfront, hne, hp⟩)
  · rintro h ⟨hfront, hne, hp⟩
    refine (h hfront hne).resolve_left ?_
    rw [hp]
    exact Bool.false_ne_true

theorem wayStays_nil (g : LocalFileGateway) (cwd : List (List Char))
    (present : List (List Char) → Bool) (dir : List (List Char)) :
    g.WayStays cwd present dir [] := by
  intro front hfront hne
  exact absurd (List.prefix_nil.mp hfront) hne

/-- A way in two parts. -/
theorem wayStays_append_iff (g : LocalFileGateway) (cwd : List (List Char))
    (present : List (List Char) → Bool) (dir : List (List Char)) (way way' : FilePath) :
    g.WayStays cwd present dir (way ++ way') ↔
      g.WayStays cwd present dir way ∧ g.WayStays cwd present (resolve dir way) way' := by
  unfold WayStays
  rw [forall_prefix_append_iff]
  refine and_congr_right fun hway => forall₂_congr fun front _ => ?_
  rw [resolve_append]
  constructor
  · exact fun h hne => h (List.append_ne_nil_of_right_ne_nil way hne)
  · intro h hne
    by_cases hfront : front = []
    · subst hfront
      rw [List.append_nil] at hne
      exact hway way List.prefix_rfl hne
    · exact h hfront

/-- The components of a path argument come after those of the base, or after a dot if the base path
is empty. -/
theorem exists_components_resolvePath (g : LocalFileGateway) (cwd : List (List Char))
    (present : List (List Char) → Bool) (path : String) :
    ∃ front, components (g.resolvePath path) = front ++ argument path ∧
      resolve cwd front = g.base cwd ∧
      (g.WayStays cwd present cwd front ↔
        g.WayStays cwd present cwd (components g.basePath)) := by
  have hslash := head?_dropWhile_slash path.toList
  by_cases hbase : g.basePath = []
  · have hcwd : g.base cwd = cwd := by simp [base, hbase, components, start]
    refine ⟨start (path.toList.dropWhile (· = '/')), ?_, ?_, ?_⟩
    · rw [resolvePath, hbase, join_nil]
      rfl
    · rw [resolve_start_of_relative hslash, hcwd]
    · refine iff_of_true ?_ ?_
      · -- a dot leads to the base
        intro front hfront hne
        right
        rw [hcwd]
        unfold start at hfront
        rw [if_neg hslash] at hfront
        split_ifs at hfront
        · rcases List.prefix_cons_iff.mp hfront with hnil | ⟨rest, rfl, hrest⟩
          · exact absurd hnil hne
          · rw [List.prefix_nil.mp hrest]
            exact List.prefix_rfl
        · exact absurd (List.prefix_nil.mp hfront) hne
      · rw [hbase]
        exact g.wayStays_nil cwd present cwd
  · exact ⟨components g.basePath, components_join hbase hslash, rfl, Iff.rfl⟩

/-- On the way to a path argument no directory is made outside exactly if the argument stays. -/
theorem wayStays_resolvePath_iff (g : LocalFileGateway) (cwd : List (List Char))
    (present : List (List Char) → Bool) (path : String) :
    g.WayStays cwd present cwd (components (g.resolvePath path)) ↔
      g.DirStays cwd present (argument path) := by
  obtain ⟨front, hfront, hres, hway⟩ := g.exists_components_resolvePath cwd present path
  rw [hfront, wayStays_append_iff, hres, hway, DirStays]

/-- Without a component in the argument, only a dot may be left of it. -/
theorem components_of_relative_eq_nil {text : List Char} (h : text.head? ≠ some '/')
    (hnil : relative text = []) : components text = [] ∨ components text = [.here] := by
  rw [components, hnil, List.append_nil, start, if_neg h]
  split_ifs
  · exact .inr rfl
  · exact .inl rfl

/-- The parent of the path that an argument resolves to lies at or below the base, and no directory
is made outside on the way to it, exactly if the argument's parent stays. -/
theorem parentStays_iff (g : LocalFileGateway) (cwd : List (List Char))
    (present : List (List Char) → Bool) (path : String) :
    (∀ dir, parent (components (g.resolvePath path)) = some dir →
      g.AtOrBelow cwd dir ∧ g.WayStays cwd present cwd dir) ↔ g.ParentStays cwd present path := by
  have hslash := head?_dropWhile_slash path.toList
  by_cases harg : argument path = []
  · rw [ParentStays, if_pos harg]
    by_cases hbase : g.basePath = []
    · -- both have no parent, or the base itself
      have hcwd : g.base cwd = cwd := by simp [base, hbase, components, start]
      have hleft : ∀ dir, parent (components (g.resolvePath path)) = some dir →
          g.AtOrBelow cwd dir ∧ g.WayStays cwd present cwd dir := by
        intro dir hdir
        rw [resolvePath, hbase, join_nil] at hdir
        rcases components_of_relative_eq_nil hslash harg with h | h
        · rw [h] at hdir
          cases hdir
        · rw [h] at hdir
          cases hdir
          refine ⟨?_, g.wayStays_nil cwd present cwd⟩
          rw [AtOrBelow, hcwd]
          exact List.prefix_rfl
      refine iff_of_true hleft fun dir hdir => ?_
      rw [hbase] at hdir
      cases hdir
    · have hcomp : components (g.resolvePath path) = components g.basePath ++ argument path :=
        components_join hbase hslash
      rw [hcomp, harg, List.append_nil]
  · rw [ParentStays, if_neg harg]
    -- the last component of the argument is the last of the path
    obtain ⟨init, c, hc⟩ : ∃ init c, argument path = init ++ [c] :=
      ⟨_, _, (List.dropLast_append_getLast harg).symm⟩
    have hroot : ∀ c ∈ argument path, c ≠ .root := by
      rintro c hmem rfl
      exact root_not_mem_relative _ hmem
    obtain ⟨front, hfront, hres, hway⟩ := g.exists_components_resolvePath cwd present path
    rw [hfront, hc, ← List.append_assoc, parent_concat _ (hroot c (by simp [hc])),
      List.dropLast_concat]
    have hiff : g.AtOrBelow cwd (front ++ init) ↔ Reenters (g.base cwd) init := by
      have hroot' : .root ∉ init := by
        intro hmem
        have harg' : .root ∈ argument path := by
          rw [hc]
          exact List.mem_append_left _ hmem
        exact hroot .root harg' rfl
      rw [AtOrBelow, resolve_append, hres]
      exact prefix_resolve_iff _ hroot'
    have hdir : g.WayStays cwd present cwd (front ++ init) ↔ g.DirStays cwd present init := by
      rw [wayStays_append_iff, hres, hway, DirStays]
    constructor
    · intro h
      obtain ⟨hbelow, hstays⟩ := h (front ++ init) rfl
      exact ⟨hiff.mp hbelow, hdir.mp hstays⟩
    · rintro ⟨hbelow, hstays⟩ dir hdir'
      obtain rfl := Option.some.inj hdir'
      exact ⟨hiff.mpr hbelow, hdir.mpr hstays⟩

/-! ### What the calls touch -/

/-- The paths that creating the parent directories of a path hands over or makes. -/
def parentPaths (cwd : List (List Char)) (present : List (List Char) → Bool) (path : FilePath) :
    List FilePath :=
  (parent path).toList.flatMap fun dir => dir :: FileSystem.made cwd present dir

theorem forall_mem_parentPaths_iff {cwd : List (List Char)} {present : List (List Char) → Bool}
    {path : FilePath} {P : FilePath → Prop} :
    (∀ p ∈ parentPaths cwd present path, P p) ↔
      ∀ dir, parent path = some dir → P dir ∧ ∀ p ∈ FileSystem.made cwd present dir, P p := by
  unfold parentPaths
  cases parent path with
  | none => simp
  | some dir => simp

/-- The path is one that the call hands to a file system, or that of a directory that it makes. -/
def Touches (g : LocalFileGateway) (cwd : List (List Char)) (present : List (List Char) → Bool) :
    FileCall → FilePath → Prop
  | .read path, p | .metadata path, p | .exists path, p | .delete path, p
  | .deleteDirectory path _, p =>
    p = components (g.resolvePath path)
  | .createDirectory path, p =>
    p ∈ components (g.resolvePath path) ::
      FileSystem.made cwd present (components (g.resolvePath path))
  | .list options, p =>
    p = components (g.searchPath options) ∨
      ∃ fileName, p = components (g.searchPath options) ++ [.name fileName]
  | .write path _ _, p =>
    p = components (g.resolvePath path) ∨
      p ∈ parentPaths cwd present (components (g.resolvePath path))
  | .copy source destination, p | .rename source destination, p =>
    p = components (g.resolvePath source) ∨ p = components (g.resolvePath destination) ∨
      p ∈ parentPaths cwd present (components (g.resolvePath destination))

/-- The paths of the parent directories of an argument lie at or below the base exactly if the
argument's parent stays. -/
theorem forall_parentPaths_iff (g : LocalFileGateway) (cwd : List (List Char))
    (present : List (List Char) → Bool) (path : String) :
    (∀ p, p ∈ parentPaths cwd present (components (g.resolvePath path)) → g.AtOrBelow cwd p) ↔
      g.ParentStays cwd present path := by
  simp only [forall_mem_parentPaths_iff, forall_made_iff, parentStays_iff]

/-- **The paths of a call** lie at or below the base exactly if the call is contained. -/
theorem forall_touches_iff (g : LocalFileGateway) (cwd : List (List Char))
    (present : List (List Char) → Bool) (call : FileCall) :
    (∀ p, g.Touches cwd present call p → g.AtOrBelow cwd p) ↔ g.Contained cwd present call := by
  cases call with
  | read path | metadata path | «exists» path | delete path | deleteDirectory path recursive =>
    simp only [Touches, Contained, forall_eq, atOrBelow_resolvePath_iff]
  | createDirectory path =>
    simp only [Touches, Contained, List.forall_mem_cons, atOrBelow_resolvePath_iff,
      forall_made_iff, wayStays_resolvePath_iff]
  | list options =>
    have hsearch : (∀ p, g.Touches cwd present (.list options) p → g.AtOrBelow cwd p) ↔
        g.AtOrBelow cwd (components (g.searchPath options)) := by
      constructor
      · intro h
        exact h _ (.inl rfl)
      · rintro h p (rfl | ⟨fileName, rfl⟩)
        · exact h
        · rw [AtOrBelow, resolve_append]
          exact h.trans (List.prefix_append _ _)
    rw [hsearch, Contained]
    cases hprefix : options.keyPrefix with
    | none =>
      refine iff_of_true ?_ (by simp)
      rw [searchPath, hprefix]
      exact List.prefix_rfl
    | some keyPrefix =>
      have hpath : g.searchPath options = g.resolvePath keyPrefix := by
        rw [searchPath, hprefix]
        rfl
      rw [hpath, atOrBelow_resolvePath_iff]
      simp
  | write path contents options =>
    simp only [Touches, Contained, or_imp, forall_and, forall_eq, atOrBelow_resolvePath_iff,
      forall_parentPaths_iff]
  | copy source destination | rename source destination =>
    simp only [Touches, Contained, or_imp, forall_and, forall_eq, atOrBelow_resolvePath_iff,
      forall_parentPaths_iff]

/-! ### The log of a call -/

section Logs

variable {P : FilePath → Prop} {cwd : List (List Char)} {present : List (List Char) → Bool}

theorem logs_metadataToInfo (fs : FileSystem W) (path : String) (m : Metadata) :
    Eff.Logs P (metadataToInfo (fs.logged cwd present) path m) :=
  Eff.logs_of_unchanged fun _ _ => rfl

theorem logs_isDir {Err : Type} (fs : FileSystem W) {p : FilePath} (hp : P p) :
    Eff.Logs P ((fs.logged cwd present).isDir p : Eff (W × List FilePath) Err Bool) := by
  apply Eff.Logs.orElseReturn
  refine (Eff.logs_logged_singleton hp _).bind fun m => ?_
  exact Eff.logs_pure m.isDir

theorem logs_createParent (fs : FileSystem W) {path : FilePath}
    (h : ∀ p ∈ parentPaths cwd present path, P p) :
    Eff.Logs P (createParent (fs.logged cwd present) path) := by
  rw [forall_mem_parentPaths_iff] at h
  unfold createParent
  cases hdir : parent path with
  | none => exact Eff.logs_pure ()
  | some dir => exact (Eff.logs_logged (List.forall_mem_cons.mpr (h dir hdir)) _).mapError

theorem logs_list (g : LocalFileGateway) (fs : FileSystem W) (options : ListOptions)
    (hdir : P (components (g.searchPath options)))
    (hentry : ∀ fileName, P (components (g.searchPath options) ++ [.name fileName])) :
    Eff.Logs P (g.list (fs.logged cwd present) options) := by
  unfold list
  refine (logs_isDir fs hdir).bind fun isDir => ?_
  cases isDir with
  | false => exact Eff.logs_pure _
  | true =>
    refine (Eff.logs_logged_singleton hdir _).mapError.bind fun entries => ?_
    refine Eff.Logs.bind (Eff.logs_forIn (fun entry _ b => ?_) _) fun _ => Eff.logs_pure _
    refine (Eff.logs_ofExcept _).bind fun fileName => ?_
    refine (Eff.logs_logged_singleton (hentry fileName) _).mapError.bind fun m => ?_
    -- what follows an entry only looks at the results
    have hstop : ∀ (max n : ℕ) (b : List FileInfo × List String), Eff.Logs P
        (if max ≤ n then pure (ForInStep.done b) else pure (ForInStep.yield b) :
          Eff (W × List FilePath) GatewayError (ForInStep (List FileInfo × List String))) := by
      intro max n b
      split
      · exact Eff.logs_pure _
      · exact Eff.logs_pure _
    obtain ⟨keyPrefix, delimiter, maxResults⟩ := options
    cases m.isDir && delimiter.isSome with
    | true =>
      cases maxResults with
      | none => exact Eff.logs_pure _
      | some max => exact hstop _ _ _
    | false =>
      refine (logs_metadataToInfo _ _ _).bind fun info => ?_
      cases maxResults with
      | none => exact Eff.logs_pure _
      | some max => exact hstop _ _ _

theorem logs_write (g : LocalFileGateway) (fs : FileSystem W) {path : String}
    (contents : List UInt8) (options : UploadOptions)
    (hpath : P (components (g.resolvePath path)))
    (hparent : ∀ p ∈ parentPaths cwd present (components (g.resolvePath path)), P p) :
    Eff.Logs P (g.write (fs.logged cwd present) path contents options) := by
  unfold write
  have hrest : Eff.Logs P (do
      createParent (fs.logged cwd present) (components (g.resolvePath path))
      ((fs.logged cwd present).createFile (components (g.resolvePath path))).mapError ioError
      ((fs.logged cwd present).writeAll (components (g.resolvePath path)) contents).mapError ioError
      let metadata ←
        ((fs.logged cwd present).metadata (components (g.resolvePath path))).mapError ioError
      metadataToInfo (fs.logged cwd present) path metadata) := by
    refine (logs_createParent fs hparent).bind fun _ => ?_
    refine (Eff.logs_logged_singleton hpath _).mapError.bind fun _ => ?_
    refine (Eff.logs_logged_singleton hpath _).mapError.bind fun _ => ?_
    refine (Eff.logs_logged_singleton hpath _).mapError.bind fun _ => ?_
    exact logs_metadataToInfo _ _ _
  cases options.overwrite with
  | true => exact hrest
  | false =>
    refine (Eff.logs_logged_singleton hpath _).orElseReturn.bind fun found => ?_
    cases found with
    | true => exact (Eff.logs_fail _).bind fun _ => hrest
    | false => exact hrest

theorem logs_transfer (g : LocalFileGateway) (fs : FileSystem W)
    {move : FilePath → FilePath → Eff (W × List FilePath) IoError Unit}
    {source destination : String}
    (hmove : Eff.Logs P (move (components (g.resolvePath source))
      (components (g.resolvePath destination))))
    (hdest : P (components (g.resolvePath destination)))
    (hparent : ∀ p ∈ parentPaths cwd present (components (g.resolvePath destination)), P p) :
    Eff.Logs P (g.transfer (fs.logged cwd present) move source destination) := by
  refine (logs_createParent fs hparent).bind fun _ => ?_
  refine hmove.mapError.bind fun _ => ?_
  refine (Eff.logs_logged_singleton hdest _).mapError.bind fun _ => ?_
  exact logs_metadataToInfo _ _ _

end Logs

/-- **A call touches only its paths**, on every file system and whatever it answers. -/
theorem logs_run (g : LocalFileGateway) (fs : FileSystem W) (cwd : List (List Char))
    (present : List (List Char) → Bool) (call : FileCall) :
    Eff.Logs (g.Touches cwd present call) (g.run (fs.logged cwd present) call) := by
  cases call with
  | read path =>
    have hpath : g.Touches cwd present (.read path) (components (g.resolvePath path)) := rfl
    refine Eff.Logs.bind ?_ fun _ => Eff.logs_pure _
    refine (Eff.logs_logged_singleton hpath _).mapError.bind fun _ => ?_
    exact (Eff.logs_logged_singleton hpath _).mapError
  | metadata path =>
    have hpath : g.Touches cwd present (.metadata path) (components (g.resolvePath path)) := rfl
    refine Eff.Logs.bind ?_ fun _ => Eff.logs_pure _
    refine (Eff.logs_logged_singleton hpath _).mapError.bind fun m => ?_
    exact logs_metadataToInfo fs path m
  | list options =>
    have hentry : ∀ fileName, g.Touches cwd present (.list options)
        (components (g.searchPath options) ++ [.name fileName]) := by
      intro fileName
      exact .inr ⟨fileName, rfl⟩
    exact (logs_list g fs options (.inl rfl) hentry).bind fun _ => Eff.logs_pure _
  | «exists» path =>
    have hpath : g.Touches cwd present (.exists path) (components (g.resolvePath path)) := rfl
    exact (Eff.logs_logged_singleton hpath _).orElseReturn.bind fun _ => Eff.logs_pure _
  | write path contents options =>
    refine Eff.Logs.bind ?_ fun _ => Eff.logs_pure _
    exact logs_write g fs contents options (.inl rfl) fun p hp => .inr hp
  | delete path =>
    have hpath : g.Touches cwd present (.delete path) (components (g.resolvePath path)) := rfl
    exact (Eff.logs_logged_singleton hpath _).mapError
  | copy source destination =>
    have hpaths : ∀ p ∈ [components (g.resolvePath source), components (g.resolvePath destination)],
        g.Touches cwd present (.copy source destination) p := by
      simp [Touches]
    refine Eff.Logs.bind ?_ fun _ => Eff.logs_pure _
    exact logs_transfer g fs (Eff.logs_logged hpaths _) (.inr (.inl rfl))
      fun p hp => .inr (.inr hp)
  | rename source destination =>
    have hpaths : ∀ p ∈ [components (g.resolvePath source), components (g.resolvePath destination)],
        g.Touches cwd present (.rename source destination) p := by
      simp [Touches]
    refine Eff.Logs.bind ?_ fun _ => Eff.logs_pure _
    exact logs_transfer g fs (Eff.logs_logged hpaths _) (.inr (.inl rfl))
      fun p hp => .inr (.inr hp)
  | createDirectory path => exact (Eff.logs_logged (fun p hp => hp) _).mapError
  | deleteDirectory path recursive =>
    have hpath : g.Touches cwd present (.deleteDirectory path recursive)
        (components (g.resolvePath path)) := rfl
    cases recursive with
    | true => exact (Eff.logs_logged_singleton hpath _).mapError
    | false => exact (Eff.logs_logged_singleton hpath _).mapError

/-- A file system on which every call succeeds, every path is a directory with the one entry
`fileName`, and no path exists yet. -/
def accepting (fileName : List Char) : FileSystem Unit where
  openFile _ := pure ()
  readToEnd _ := pure []
  metadata _ := pure { size := 0, isDir := true, modified := none, created := none }
  tryExists _ := pure false
  readDir _ := pure [.ok fileName]
  entryMetadata _ := pure { size := 0, isDir := true, modified := none, created := none }
  createDirAll _ := pure ()
  createFile _ := pure ()
  writeAll _ _ := pure ()
  removeFile _ := pure ()
  copy _ _ := pure ()
  rename _ _ := pure ()
  removeDir _ := pure ()
  removeDirAll _ := pure ()
  now _ := 0
  guessMime _ := none

/-- The paths that the call hands to that file system or makes there, in order. -/
def log (g : LocalFileGateway) (cwd : List (List Char)) (present : List (List Char) → Bool)
    (call : FileCall) (fileName : List Char) : List FilePath :=
  (g.run ((accepting fileName).logged cwd present) call ((), [])).2.2

section Log

variable {cwd : List (List Char)} {present : List (List Char) → Bool}

theorem createParent_accepting (fileName : List Char) (path : FilePath) (es : List FilePath) :
    createParent ((accepting fileName).logged cwd present) path ((), es) =
      (.ok (), (), es ++ parentPaths cwd present path) := by
  unfold createParent parentPaths
  cases parent path with
  | none => simp
  | some dir =>
    show (_, _, es ++ _) = _
    simp

theorem log_write (g : LocalFileGateway) (path : String) (contents : List UInt8)
    (options : UploadOptions) (fileName : List Char) :
    ∃ before, g.log cwd present (.write path contents options) fileName =
      before ++ parentPaths cwd present (components (g.resolvePath path)) ++
        List.replicate 3 (components (g.resolvePath path)) := by
  -- what follows the check for an existing file
  have hrest : ∀ (fs : FileSystem (Unit × List FilePath)),
      fs = (accepting fileName).logged cwd present → ∀ es : List FilePath, ((do
        createParent fs (components (g.resolvePath path))
        (fs.createFile (components (g.resolvePath path))).mapError ioError
        (fs.writeAll (components (g.resolvePath path)) contents).mapError ioError
        let metadata ← (fs.metadata (components (g.resolvePath path))).mapError ioError
        metadataToInfo fs path metadata :
          Eff (Unit × List FilePath) GatewayError FileInfo) ((), es)).2.2 =
        es ++ parentPaths cwd present (components (g.resolvePath path)) ++
          List.replicate 3 (components (g.resolvePath path)) := by
    rintro _ rfl es
    rw [Eff.bind_of_ok (createParent_accepting _ _ _)]
    show ((es ++ _ ++ [_]) ++ [_]) ++ [_] = _
    simp [List.replicate]
  simp only [log, run, Eff.bind_pure_snd]
  obtain ⟨overwrite⟩ := options
  cases overwrite with
  | true => exact ⟨[], hrest _ rfl []⟩
  | false => exact ⟨[components (g.resolvePath path)], hrest _ rfl _⟩

theorem log_transfer (g : LocalFileGateway) (source destination : String) (fileName : List Char)
    {move : FilePath → FilePath → Eff (Unit × List FilePath) IoError Unit}
    (hmove : ∀ source dest es, move source dest ((), es) = (.ok (), (), es ++ [source, dest])) :
    (g.transfer ((accepting fileName).logged cwd present) move source destination ((), [])).2.2 =
      parentPaths cwd present (components (g.resolvePath destination)) ++
        [components (g.resolvePath source), components (g.resolvePath destination),
          components (g.resolvePath destination)] := by
  unfold transfer
  rw [Eff.bind_of_ok (createParent_accepting _ _ _),
    Eff.bind_of_ok (Eff.mapError_of_ok (hmove _ _ _))]
  show ([] ++ _ ++ [_, _]) ++ [_] = _
  simp

/-- All the paths of a copy or a renaming are in the log. -/
theorem mem_log_transfer (g : LocalFileGateway) {source destination : String}
    {move : FilePath → FilePath → Eff (Unit × List FilePath) IoError Unit}
    (hmove : ∀ source dest es, move source dest ((), es) = (.ok (), (), es ++ [source, dest]))
    {p : FilePath} (h : p = components (g.resolvePath source) ∨
      p = components (g.resolvePath destination) ∨
      p ∈ parentPaths cwd present (components (g.resolvePath destination))) :
    p ∈ (g.transfer ((accepting []).logged cwd present) move source destination ((), [])).2.2 := by
  rw [log_transfer g source destination [] hmove]
  rcases h with rfl | rfl | h
  · simp
  · simp
  · simp [h]

theorem log_list (g : LocalFileGateway) (options : ListOptions) (fileName : List Char) :
    g.log cwd present (.list options) fileName =
      [components (g.searchPath options), components (g.searchPath options),
        components (g.searchPath options) ++ [.name fileName]] := by
  simp only [log, run, Eff.bind_pure_snd]
  obtain ⟨keyPrefix, delimiter, maxResults⟩ := options
  cases delimiter with
  | none =>
    -- the entry is listed as a file
    match maxResults with
    | none => rfl
    | some 0 => rfl
    | some 1 => rfl
    | some (_ + 2) => rfl
  | some _ =>
    -- the entry is listed as a common prefix
    match maxResults with
    | none => rfl
    | some 0 => rfl
    | some (_ + 1) => rfl

/-- **Every path of a call is touched** on some file system. -/
theorem exists_log (g : LocalFileGateway) {call : FileCall} {p : FilePath}
    (h : g.Touches cwd present call p) : ∃ fileName, p ∈ g.log cwd present call fileName := by
  cases call with
  | read path | metadata path | «exists» path | delete path =>
    obtain rfl : p = _ := h
    exact ⟨[], List.mem_cons_self⟩
  | createDirectory path => exact ⟨[], h⟩
  | deleteDirectory path recursive =>
    obtain rfl : p = _ := h
    cases recursive with
    | true => exact ⟨[], List.mem_cons_self⟩
    | false => exact ⟨[], List.mem_cons_self⟩
  | list options =>
    rcases h with rfl | ⟨fileName, rfl⟩
    · exact ⟨[], by simp [log_list]⟩
    · exact ⟨fileName, by simp [log_list]⟩
  | write path contents options =>
    obtain ⟨before, hlog⟩ := g.log_write path contents options []
    refine ⟨[], ?_⟩
    rw [hlog]
    rcases h with rfl | h
    · simp
    · simp [h]
  | copy source destination | rename source destination =>
    refine ⟨[], ?_⟩
    simp only [log, run, Eff.bind_pure_snd]
    exact g.mem_log_transfer (fun _ _ _ => rfl) h

end Log

/-! ### Containment -/

/-- **Containment.**  With the directories of `present` there when a call begins, all the paths that
it hands to any file system and all the directories that it makes lie at or below the base path,
exactly if none of the call's arguments leads out of it. -/
theorem contained_iff (g : LocalFileGateway) (cwd : List (List Char))
    (present : List (List Char) → Bool) (call : FileCall) :
    (∀ (W : Type) (fs : FileSystem W) (w : W),
      ∀ p ∈ (g.run (fs.logged cwd present) call (w, [])).2.2, g.AtOrBelow cwd p) ↔
      g.Contained cwd present call := by
  rw [← forall_touches_iff]
  constructor
  · intro h p hp
    obtain ⟨fileName, hlog⟩ := g.exists_log hp
    exact h Unit (accepting fileName) () p hlog
  · intro h W fs w p hp
    obtain ⟨new, hnew, htouches⟩ := g.logs_run fs cwd present call w []
    rw [hnew, List.nil_append] at hp
    exact h p (htouches p hp)

/-- A path that starts with `..` is read outside of the base path. -/
theorem read_climbs_out :
    ¬ ∀ (g : LocalFileGateway) (cwd : List (List Char)) (present : List (List Char) → Bool)
      (call : FileCall) (W : Type) (fs : FileSystem W) (w : W),
      ∀ p ∈ (g.run (fs.logged cwd present) call (w, [])).2.2, g.AtOrBelow cwd p := by
  intro h
  have hlog := h ⟨"/srv/data".toList⟩ [] (fun _ => true) (.read "../secret") Unit (accepting []) ()
    [.root, .name "srv".toList, .name "data".toList, .up, .name "secret".toList] (by decide)
  revert hlog
  unfold AtOrBelow
  decide

/-- Where only the base is there, a path that comes back to it through another directory makes that
one. -/
example : ¬ LocalFileGateway.Contained ⟨"/srv/data".toList⟩ []
    (fun dir => dir.isPrefixOf ["srv".toList, "data".toList])
    (.createDirectory "../other/../data/f") := by
  rintro ⟨-, -, hway⟩
  have hother := hway [.up, .name "other".toList] (by decide) (by decide)
  revert hother
  decide

end SweGateway.LocalFileGateway

import SweGateway.Xtask.Ws

/-!
# Whether a bulk rename leaves disk and manifest in agreement

`Agrees` says what a bulk rename is for: every member of the new manifest is on disk, and it is the
directory of the old member, carried along by the renames that were done.

`bulkRename` gives every matching member a new path in the manifest.  On disk it renames only those
that are parents of others, so a member without members below it is left where it is
(`leaf_not_moved`).  `agrees_iff` is the exact condition: the moves of the parents, last first, take
every member to where its new path leads, and no new path leads through a directory that is missing.

The proof follows the loop.  `Disk.move` is what one round does if nothing is refused, and
`Carries before after` says that the directories that were on disk still are, wherever they have
been moved.
-/

namespace SweGateway.Xtask.Ws

open DirTree LexicalPath TextReplace

/-- A workspace on disk, before a command. -/
structure Checkout where
  root : List Char
  disk : Disk
  members_exist : ∀ path ∈ disk.manifest.memberPaths, OnDisk root disk.tree path
  fresh : disk.moves = []

/-- Disk and manifest agree: the members of the new manifest are on disk, and they are the
directories of the members before, wherever these have been moved. -/
structure Agrees (root : List Char) (before after : Disk) : Prop where
  members_exist : ∀ path ∈ after.manifest.memberPaths, OnDisk root after.tree path
  moved : after.manifest.memberPaths.map (locate root) =
    before.manifest.memberPaths.map fun path => follow after.moves (locate root path)

instance (root : List Char) (before after : Disk) : Decidable (Agrees root before after) :=
  decidable_of_iff _ ⟨fun h : _ ∧ _ => ⟨h.1, h.2⟩, fun h => ⟨h.members_exist, h.moved⟩⟩

/-- The directories on the way to the one that is to hold a path are made. -/
def Disk.makeParent (disk : Disk) (target : Path (List Char)) : Disk :=
  match parent target with
  | some parent => { disk with tree := disk.tree.createAll (parent.inits.map (resolve [])) }
  | none => disk

/-- A directory is moved, once the one that is to hold it is there. -/
def Disk.move (disk : Disk) (source target : Path (List Char)) : Disk :=
  if h : (disk.makeParent target).tree.Renames (resolve [] source) (resolve [] target) then
    { disk.makeParent target with
      tree := (disk.makeParent target).tree.rename _ _ h
      moves := disk.moves ++ [(resolve [] source, resolve [] target)] }
  else disk.makeParent target

/-- What is the parent of another member moves to its new path, if it is on disk. -/
def moveParent (root : List Char) (renames : List (List Char × List Char)) (disk : Disk)
    (r : List Char × List Char) : Disk :=
  if OnDisk root disk.tree r.1 ∧ isParent renames r.1 then
    disk.move (components (join root r.1)) (components (join root r.2))
  else disk

/-- The moves of the parents, last first. -/
def moveParents (root : List Char) (renames : List (List Char × List Char)) (disk : Disk) : Disk :=
  renames.reverse.foldl (moveParent root renames) disk

/-- The moves of the parents take every member of the manifest to where its new path leads, and
every directory that a new path leaves by `..` is there then. -/
def CarriesMembers (root pattern : List Char) (disk : Disk) : Prop :=
  ∀ source target, parsePattern pattern = some (source, target) →
    let moved := moveParents root (findRenames source target disk.manifest) disk
    ∀ path ∈ disk.manifest.memberPaths,
      let newPath := replace source target path
      follow moved.moves (locate root path) = locate root newPath ∧
        ∀ front ∈ (components (join root newPath)).inits,
          front ++ [.up] <+: components (join root newPath) → resolve [] front ∈ moved.tree

/-- The directories that were on disk still are, wherever they have been moved; the manifest is as
before. -/
def Carries (before after : Disk) : Prop :=
  after.manifest = before.manifest ∧
    ∃ done, after.moves = before.moves ++ done ∧
      ∀ dir ∈ before.tree, follow done dir ∈ after.tree

theorem Carries.refl (disk : Disk) : Carries disk disk :=
  ⟨rfl, [], (List.append_nil _).symm, fun _ hdir => hdir⟩

theorem Carries.trans {d₁ d₂ d₃ : Disk} (h : Carries d₁ d₂) (h' : Carries d₂ d₃) :
    Carries d₁ d₃ := by
  obtain ⟨hmanifest, done, hdone, hdirs⟩ := h
  obtain ⟨hmanifest', done', hdone', hdirs'⟩ := h'
  refine ⟨hmanifest'.trans hmanifest, done ++ done', ?_, ?_⟩
  · rw [hdone', hdone, List.append_assoc]
  · intro dir hdir
    rw [follow_append]
    exact hdirs' _ (hdirs dir hdir)

/-- Making directories carries nothing. -/
theorem carries_makeParent (disk : Disk) (target : Path (List Char)) :
    Carries disk (disk.makeParent target) := by
  unfold Disk.makeParent
  cases parent target with
  | none => exact .refl disk
  | some parent =>
    exact ⟨rfl, [], (List.append_nil _).symm, fun _ hdir => mem_createAll_of_mem hdir _⟩

theorem moves_makeParent (disk : Disk) (target : Path (List Char)) :
    (disk.makeParent target).moves = disk.moves := by
  unfold Disk.makeParent
  cases parent target <;> rfl

/-- A move carries what is below it. -/
theorem carries_move (disk : Disk) (source target : Path (List Char)) :
    Carries disk (disk.move source target) := by
  have hmake := carries_makeParent disk target
  unfold Disk.move
  split
  · next h =>
    refine hmake.trans ⟨rfl, [(resolve [] source, resolve [] target)], ?_, ?_⟩
    · rw [moves_makeParent]
    · exact fun dir hdir => mem_rename h hdir
  · exact hmake

theorem carries_moveParents (root : List Char) (renames : List (List Char × List Char))
    (disk : Disk) : Carries disk (moveParents root renames disk) := by
  unfold moveParents
  generalize renames.reverse = rs
  induction rs generalizing disk with
  | nil => exact .refl disk
  | cons r rs ih =>
    have hround : Carries disk (moveParent root renames disk r) := by
      unfold moveParent
      split
      · exact carries_move disk _ _
      · exact .refl disk
    exact hround.trans (ih _)

/-! ### The calls of the operating system -/

theorem pathExists_eq_ok {path : Path (List Char)} {disk after : Disk} {found : Bool}
    (h : pathExists path disk = (.ok found, after)) :
    after = disk ∧ (found = true ↔ disk.tree.Walks [] path) := by
  obtain ⟨rfl, rfl⟩ : decide (disk.tree.Walks [] path) = found ∧ disk = after := by
    simpa [pathExists] using h
  exact ⟨rfl, by simp⟩

theorem call_eq_ok {os : Os} {c : OsCall} {done : Disk → Disk} {disk after : Disk}
    (h : os.call c done disk = (.ok (), after)) : after = done disk := by
  unfold Os.call at h
  split at h
  · simpa using h.symm
  · cases h

theorem readManifest_eq_ok {os : Os} {root : List Char} {disk after : Disk} {doc : Manifest}
    (h : os.readManifest root disk = (.ok doc, after)) : doc = disk.manifest ∧ after = disk := by
  unfold Os.readManifest at h
  split at h
  · simpa [eq_comm] using h
  · cases h

theorem indexMembers_eq_ok {doc : Manifest} {disk after : Disk}
    (h : indexMembers doc disk = (.ok (), after)) : after = disk := by
  unfold indexMembers at h
  cases hmembers : doc.members with
  | none =>
    rw [hmembers] at h
    cases h
  | value | table | arrayOfTables =>
    rw [hmembers] at h
    exact (Prod.mk.inj h).2.symm

theorem updateManifest_eq_ok {os : Os} {root : List Char} {update : Manifest → Manifest}
    {disk after : Disk} (h : updateManifest os root update disk = (.ok (), after)) :
    after = { disk with manifest := update disk.manifest } := by
  obtain ⟨doc, disk', hread, hwrite⟩ := Eff.bind_eq_ok h
  obtain ⟨rfl, rfl⟩ := readManifest_eq_ok hread
  exact call_eq_ok hwrite

theorem createParent_eq_ok {os : Os} {target : Path (List Char)} {disk after : Disk}
    (h : os.createParent target disk = (.ok (), after)) : after = disk.makeParent target := by
  unfold Os.createParent at h
  unfold Disk.makeParent
  cases hparent : parent target with
  | some parent =>
    rw [hparent] at h
    exact call_eq_ok h
  | none =>
    rw [hparent] at h
    exact (Prod.mk.inj h).2.symm

theorem renameCall_eq_ok {os : Os} {source target : Path (List Char)} {disk after : Disk}
    (h : os.rename source target disk = (.ok (), after)) :
    ∃ hrenames : disk.tree.Renames (resolve [] source) (resolve [] target),
      after = { disk with
        tree := disk.tree.rename _ _ hrenames
        moves := disk.moves ++ [(resolve [] source, resolve [] target)] } := by
  unfold Os.rename at h
  split at h
  · next hanswer =>
    exact ⟨(os.renames_of_ok _ _ _ hanswer).renames, (Prod.mk.inj h).2.symm⟩
  · cases h

/-- Creating the parent of a path and renaming a directory to it is a move. -/
theorem move_of_calls {os : Os} {source target : Path (List Char)} {disk made after : Disk}
    (hcreate : os.createParent target disk = (.ok (), made))
    (hrename : os.rename source target made = (.ok (), after)) :
    after = disk.move source target := by
  obtain rfl := createParent_eq_ok hcreate
  obtain ⟨hrenames, rfl⟩ := renameCall_eq_ok hrename
  rw [Disk.move, dif_pos hrenames, moves_makeParent]

/-! ### The loop -/

/-- One round of the loop. -/
theorem renameParent_eq_ok {os : Os} {root : List Char} {renames : List (List Char × List Char)}
    {r : List Char × List Char} {disk after : Disk}
    (h : renameParent os root renames r disk = (.ok (), after)) :
    after = moveParent root renames disk r := by
  obtain ⟨old, new⟩ := r
  obtain ⟨found, disk', hexists, hrest⟩ := Eff.bind_eq_ok h
  obtain ⟨rfl, hfound⟩ := pathExists_eq_ok hexists
  unfold moveParent
  by_cases hdisk : OnDisk root disk'.tree old
  · rw [if_pos (hfound.mpr hdisk)] at hrest
    by_cases hparent : isParent renames old
    · rw [if_pos hparent] at hrest
      obtain ⟨u, disk₁, hcreate, hrename⟩ := Eff.bind_eq_ok hrest
      rw [if_pos ⟨hdisk, hparent⟩]
      exact move_of_calls hcreate hrename
    · -- what is no parent is left where it is
      rw [if_neg hparent] at hrest
      rw [if_neg fun h => hparent h.2]
      exact (Prod.mk.inj hrest).2.symm
  · -- it has been carried along by another parent, or can no longer be reached
    rw [if_neg (mt hfound.mp hdisk)] at hrest
    rw [if_neg fun h => hdisk h.1]
    exact (Prod.mk.inj hrest).2.symm

/-- The whole loop. -/
theorem forM_renameParent_eq_ok {os : Os} {root : List Char}
    {renames rs : List (List Char × List Char)} {disk after : Disk}
    (h : rs.forM (renameParent os root renames) disk = (.ok (), after)) :
    after = rs.foldl (moveParent root renames) disk := by
  induction rs generalizing disk with
  | nil => exact (Prod.mk.inj h).2.symm
  | cons r rs ih =>
    obtain ⟨u, disk', hround, hrest⟩ :=
      Eff.bind_eq_ok (f := fun _ => rs.forM (renameParent os root renames)) h
    obtain rfl := renameParent_eq_ok hround
    exact ih hrest

/-! ### The run -/

theorem mem_findRenames {source target : List Char} {doc : Manifest}
    {r : List Char × List Char} :
    r ∈ findRenames source target doc ↔
      r.1 ∈ doc.memberPaths ∧ source <:+: r.1 ∧ r.2 = replace source target r.1 := by
  obtain ⟨old, new⟩ := r
  simp only [findRenames, List.mem_map, List.mem_filter, decide_eq_true_eq, Prod.mk.injEq]
  constructor
  · rintro ⟨path, ⟨hmem, hin⟩, rfl, rfl⟩
    exact ⟨hmem, hin, rfl⟩
  · rintro ⟨hmem, hin, rfl⟩
    exact ⟨old, ⟨hmem, hin⟩, rfl, rfl⟩

/-- The new path of a member in the manifest is its path with the pattern replaced. -/
theorem renamedPath_findRenames {source target : List Char} {doc : Manifest} {path : List Char}
    (h : path ∈ doc.memberPaths) :
    Manifest.renamedPath (findRenames source target doc) path = replace source target path := by
  unfold Manifest.renamedPath
  cases hlookup : (findRenames source target doc).lookup path with
  | some new =>
    obtain ⟨l₁, l₂, hl, -⟩ := List.lookup_eq_some_iff.mp hlookup
    have hmem : (path, new) ∈ findRenames source target doc := by
      rw [hl]
      exact List.mem_append_right _ List.mem_cons_self
    exact (mem_findRenames.mp hmem).2.2
  | none =>
    have hin : ¬ source <:+: path := by
      intro hin
      have hmem : (path, replace source target path) ∈ findRenames source target doc :=
        mem_findRenames.mpr ⟨h, hin, rfl⟩
      simpa using List.lookup_eq_none_iff.mp hlookup _ hmem
    exact (replace_eq_self target hin).symm

theorem memberPaths_updateCargoTomlBulk (source target : List Char) (doc : Manifest) :
    (Manifest.updateCargoTomlBulk (findRenames source target doc) doc).memberPaths =
      doc.memberPaths.map (replace source target) := by
  unfold Manifest.updateCargoTomlBulk
  rw [Manifest.memberPaths_updateDependencies, Manifest.memberPaths_updateMembers]
  exact List.map_congr_left fun path hmem => renamedPath_findRenames hmem

/-- What a bulk rename with a good pattern has done when it returns. -/
theorem bulkRename_eq_ok {os : Os} {root pattern source target : List Char} {disk after : Disk}
    (hpattern : parsePattern pattern = some (source, target))
    (h : bulkRename os root pattern false disk = (.ok (), after)) :
    let moved := moveParents root (findRenames source target disk.manifest) disk
    after.manifest.memberPaths = disk.manifest.memberPaths.map (replace source target) ∧
      after.tree = moved.tree ∧ after.moves = moved.moves := by
  intro moved
  unfold bulkRename at h
  rw [hpattern] at h
  obtain ⟨doc, disk', hread, hrest⟩ := Eff.bind_eq_ok h
  obtain ⟨rfl, rfl⟩ := readManifest_eq_ok hread
  obtain ⟨u, disk₀, hindex, hrest⟩ := Eff.bind_eq_ok hrest
  obtain rfl := indexMembers_eq_ok hindex
  by_cases hnil : findRenames source target disk₀.manifest = []
  · -- no member matches
    rw [if_pos hnil] at hrest
    obtain rfl : disk₀ = after := (Prod.mk.inj hrest).2
    have hsame : disk₀.manifest.memberPaths.map (replace source target) =
        disk₀.manifest.memberPaths := by
      refine (List.map_congr_left fun path hmem => ?_).trans (List.map_id _)
      refine replace_eq_self target fun hin => ?_
      have hmem' : (path, replace source target path) ∈
          findRenames source target disk₀.manifest :=
        mem_findRenames.mpr ⟨hmem, hin, rfl⟩
      rw [hnil] at hmem'
      cases hmem'
    have hmoved : moved = disk₀ := by
      show moveParents root (findRenames source target disk₀.manifest) disk₀ = disk₀
      rw [hnil]
      rfl
    exact ⟨hsame.symm, by rw [hmoved], by rw [hmoved]⟩
  · rw [if_neg hnil, if_neg Bool.false_ne_true] at hrest
    obtain ⟨u, disk₁, hloop, hupdate⟩ := Eff.bind_eq_ok hrest
    obtain rfl : disk₁ = moved := forM_renameParent_eq_ok hloop
    -- the loop does not touch the manifest, so the update starts from the one that was read
    obtain ⟨hmanifest, -⟩ := carries_moveParents root (findRenames source target disk₀.manifest)
      disk₀
    obtain rfl := updateManifest_eq_ok hupdate
    refine ⟨?_, rfl, rfl⟩
    show (Manifest.updateCargoTomlBulk _ moved.manifest).memberPaths = _
    rw [hmanifest]
    exact memberPaths_updateCargoTomlBulk source target disk₀.manifest

/-- The call is one that the disk allows. -/
def Allows (disk : Disk) : OsCall → Prop
  | .rename source target => disk.Renames source target
  | .readToString _ | .write _ | .createDirAll _ => True

instance (disk : Disk) : DecidablePred (Allows disk)
  | .rename source target => inferInstanceAs (Decidable (disk.Renames source target))
  | .readToString _ | .write _ | .createDirAll _ => inferInstanceAs (Decidable True)

/-- An operating system that refuses only what it has to. -/
def willingOs : Os where
  answer disk c := if Allows disk c then .ok () else .error "Directory not empty"
  renames_of_ok disk source target h := by
    have hallows : Allows disk (.rename source target) := by
      by_contra hnot
      rw [if_neg hnot] at h
      cases h
    exact hallows

/-- A workspace in `/w` with the members. -/
def checkoutIn (members : List (List Char)) : Disk where
  tree := (DirTree.mk [] nofun).createAll (members.map (locate "/w".toList))
  manifest := { members := .value (.array (members.map .string)), dependencies := .none }
  moves := []

/-- The members `agents` and `agents/x`. -/
def nested : Checkout where
  root := "/w".toList
  disk := checkoutIn ["agents".toList, "agents/x".toList]
  members_exist := by decide
  fresh := rfl

/-- The member `agents/x` alone. -/
def leaf : Checkout where
  root := "/w".toList
  disk := checkoutIn ["agents/x".toList]
  members_exist := by decide
  fresh := rfl

/-- **A rename of one directory** that returns has found the source and no target; it has moved the
directory and updated the manifest. -/
theorem rename_eq_ok {os : Os} {root source target : List Char} {disk after : Disk}
    (h : rename os root source target false disk = (.ok (), after)) :
    OnDisk root disk.tree source ∧ ¬ OnDisk root disk.tree target ∧
      after = { disk.move (components (join root source)) (components (join root target)) with
        manifest := Manifest.updateCargoTomlPaths source target disk.manifest } := by
  unfold rename at h
  obtain ⟨found, disk₀, hexists, h⟩ := Eff.bind_eq_ok h
  obtain ⟨rfl, hfound⟩ := pathExists_eq_ok hexists
  cases found with
  | false => cases h
  | true =>
    obtain ⟨taken, disk₁, hexists', h⟩ := Eff.bind_eq_ok h
    obtain ⟨rfl, htaken⟩ := pathExists_eq_ok hexists'
    cases taken with
    | true => cases h
    | false =>
      obtain ⟨u, disk₂, hcreate, h⟩ := Eff.bind_eq_ok h
      obtain ⟨u, disk₃, hrename, hupdate⟩ := Eff.bind_eq_ok h
      obtain rfl := move_of_calls hcreate (Eff.mapError_eq_ok hrename)
      obtain rfl := updateManifest_eq_ok hupdate
      rw [(carries_move _ _ _).1]
      exact ⟨hfound.mp rfl, fun h => Bool.false_ne_true (htaken.mpr h), rfl⟩

end SweGateway.Xtask.Ws

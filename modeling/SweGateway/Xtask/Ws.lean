import SweGateway.Lib.DirWalk
import SweGateway.Lib.Eff
import SweGateway.Lib.TextLines
import SweGateway.Xtask.Manifest

/-!
# Moving directories of a workspace (`xtask/src/workspace.rs`)

`rename` moves one directory, `bulkRename` those that a pattern finds, and both rewrite the paths in
the root `Cargo.toml`.

`Disk` is what they see of the file system: the directories and the manifest.  It also keeps the
renames of directories that have been done.  A path is walked one component after the other and
leads nowhere if a directory on the way is not there; no symbolic links are modelled.  `Os` answers
the calls of the operating system; it may refuse any of them, and it has to refuse a rename that the
directories do not allow.
-/

namespace SweGateway.Xtask.Ws

open DirTree LexicalPath TextReplace

/-- A directory, by the names on the way to it from the root. -/
abbrev Directory := List (List Char)

/-- Where a path leads from the root of the workspace. -/
def locate (root path : List Char) : Directory := resolve [] (components (join root path))

/-- The path leads from the root of the workspace to a directory that is there. -/
def OnDisk (root : List Char) (tree : DirTree (List Char)) (path : List Char) : Prop :=
  tree.Walks [] (components (join root path))

instance (root : List Char) (tree : DirTree (List Char)) (path : List Char) :
    Decidable (OnDisk root tree path) :=
  inferInstanceAs (Decidable (tree.Walks [] _))

/-- What the commands see of the file system. -/
structure Disk where
  tree : DirTree (List Char)
  /-- The contents of the root `Cargo.toml`. -/
  manifest : Manifest
  /-- The renames of directories that have been done, with what became of each. -/
  moves : List (Directory × Directory)

/-- `fs::rename` can move the source to the target: both paths walk, but for the last component of
the target, and the directories allow it. -/
structure Disk.Renames (disk : Disk) (source target : Path (List Char)) : Prop where
  source_walks : disk.tree.Walks [] source
  parent_walks : disk.tree.Walks [] target.dropLast
  renames : disk.tree.Renames (resolve [] source) (resolve [] target)

instance (disk : Disk) (source target : Path (List Char)) :
    Decidable (disk.Renames source target) :=
  decidable_of_iff (disk.tree.Walks [] source ∧ disk.tree.Walks [] target.dropLast ∧
      disk.tree.Renames (resolve [] source) (resolve [] target))
    ⟨fun h => ⟨h.1, h.2.1, h.2.2⟩, fun h => ⟨h.source_walks, h.parent_walks, h.renames⟩⟩

/-- The calls of the operating system that can fail. -/
inductive OsCall where
  | readToString (path : Path (List Char))
  | write (path : Path (List Char))
  | createDirAll (path : Path (List Char))
  | rename (source target : Path (List Char))

/-- The path of the manifest. -/
def cargoToml (root : List Char) : Path (List Char) := components (join root "Cargo.toml".toList)

/-- What the operating system answers. -/
structure Os where
  answer : Disk → OsCall → Except String Unit
  renames_of_ok : ∀ disk source target, answer disk (.rename source target) = .ok () →
    disk.Renames source target

/-- How a command ends that does not return `Ok`. -/
inductive WsError where
  | bail (message : String)
  | io (text : String)
  /-- An error with a message in front of it. -/
  | context (message : String) (cause : WsError)
  /-- An index into a document that is not there. -/
  | panic
  deriving DecidableEq, Repr

/-- `Path::exists`. -/
def pathExists (path : Path (List Char)) : Eff Disk WsError Bool := fun disk =>
  (.ok (disk.tree.Walks [] path), disk)

/-- A call that changes the disk if it is answered. -/
def Os.call (os : Os) (c : OsCall) (done : Disk → Disk) : Eff Disk WsError Unit := fun disk =>
  match os.answer disk c with
  | .ok () => (.ok (), done disk)
  | .error text => (.error (.io text), disk)

/-- `fs::read_to_string` and the parser, on the manifest. -/
def Os.readManifest (os : Os) (root : List Char) : Eff Disk WsError Manifest := fun disk =>
  match os.answer disk (.readToString (cargoToml root)) with
  | .ok () => (.ok disk.manifest, disk)
  | .error text => (.error (.io text), disk)

/-- `fs::write` on the manifest. -/
def Os.writeManifest (os : Os) (root : List Char) (doc : Manifest) : Eff Disk WsError Unit :=
  os.call (.write (cargoToml root)) fun disk => { disk with manifest := doc }

/-- `fs::create_dir_all`: every directory on the way is created. -/
def Os.createDirAll (os : Os) (path : Path (List Char)) : Eff Disk WsError Unit :=
  os.call (.createDirAll path) fun disk =>
    { disk with tree := disk.tree.createAll (path.inits.map (resolve [])) }

/-- `fs::rename`, on a directory. -/
def Os.rename (os : Os) (source target : Path (List Char)) : Eff Disk WsError Unit := fun disk =>
  match h : os.answer disk (.rename source target) with
  | .ok () =>
    (.ok (), { disk with
      tree := disk.tree.rename (resolve [] source) (resolve [] target)
        (os.renames_of_ok disk source target h).renames
      moves := disk.moves ++ [(resolve [] source, resolve [] target)] })
  | .error text => (.error (.io text), disk)

/-- Creates the directory that is to hold a path, if the path has a parent. -/
def Os.createParent (os : Os) (target : Path (List Char)) : Eff Disk WsError Unit :=
  match parent target with
  | some parent => os.createDirAll parent
  | none => pure ()

/-- Reads the manifest, updates it and writes it. -/
def updateManifest (os : Os) (root : List Char) (update : Manifest → Manifest) :
    Eff Disk WsError Unit := do
  let doc ← os.readManifest root
  os.writeManifest root (update doc)

/-- `rename`: renames a directory and updates all `Cargo.toml` references. -/
def rename (os : Os) (root source target : List Char) (dryRun : Bool) : Eff Disk WsError Unit := do
  let fromPath := components (join root source)
  let toPath := components (join root target)
  if !(← pathExists fromPath) then
    Eff.fail (.bail ("Source path does not exist: " ++ String.ofList source))
  else if ← pathExists toPath then
    Eff.fail (.bail ("Target path already exists: " ++ String.ofList target))
  else if dryRun then
    pure ()
  else do
    os.createParent toPath
    (os.rename fromPath toPath).mapError (.context
      ("Failed to rename " ++ String.ofList source ++ " -> " ++ String.ofList target))
    updateManifest os root (Manifest.updateCargoTomlPaths source target)

/-- `mv`. -/
def mv (os : Os) (root source dest : List Char) (dryRun : Bool) : Eff Disk WsError Unit :=
  rename os root source dest dryRun

/-! ### `bulk_rename` -/

/-- The two sides of a pattern `old->new`. -/
def parsePattern (pattern : List Char) : Option (List Char × List Char) :=
  match splitFrom ['-', '>'] 0 pattern with
  | [source, target] => some (TextLines.trim source, TextLines.trim target)
  | _ => none

/-- The members with the pattern in their paths, and what they are to be renamed to. -/
def findRenames (source target : List Char) (doc : Manifest) : List (List Char × List Char) :=
  (doc.memberPaths.filter (source <:+: ·)).map fun path => (path, replace source target path)

/-- Whether a renamed path is the parent of another one. -/
def isParent (renames : List (List Char × List Char)) (old : List Char) : Bool :=
  renames.any fun other => other.1 ≠ old ∧ old <+: other.1

/-- The index `doc["workspace"]["members"]` of `bulk_rename`. -/
def indexMembers (doc : Manifest) : Eff Disk WsError Unit :=
  match doc.members with
  | .none => Eff.fail .panic
  | _ => pure ()

/-- One round of the loop over the renames. -/
def renameParent (os : Os) (root : List Char) (renames : List (List Char × List Char)) :
    List Char × List Char → Eff Disk WsError Unit
  | (old, new) => do
    let oldPath := components (join root old)
    let newPath := components (join root new)
    if ← pathExists oldPath then
      if isParent renames old then do
        os.createParent newPath
        os.rename oldPath newPath
      else
        pure ()
    else
      -- already renamed by a parent directory rename
      pure ()

/-- `bulk_rename`: the renames are done last first. -/
def bulkRename (os : Os) (root pattern : List Char) (dryRun : Bool) : Eff Disk WsError Unit :=
  match parsePattern pattern with
  | none =>
    Eff.fail (.bail "Pattern must be in format 'old->new' (e.g., 'agents->agent')")
  | some (source, target) => do
    let doc ← os.readManifest root
    indexMembers doc
    let renames := findRenames source target doc
    if renames = [] then
      pure ()
    else if dryRun then
      pure ()
    else do
      renames.reverse.forM (renameParent os root renames)
      updateManifest os root (Manifest.updateCargoTomlBulk renames)

end SweGateway.Xtask.Ws

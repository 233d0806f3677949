import SweGateway.Xtask.Scan
import SweGateway.Xtask.Ws

/-!
# Looking for the members of a workspace (`xtask/src/workspace.rs`)

`sync` takes a member that is not on disk for one that has moved, and looks for a crate of the name
that the path of the member ends in.  The first one that is found gives the member its path, and the
dependencies that have the old path in theirs get the new one in its place.

What `glob` finds is a parameter: the `Cargo.toml` files below the root, in the order in which they
are found.  `sync` does not write to them but for the manifest of the workspace, whose package stays
as it is.
-/

namespace SweGateway.Xtask.Ws

open LexicalPath

/-- A `Cargo.toml` that `glob` finds. -/
structure CargoToml where
  /-- The names on the way from the root of the workspace to its directory. -/
  dir : List (List Char)
  /-- `doc["package"]`, if the file can be read and parsed. -/
  package : Option TomlItem

/-- `item[key]`, if it is there. -/
def itemIndex (key : String) : TomlItem → Option TomlItem
  | .table entries => entries.lookup key
  | .value (.inlineTable entries) => (entries.lookup key).map .value
  | _ => none

/-- The path of the directory from the root, `relative.to_string_lossy().replace('\\', "/")`. -/
def CargoToml.relativePath (file : CargoToml) : List Char :=
  (['/'].intercalate file.dir).map replaceBackslash

/-- The name of a crate that has been at the path. -/
def expectedName (oldPath : List Char) : List Char := (fileName oldPath).getD []

/-- `find_crate_by_name`: the path of the first crate of the name.  There is a panic at a file that
has no `package.name`. -/
def findCrateByName (files : List CargoToml) (oldPath : List Char) :
    Except WsError (Option (List Char)) :=
  match files with
  | [] => .ok none
  | file :: files =>
    match file.package with
    | none => findCrateByName files oldPath
    | some package =>
      match itemIndex "name" package with
      | none => .error .panic
      | some name =>
        if name.asStr = some (expectedName oldPath) then .ok (some file.relativePath)
        else findCrateByName files oldPath

/-- A member that gets another path. -/
structure Fix where
  index : ℕ
  old : List Char
  new : List Char
  deriving DecidableEq

/-- One round of the loop over the members. -/
def findFix (glob : Except String (List CargoToml)) (root : List Char) :
    TomlValue × ℕ → Eff Disk WsError (List Fix)
  | (member, i) =>
    match member.asStr with
    | none => pure []
    | some path => do
      if ← pathExists (components (join root path)) then
        pure []
      else do
        let files ← Eff.ofExcept (glob.mapError .io)
        match ← Eff.ofExcept (findCrateByName files path) with
        | some newPath => pure [{ index := i, old := path, new := newPath }]
        | none => pure [] -- cannot auto-fix

/-- The members that are not on disk and can be found. -/
def findFixes (glob : Except String (List CargoToml)) (root : List Char) (doc : Manifest) :
    Eff Disk WsError (List Fix) :=
  match doc.members with
  | .value (.array members) => do
    let fixes ← members.zipIdx.mapM (findFix glob root)
    return fixes.flatten
  | _ => pure []

/-- Puts the new path in the place of the member. -/
def setMember (doc : Manifest) (fix : Fix) : Manifest :=
  match doc.members with
  | .value (.array members) =>
    { doc with members := .value (.array (members.set fix.index (.string fix.new))) }
  | _ => doc

/-- Applies the fixes to the members, and then to the dependencies. -/
def applyFixes (fixes : List Fix) (doc : Manifest) : Manifest :=
  fixes.foldl (fun doc fix => Manifest.updateDependencyPaths fix.old fix.new doc)
    (fixes.foldl setMember doc)

/-- `sync`: finds and fixes paths that do not match the directories. -/
def sync (os : Os) (glob : Except String (List CargoToml)) (root : List Char) (dryRun : Bool) :
    Eff Disk WsError Unit := do
  let doc ← os.readManifest root
  indexMembers doc
  let fixes ← findFixes glob root doc
  if fixes = [] then
    pure ()
  else if dryRun then
    pure ()
  else
    os.writeManifest root (applyFixes fixes doc)

end SweGateway.Xtask.Ws

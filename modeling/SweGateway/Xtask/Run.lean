import SweGateway.Xtask.Scan
import SweGateway.Xtask.Selection

/-!
# The publish command (`xtask/src/publish.rs`)

`runPublish` is `run` as a whole: it finds the registry, asks `cargo metadata` for the workspace and
scans the index, selects the crates and puts them in order, and publishes them unless it is a dry
run.

The registry in the world is the one at the paths that are found.  Its two directories may be
refused by the file system (`ensureDirs`); once they are there, its files can be read and written.
What is printed is left out.
-/

namespace SweGateway.Xtask

/-- What the command finds: the environment variables, what `cargo metadata` answers, the orders in
which hash maps are iterated over and directories are listed, what creating a directory answers, and
the tools. -/
structure PublishEnv where
  vars : Vars
  /-- The workspace members, or the error of the command. -/
  metadata : Except String (List Member)
  it : IterOrder String ℕ
  listing : (files : List (List (List Char))) → FileTree.Listing files
  createDirAll : List Char → Except String Unit
  tools : Tools

namespace PublishEnv

def workspaceMembers (env : PublishEnv) : Except Failure (List Member) :=
  match env.metadata with
  | .ok members => .ok members
  | .error e => .error (.error ["Failed to get workspace metadata", e])

/-- `pkg_map[name]` for each of the names: there is a panic if one is missing. -/
def lookupPackages (pkgMap : HashMap String Package) (names : List String) :
    Except Failure (List Package) :=
  names.mapM fun name =>
    match pkgMap[name]? with
    | some pkg => .ok pkg
    | none => .error .panic

/-- What has been found out about the workspace at the registry. -/
def workspace (env : PublishEnv) (members : List Member) (paths : RegistryPaths) (reg : Registry) :
    Workspace where
  registryUrl := String.ofList (indexUrl paths)
  pkgMap := pkgMapOf members
  localRegistryCrates := scanLocalRegistryIndex (env.listing reg.files) paths.index

/-- The crates in publish order, which `run` prints.  The sort has as many rounds as it takes. -/
def plan (env : PublishEnv) (members : List Member) (packages : List String) :
    Except Failure (List Package) := do
  let toPublish ← selectPackages members packages
  if toPublish.isEmpty then return []
  let workspaceDeps := buildWorkspaceDeps toPublish (pkgMapOf members)
  let publishNames := toPublish.map Package.name
  let sortedNames ←
    (topologicalSort env.it (publishNames.length + 1) publishNames workspaceDeps).getD
      (.error .panic)
  lookupPackages (pkgMapOf members) sortedNames

/-- What a run that is no dry run does with its plan. -/
def publishTo (env : PublishEnv) (paths : RegistryPaths) (ws : Workspace)
    (sorted : List Package) : Eff Registry Failure Unit := do
  Eff.ofExcept (ensureDirs env.createDirAll paths)
  env.tools.publish ws sorted

/-- Publishes the packages, all publishable ones if none is given. -/
def runPublish (env : PublishEnv) (packages : List String) (dryRun : Bool)
    (registryPath : Option (List Char)) : Eff Registry Failure Unit := do
  let paths ← Eff.ofExcept (resolveRegistry env.vars registryPath)
  let members ← Eff.ofExcept env.workspaceMembers
  let ws ← Eff.call fun reg => (env.workspace members paths reg, reg)
  let sorted ← Eff.ofExcept (env.plan members packages)
  -- no publishable crates
  if sorted.isEmpty then return ()
  if dryRun then return ()
  env.publishTo paths ws sorted

end PublishEnv

end SweGateway.Xtask

import SweGateway.Lib.PathParent
import SweGateway.Lib.Utf8
import SweGateway.Xtask.Publish

/-!
# Where the local registry is (`xtask/src/registry.rs`)

The root of the registry is given on the command line, or as the URL of its index in
`CARGO_REGISTRIES_LOCAL_INDEX`, or is the default one.  The paths are Unix paths that are text.
What the file system answers when a directory is created is a parameter of `ensureDirs`.
-/

namespace SweGateway.Xtask

open LexicalPath

/-- Resolved paths for the local registry. -/
structure RegistryPaths where
  root : List Char
  /-- `root/index` -/
  index : List Char
  /-- `root/crates` -/
  crates : List Char
  deriving DecidableEq, Repr

/-- The environment variables. -/
structure Vars where
  var : String → Option (List Char)

def pathsFromRoot (root : List Char) : RegistryPaths where
  root := root
  index := join root "index".toList
  crates := join root "crates".toList

/-- A backslash is replaced by a slash. -/
def replaceBackslash (c : Char) : Char := if c = '\\' then '/' else c

/-- Builds a `file:///` URL pointing to the index directory. -/
def indexUrl (paths : RegistryPaths) : List Char :=
  let indexStr := paths.index.map replaceBackslash
  "file:///".toList ++ indexStr.dropWhile (· = '/')

/-- `text.strip_prefix(pattern).unwrap_or(text)`. -/
def stripPrefixOr (pattern text : List Char) : List Char :=
  if pattern.isPrefixOf text then text.drop pattern.length else text

def rootFromIndexUrl (url : List Char) : Except Failure (List Char) :=
  let pathStr := stripPrefixOr "file://".toList url
  -- Windows: "/C:/…" → "C:/…"
  let indexPath :=
    if 3 ≤ Utf8.byteLength pathStr ∧ pathStr.head? = some '/' ∧
        (Utf8.bytes pathStr)[2]? = some 0x3a then
      pathStr.drop 1
    else pathStr
  match parentText indexPath with
  | some root => .ok root
  | none => .error (.error
      ["Cannot determine registry root from CARGO_REGISTRIES_LOCAL_INDEX env var"])

def homeDir (vars : Vars) : Option (List Char) :=
  (vars.var "USERPROFILE").or (vars.var "HOME")

def defaultRoot (vars : Vars) : Except Failure (List Char) :=
  match homeDir vars with
  | some home => .ok (join (join home ".cargo".toList) "registry.local".toList)
  | none => .error (.error ["Cannot determine home directory"])

/-- Resolves the registry root path. -/
def resolveRegistry (vars : Vars) (cliPath : Option (List Char)) :
    Except Failure RegistryPaths := do
  let root ← match cliPath with
    | some path => pure path
    | none =>
      match vars.var "CARGO_REGISTRIES_LOCAL_INDEX" with
      | some envVal => rootFromIndexUrl envVal
      | none => defaultRoot vars
  return pathsFromRoot root

/-- Ensures that the registry directories exist. -/
def ensureDirs (createDirAll : List Char → Except String Unit) (paths : RegistryPaths) :
    Except Failure Unit := do
  (createDirAll paths.index).mapError fun e =>
    .error ["Failed to create index directory: " ++ String.ofList paths.index, e]
  (createDirAll paths.crates).mapError fun e =>
    .error ["Failed to create crates directory: " ++ String.ofList paths.crates, e]

end SweGateway.Xtask

import SweGateway.Lib.FileTree
import SweGateway.Xtask.Registry

/-!
# The names in the local registry (`xtask/src/publish.rs`)

`scanLocalRegistryIndex` walks through the directory of the index and takes the names of the files
for the names of crates.  The index directory holds the files of a `Registry`, whose directories
are listed in some order (`FileTree.Listing`).
-/

namespace SweGateway.Xtask

open LexicalPath FileTree

/-- The files of the index, each by the names on the way to it. -/
def Registry.files (reg : Registry) : List (List (List Char)) :=
  reg.index.keys.map fun path => pieces path.toList

/-- `path.file_name()` -/
def fileName (path : List Char) : Option (List Char) :=
  match (components path).getLast? with
  | some (.name n) => some n
  | _ => none

variable {files : List (List (List Char))}

/-- The paths of the files in the directory `dir`, which has the names `below` in the index. -/
def walkIndexFiles (listing : Listing files) :
    ℕ → List (List Char) → List Char → List (List Char)
  | 0, _, _ => []
  | fuel + 1, below, dir => (listing.names below).flatMap fun name =>
    let path := join dir name
    if fileName path = some ".git".toList then []
    else if IsDir files (below ++ [name]) then
      walkIndexFiles listing fuel (below ++ [name]) path
    else if isFile files (below ++ [name]) then
      if fileName path ≠ some "config.json".toList then [path] else []
    else []

/-- The name that is taken from a path. -/
def scannedName (path : List Char) : Option String :=
  match fileName path with
  | some name =>
    -- the git directory and config.json are skipped
    if name = "config.json".toList ∨ .name ".git".toList ∈ components path then none
    else some (String.ofList name)
  | none => none

/-- Scans the local registry index directory to discover which crate names are already published. -/
def scanLocalRegistryIndex (listing : Listing files) (indexDir : List Char) : HashSet String :=
  Std.ExtTreeSet.ofList
    ((walkIndexFiles listing (depth files) [] indexDir).filterMap scannedName)

end SweGateway.Xtask

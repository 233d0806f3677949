import SweGateway.Core.File.Local
import SweGateway.Lib.EntryTree
import SweGateway.Lib.OsPath

/-!
# The input source (`core/input.rs`)

`LocalInputSource` scans a directory for files and reads them.  What `walkdir` does is a parameter of
`scanFiles`: the items that `WalkDir::new(&root).into_iter().filter_entry(keep)` yields, for
every predicate `keep`.  An entry is given by the names on the way to it from the root, which is
what is left of its path without that of the root, and by its type.

`readFile` reads through the calls of a `FileSystem`; `display` is how a path is printed.
-/

namespace SweGateway

open LexicalPath

namespace LocalInputSource

variable (lossy : List UInt8 → List Char)

/-- The directories that are not scanned: hidden ones, `target` and `node_modules`. -/
def skips (fileName : OsName) : Bool :=
  let name := fileName.toStringLossy lossy
  name.head? == some '.' || name == "target".toList || name == "node_modules".toList

/-- The predicate of `filter_entry`.  The root itself, at depth 0, is not checked. -/
def keeps (entry : WalkEntry OsName) : Bool :=
  match entry.path.getLast? with
  | none => true
  | some fileName => !(entry.kind == .dir && skips lossy fileName)

/-- The path of an item relative to the root, if it is a file. -/
def scanned {ε : Type} : Except ε (WalkEntry OsName) → Option (List OsName)
  | .ok entry => if entry.kind = .file then some entry.path else none
  | .error _ => none

/-- The files below the root, relative to it. -/
def scanFiles {ε : Type}
    (walkDir : (WalkEntry OsName → Bool) → List (Except ε (WalkEntry OsName))) :
    List (List OsName) :=
  (walkDir (keeps lossy)).filterMap scanned

variable {W : Type}

/-- Reads a file as text. -/
def readFile (fs : FileSystem W) (display : FilePath → String) (path : FilePath) :
    Eff W GatewayError String := do
  let mapped : IoError → GatewayError :=
    LocalFileGateway.notFoundOr ("File not found: " ++ display path)
  (fs.openFile path).mapError mapped
  let bytes ← (fs.readToEnd path).mapError mapped
  match String.fromUTF8? ⟨bytes.toArray⟩ with
  | some text => return text
  | none => Eff.fail (.ioError "stream did not contain valid UTF-8")

end LocalInputSource

end SweGateway

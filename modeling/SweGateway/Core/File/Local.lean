import SweGateway.Api.File
import SweGateway.Lib.Eff
import SweGateway.Lib.LexicalPath

/-!
# The local file gateway (`core/file/local.rs`)

`LocalFileGateway` keeps files below a base directory.  Every operation joins the path it is given
to the base path and hands the result to the file system.

The file system is a parameter: `FileSystem W` lists the calls of the operating system that the
gateway makes, each on a path that is given by its components, with whatever they do to the world
and however they fail.  `FileSystem.logged` is the same file system with a log of the paths that it
is handed and, for `create_dir_all`, of the directories that it makes on the way to its path.

A path is handed over as its components, so a separator or a `/.` at the end of its text is lost.
-/

namespace SweGateway

open LexicalPath

/-- A path as the operating system reads it. -/
abbrev FilePath := Path (List Char)

/-- An error of the operating system: whether its kind is "not found", and its text. -/
structure IoError where
  isNotFound : Bool
  text : String
  deriving DecidableEq, Repr

/-- What the operating system says about a file. -/
structure Metadata where
  size : ℕ
  isDir : Bool
  modified : Option DateTime
  created : Option DateTime
  deriving DecidableEq, Repr

/-- The calls that the gateway makes outside. -/
structure FileSystem (W : Type) where
  openFile : FilePath → Eff W IoError Unit
  readToEnd : FilePath → Eff W IoError (List UInt8)
  metadata : FilePath → Eff W IoError Metadata
  tryExists : FilePath → Eff W IoError Bool
  /-- The names in a directory; reading the next one may fail. -/
  readDir : FilePath → Eff W IoError (List (Except IoError (List Char)))
  entryMetadata : FilePath → Eff W IoError Metadata
  createDirAll : FilePath → Eff W IoError Unit
  createFile : FilePath → Eff W IoError Unit
  writeAll : FilePath → List UInt8 → Eff W IoError Unit
  removeFile : FilePath → Eff W IoError Unit
  copy : FilePath → FilePath → Eff W IoError Unit
  rename : FilePath → FilePath → Eff W IoError Unit
  removeDir : FilePath → Eff W IoError Unit
  removeDirAll : FilePath → Eff W IoError Unit
  /-- The clock. -/
  now : W → DateTime
  /-- The content type for a path, by its extension. -/
  guessMime : String → Option String

namespace FileSystem

variable {W : Type}

/-- The paths of the directories that `create_dir_all` has to make, besides those in `present`: each
path at the front of its path names one. -/
def made (cwd : List (List Char)) (present : List (List Char) → Bool) (path : FilePath) :
    List FilePath :=
  path.inits.filter fun front => !front.isEmpty && !present (resolve cwd front)

/-- The file system, with a log of the paths it is handed and of the directories that it makes.
`present` says which directories are there when a call begins, `cwd` where relative paths start. -/
def logged (fs : FileSystem W) (cwd : List (List Char)) (present : List (List Char) → Bool) :
    FileSystem (W × List FilePath) where
  openFile p := (fs.openFile p).logged [p]
  readToEnd p := (fs.readToEnd p).logged [p]
  metadata p := (fs.metadata p).logged [p]
  tryExists p := (fs.tryExists p).logged [p]
  readDir p := (fs.readDir p).logged [p]
  entryMetadata p := (fs.entryMetadata p).logged [p]
  createDirAll p := (fs.createDirAll p).logged (p :: made cwd present p)
  createFile p := (fs.createFile p).logged [p]
  writeAll p contents := (fs.writeAll p contents).logged [p]
  removeFile p := (fs.removeFile p).logged [p]
  copy source dest := (fs.copy source dest).logged [source, dest]
  rename source dest := (fs.rename source dest).logged [source, dest]
  removeDir p := (fs.removeDir p).logged [p]
  removeDirAll p := (fs.removeDirAll p).logged [p]
  now w := fs.now w.1
  guessMime := fs.guessMime

/-- `Path::is_dir`: a path that cannot be looked at is no directory. -/
def isDir {Err : Type} (fs : FileSystem W) (p : FilePath) : Eff W Err Bool :=
  Eff.orElseReturn false do
    let metadata ← fs.metadata p
    return metadata.isDir

end FileSystem

/-- Local filesystem gateway: the base directory for all operations, as a path text. -/
structure LocalFileGateway where
  basePath : List Char
  deriving DecidableEq, Repr

namespace LocalFileGateway

variable {W : Type}

/-- Resolves a path relative to the base path. -/
def resolvePath (g : LocalFileGateway) (path : String) : List Char :=
  join g.basePath (path.toList.dropWhile (· = '/'))

/-- `?` on an error of the operating system. -/
def ioError (e : IoError) : GatewayError := .ioError e.text

/-- An error of the operating system, with a message of the gateway's own for a missing file. -/
def notFoundOr (message : String) (e : IoError) : GatewayError :=
  if e.isNotFound then .notFound message else .ioError e.text

/-- Converts file metadata to `FileInfo`. -/
def metadataToInfo (fs : FileSystem W) (path : String) (metadata : Metadata) :
    Eff W GatewayError FileInfo := fun w =>
  (.ok {
    path := path
    size := metadata.size
    contentType := fs.guessMime path
    lastModified := metadata.modified.getD (fs.now w)
    createdAt := metadata.created
    isDirectory := metadata.isDir }, w)

/-! ### `FileInbound` -/

def read (g : LocalFileGateway) (fs : FileSystem W) (path : String) :
    Eff W GatewayError (List UInt8) := do
  let fullPath := components (g.resolvePath path)
  (fs.openFile fullPath).mapError (notFoundOr ("File not found: " ++ path))
  (fs.readToEnd fullPath).mapError ioError

def metadata (g : LocalFileGateway) (fs : FileSystem W) (path : String) :
    Eff W GatewayError FileInfo := do
  let fullPath := components (g.resolvePath path)
  let metadata ← (fs.metadata fullPath).mapError (notFoundOr ("File not found: " ++ path))
  metadataToInfo fs path metadata

/-- The directory that `list` searches. -/
def searchPath (g : LocalFileGateway) (options : ListOptions) : List Char :=
  match options.keyPrefix with
  | some keyPrefix => join g.basePath (keyPrefix.toList.dropWhile (· = '/'))
  | none => g.basePath

/-- The path of an entry relative to the base, or its name if it is not below the base. -/
def relativePath (g : LocalFileGateway) (entry : List Char) (fileName : List Char) : String :=
  String.ofList ((stripPrefix g.basePath entry).getD fileName)

def list (g : LocalFileGateway) (fs : FileSystem W) (options : ListOptions) :
    Eff W GatewayError ListResult := do
  let searchPath := g.searchPath options
  let mut files : List FileInfo := []
  let mut prefixes : List String := []
  let isDir ← fs.isDir (components searchPath)
  if isDir then
    let entries ← (fs.readDir (components searchPath)).mapError ioError
    for entry in entries do
      let fileName ← Eff.ofExcept (entry.mapError ioError)
      let metadata ← (fs.entryMetadata (components searchPath ++ [.name fileName])).mapError ioError
      let relativePath := g.relativePath (join searchPath fileName) fileName
      if metadata.isDir && options.delimiter.isSome then
        prefixes := prefixes ++ [relativePath]
      else
        let info ← metadataToInfo fs relativePath metadata
        files := files ++ [info]
      if let some max := options.maxResults then
        if max ≤ files.length then break
  return { files := files, prefixes := prefixes }

def «exists» (g : LocalFileGateway) (fs : FileSystem W) (path : String) :
    Eff W GatewayError Bool :=
  (fs.tryExists (components (g.resolvePath path))).orElseReturn false

/-! ### `FileOutbound` -/

/-- Creates the parent directories of a path, if it has a parent. -/
def createParent (fs : FileSystem W) (path : FilePath) : Eff W GatewayError Unit :=
  match parent path with
  | some dir => (fs.createDirAll dir).mapError ioError
  | none => pure ()

def write (g : LocalFileGateway) (fs : FileSystem W) (path : String) (contents : List UInt8)
    (options : UploadOptions) : Eff W GatewayError FileInfo := do
  let fullPath := components (g.resolvePath path)
  if !options.overwrite then
    let found ← (fs.tryExists fullPath).orElseReturn false
    if found then
      Eff.fail (.conflict ("File already exists: " ++ path))
  createParent fs fullPath
  (fs.createFile fullPath).mapError ioError
  (fs.writeAll fullPath contents).mapError ioError
  let metadata ← (fs.metadata fullPath).mapError ioError
  metadataToInfo fs path metadata

def delete (g : LocalFileGateway) (fs : FileSystem W) (path : String) : Eff W GatewayError Unit :=
  (fs.removeFile (components (g.resolvePath path))).mapError
    (notFoundOr ("File not found: " ++ path))

/-- `copy` and `rename` differ in the call that moves the file. -/
def transfer (g : LocalFileGateway) (fs : FileSystem W)
    (move : FilePath → FilePath → Eff W IoError Unit) (source destination : String) :
    Eff W GatewayError FileInfo := do
  let sourcePath := components (g.resolvePath source)
  let destPath := components (g.resolvePath destination)
  createParent fs destPath
  (move sourcePath destPath).mapError (notFoundOr ("Source file not found: " ++ source))
  let metadata ← (fs.metadata destPath).mapError ioError
  metadataToInfo fs destination metadata

def copy (g : LocalFileGateway) (fs : FileSystem W) (source destination : String) :
    Eff W GatewayError FileInfo :=
  g.transfer fs fs.copy source destination

def rename (g : LocalFileGateway) (fs : FileSystem W) (source destination : String) :
    Eff W GatewayError FileInfo :=
  g.transfer fs fs.rename source destination

def createDirectory (g : LocalFileGateway) (fs : FileSystem W) (path : String) :
    Eff W GatewayError Unit :=
  (fs.createDirAll (components (g.resolvePath path))).mapError ioError

def deleteDirectory (g : LocalFileGateway) (fs : FileSystem W) (path : String)
    (recursive : Bool) : Eff W GatewayError Unit :=
  if recursive then (fs.removeDirAll (components (g.resolvePath path))).mapError ioError
  else (fs.removeDir (components (g.resolvePath path))).mapError ioError

/-! ### Calls -/

/-- A call of an operation on paths. -/
inductive FileCall where
  | read (path : String)
  | metadata (path : String)
  | list (options : ListOptions)
  | «exists» (path : String)
  | write (path : String) (contents : List UInt8) (options : UploadOptions)
  | delete (path : String)
  | copy (source destination : String)
  | rename (source destination : String)
  | createDirectory (path : String)
  | deleteDirectory (path : String) (recursive : Bool)

/-- Runs a call, whatever it returns. -/
def run (g : LocalFileGateway) (fs : FileSystem W) (call : FileCall) : Eff W GatewayError Unit :=
  match call with
  | .read path => do let _ ← g.read fs path
  | .metadata path => do let _ ← g.metadata fs path
  | .list options => do let _ ← g.list fs options
  | .exists path => do let _ ← g.exists fs path
  | .write path contents options => do let _ ← g.write fs path contents options
  | .delete path => g.delete fs path
  | .copy source destination => do let _ ← g.copy fs source destination
  | .rename source destination => do let _ ← g.rename fs source destination
  | .createDirectory path => g.createDirectory fs path
  | .deleteDirectory path recursive => g.deleteDirectory fs path recursive

end LocalFileGateway

end SweGateway

import SweGateway.Lib.Eff
import SweGateway.Xtask.Index

/-!
# Publishing to a local registry (`xtask/src/publish.rs`)

`publish` is what `run` does once it has put the selected crates in order.  Phase 1 registers every
crate with a placeholder for its checksum, so that the crates can be resolved as dependencies of
each other; Phase 2 packages them one by one, copies the crate file to the registry and registers
the crate again, with the checksum of the file.  An error ends the run where it occurs.

`Registry` is the registry's directory: the texts of the index files and the stored crate files.
Reading and writing these files is taken to succeed, and no crate has an empty name, so
`upsert_entry` returns no error and the contexts for its errors are not met with.

`Tools` stands for everything outside: what `cargo package` and `git` answer for a crate or a
commit, the crate file that packaging left, and the library functions on strings, JSON and bytes.
-/

namespace SweGateway.Xtask

/-- The kinds of dependencies that `cargo metadata` reports. -/
inductive DependencyKind where
  | normal
  | development
  | build
  | unknown
  deriving DecidableEq, Repr

/-- A dependency that `cargo metadata` reports. -/
structure Dependency where
  name : String
  req : String
  kind : DependencyKind
  rename : Option String
  features : List String
  optional : Bool
  usesDefaultFeatures : Bool
  target : Option String
  registry : Option String
  deriving DecidableEq, Repr

/-- A package that `cargo metadata` reports. -/
structure Package where
  name : String
  version : String
  dependencies : List Dependency
  features : HashMap String (List String)

/-- What `run` has found out before it publishes. -/
structure Workspace where
  registryUrl : String
  /-- The workspace members, by name. -/
  pkgMap : HashMap String Package
  /-- The names in the index of the local registry. -/
  localRegistryCrates : HashSet String

/-- What a command that could be started has returned. -/
structure CommandOutput where
  success : Bool
  stdout : String
  stderr : String
  deriving DecidableEq, Repr

/-- The commands and library functions that publishing uses. -/
structure Tools where
  toLowercase : String → String
  codec : EntryCodec
  /-- The SHA-256 digest, in hexadecimal. -/
  sha256 : List UInt8 → String
  /-- `cargo package` for a package, or the error of starting it. -/
  cargo : Package → Except String CommandOutput
  /-- The crate file of a package, after that command. -/
  crateFile : Package → Option (List UInt8)
  /-- `git add .` before the commit with a message. -/
  gitAdd : String → Except String CommandOutput
  /-- `git commit` with a message. -/
  gitCommit : String → Except String CommandOutput

/-- The files of a registry. -/
structure Registry where
  /-- The index files, by path. -/
  index : HashMap String (List Char)
  /-- The files `crates/<name>/<vers>/download`, by name and version. -/
  crates : HashMap String (HashMap String (List UInt8))

/-- How a run ends early: with an error, its contexts first, or with a panic. -/
inductive Failure where
  | error (messages : List String)
  | panic
  deriving DecidableEq, Repr

/-- Adds a context to an error. -/
def Failure.context (message : String) : Failure → Failure
  | .error messages => .error (message :: messages)
  | .panic => .panic

def placeholderCksum : String := "0000000000000000000000000000000000000000000000000000000000000000"

def cratesIoIndex : String := "https://github.com/rust-lang/crates.io-index"

/-- `text.contains(pattern)`. -/
def contains (text pattern : String) : Bool := decide (pattern.toList <:+: text.toList)

namespace Registry

/-- The stored crate file of a version. -/
def stored (reg : Registry) (name vers : String) : Option (List UInt8) :=
  (reg.crates.getD name ∅)[vers]?

/-- Copies a crate file to its place. -/
def copyCrate (reg : Registry) (name vers : String) (bytes : List UInt8) : Registry :=
  { reg with crates := reg.crates.insert name ((reg.crates.getD name ∅).insert vers bytes) }

end Registry

namespace Tools

/-- Overwrites the entry of the same name and version in its index file, or appends it. -/
def upsertEntry (t : Tools) (entry : IndexEntry) : Eff Registry Failure Unit := fun reg =>
  match nameToPath t.toLowercase entry.name with
  | none => (.error .panic, reg)
  | some path =>
    match reg.index[path]? with
    | some existing =>
      (.ok (), { reg with index := reg.index.insert path (upsertText t.codec entry existing) })
    | none =>
      (.ok (), { reg with index := reg.index.insert path (t.codec.toString entry ++ ['\n']) })

/-- The registry that the entry of a dependency names. -/
def dependencyRegistry (ws : Workspace) (dep : Dependency) : String :=
  let isWorkspaceDep := ws.pkgMap.contains dep.name
  let isInLocalRegistry := ws.localRegistryCrates.contains dep.name
  let hasNonCratesIoRegistry := dep.registry.any fun r => !contains r "crates.io"
  if isWorkspaceDep || isInLocalRegistry || hasNonCratesIoRegistry then ws.registryUrl
  else cratesIoIndex

/-- The index entry of a dependency, but for those used in development only. -/
def buildIndexDep (ws : Workspace) (dep : Dependency) : Option IndexDep := do
  let kind ← match dep.kind with
    | .normal => some "normal"
    | .build => some "build"
    | .development | .unknown => none
  let (name, package) := match dep.rename with
    | some renamed => (renamed, some dep.name)
    | none => (dep.name, none)
  return {
    name := name
    req := dep.req
    features := dep.features
    optional := dep.optional
    defaultFeatures := dep.usesDefaultFeatures
    target := dep.target
    kind := kind
    registry := some (dependencyRegistry ws dep)
    package := package }

def buildIndexEntry (ws : Workspace) (pkg : Package) (cksum : String) : IndexEntry where
  name := pkg.name
  vers := pkg.version
  deps := pkg.dependencies.filterMap (buildIndexDep ws)
  cksum := cksum
  features := pkg.features
  yanked := false

/-- Runs `cargo package`; the bytes of the crate file. -/
def cargoPackage (t : Tools) (pkg : Package) : Except Failure (List UInt8) :=
  match t.cargo pkg with
  | .error e => .error (.error ["Failed to run `cargo package` for " ++ pkg.name, e])
  | .ok output =>
    if !output.success then
      .error (.error ["cargo package failed for " ++ pkg.name ++ ":\n" ++ output.stderr])
    else
      match t.crateFile pkg with
      | none =>
        .error (.error ["Expected crate file not found: target/package/" ++ pkg.name ++ "-" ++
          pkg.version ++ ".crate"])
      | some bytes => .ok bytes

/-- Packages a crate and copies the crate file; the final index entry. -/
def packageAndCopy (t : Tools) (ws : Workspace) (pkg : Package) :
    Eff Registry Failure IndexEntry := do
  let bytes ← Eff.ofExcept (t.cargoPackage pkg)
  let cksum := t.sha256 bytes
  Eff.modify fun reg => reg.copyCrate pkg.name pkg.version bytes
  return buildIndexEntry ws pkg cksum

/-- Commits the index.  It is no error if there is nothing to commit. -/
def gitCommitIndex (t : Tools) (message : String) : Except Failure Unit :=
  match t.gitAdd message with
  | .error e => .error (.error ["Failed to run git add in index", e])
  | .ok added =>
    if !added.success then .error (.error ["git add failed in index:\n" ++ added.stderr])
    else
      match t.gitCommit message with
      | .error e => .error (.error ["Failed to run git commit in index", e])
      | .ok output =>
        if !output.success && !contains output.stderr "nothing to commit" &&
            !contains output.stdout "nothing to commit" then
          .error (.error ["git commit failed in index:\n" ++ output.stderr])
        else .ok ()

/-- Phase 1: pre-registers all crates in the index. -/
def preRegister (t : Tools) (ws : Workspace) (sorted : List Package) :
    Eff Registry Failure Unit :=
  forM sorted fun pkg =>
    (t.upsertEntry (buildIndexEntry ws pkg placeholderCksum)).mapError
      (.context ("Failed to pre-register " ++ pkg.name))

/-- One crate of Phase 2. -/
def publishCrate (t : Tools) (ws : Workspace) (pkg : Package) : Eff Registry Failure Unit := do
  let entry ← t.packageAndCopy ws pkg
  (t.upsertEntry entry).mapError (.context ("Failed to update index for " ++ entry.name))
  Eff.ofExcept (t.gitCommitIndex ("publish " ++ entry.name ++ " v" ++ entry.vers))

/-- Phases 1 and 2, for the crates in publish order. -/
def publish (t : Tools) (ws : Workspace) (sorted : List Package) :
    Eff Registry Failure Unit := do
  t.preRegister ws sorted
  Eff.ofExcept (t.gitCommitIndex "pre-register crates for dependency resolution")
  forM sorted (t.publishCrate ws)

end Tools

end SweGateway.Xtask

import SweGateway.Xtask.PublishOrder

/-!
# The crates that are published (`xtask/src/publish.rs`)

`run` takes the packages that it is given by name, each as often as it is named, or else all
publishable packages of the workspace, and puts them in publish order.  `publishOrder` is the run up
to there; nothing is published before it.
-/

namespace SweGateway.Xtask

/-- A workspace member, as `cargo metadata` reports it. -/
structure Member extends Package where
  /-- The registries that the package may be published to, if it says so. -/
  publish : Option (List String)

/-- Not marked `publish = false`. -/
def isPublishable (pkg : Member) : Bool :=
  match pkg.publish with
  | some registries => !registries.isEmpty
  | none => true

/-- The workspace members, by name. -/
def pkgMapOf (members : List Member) : HashMap String Package :=
  members.foldl (fun pkgMap pkg => pkgMap.insert pkg.name pkg.toPackage) ∅

/-- The package of that name. -/
def findPackage (pkgMap : HashMap String Package) (name : String) : Except Failure Package :=
  match pkgMap[name]? with
  | some pkg => .ok pkg
  | none => .error (.error ["Package '" ++ name ++ "' not found in workspace"])

/-- The packages to publish. -/
def selectPackages (members : List Member) (packages : List String) :
    Except Failure (List Package) :=
  if packages.isEmpty then .ok ((members.filter isPublishable).map Member.toPackage)
  else packages.mapM (findPackage (pkgMapOf members))

/-- The names of the packages to publish, in publish order. -/
def publishOrder (it : IterOrder String ℕ) (fuel : ℕ) (members : List Member)
    (packages : List String) : Option (Except Failure (List String)) :=
  match selectPackages members packages with
  | .error e => some (.error e)
  | .ok toPublish =>
    if toPublish.isEmpty then some (.ok [])
    else
      topologicalSort it fuel (toPublish.map Package.name)
        (buildWorkspaceDeps toPublish (pkgMapOf members))

end SweGateway.Xtask

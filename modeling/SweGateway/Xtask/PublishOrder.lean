import Mathlib.Data.String.Basic
import SweGateway.Xtask.Publish

/-!
# The publish order (`xtask/src/publish.rs`)

`topologicalSort` puts the selected crates in an order in which each comes after its dependencies
among them.  It counts for every crate the dependencies that are not listed yet (`in_degree`), once
for every time they are named, and keeps the crates that depend on each (`dependents`); its loop
takes a crate from the queue, lists it, and counts down its dependents.

The loop runs for as long as the queue has a crate.  Here it is given `fuel`, the number of rounds
it may take, and returns nothing if that is not enough.
-/

namespace SweGateway.Xtask

/-- Sorts names. -/
def sortNames (names : List String) : List String := names.mergeSort (· ≤ ·)

/-- The workspace dependencies of every crate that is published, but for those used in development
only. -/
def buildWorkspaceDeps (toPublish : List Package) (pkgMap : HashMap String Package) :
    HashMap String (List String) :=
  let publishSet : HashSet String := Std.ExtTreeSet.ofList (toPublish.map Package.name)
  toPublish.foldl (fun result pkg =>
    let deps := pkg.dependencies.filter fun dep =>
      dep.kind != .development && (publishSet.contains dep.name && pkgMap.contains dep.name)
    result.insert pkg.name (deps.map Dependency.name)) ∅

/-- `in_degree` and `dependents`. -/
structure Counts where
  inDegree : HashMap String ℕ
  dependents : HashMap String (List String)

/-- Counts a dependency of the crate, if it is one of the crates. -/
def countDep (crateSet : HashSet String) (name : String) (c : Counts) (dep : String) : Counts :=
  if crateSet.contains dep then
    { inDegree := c.inDegree.insert name (c.inDegree.getD name 0 + 1)
      dependents := c.dependents.insert dep (c.dependents.getD dep [] ++ [name]) }
  else c

/-- Counts the dependencies of the crate. -/
def countDeps (crateSet : HashSet String) (workspaceDeps : HashMap String (List String))
    (c : Counts) (name : String) : Counts :=
  let c := { c with inDegree := c.inDegree.insertIfNew name 0 }
  match workspaceDeps[name]? with
  | some deps => deps.foldl (countDep crateSet name) c
  | none => c

/-- What the loop works on. -/
structure SortState where
  inDegree : HashMap String ℕ
  queue : List String
  sorted : List String

/-- Counts a dependent down and adds it to `next` if nothing is left.  There is a panic if it has no
count, or if the count is zero already. -/
def countDown (s : HashMap String ℕ × List String) (depName : String) :
    Except Failure (HashMap String ℕ × List String) :=
  match s.1[depName]? with
  | none | some 0 => .error .panic
  | some (deg + 1) =>
    .ok (s.1.insert depName deg, if deg = 0 then s.2 ++ [depName] else s.2)

/-- Lists the crate, which has been taken from the queue. -/
def listCrate (dependents : HashMap String (List String)) (name : String) (s : SortState) :
    Except Failure SortState := do
  let s := { s with sorted := s.sorted ++ [name] }
  match dependents[name]? with
  | some deps =>
    let (inDegree, next) ← deps.foldlM countDown (s.inDegree, [])
    return { s with inDegree := inDegree, queue := s.queue ++ sortNames next }
  | none => return s

/-- The loop. -/
def sortLoop (dependents : HashMap String (List String)) :
    ℕ → SortState → Option (Except Failure (List String))
  | 0, _ => none
  | fuel + 1, s =>
    match s.queue with
    | [] => some (.ok s.sorted)
    | name :: queue =>
      match listCrate dependents name { s with queue := queue } with
      | .error e => some (.error e)
      | .ok s => sortLoop dependents fuel s

/-- The error of a sort that has not come to all of the crates. -/
def circularDependency (sorted crates : ℕ) : Failure :=
  .error ["Circular dependency detected among workspace crates (sorted " ++ toString sorted ++
    " of " ++ toString crates ++ ")"]

/-- Topological sort using Kahn's algorithm. -/
def topologicalSort (it : IterOrder String ℕ) (fuel : ℕ) (crates : List String)
    (workspaceDeps : HashMap String (List String)) : Option (Except Failure (List String)) :=
  let crateSet : HashSet String := Std.ExtTreeSet.ofList crates
  let counts := crates.foldl (countDeps crateSet workspaceDeps)
    { inDegree := ∅, dependents := ∅ }
  let initial := ((HashMap.iter it counts.inDegree).filter fun e => e.2 == 0).map Prod.fst
  (sortLoop counts.dependents fuel
      { inDegree := counts.inDegree, queue := sortNames initial, sorted := [] }).map fun result =>
    result.bind fun sorted =>
      if sorted.length ≠ crates.length then
        .error (circularDependency sorted.length crates.length)
      else .ok sorted

end SweGateway.Xtask

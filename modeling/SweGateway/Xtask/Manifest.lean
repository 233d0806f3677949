import SweGateway.Lib.AssocList
import SweGateway.Lib.TextReplace

/-!
# The paths in a workspace manifest (`xtask/src/workspace.rs`)

`Manifest` is what the workspace commands read and write of the root `Cargo.toml`: the items
`workspace.members` and `workspace.dependencies`.  A TOML item is a value, a table or an array of
tables; only strings, arrays, inline tables and tables are told apart further.

Both commands that move directories go over the members and over the entries of the dependencies
table and put a new path in the place of an old one.  They differ in which paths they change:
`updateCargoTomlPaths` goes by a part of the path, with one rule for members and one for
dependencies, and `updateCargoTomlBulk` by a list of whole paths.
-/

namespace SweGateway.Xtask

open AssocList TextReplace

/-- A TOML value. -/
inductive TomlValue where
  | string (text : List Char)
  | array (values : List TomlValue)
  | inlineTable (entries : List (String × TomlValue))
  /-- A number, a boolean or a date. -/
  | scalar

/-- An item of a TOML document. -/
inductive TomlItem where
  | none
  | value (v : TomlValue)
  | table (entries : List (String × TomlItem))
  | arrayOfTables

/-- `as_str`. -/
def TomlValue.asStr : TomlValue → Option (List Char)
  | .string text => some text
  | _ => none

/-- `as_str`. -/
def TomlItem.asStr : TomlItem → Option (List Char)
  | .value v => v.asStr
  | _ => .none

/-- The value with a new path in its place, if it is a string. -/
def TomlValue.updatePath (newPath : List Char → List Char) : TomlValue → TomlValue
  | .string path => .string (newPath path)
  | v => v

/-- The item with a new path in its place, if it is a string. -/
def TomlItem.updatePath (newPath : List Char → List Char) : TomlItem → TomlItem
  | .value v => .value (v.updatePath newPath)
  | item => item

/-- An entry of the dependencies table with a new path, if it is a table of either form and has a
path that is a string. -/
def TomlItem.updateDependency (newPath : List Char → List Char) : TomlItem → TomlItem
  | .value (.inlineTable tbl) =>
    .value (.inlineTable (modifyKey "path" (TomlValue.updatePath newPath) tbl))
  | .table tbl => .table (modifyKey "path" (TomlItem.updatePath newPath) tbl)
  | item => item

/-- The items of a manifest that the commands read and write. -/
structure Manifest where
  /-- `doc["workspace"]["members"]`. -/
  members : TomlItem
  /-- `doc["workspace"]["dependencies"]`. -/
  dependencies : TomlItem

namespace Manifest

/-- The loop over the members. -/
def updateMembers (newPath : List Char → List Char) (doc : Manifest) : Manifest :=
  match doc.members with
  | .value (.array members) =>
    { doc with members := .value (.array (members.map (TomlValue.updatePath newPath))) }
  | _ => doc

/-- The loop over the dependencies, if they are a table and not a value. -/
def updateDependencies (newPath : List Char → List Char) (doc : Manifest) : Manifest :=
  match doc.dependencies with
  | .table deps =>
    { doc with
      dependencies := .table (deps.map fun (key, item) => (key, item.updateDependency newPath)) }
  | _ => doc

/-- Whether `update_cargo_toml_paths` changes the path of a member. -/
def memberMatches (source path : List Char) : Prop :=
  source <+: path ∨ ('/' :: source ++ ['/']) <:+: path ∨ ('/' :: source) <:+: path

instance (source path : List Char) : Decidable (memberMatches source path) :=
  inferInstanceAs (Decidable (_ ∨ _ ∨ _))

/-- `update_dependency_paths`. -/
def updateDependencyPaths (source target : List Char) : Manifest → Manifest :=
  updateDependencies fun path => if source <:+: path then replace source target path else path

/-- `update_cargo_toml_paths`. -/
def updateCargoTomlPaths (source target : List Char) (doc : Manifest) : Manifest :=
  updateDependencyPaths source target
    (updateMembers (fun path =>
      if memberMatches source path then replace source target path else path) doc)

/-- The path that the first entry for a path in a list of renames gives. -/
def renamedPath (renames : List (List Char × List Char)) (path : List Char) : List Char :=
  (renames.lookup path).getD path

/-- `update_cargo_toml_bulk`. -/
def updateCargoTomlBulk (renames : List (List Char × List Char)) (doc : Manifest) : Manifest :=
  updateDependencies (renamedPath renames) (updateMembers (renamedPath renames) doc)

/-! ### The paths of a manifest -/

/-- The paths of the members. -/
def memberPaths (doc : Manifest) : List (List Char) :=
  match doc.members with
  | .value (.array members) => members.filterMap TomlValue.asStr
  | _ => []

/-- The path of a dependency. -/
def dependencyPath : TomlItem → Option (List Char)
  | .value (.inlineTable tbl) => (tbl.lookup "path").bind TomlValue.asStr
  | .table tbl => (tbl.lookup "path").bind TomlItem.asStr
  | _ => none

/-- The paths of the dependencies, if they are a table. -/
def tableDependencyPaths (doc : Manifest) : List (List Char) :=
  match doc.dependencies with
  | .table deps => deps.filterMap fun (_, item) => dependencyPath item
  | _ => []

/-- The paths of the dependencies, if they are an inline table. -/
def inlineDependencyPaths (doc : Manifest) : List (List Char) :=
  match doc.dependencies with
  | .value (.inlineTable deps) => deps.filterMap fun (_, v) => dependencyPath (.value v)
  | _ => []

/-- The paths of the dependencies. -/
def dependencyPaths (doc : Manifest) : List (List Char) :=
  doc.tableDependencyPaths ++ doc.inlineDependencyPaths

/-! ### What the loops do to the paths -/

variable {newPath : List Char → List Char}

theorem asStr_updatePath (v : TomlValue) : (v.updatePath newPath).asStr = v.asStr.map newPath := by
  cases v <;> rfl

theorem item_asStr_updatePath (item : TomlItem) :
    (item.updatePath newPath).asStr = item.asStr.map newPath := by
  cases item with
  | value v => exact asStr_updatePath v
  | none | table | arrayOfTables => rfl

theorem dependencyPath_updateDependency (item : TomlItem) :
    dependencyPath (item.updateDependency newPath) = (dependencyPath item).map newPath := by
  have hvalue (tbl : List (String × TomlValue)) :
      ((tbl.lookup "path").map (TomlValue.updatePath newPath)).bind TomlValue.asStr =
        ((tbl.lookup "path").bind TomlValue.asStr).map newPath := by
    cases tbl.lookup "path" with
    | none => rfl
    | some v => exact asStr_updatePath v
  have hitem (tbl : List (String × TomlItem)) :
      ((tbl.lookup "path").map (TomlItem.updatePath newPath)).bind TomlItem.asStr =
        ((tbl.lookup "path").bind TomlItem.asStr).map newPath := by
    cases tbl.lookup "path" with
    | none => rfl
    | some item => exact item_asStr_updatePath item
  cases item with
  | none | arrayOfTables => rfl
  | table tbl =>
    show ((modifyKey _ _ tbl).lookup "path").bind TomlItem.asStr = _
    rw [lookup_modifyKey_self]
    exact hitem tbl
  | value v =>
    cases v with
    | string | array | scalar => rfl
    | inlineTable tbl =>
      show ((modifyKey _ _ tbl).lookup "path").bind TomlValue.asStr = _
      rw [lookup_modifyKey_self]
      exact hvalue tbl

@[simp] theorem memberPaths_updateMembers (doc : Manifest) :
    (doc.updateMembers newPath).memberPaths = doc.memberPaths.map newPath := by
  obtain ⟨members, dependencies⟩ := doc
  unfold updateMembers memberPaths
  cases members with
  | none | table | arrayOfTables => rfl
  | value v =>
    cases v with
    | string | inlineTable | scalar => rfl
    | array members =>
      show (members.map _).filterMap _ = (members.filterMap _).map _
      rw [List.filterMap_map, List.map_filterMap]
      exact List.filterMap_congr fun v _ => asStr_updatePath v

@[simp] theorem memberPaths_updateDependencies (doc : Manifest) :
    (doc.updateDependencies newPath).memberPaths = doc.memberPaths := by
  unfold updateDependencies
  split <;> rfl

@[simp] theorem dependencies_updateMembers (doc : Manifest) :
    (doc.updateMembers newPath).dependencies = doc.dependencies := by
  unfold updateMembers
  split <;> rfl

@[simp] theorem tableDependencyPaths_updateDependencies (doc : Manifest) :
    (doc.updateDependencies newPath).tableDependencyPaths =
      doc.tableDependencyPaths.map newPath := by
  obtain ⟨members, dependencies⟩ := doc
  unfold updateDependencies tableDependencyPaths
  cases dependencies with
  | none | value | arrayOfTables => rfl
  | table deps =>
    show (deps.map _).filterMap _ = (deps.filterMap _).map _
    rw [List.filterMap_map, List.map_filterMap]
    exact List.filterMap_congr fun entry _ => dependencyPath_updateDependency entry.2

@[simp] theorem inlineDependencyPaths_updateDependencies (doc : Manifest) :
    (doc.updateDependencies newPath).inlineDependencyPaths = doc.inlineDependencyPaths := by
  obtain ⟨members, dependencies⟩ := doc
  unfold updateDependencies inlineDependencyPaths
  cases dependencies with
  | none | value | arrayOfTables | table => rfl

@[simp] theorem tableDependencyPaths_updateMembers (doc : Manifest) :
    (doc.updateMembers newPath).tableDependencyPaths = doc.tableDependencyPaths := by
  rw [tableDependencyPaths, dependencies_updateMembers, ← tableDependencyPaths]

@[simp] theorem inlineDependencyPaths_updateMembers (doc : Manifest) :
    (doc.updateMembers newPath).inlineDependencyPaths = doc.inlineDependencyPaths := by
  rw [inlineDependencyPaths, dependencies_updateMembers, ← inlineDependencyPaths]

end Manifest

end SweGateway.Xtask

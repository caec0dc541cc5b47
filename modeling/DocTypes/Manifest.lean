import DocTypes.ClassDeclaration.Json
import DocTypes.Registry.Build

/-!
# Manifests

A `Manifest` lists the types that are known and the classes that are declared, no two classes of one
name. Its `registry` has the listed types in order and then every declared class that is not among
them, as a class without parents. So every declared class is a known type (`contains_of_declared`).
-/

namespace DocTypes

namespace TypeDefinition

/-- The names of the parts of a `TypeDefinition`. -/
def fields : List String := ["name", "kind", "parents"]

/-- A definition in JSON, all its `fields` given. -/
def toJson (d : TypeDefinition) : Json :=
  .object [("name", .string d.name), ("kind", .string d.kind.keyword),
    ("parents", .array (d.parents.map .string))]

/-- Reads a definition. Only the `parents` may be left out. -/
def ofNode? (node : Json.Node) : Option TypeDefinition := do
  let r ← Json.Record.ofNode? fields node
  let name ← r.required? "name" Json.Node.string?
  let kind ← r.required? "kind" fun n => (n.keyword? false).bind TypeKind.ofKeyword?
  let parents ← r.defaulted? "parents" [] (Json.Node.list? Json.Node.string?)
  return ⟨name, kind, parents⟩

end TypeDefinition

/-- Class declarations by the names of the classes, in the order of the manifest
(`JsonDeclarationSource`). -/
abbrev ClassSource := OrderedMap String ClassDeclaration

/-- Known types and declared classes. The `types` may repeat a name; that is found when the registry
is built. -/
structure Manifest where
  types : List TypeDefinition
  classes : ClassSource

namespace Manifest

/-- The names of the parts of a `Manifest`. -/
def fields : List String := ["types", "classes"]

/-- The classes by name, behind those of `source`, unless two of them have the same. -/
def index (source : ClassSource) : List ClassDeclaration → Except RegistryError ClassSource
  | [] => .ok source
  | c :: rest =>
    if source.contains c.name then .error (.duplicateType c.name)
    else index (source.insert c.name c) rest

/-- The manifest of the given types and classes, or the first class that `index` meets again. -/
def ofParts (types : List TypeDefinition) (classes : List ClassDeclaration) :
    Except RegistryError Manifest :=
  (index ∅ classes).map fun source => ⟨types, source⟩

/-- Reads the parts of a manifest. Either of its `fields` may be left out. -/
def parts? (text : String) : Option (List TypeDefinition × List ClassDeclaration) := do
  let r ← Json.Record.ofNode? fields (← Json.Node.ofText? text)
  let types ← r.defaulted? "types" [] (Json.Node.list? TypeDefinition.ofNode?)
  return (types, ← r.defaulted? "classes" [] (Json.Node.list? ClassDeclaration.ofNode?))

/-- Types and classes as the text of a manifest, which `parts?` reads. -/
def partsToJson (types : List TypeDefinition) (classes : List ClassDeclaration) : Json :=
  .object [("types", .array (types.map TypeDefinition.toJson)),
    ("classes", .array (classes.map ClassDeclaration.toJson))]

/-- The definitions for the registry: the listed types, then the other declared classes without
`parents`. -/
def definitions (m : Manifest) : List TypeDefinition :=
  let listed := m.types.map (·.name)
  m.types ++ (m.classes.keys.filter (· ∉ listed)).map fun name => ⟨name, .class, []⟩

/-- The registry of a manifest (`registry`), built of its `definitions`. -/
def registry (m : Manifest) : Except RegistryError TypeRegistry := TypeRegistry.build m.definitions

end Manifest

end DocTypes

import DocTypes.Annotation.Json
import DocTypes.ClassDeclaration.Basic

/-!
# Class declarations in JSON

A declared class or property is an object of its parts (`ClassDeclaration.toJson`,
`PropertyDeclaration.toJson`). All but the name may be left out when it is read.
-/

namespace DocTypes

namespace PropertyDeclaration

/-- The names of the parts of a `PropertyDeclaration`. -/
def fields : List String := ["name", "annotations"]

/-- A property in JSON, both of its `fields` given. -/
def toJson (p : PropertyDeclaration) : Json :=
  .object [("name", .string p.name), ("annotations", p.annotations.toJson)]

/-- Reads a property. Only its `name` is required. -/
def ofNode? (node : Json.Node) : Option PropertyDeclaration := do
  let r ← Json.Record.ofNode? fields node
  let name ← r.required? "name" Json.Node.string?
  return ⟨name, ← r.defaulted? "annotations" [] Annotations.ofNode?⟩

end PropertyDeclaration

namespace ClassDeclaration

/-- The names of the parts of a `ClassDeclaration`. -/
def fields : List String := ["name", "imports", "annotations", "properties"]

/-- A class in JSON, all its `fields` given. -/
def toJson (c : ClassDeclaration) : Json :=
  .object [("name", .string c.name), ("imports", .array (c.imports.map .string)),
    ("annotations", c.annotations.toJson),
    ("properties", .array (c.properties.map PropertyDeclaration.toJson))]

/-- Reads a class. Only its `name` is required; everything else is empty if it is left out. -/
def ofNode? (node : Json.Node) : Option ClassDeclaration := do
  let r ← Json.Record.ofNode? fields node
  let name ← r.required? "name" Json.Node.string?
  let imports ← r.defaulted? "imports" [] (Json.Node.list? Json.Node.string?)
  let annotations ← r.defaulted? "annotations" [] Annotations.ofNode?
  let properties ← r.defaulted? "properties" [] (Json.Node.list? PropertyDeclaration.ofNode?)
  return ⟨name, imports, annotations, properties⟩

end ClassDeclaration

end DocTypes

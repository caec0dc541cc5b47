import DocTypes.Annotation.Json
import DocTypes.Descriptor.Basic
import DocTypes.Json.Printer
import DocTypes.TypeTerm.Json

/-!
# Class descriptors in JSON

A descriptor is written with all its parts, in one line or laid out (`ClassDescriptor.render`,
`ClassDescriptor.renderPretty`), and can be read back (`ClassDescriptor.ofText?`). Reading accepts
descriptors without annotations, properties, virtual methods or features.

The text of a record is made in two ways, by printing its fields one after the other, as `to_json`
and `to_json_pretty` do, or by printing a tree that it has been turned into. Both follow the
declaration of the record, so `toJson` is the one description of its fields and their order, and all
texts are those of this tree.
-/

namespace DocTypes

namespace PropertyDescriptor

/-- The names of the parts of a `PropertyDescriptor`. -/
def fields : List String := ["class", "name", "annotations", "declaration"]

/-- A property in JSON, all its `fields` given. -/
def toJson (p : PropertyDescriptor) : Json :=
  .object [("class", .string p.className), ("name", .string p.name),
    ("annotations", p.annotations.toJson),
    ("declaration", TypeDeclaration.optionToJson p.declaration)]

/-- Reads a property. A `declaration` that is `null` or left out is none. -/
def ofNode? (node : Json.Node) : Option PropertyDescriptor := do
  let r ← Json.Record.ofNode? fields node
  let className ← r.required? "class" Json.Node.string?
  let name ← r.required? "name" Json.Node.string?
  let annotations ← r.defaulted? "annotations" [] Annotations.ofNode?
  let declaration ← r.optional? "declaration" TypeDeclaration.ofNode?
  return ⟨className, name, annotations, declaration⟩

end PropertyDescriptor

namespace MethodDescriptor

/-- The names of the parts of a `MethodDescriptor`. -/
def fields : List String := ["class", "name", "parameters", "return_type", "is_static"]

/-- A virtual method in JSON, with its `parameters` in order. -/
def toJson (m : MethodDescriptor) : Json :=
  .object [("class", .string m.className), ("name", .string m.name),
    ("parameters", .object (m.parameters.mapValues TypeDeclaration.optionToJson).entries),
    ("return_type", TypeDeclaration.optionToJson m.returnType), ("is_static", .bool m.isStatic)]

/-- Reads a virtual method. A `return_type` that is `null` or left out is none; everything else is
required. -/
def ofNode? (node : Json.Node) : Option MethodDescriptor := do
  let r ← Json.Record.ofNode? fields node
  let className ← r.required? "class" Json.Node.string?
  let name ← r.required? "name" Json.Node.string?
  let parameters ← r.required? "parameters"
    (Json.Node.map? (Json.Node.nullable? TypeDeclaration.ofNode?))
  let returnType ← r.optional? "return_type" TypeDeclaration.ofNode?
  let isStatic ← r.required? "is_static" Json.Node.bool?
  return ⟨className, name, parameters, returnType, isStatic⟩

end MethodDescriptor

namespace ImportTable

/-- An import table in JSON, the paths under their short names. -/
def toJson (t : ImportTable) : Json := .object (t.mapValues Json.string).entries

end ImportTable

namespace ClassDescriptor

/-- The names of the parts of a `ClassDescriptor`. -/
def fields : List String :=
  ["name", "namespace", "imports", "annotations", "properties", "virtual_methods", "features"]

/-- A descriptor in JSON, all its `fields` given in order. -/
def toJson (d : ClassDescriptor) : Json :=
  .object [("name", .string d.name), ("namespace", .string d.inNamespace),
    ("imports", ImportTable.toJson d.imports), ("annotations", d.annotations.toJson),
    ("properties", .object (d.properties.mapValues PropertyDescriptor.toJson).entries),
    ("virtual_methods", .object (d.methods.mapValues MethodDescriptor.toJson).entries),
    ("features", .object d.features.entries)]

/-- Reads a descriptor. The `name`, the `namespace` and the `imports` are required. -/
def ofNode? (node : Json.Node) : Option ClassDescriptor := do
  let r ← Json.Record.ofNode? fields node
  let name ← r.required? "name" Json.Node.string?
  let inNamespace ← r.required? "namespace" Json.Node.string?
  let imports ← r.required? "imports" (Json.Node.map? Json.Node.string?)
  let annotations ← r.defaulted? "annotations" [] Annotations.ofNode?
  let properties ← r.defaulted? "properties" ∅ (Json.Node.map? PropertyDescriptor.ofNode?)
  let methods ← r.defaulted? "virtual_methods" ∅ (Json.Node.map? MethodDescriptor.ofNode?)
  let features ← r.defaulted? "features" ∅ (Json.Node.map? Json.Node.json?)
  return ⟨name, inNamespace, imports, annotations, properties, methods, features⟩

/-- The descriptor that a text holds (`from_json`). -/
def ofText? (text : String) : Option ClassDescriptor := (Json.Node.ofText? text).bind ofNode?

/-- The text of a descriptor in one line, as `to_json` prints the record: that of its `toJson`. -/
def render (d : ClassDescriptor) : String := d.toJson.render

/-- The text of a descriptor in lines, as `to_json_pretty` prints the record: that of its
`toJson`. -/
def renderPretty (d : ClassDescriptor) : String := d.toJson.renderPretty

end ClassDescriptor

end DocTypes

import DocTypes.Annotation.Basic
import DocTypes.Json.Record

/-!
# Annotations in JSON

An annotation is an object with one member: the sort of the annotation, and its parts
(`Annotation.toJson`). Parts with a default may be left out when it is read (`Annotation.ofNode?`).
-/

namespace DocTypes

namespace ParameterAnnotation

/-- The names of the parts of a `ParameterAnnotation`. -/
def fields : List String := ["data_type", "has_default_value"]

/-- A parameter in JSON, all its `fields` given. -/
def toJson (p : ParameterAnnotation) : Json :=
  .object [("data_type", .ofOptionString p.type), ("has_default_value", .bool p.hasDefault)]

/-- Reads a parameter, both of whose `fields` have defaults. -/
def ofNode? (node : Json.Node) : Option ParameterAnnotation := do
  let r ← Json.Record.ofNode? fields node
  let type ← r.defaulted? "data_type" none (Json.Node.nullable? Json.Node.string?)
  let hasDefault ← r.defaulted? "has_default_value" false Json.Node.bool?
  return ⟨type, hasDefault⟩

end ParameterAnnotation

namespace MethodAnnotation

/-- The names of the parts of a `MethodAnnotation`. -/
def fields : List String := ["name", "parameters", "return_type", "is_static"]

/-- A virtual method in JSON, with its parameters as an object in order. -/
def toJson (m : MethodAnnotation) : Json :=
  .object [("name", .string m.name),
    ("parameters", .object (m.parameters.mapValues ParameterAnnotation.toJson).entries),
    ("return_type", .ofOptionString m.returnType), ("is_static", .bool m.isStatic)]

/-- Reads a virtual method. Only its `name` is required. -/
def ofNode? (node : Json.Node) : Option MethodAnnotation := do
  let r ← Json.Record.ofNode? fields node
  let name ← r.required? "name" Json.Node.string?
  let parameters ← r.defaulted? "parameters" ∅ (Json.Node.map? ParameterAnnotation.ofNode?)
  let returnType ← r.defaulted? "return_type" none (Json.Node.nullable? Json.Node.string?)
  let isStatic ← r.defaulted? "is_static" false Json.Node.bool?
  return ⟨name, parameters, returnType, isStatic⟩

end MethodAnnotation

namespace Annotation

/-- An annotation in JSON, under the name of its constructor. -/
def toJson : Annotation → Json
  | var type => .object [("var", .object [("data_type", .string type)])]
  | method m => .object [("method", m.toJson)]
  | tag name arguments =>
    .object [("tag", .object [("name", .string name), ("arguments", .string arguments)])]

/-- Reads an annotation: an object with exactly one member, `var`, `method` or `tag`. -/
def ofNode? : Json.Node → Option Annotation
  | .object [("var", parts)] => do
    let r ← Json.Record.ofNode? ["data_type"] parts
    return .var (← r.required? "data_type" Json.Node.string?)
  | .object [("method", parts)] => .method <$> MethodAnnotation.ofNode? parts
  | .object [("tag", parts)] => do
    let r ← Json.Record.ofNode? ["name", "arguments"] parts
    let name ← r.required? "name" Json.Node.string?
    return .tag name (← r.defaulted? "arguments" "" Json.Node.string?)
  | _ => none

end Annotation

namespace Annotations

/-- Annotations in JSON, as the array of each `Annotation.toJson`. -/
def toJson (a : Annotations) : Json := .array (a.map Annotation.toJson)

/-- Reads annotations, each by `Annotation.ofNode?`. -/
def ofNode? (node : Json.Node) : Option Annotations := node.list? Annotation.ofNode?

end Annotations

end DocTypes

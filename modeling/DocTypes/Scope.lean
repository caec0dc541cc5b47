import DocTypes.Import.Table
import DocTypes.Registry.Basic
import DocTypes.TypeExpr.Reader
import DocTypes.TypeTerm.Basic

/-!
# Resolution

Where a declaration is written settles what the names in it stand for (`Scope.resolve`). A qualified
name stands for itself. Any other class name is looked up among the `imports` as a whole; if it is
not there, it stands for the type of that name in the namespace of the scope, provided that the
`registry` knows this type, and else for itself (`Scope.resolveUnqualified`). Resolution never fails
because of an unknown name.
-/

namespace DocTypes

/-- Where a declaration is written: a class, its namespace and `imports`, and the known types. -/
structure Scope where
  className : String
  inNamespace : String
  imports : ImportTable
  registry : TypeRegistry

/-- The question for a class was put to a type that denotes none; `specification` is its text. -/
structure NotAnObject where
  specification : String
deriving DecidableEq, Repr

/-- The wording of the error as a `Diagnostic`, which quotes the `specification`. -/
def NotAnObject.diagnostic (e : NotAnObject) : Diagnostic where
  message := s!"Data type specification '{e.specification}' is not an object. " ++
    "(Interfaces and union types are not supported.)"
  code := "docmeta::resolve::not_an_object"
  help := some "Check `is_object_type` before asking for the class identifier"

/-- Whether a term denotes objects of a class, or arrays of them, as `is_object_type` tells. A
`classRef` does if its name is that of a class in the registry `r`. -/
def TypeTerm.isObjectType (r : TypeRegistry) : TypeTerm → Bool
  | selfRef => true
  | thisRef => true
  | classRef name => r.isClass name
  | arrayOf element => element.isObjectType r
  | primitive _ => false
  | unhandled _ => false

/-- Whether a declaration is a single term, by `singleTerm?`, that denotes objects of a class, or
arrays of them. -/
def TypeDeclaration.isObjectType (r : TypeRegistry) (d : TypeDeclaration) : Bool :=
  d.singleTerm?.any (·.isObjectType r)

namespace Scope

/-- The name `name` inside the namespace of the scope; in the empty namespace it is `name`
itself. -/
def nameInside (s : Scope) (name : String) : String :=
  if s.inNamespace = "" then name else s.inNamespace ++ "\\" ++ name

/-- The class that an unqualified `name` stands for, as `resolve_class_name` looks it up: the path
of an import, else the type `nameInside` the namespace if it is known, else the name as written. -/
def resolveUnqualified (s : Scope) (name : String) : String :=
  match s.imports.get? name with
  | some path => path
  | none => if s.registry.contains (s.nameInside name) then s.nameInside name else name

/-- What a name stands for. Only a class name that is not fully qualified depends on the scope, by
`resolveUnqualified`. -/
def resolveName (s : Scope) : TypeExpr.Name → TypeTerm
  | .primitive kind => .primitive kind
  | .self => .selfRef
  | .this => .thisRef
  | .unhandled word => .unhandled word
  | .className name true => .classRef name
  | .className name false => .classRef (s.resolveUnqualified name)

/-- What a member of a union stands for (`resolve_term`): what its name does by `resolveName`, or an
array of that. -/
def resolveTerm (s : Scope) (t : TypeExpr.Term) : TypeTerm :=
  if t.isArray then .arrayOf (s.resolveName t.name) else s.resolveName t.name

/-- What a type expression stands for (`resolve_syntax`), term by term and in the same order. -/
def resolveExpr (s : Scope) (e : TypeExpr) : TypeDeclaration :=
  ⟨e.terms.map s.resolveTerm, by simpa using e.terms_ne_nil⟩

/-- What the text `raw` of a declaration stands for, or the `ParseError` if `TypeExpr.parse` cannot
read it. -/
def resolve (s : Scope) (raw : String) : Except ParseError TypeDeclaration :=
  (TypeExpr.parse raw).map s.resolveExpr

/-- The class whose objects a term denotes (`class_identifier_of`). Both `self` and `$this` stand
for the class of the scope; the error quotes the text of the term. -/
def classOf (s : Scope) (t : TypeTerm) : Except NotAnObject String :=
  match t with
  | .selfRef => .ok s.className
  | .thisRef => .ok s.className
  | .classRef name => if s.registry.isClass name then .ok name else .error ⟨t.text⟩
  | _ => .error ⟨t.text⟩

/-- The class whose objects a declaration denotes (`class_identifier_of_declaration`): that of its
`singleTerm?`. A union denotes none, and the error quotes its whole text. -/
def classOfDeclaration (s : Scope) (d : TypeDeclaration) : Except NotAnObject String :=
  match d.singleTerm? with
  | some term => s.classOf term
  | none => .error ⟨d.text⟩

end Scope

end DocTypes

import DocTypes.ClassDeclaration.Basic
import DocTypes.Json.Basic
import DocTypes.Scope

/-!
# Class descriptors

The resolved metadata of one class, a `ClassDescriptor`: its namespace, its imports, the type of
every property and of every virtual method, and the features that analyzers have extracted. A
descriptor is also a place where declarations can be written: by its `scope` they are resolved like
those of the class itself.
-/

namespace DocTypes

/-- A property with its resolved type, `none` if it has no `var` annotation. -/
structure PropertyDescriptor where
  className : String
  name : String
  annotations : Annotations
  declaration : Option TypeDeclaration
deriving DecidableEq

/-- A virtual method with its resolved types (`VirtualMethodDescriptor`). A parameter without a type
is among the `parameters` as well. -/
structure MethodDescriptor where
  className : String
  name : String
  parameters : OrderedMap String (Option TypeDeclaration)
  returnType : Option TypeDeclaration
  isStatic : Bool
deriving DecidableEq

/-- The metadata of a class. What it says of the `properties` and `methods` is kept by name, in
order of declaration. -/
structure ClassDescriptor where
  name : String
  inNamespace : String
  imports : ImportTable
  annotations : Annotations
  properties : OrderedMap String PropertyDescriptor
  methods : OrderedMap String MethodDescriptor
  features : OrderedMap String Json
deriving BEq

namespace ClassDescriptor

/-- The scope of declarations in the class (`scope`), with the types of the registry `r`. -/
def scope (d : ClassDescriptor) (r : TypeRegistry) : Scope :=
  ⟨d.name, d.inNamespace, d.imports, r⟩

/-- What a declaration in the class stands for (`resolve`); without a text, nothing. -/
def resolve? (d : ClassDescriptor) (r : TypeRegistry) (raw : Option String) :
    Except ParseError (Option TypeDeclaration) :=
  match raw with
  | none => .ok none
  | some text => ((d.scope r).resolve text).map some

/-- Whether `raw` is a declaration of a single term that denotes objects, or arrays of them
(`is_object_type`). A text that cannot be read is none, and neither is a missing one. -/
def isObjectType (d : ClassDescriptor) (r : TypeRegistry) (raw : Option String) : Bool :=
  match d.resolve? r raw with
  | .ok (some declaration) => declaration.isObjectType r
  | _ => false

/-- The class whose objects the text `raw` denotes (`class_identifier_of`). Whatever the reason, a
failure is about the text: it is quoted as it is given. -/
def classOf (d : ClassDescriptor) (r : TypeRegistry) (raw : String) :
    Except NotAnObject String :=
  match (d.scope r).resolve raw with
  | .error _ => .error ⟨raw⟩
  | .ok declaration => ((d.scope r).classOfDeclaration declaration).mapError fun _ => ⟨raw⟩

end ClassDescriptor

end DocTypes

import DocTypes.Diagnostic

/-!
# Type definitions

What is known of a type: its name, whether it is a class or an interface, and the names of the types
that it extends or implements directly.
-/

namespace DocTypes

/-- Whether a type can have instances of its own, as a `class`, or not, as an `interface`. -/
inductive TypeKind
  | «class»
  | interface
deriving DecidableEq, Repr

/-- The word for a kind of type, as `kind` is written in a manifest. -/
def TypeKind.keyword : TypeKind → String
  | «class» => "class"
  | interface => "interface"

/-- The kind of type that `word` stands for: the one whose `keyword` it is. -/
def TypeKind.ofKeyword? (word : String) : Option TypeKind :=
  [«class», interface].find? (·.keyword == word)

/-- A type with its direct `parents`, those that it extends or implements. -/
structure TypeDefinition where
  name : String
  kind : TypeKind
  parents : List String := []
deriving DecidableEq, Repr

/-- Why types cannot be registered together: the three causes that `build` may report, in the order
in which it looks for them. -/
inductive RegistryError
  /-- Two types, or two class declarations, of one `name`. -/
  | duplicateType (name : String)
  /-- A `parent` of the type `name` that is not defined. -/
  | unknownParent (name parent : String)
  /-- A type `name` that is among its own ancestors. -/
  | inheritanceCycle (name : String)
deriving DecidableEq, Repr

/-- The wording of the error as a `Diagnostic`, with the `help` that `unknownParent` has. -/
def RegistryError.diagnostic : RegistryError → Diagnostic
  | duplicateType name =>
    { message := s!"Type {name} is registered more than once"
      code := "docmeta::registry::duplicate_type" }
  | unknownParent name parent =>
    { message := s!"Type {name} extends unknown type {parent}"
      code := "docmeta::registry::unknown_parent"
      help := some s!"Register {parent} before building the registry" }
  | inheritanceCycle name =>
    { message := s!"Inheritance cycle through type {name}"
      code := "docmeta::registry::inheritance_cycle" }

end DocTypes

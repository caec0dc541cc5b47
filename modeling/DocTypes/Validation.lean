import DocTypes.Descriptor.Basic
import DocTypes.ObjectContext

/-!
# Validation

A value is valid for a declaration if it matches one of its terms (`TypeTerm.holds`). Before any
term is tried, all of them are checked for being decidable at all (`TypeTerm.undecidable?`): a word
that no value can be checked against, or the receiver where there is none, is an error whatever the
value is. So the answer does not depend on the order of the union.

`ClassDescriptor.validateRaw` starts from the text of a declaration, and the checks of members from
what the descriptor has kept of them.
-/

namespace DocTypes

/-- Why a value cannot be checked. A value that is merely invalid is no error, but the answer
`false`. -/
inductive ValidationError
  /-- The declaration cannot be read; `cause` says why. -/
  | declaration (cause : ParseError)
  /-- A `word` that no value can be checked against. -/
  | unsupported (word : String)
  /-- The receiver is asked for where there is only the class `className`. -/
  | noReceiver (className : String)
  | unknownProperty (className property : String)
  | unknownMethod (className method : String)
  | unknownParameter (className method parameter : String)
deriving DecidableEq

/-- The wording of the error as a `Diagnostic`; for a text that cannot be read it is that of the
`ParseError`. -/
def ValidationError.diagnostic : ValidationError → Diagnostic
  | declaration cause => cause.diagnostic
  | unsupported word =>
    { message := s!"Data type declaration \"{word}\" not handled yet."
      code := "docmeta::validate::unsupported_declaration"
      help := some s!"`{word}` is recognised but values cannot be checked against it" }
  | noReceiver className =>
    { message := "Object context for $this is no object. Is it some static context?"
      code := "docmeta::validate::invalid_context"
      help := some s!"`$this` needs a live instance of {className} as object context" }
  | unknownProperty className property =>
    { message := s!"Class {className} has no property ${property}"
      code := "docmeta::validate::unknown_property" }
  | unknownMethod className method =>
    { message := s!"Class {className} declares no virtual method {method}()"
      code := "docmeta::validate::unknown_method" }
  | unknownParameter className method parameter =>
    { message := s!"Virtual method {className}::{method}() has no parameter ${parameter}"
      code := "docmeta::validate::unknown_parameter" }

/-- Whether a value is of a built-in kind, as `matches_primitive` tells. An integer counts as a
`float`, and `void` is the kind of the null value as well. -/
def PrimitiveKind.holds : PrimitiveKind → Value → Bool
  | .bool, .bool _ => true
  | .int, .int _ => true
  | .float, .float _ => true
  | .float, .int _ => true
  | .string, .string _ => true
  | .array, .array _ => true
  | .object, .object _ _ _ => true
  | .null, .null => true
  | .void, .null => true
  | .onlyTrue, .bool b => b
  | .onlyFalse, .bool b => !b
  | .mixed, _ => true
  | _, _ => false

namespace TypeTerm

/-- Why no value can be checked against a term in the context `c` (`check_decidable`). Under
`arrayOf` the element decides. -/
def undecidable? (c : ObjectContext) : TypeTerm → Option ValidationError
  | unhandled word => some (.unsupported word)
  | thisRef => if c.hasReceiver then none else some (.noReceiver c.className)
  | arrayOf element => element.undecidable? c
  | primitive _ => none
  | classRef _ => none
  | selfRef => none

/-- Whether a value is an instance of a class (`is_instance_of`): an object whose class is a subtype
of `className` in the registry `r`. -/
def isInstance (r : TypeRegistry) (className : String) : Value → Bool
  | .object _ name _ => r.isSubtype name className
  | _ => false

/-- Whether a value matches a term in the context `c` (`matches`). An unknown class has no
instances, also where `isInstance` would be true of its own name. Every item of an array has to
match the element. -/
def holds (r : TypeRegistry) (c : ObjectContext) : TypeTerm → Value → Bool
  | primitive kind, v => kind.holds v
  | classRef name, v => r.contains name && isInstance r name v
  | selfRef, v => isInstance r c.className v
  | thisRef, v => c.isReceiver v
  | arrayOf element, .array items => items.all fun item => element.holds r c item.2
  | arrayOf _, _ => false
  | unhandled _, _ => false

end TypeTerm

/-- Whether a value is valid for the declaration `d` (`validate_declaration`): the first term that
is `undecidable?` is reported, and without one any term that `holds` is enough. -/
def TypeDeclaration.validate (r : TypeRegistry) (c : ObjectContext) (d : TypeDeclaration)
    (v : Value) : Except ValidationError Bool :=
  match d.terms.findSome? (·.undecidable? c) with
  | some e => .error e
  | none => .ok (d.terms.any fun term => term.holds r c v)

namespace Validation

/-- Whether a value is valid where a declaration may be missing, as for a member without one; then
any value is. -/
def validate (r : TypeRegistry) (c : ObjectContext) (d : Option TypeDeclaration) (v : Value) :
    Except ValidationError Bool :=
  match d with
  | none => .ok true
  | some declaration => declaration.validate r c v

end Validation

namespace ClassDescriptor

open Validation

/-- Checks a value against the text `raw` of a declaration in the class (`validate`). The text is
resolved in the scope of the descriptor `d`. -/
def validateRaw (d : ClassDescriptor) (r : TypeRegistry) (c : ObjectContext) (raw : Option String)
    (v : Value) : Except ValidationError Bool :=
  match d.resolve? r raw with
  | .error cause => .error (.declaration cause)
  | .ok declaration => validate r c declaration v

/-- Checks a value against the type of a property that the descriptor has recorded
(`validate_property`). -/
def validateProperty (d : ClassDescriptor) (r : TypeRegistry) (c : ObjectContext)
    (property : String) (v : Value) : Except ValidationError Bool :=
  match d.properties.get? property with
  | none => .error (.unknownProperty d.name property)
  | some p => validate r c p.declaration v

/-- The virtual method `method` of the class, or the error that it declares none
(`virtual_method`). -/
def getMethod (d : ClassDescriptor) (method : String) : Except ValidationError MethodDescriptor :=
  match d.methods.get? method with
  | none => .error (.unknownMethod d.name method)
  | some m => .ok m

/-- Checks a value against the type of a parameter (`validate_parameter`), of a method found by
`getMethod`. -/
def validateParameter (d : ClassDescriptor) (r : TypeRegistry) (c : ObjectContext)
    (method parameter : String) (v : Value) : Except ValidationError Bool := do
  let m ← d.getMethod method
  match m.parameters.get? parameter with
  | none => .error (.unknownParameter d.name method parameter)
  | some declaration => validate r c declaration v

/-- Checks a value against the return type of a virtual method (`validate_return`). -/
def validateReturn (d : ClassDescriptor) (r : TypeRegistry) (c : ObjectContext) (method : String)
    (v : Value) : Except ValidationError Bool := do
  let m ← d.getMethod method
  validate r c m.returnType v

end ClassDescriptor

end DocTypes

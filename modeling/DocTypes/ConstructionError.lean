import DocTypes.ParseError

/-!
# Errors in class declarations

What can be wrong with the declaration of a class, so that its metadata cannot be built
(`ConstructionError`): an import, a property, a virtual method, or a feature analyzer that gives up.
-/

namespace DocTypes

/-- The part of a class that a declaration belongs to, as `resolve_member` is told. -/
inductive Member
  | property (name : String)
  | parameter (method name : String)
  | returnType (method : String)
deriving DecidableEq, Repr

/-- How a member is called in messages: `$` in front of variables, parentheses behind a method. -/
def Member.text : Member → String
  | property name => s!"${name}"
  | parameter method name => s!"{method}(${name})"
  | returnType method => s!"{method}()"

/-- Why the metadata of a class cannot be built. The order of the constructors is not that of the
search; `build_eq_error_iff_firstFault` gives this one. -/
inductive ConstructionError
  /-- An import `statement` that cannot be read; `cause` says why. -/
  | invalidImport (statement className : String) (cause : ParseError)
  /-- Two imports under one `shortName`, with their paths in order. -/
  | duplicateAlias (shortName className first second : String)
  /-- A property with several type annotations, `count` in all. -/
  | multipleTypes (className property : String) (count : Nat)
  /-- A `parameter` of a virtual method that has a default value. -/
  | defaultValue (className method parameter : String)
  /-- A virtual method that is declared again under the name `method`. -/
  | duplicateMethod (className method : String)
  /-- A `member` whose type cannot be read; `cause` says why. -/
  | invalidDeclaration (className : String) (member : Member) (cause : ParseError)
  /-- A feature `analyzer` that gives up with a `message`. -/
  | analyzerFailed (analyzer className message : String)
deriving DecidableEq, Repr

/-- The wording of the error as a `Diagnostic`. The `cause` of a text that cannot be read is not
repeated in it. -/
def ConstructionError.diagnostic : ConstructionError → Diagnostic
  | invalidImport statement className _ =>
    { message := s!"Invalid use statement '{statement}' in class {className}"
      code := "docmeta::construction::invalid_import_statement"
      help := some ("Use statements look like `Vendor\\Package\\Name` or " ++
        "`Vendor\\Package\\Name as Alias`") }
  | duplicateAlias shortName className first second =>
    { message := s!"Alias '{shortName}' is imported twice in class {className} " ++
        s!"('{first}' and '{second}')"
      code := "docmeta::construction::duplicate_import_alias"
      help := some "Give one of the imports a different alias with `as`" }
  | multipleTypes className property count =>
    { message := "Only one type annotation is allowed per property."
      code := "docmeta::construction::multiple_type_annotations"
      help := some s!"Property {className}::${property} has {count} `var` annotations; keep one" }
  | defaultValue className method parameter =>
    { message := "Currently, default values are not supported in virtual methods."
      code := "docmeta::construction::default_value_not_supported"
      help := some s!"Remove the default value of ${parameter} in {className}::{method}()" }
  | duplicateMethod className method =>
    { message := s!"Virtual method {className}::{method}() is declared more than once"
      code := "docmeta::construction::duplicate_virtual_method"
      help := some "Each `method` annotation must name a different method" }
  | invalidDeclaration className member _ =>
    { message := s!"Invalid data type declaration for {member.text} in class {className}"
      code := "docmeta::construction::invalid_declaration" }
  | analyzerFailed analyzer className message =>
    { message := s!"Feature analyzer '{analyzer}' failed for class {className}: {message}"
      code := "docmeta::construction::analyzer_failed" }

end DocTypes

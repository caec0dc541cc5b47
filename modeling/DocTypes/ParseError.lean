import DocTypes.Diagnostic
import DocTypes.Text.Span

/-!
# Errors in declarations and import statements

A text that is no declaration has a union member without a type (`emptyMember`), an array suffix
without an element type (`bareArraySuffix`), or a character where the grammar has no place for it
(`malformedDeclaration`). The first two are faults of a whole member and are marked by its range;
the third is marked at the place where reading had to stop. For an import statement there is only
the last kind, `malformedImport`.
-/

namespace DocTypes

/-- What the grammar would have accepted at the place where reading a declaration stopped.
`Grammar.triedFor` gives the rules that were tried there. -/
inductive Expectation
  /-- The name after a leading separator (`Grammar.namePath`). -/
  | typeName
  /-- A type, at the very start of the declaration, where the rule `declaration` as a whole has
  failed. -/
  | type
  /-- A type, or no further member: a `term` or the end of the text. -/
  | typeOrEnd
  /-- Anything that may follow a name: an `arraySuffix` or the end of the text. -/
  | suffixOrEnd
  /-- Only the end of the member, behind a term that is complete. -/
  | memberEnd
deriving DecidableEq, Repr

/-- The advice that names what was expected, in the words that `rule_to_user_friendly_description`
has for the rules (`Grammar.advice_triedFor`). -/
def Expectation.advice : Expectation → String
  | typeName => "Expected a type name"
  | type => "Expected a type"
  | typeOrEnd =>
    "Expected `|` or the end of the declaration or a type (like int, string[] or \\DateTime)"
  | suffixOrEnd => "Expected `|` or the end of the declaration or the array suffix `[]`"
  | memberEnd => "Expected `|` or the end of the declaration"

/-- Why a text is no type declaration, or no import statement. Each cause carries the text as its
`source`. -/
inductive ParseError
  /-- A union member without any type; `span` covers it with its padding. -/
  | emptyMember (source : String) (span : Span)
  /-- An array suffix at `span` with no element type in front of it. -/
  | bareArraySuffix (source : String) (span : Span)
  /-- A declaration that cannot be read on from the byte `position`, where `expected` would have
  been accepted. -/
  | malformedDeclaration (source : String) (position : Nat) (expected : Expectation)
  /-- An import statement that cannot be read on from the byte `position`. -/
  | malformedImport (source : String) (position : Nat)
deriving DecidableEq, Repr

namespace ParseError

/-- The text that could not be read, whatever the cause (`source_text`). -/
def source : ParseError → String
  | emptyMember source _ => source
  | bareArraySuffix source _ => source
  | malformedDeclaration source _ _ => source
  | malformedImport source _ => source

/-- Where in the text the fault is. A `position` where reading stopped counts as one byte. -/
def span : ParseError → Span
  | emptyMember _ span => span
  | bareArraySuffix _ span => span
  | malformedDeclaration _ position _ => ⟨position, position + 1⟩
  | malformedImport _ position => ⟨position, position + 1⟩

/-- A label with the remark `text` over the faulty part of the source, which is the `span` of
`e`. -/
def label (e : ParseError) (text : String) : Label := ⟨text, e.span.start, e.span.length⟩

/-- The wording of the error as a `Diagnostic`, with a `label` over the faulty part. -/
def diagnostic (e : ParseError) : Diagnostic :=
  match e with
  | emptyMember _ _ =>
    { message := "Illegal empty data type declaration \"\". Perhaps was \"\", " ++
        "or invalid union type like \"int|\"?"
      code := "docmeta::parse::empty_alternative"
      help := some "Every member of a union needs a type; remove the stray `|`"
      labels := [e.label "empty type"] }
  | bareArraySuffix _ _ =>
    { message := "Illegal array declaration \"[]\" without type."
      code := "docmeta::parse::array_without_element_type"
      help := some "Name the element type in front of the suffix, e.g. `int[]`"
      labels := [e.label "array of what?"] }
  | malformedDeclaration source _ expected =>
    { message := s!"Invalid data type declaration \"{source}\""
      code := "docmeta::parse::invalid_syntax"
      help := some expected.advice
      labels := [e.label "unexpected input"] }
  | malformedImport source _ =>
    { message := s!"Invalid import statement '{source}'"
      code := "docmeta::parse::invalid_import_statement"
      help := some "Use `Vendor\\Package\\Name` or `Vendor\\Package\\Name as Alias`"
      labels := [e.label "unexpected input"] }

end ParseError

end DocTypes

import DocTypes.TypeExpr.Basic

/-!
# Resolved types

A `TypeTerm` is what one member of a union stands for once every name in it has been settled: a
class is known by its full name, and an array by the term for its elements. A `TypeDeclaration` is a
union of such terms, at least one.
-/

namespace DocTypes

/-- What one member of a union stands for. An `arrayOf` an `arrayOf` is never the result of
`Scope.resolve` (`isFlat_of_resolve`), but the type has it. -/
inductive TypeTerm
  | primitive (kind : PrimitiveKind)
  | classRef (name : String)
  | selfRef
  | thisRef
  | arrayOf (element : TypeTerm)
  | unhandled (word : String)
deriving DecidableEq, Repr

namespace TypeTerm

/-- The text of a term, with full class names, as it is shown and as `resolve` prints it. -/
def text : TypeTerm → String
  | primitive kind => kind.keyword
  | classRef name => name
  | selfRef => "self"
  | thisRef => TypeExpr.thisMarker
  | arrayOf element => element.text ++ TypeExpr.arraySuffix
  | unhandled word => word

/-- The term that any value matches (`is_mixed`). -/
def isMixed (t : TypeTerm) : Bool := t == .primitive .mixed

end TypeTerm

/-- A union of `terms` in the order in which they were declared. There is at least one. -/
structure TypeDeclaration where
  terms : List TypeTerm
  terms_ne_nil : terms ≠ []
deriving DecidableEq

namespace TypeDeclaration

/-- The union of the given terms, unless there are none. That they are all flat is not asked for. -/
def ofTerms? (terms : List TypeTerm) : Option TypeDeclaration :=
  if h : terms = [] then none else some ⟨terms, h⟩

/-- The declaration of the single term `term`. -/
def single (term : TypeTerm) : TypeDeclaration := ⟨[term], by simp⟩

/-- Whether there is more than one term (`is_union`). -/
def isUnion (d : TypeDeclaration) : Bool := 1 < d.terms.length

/-- The term of a declaration that is no union (`single_term`). -/
def singleTerm? (d : TypeDeclaration) : Option TypeTerm :=
  match d.terms with
  | [term] => some term
  | _ => none

/-- The text of a declaration, with full class names and a bar between the texts of its `terms`. -/
def text (d : TypeDeclaration) : String := "|".intercalate (d.terms.map TypeTerm.text)

/-- A declaration has `term` as its single one if it is all that `d.terms` holds. -/
theorem singleTerm?_eq_some_iff {d : TypeDeclaration} {term : TypeTerm} :
    d.singleTerm? = some term ↔ d.terms = [term] := by
  unfold singleTerm?
  split <;> simp_all

/-- A declaration `isUnion` if and only if it has no `singleTerm?`, since it is never empty. -/
theorem isUnion_iff_singleTerm?_eq_none {d : TypeDeclaration} :
    d.isUnion = true ↔ d.singleTerm? = none := by
  obtain ⟨terms, h⟩ := d
  match terms with
  | [] => exact absurd rfl h
  | [t] => simp [isUnion, singleTerm?]
  | t :: u :: rest => simp [isUnion, singleTerm?]

end TypeDeclaration

end DocTypes

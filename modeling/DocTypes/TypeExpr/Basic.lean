import DocTypes.Keyword
import DocTypes.Text.Span

/-!
# Type expressions

A type expression is a declaration as its author wrote it: a union of terms, each a `Name` with or
without the `arraySuffix`. Names are told apart by how they are written only. What class a name
stands for depends on where the declaration is written and is settled by `Scope.resolve`.
-/

namespace DocTypes.TypeExpr

/-- What a term names, as written; `classify` sorts the words of the grammar in this way. -/
inductive Name
  /-- A built-in `kind`. -/
  | primitive (kind : PrimitiveKind)
  /-- The class that the declaration is written in. -/
  | self
  /-- The very object that the declaration is about. -/
  | this
  /-- A word of `Keyword.unhandledWords`, which is recognised but that no value can be checked
  against. -/
  | unhandled (word : String)
  /-- A class or interface; `qualified` if it was written with a leading separator, which is not
  part of `name`. -/
  | className (name : String) (qualified : Bool)
deriving DecidableEq, Repr

/-- The marker for the object itself, the `this_marker` of the grammar. -/
def thisMarker : String := "$this"

/-- The mark after the element type of an array, the `array_suffix` of the grammar. -/
def arraySuffix : String := "[]"

namespace Name

/-- What an unqualified word names (`classify`): what it is reserved for by `Keyword.ofWord?`, else
a class. -/
def ofWord (word : String) : Name :=
  match Keyword.ofWord? word with
  | some (.primitive kind) => .primitive kind
  | some .self => .self
  | some .unhandled => .unhandled word
  | none => .className word false

/-- The text of a name, with the separator in front if it is `qualified`. -/
def text : Name → String
  | primitive kind => kind.keyword
  | self => "self"
  | this => thisMarker
  | unhandled word => word
  | className name true => "\\" ++ name
  | className name false => name

/-- What a word names has this word as its `text`, so `ofWord` forgets nothing. -/
theorem text_ofWord (word : String) : (ofWord word).text = word := by
  unfold ofWord Keyword.ofWord?
  cases h : PrimitiveKind.ofKeyword? word with
  | some kind => exact PrimitiveKind.keyword_of_ofKeyword? h
  -- A kind is found under its own keyword only. Of the other words `self` has a name of its own,
  -- and the rest is kept as it is.
  | none =>
    dsimp only
    split
    · next heq => split at heq <;> simp_all
    · next heq => split at heq <;> simp_all [text]
    · rfl
    · rfl

end Name

/-- One member of a union: a name, whether the array suffix follows it, and where it stands in the
`source`. -/
structure Term where
  name : Name
  isArray : Bool
  span : Span
deriving DecidableEq, Repr

/-- The text of a term: that of its name, and the `arraySuffix` if `isArray`. -/
def Term.text (t : Term) : String := if t.isArray then t.name.text ++ arraySuffix else t.name.text

end TypeExpr

/-- A declaration as written: its text `source` and the members of the union in order. There is at
least one. -/
structure TypeExpr where
  source : String
  terms : List TypeExpr.Term
  terms_ne_nil : terms ≠ []
deriving DecidableEq

/-- Whether a declaration has more than one member (`is_union`). -/
def TypeExpr.isUnion (e : TypeExpr) : Bool := 1 < e.terms.length

end DocTypes

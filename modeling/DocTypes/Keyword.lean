/-!
# Reserved words of the declaration language

Words that do not name a class: the primitive kinds (`PrimitiveKind`), `self`, and words that are
recognised although no value can be checked against them (`unhandledWords`). They are reserved as
written, in lower case and without a leading backslash; `classify` looks a word up among them before
it takes it for a class name. `PrimitiveKind.ofKeyword?_keyword` says that each kind is found again
under its own word.
-/

namespace DocTypes

/-- The built-in kinds that `matches_primitive` can check a value against. -/
inductive PrimitiveKind
  | bool
  | int
  | float
  | string
  | array
  | object
  | null
  | onlyTrue
  | onlyFalse
  | void
  | mixed
deriving DecidableEq, Repr

namespace PrimitiveKind

/-- All kinds, in the order of the constructors of `PrimitiveKind`. -/
def all : List PrimitiveKind :=
  [bool, int, float, string, array, object, null, onlyTrue, onlyFalse, void, mixed]

/-- The word for a kind, as it stands in a declaration (`keyword`). -/
def keyword : PrimitiveKind → String
  | bool => "bool"
  | int => "int"
  | float => "float"
  | string => "string"
  | array => "array"
  | object => "object"
  | null => "null"
  | onlyTrue => "true"
  | onlyFalse => "false"
  | void => "void"
  | mixed => "mixed"

/-- The kind that `word` stands for: the one whose `keyword` it is. -/
def ofKeyword? (word : String) : Option PrimitiveKind := all.find? (·.keyword == word)

/-- A kind is found by `ofKeyword?` under its own `keyword`. -/
theorem ofKeyword?_keyword (kind : PrimitiveKind) : ofKeyword? kind.keyword = some kind := by
  cases kind <;> decide

/-- What `ofKeyword?` finds for `word` is the kind with this `keyword`. -/
theorem keyword_of_ofKeyword? {word : String} {kind : PrimitiveKind}
    (h : ofKeyword? word = some kind) : kind.keyword = word := by
  simpa using List.find?_some h

end PrimitiveKind

/-- What a reserved word means in a declaration: one of the kinds, the class itself, or nothing that
a value could be checked against (`unhandled`). -/
inductive Keyword
  | primitive (kind : PrimitiveKind)
  | self
  | unhandled
deriving DecidableEq, Repr

namespace Keyword

/-- The word for a closed resource, the only one that holds a space and so the only one that is no
`identifier`. -/
def closedResource : String := "resource (closed)"

/-- The words that `parse_declaration` recognises but that no value can be checked against. -/
def unhandledWords : List String :=
  ["callable", "callback", "iterable", "number", "numeric", "static", "resource", closedResource]

/-- What `word` is reserved for, if it is reserved: a kind by `PrimitiveKind.ofKeyword?`, else
`self`, else one of the `unhandledWords`. -/
def ofWord? (word : String) : Option Keyword :=
  match PrimitiveKind.ofKeyword? word with
  | some kind => some (.primitive kind)
  | none =>
    if word = "self" then some .self
    else if word ∈ unhandledWords then some .unhandled
    else none

end Keyword

end DocTypes

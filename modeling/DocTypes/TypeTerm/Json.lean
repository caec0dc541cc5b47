import DocTypes.Json.Record
import DocTypes.TypeTerm.Basic

/-!
# Resolved types in JSON

A term is an object with the kind of the term and, where the kind has one, its value
(`TypeTerm.toJson`); a declaration is the array of its terms, at least one. Reading also accepts a
term as the array of kind and value (`TypeTerm.ofNode?`).

A value that stands in front of its kind is read ahead, before it is known what it should be. All of
it has to be readable then. In return it may name things in two more ways: an empty object may stand
for no content, and the array form may give the number of a kind for its word. The flag `readAhead`
carries this down to the parts.
-/

namespace DocTypes

namespace TypeTerm

/-- The member that names the `Kind` of a term. -/
def kindField : String := "kind"

/-- The member that holds the value of a term, for the kinds that have one. -/
def valueField : String := "value"

/-- The kinds of terms, one for each constructor of `TypeTerm`. -/
inductive Kind
  | primitive
  | classRef
  | selfRef
  | thisRef
  | arrayOf
  | unhandled
deriving DecidableEq, Repr

namespace Kind

/-- All kinds. The number of a kind is its place among them (`ofItem?`). -/
def all : List Kind := [primitive, classRef, selfRef, thisRef, arrayOf, unhandled]

/-- The word for a kind, under `kindField`. -/
def keyword : Kind → String
  | primitive => "primitive"
  | classRef => "class_ref"
  | selfRef => "self_ref"
  | thisRef => "this_ref"
  | arrayOf => "array_of"
  | unhandled => "unhandled"

/-- The kind that `word` stands for: the one whose `keyword` it is. -/
def ofKeyword? (word : String) : Option Kind := all.find? (·.keyword == word)

/-- A kind is found by `ofKeyword?` under its own `keyword`. -/
theorem ofKeyword?_keyword (kind : Kind) : ofKeyword? kind.keyword = some kind := by
  cases kind <;> decide

/-- The kind that a member of an object names: a keyword without content, by
`Json.Node.keyword?`. -/
def ofMember? (readAhead : Bool) (node : Json.Node) : Option Kind :=
  (node.keyword? readAhead).bind ofKeyword?

/-- The kind that an item of an array names: a word or, if it has been read ahead (`readAhead`), a
number. -/
def ofItem? (readAhead : Bool) : Json.Node → Option Kind
  | .string word => ofKeyword? word
  | .number (.int n) => if readAhead && 0 ≤ n then all[n.toNat]? else none
  | _ => none

end Kind

/-- A term in JSON: its `kindField` and, where there is one, its `valueField`. -/
def toJson : TypeTerm → Json
  | primitive kind => tagged .primitive (.string kind.keyword)
  | classRef name => tagged .classRef (.string name)
  | selfRef => .object [(kindField, .string Kind.selfRef.keyword)]
  | thisRef => .object [(kindField, .string Kind.thisRef.keyword)]
  | arrayOf element => tagged .arrayOf element.toJson
  | unhandled word => tagged .unhandled (.string word)
where
  tagged (kind : Kind) (value : Json) : Json :=
    .object [(kindField, .string kind.keyword), (valueField, value)]

/-- The term of the given `kind`. `readAhead` says that its value has been read ahead, and `element`
is the value read as a term. -/
def ofKind? (kind : Kind) (value : Option Json.Node) (readAhead : Bool)
    (element : Unit → Option TypeTerm) : Option TypeTerm :=
  match kind with
  | .primitive => do
    let word ← (← value).keyword? readAhead
    return .primitive (← PrimitiveKind.ofKeyword? word)
  | .classRef => do return .classRef (← (← value).string?)
  | .selfRef => if value.all (·.isUnit false) then some .selfRef else none
  | .thisRef => if value.all (·.isUnit false) then some .thisRef else none
  | .arrayOf => (element ()).map .arrayOf
  | .unhandled => do return .unhandled (← (← value).string?)

/-- Whether `valueField` stands in front of `kindField` among the members. -/
def valueIsFirst : List (String × Json.Node) → Bool
  | [] => false
  | (key, _) :: rest =>
    if key = kindField then false else if key = valueField then true else valueIsFirst rest

mutual

/-- Reads a term. `readAhead` says that it lies in a value that has been read ahead. Neither of the
two fields may be repeated. -/
def ofNode? : Json.Node → Bool → Option TypeTerm
  | .object members, readAhead => do
    if Json.Record.hasRepeated [kindField, valueField] members then none
    else
      let value := members.lookup valueField
      let first := valueIsFirst members
      let kind ← Kind.ofMember? readAhead (← members.lookup kindField)
      if first && !readAhead && (value.bind Json.Node.json?).isNone then none
      else ofKind? kind value (readAhead || first) fun _ => elementOf? members (readAhead || first)
  | .array [kind, value], readAhead => do
    ofKind? (← Kind.ofItem? readAhead kind) (some value) readAhead fun _ => ofNode? value readAhead
  | _, _ => none

/-- The `valueField` among the members of a term, read as a term by `ofNode?`. -/
def elementOf? : List (String × Json.Node) → Bool → Option TypeTerm
  | [], _ => none
  | (key, value) :: rest, readAhead =>
    if key = valueField then ofNode? value readAhead else elementOf? rest readAhead

end

end TypeTerm

namespace TypeDeclaration

/-- A declaration in JSON: the array of its `terms`. -/
def toJson (d : TypeDeclaration) : Json := .array (d.terms.map TypeTerm.toJson)

/-- Reads a declaration. The array must not be empty (`ofTerms?`), and that is all that is asked of
its terms. -/
def ofNode? (node : Json.Node) : Option TypeDeclaration :=
  (node.list? fun term => TypeTerm.ofNode? term false).bind ofTerms?

/-- A declaration that may be missing, in JSON: `toJson` of it, or `null`. -/
def optionToJson (d : Option TypeDeclaration) : Json := d.elim .null toJson

end TypeDeclaration

end DocTypes

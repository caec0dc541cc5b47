import DocTypes.Json.Node

/-!
# Reading data from JSON trees

How the types of the library are read. A `Record` is an object with the names of its fields, where
fields that nobody knows are skipped, or the array of its fields in order. A field without a default
has to be there (`required?`); one that may be empty is read from `null` and may be left out of an
object, but not of an array (`optional?`). Maps read the members of an object in order, a repeated
key keeping its first place and its last value. A keyword is its text, or an object that maps it to
nothing.
-/

namespace DocTypes.Json

namespace Node

/-- A text, if the node is a `string`. -/
def string? : Node → Option String
  | .string s => some s
  | _ => none

/-- A truth value, if the node is a `bool`. -/
def bool? : Node → Option Bool
  | .bool b => some b
  | _ => none

/-- Nothing for `null`, else what `read` finds. -/
def nullable? {α : Type} (read : Node → Option α) : Node → Option (Option α)
  | .null => some none
  | node => (read node).map some

/-- The items of an array, each as `read` finds it. One that it does not find makes the list
fail. -/
def list? {α : Type} (read : Node → Option α) : Node → Option (List α)
  | .array items => items.mapM read
  | _ => none

/-- The members of an object, each value as `read` finds it, by `OrderedMap.ofList`. -/
def map? {α : Type} (read : Node → Option α) : Node → Option (OrderedMap String α)
  | .object members =>
    (members.mapM fun e => (read e.2).map fun v => (e.1, v)).map OrderedMap.ofList
  | _ => none

/-- Whether a tree may stand for no content. Where the content has been read ahead of the keyword
(`readAhead`), an empty object may as well. -/
def isUnit (readAhead : Bool) : Node → Bool
  | .null => true
  | .object [] => readAhead
  | _ => false

/-- A keyword without content: its text, or an object with it as the only key and a content that
`isUnit`. -/
def keyword? (readAhead : Bool) : Node → Option String
  | .string s => some s
  | .object [(key, content)] => if isUnit readAhead content then some key else none
  | _ => none

end Node

/-- The fields of a record that are present. `named` tells an object from an array. -/
structure Record where
  fields : List (String × Node)
  named : Bool

namespace Record

/-- Whether a known field, one of the `names`, is given twice among the members. -/
def hasRepeated (names : List String) (members : List (String × Node)) : Bool :=
  names.any fun name => 1 < (members.filter (·.1 == name)).length

/-- The record with the given fields that a tree holds. An array gives the first of the `names` to
its items. -/
def ofNode? (names : List String) : Node → Option Record
  | .object members => if hasRepeated names members then none else some ⟨members, true⟩
  | .array items => if items.length ≤ names.length then some ⟨names.zip items, false⟩ else none
  | _ => none

/-- The field `name`, which has to be there. -/
def required? {α : Type} (r : Record) (name : String) (read : Node → Option α) : Option α :=
  (r.fields.lookup name).bind read

/-- The field `name`, or the `default` if it is left out. If it is there, it has to be readable. -/
def defaulted? {α : Type} (r : Record) (name : String) (default : α) (read : Node → Option α) :
    Option α :=
  match r.fields.lookup name with
  | some node => read node
  | none => some default

/-- The field `name`, which may be empty. It may be left out if the record is `named`. -/
def optional? {α : Type} (r : Record) (name : String) (read : Node → Option α) :
    Option (Option α) :=
  match r.fields.lookup name with
  | some node => node.nullable? read
  | none => if r.named then some none else none

end Record

end DocTypes.Json

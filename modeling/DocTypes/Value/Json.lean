import DocTypes.Json.Basic
import DocTypes.Value.Basic

/-!
# Values from JSON

`ofJson` makes a value of a JSON value. A JSON array becomes an array with keys from 0 on. A JSON
object becomes an array with text keys; if it has a text under `@class`, it becomes a new instance
of that class with its other members as properties (`classOf?`). Identities are counted through, so
every instance of one value has its own.
-/

namespace DocTypes.Value

/-- The member that makes an object an instance, provided that it is a text. -/
def classKey : String := "@class"

/-- Whether the integer `n` fits 64 bits with a sign. -/
def fitsInt64 (n : Int) : Bool := -9223372036854775808 ≤ n && n ≤ 9223372036854775807

/-- The value of a number: an integer if it fits by `fitsInt64`, else a double. -/
def ofNumber : JsonNumber → Value
  | .int n => if fitsInt64 n then .int n else .float (Float.ofInt n)
  | .float x => .float x

/-- The class that an object with these `members` is an instance of. -/
def classOf? (members : List (String × Json)) : Option String :=
  match members.lookup classKey with
  | some (.string name) => some name
  | _ => none

mutual

/-- The value of a JSON value, with identities from `next` on, and the first one that is left. An
object takes one for itself, before those of its members, also if it turns out to be an array. -/
def ofJson : Json → (next : Nat) → Value × Nat
  | .null, next => (.null, next)
  | .bool b, next => (.bool b, next)
  | .number n, next => (ofNumber n, next)
  | .string s, next => (.string s, next)
  | .array items, next =>
    let (values, next) := ofItems items next
    (.list values, next)
  | .object members, next =>
    let (values, left) := ofMembers members (next + 1)
    match classOf? members with
    | some name => (.object next name (values.filter (·.1 != classKey)), left)
    | none => (.array (values.map fun e => (.name e.1, e.2)), left)

/-- The values of items, each by `ofJson` and with the identities that those before it have left. -/
def ofItems : List Json → Nat → List Value × Nat
  | [], next => ([], next)
  | item :: rest, next =>
    let (v, next) := ofJson item next
    let (vs, next) := ofItems rest next
    (v :: vs, next)

/-- The values of members, under their keys, likewise. -/
def ofMembers : List (String × Json) → Nat → List (String × Value) × Nat
  | [], next => ([], next)
  | (key, member) :: rest, next =>
    let (v, next) := ofJson member next
    let (vs, next) := ofMembers rest next
    ((key, v) :: vs, next)

end

end DocTypes.Value

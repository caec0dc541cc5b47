/-!
# JSON values

A `Json` value as the library holds it. A number is kept as an integer where it was one and fits 64
bits, signed or unsigned; any other number is a double. The members of an object keep their order,
and a value that was read has no key twice in one object (`Json.Node.json?`).
-/

namespace DocTypes

/-- A number of a JSON text: an `int` where it was one, else the double that is its value. -/
inductive JsonNumber
  | int (n : Int)
  | float (x : Float)

/-- A JSON value. Nothing keeps the keys of an `object` apart; what was read has distinct ones. -/
inductive Json
  | null
  | bool (b : Bool)
  | number (n : JsonNumber)
  | string (s : String)
  | array (items : List Json)
  | object (members : List (String × Json))

instance : Inhabited Json := ⟨.null⟩

/-- Equal integers, or equal doubles. An `int` equals no `float`. -/
def JsonNumber.beq : JsonNumber → JsonNumber → Bool
  | int m, int n => m == n
  | float x, float y => x == y
  | _, _ => false

instance : BEq JsonNumber := ⟨JsonNumber.beq⟩

mutual

/-- Equal as values, `members` of objects in the same order. -/
def Json.beq : Json → Json → Bool
  | .null, .null => true
  | .bool a, .bool b => a == b
  | .number m, .number n => m == n
  | .string s, .string t => s == t
  | .array xs, .array ys => Json.beqItems xs ys
  | .object ms, .object ns => Json.beqMembers ms ns
  | _, _ => false

/-- Equal item by item, by `Json.beq`. -/
def Json.beqItems : List Json → List Json → Bool
  | [], [] => true
  | x :: xs, y :: ys => Json.beq x y && Json.beqItems xs ys
  | _, _ => false

/-- Equal member by member, keys and values. -/
def Json.beqMembers : List (String × Json) → List (String × Json) → Bool
  | [], [] => true
  | (k, x) :: ms, (l, y) :: ns => k == l && Json.beq x y && Json.beqMembers ms ns
  | _, _ => false

end

instance : BEq Json := ⟨Json.beq⟩

namespace Json

/-- The integer `n` in JSON. -/
def ofInt (n : Int) : Json := .number (.int n)

/-- A text in JSON, or `null` for none. -/
def ofOptionString (s : Option String) : Json := s.elim .null .string

end Json

end DocTypes

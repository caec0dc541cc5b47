import DocTypes.Text.Quoted

/-!
# Runtime values

The values that declarations are checked against: scalars, arrays with integer or text keys in
order, and instances of classes. An instance has an identity, and whether two values are the same
instance is a question of identity alone (`Value.sameInstance?`). Equality looks at the content
(`Value.equal`): arrays and instances are equal if they hold equal values under the same keys, in
whatever order, and a number that is not a number equals nothing.
-/

namespace DocTypes

/-- A key of an array, a number or a name. -/
inductive ArrayKey
  | index (i : Int)
  | name (s : String)
deriving DecidableEq, Repr

/-- The text of a key: the number, or the name in quotes by `Quoted.quote`. -/
def ArrayKey.text : ArrayKey → String
  | index i => toString i
  | name s => Quoted.quote s

/-- A value. Integers fit 64 bits with a sign; an `object` has its identity besides its class and
properties. -/
inductive Value
  | null
  | bool (b : Bool)
  | int (n : Int)
  | float (x : Float)
  | string (s : String)
  | array (items : List (ArrayKey × Value))
  | object (identity : Nat) (className : String) (properties : List (String × Value))

instance : Inhabited Value := ⟨.null⟩

/-- The kinds of values, one for each constructor of `Value`. -/
inductive ValueKind
  | bool
  | int
  | float
  | string
  | array
  | object
  | null
deriving DecidableEq, Repr

/-- The word for a kind of values, as it is shown. -/
def ValueKind.text : ValueKind → String
  | bool => "bool"
  | int => "int"
  | float => "float"
  | string => "string"
  | array => "array"
  | object => "object"
  | null => "null"

namespace Value

/-- The kind of a value (`kind`). -/
def kind : Value → ValueKind
  | null => .null
  | bool _ => .bool
  | int _ => .int
  | float _ => .float
  | string _ => .string
  | array _ => .array
  | object _ _ _ => .object

/-- Values under the keys from `start` on, in order. -/
def numbered (start : Nat) : List Value → List (ArrayKey × Value)
  | [] => []
  | v :: rest => (.index start, v) :: numbered (start + 1) rest

/-- The array of the given values, with keys from 0 on (`numbered`). -/
def list (items : List Value) : Value := .array (numbered 0 items)

/-- Whether two values are one and the same instance (`same_instance`); no answer if one of them is
no instance. -/
def sameInstance? : Value → Value → Option Bool
  | object i _ _, object j _ _ => some (i == j)
  | _, _ => none

mutual

/-- Equal by content. The identity of an `object` does not count. -/
def equal : Value → Value → Bool
  | null, null => true
  | bool a, bool b => a == b
  | int m, int n => m == n
  | float x, float y => x == y
  | string s, string t => s == t
  | array xs, array ys => xs.length == ys.length && itemsEqual xs ys
  | object _ c ps, object _ d qs => c == d && ps.length == qs.length && propertiesEqual ps qs
  | _, _ => false

/-- Whether every item has an `equal` one under its key among the others. -/
def itemsEqual : List (ArrayKey × Value) → List (ArrayKey × Value) → Bool
  | [], _ => true
  | (key, v) :: rest, ys =>
    (match ys.lookup key with
    | some w => equal v w
    | none => false) && itemsEqual rest ys

/-- Whether every property has an `equal` one of its name among the others. -/
def propertiesEqual : List (String × Value) → List (String × Value) → Bool
  | [], _ => true
  | (name, v) :: rest, qs =>
    (match qs.lookup name with
    | some w => equal v w
    | none => false) && propertiesEqual rest qs

end

end Value

end DocTypes

import DocTypes.Json.Token
import DocTypes.OrderedMap

/-!
# JSON texts as trees

A `Node` is a JSON text as a tree, before anybody has asked for a part of it. Parts that follow the
grammar but cannot be read as values are kept as `unusable`: a number or a string without a value,
an object with such a key, and a container nested too deep. They do no harm where they are skipped.

The tree is built by an automaton that takes one token at a time (`Reading.step`). Its stack holds
the containers that are open, so nothing is recursive but the data, and the depth of a container is
the length of the stack.
-/

namespace DocTypes.Json

/-- A JSON text as a tree. An object may have a key several times, and `unusable` stands for any
part without a value. -/
inductive Node
  | null
  | bool (b : Bool)
  | number (n : JsonNumber)
  | string (s : String)
  | array (items : List Node)
  | object (members : List (String × Node))
  | unusable

/-- How many containers may be nested in each other, the one at the top included. -/
def depthLimit : Nat := 127

/-- An open container that waits for a value, with what it holds already, latest first. A key
without a value is `none`. -/
inductive Frame
  | item (done : List Node)
  | member (done : List (Option String × Node)) (key : Option String)

/-- What the automaton has to see next. The innermost container is first in the `stack`. -/
inductive Reading
  /-- A value, inside the containers of `stack`. -/
  | value (stack : List Frame)
  /-- A value, or the end of the array just opened in front of `stack`. -/
  | firstItem (stack : List Frame)
  /-- A key, or the end of the object just opened in front of `stack`. -/
  | firstKey (stack : List Frame)
  /-- A key, after a comma; the members `done` are complete. -/
  | key (done : List (Option String × Node)) (stack : List Frame)
  /-- The colon after the `key` of a member. -/
  | colon (done : List (Option String × Node)) (key : Option String) (stack : List Frame)
  /-- What may follow the complete value `node`. -/
  | after (node : Node) (stack : List Frame)

namespace Node

/-- An array that is closed inside the containers of `stack`, unless there are too many
(`depthLimit`). -/
def closeArray (items : List Node) (stack : List Frame) : Node :=
  if stack.length < depthLimit then .array items else .unusable

/-- An object that is closed inside the containers of `stack`, if all its keys have values. -/
def closeObject (members : List (Option String × Node)) (stack : List Frame) : Node :=
  match members.mapM fun (key, node) => key.map fun k => (k, node) with
  | some named => if stack.length < depthLimit then .object named else .unusable
  | none => .unusable

end Node

namespace Reading

/-- Takes the first token of a value inside the containers of `stack`. A bracket opens one more. -/
def startValue (stack : List Frame) : Token → Option Reading
  | .null => some (.after .null stack)
  | .bool b => some (.after (.bool b) stack)
  | .number content => some (.after (content.elim .unusable .number) stack)
  | .string content => some (.after (content.elim .unusable .string) stack)
  | .openArray => some (.firstItem stack)
  | .openObject => some (.firstKey stack)
  | _ => none

/-- Takes what follows the complete value `node` inside the containers of a stack. The innermost one
goes on or is closed. -/
def afterValue (node : Node) : List Frame → Token → Option Reading
  | .item done :: stack, .comma => some (.value (.item (node :: done) :: stack))
  | .item done :: stack, .closeArray =>
    some (.after (Node.closeArray (node :: done).reverse stack) stack)
  | .member done name :: stack, .comma => some (.key ((name, node) :: done) stack)
  | .member done name :: stack, .closeObject =>
    some (.after (Node.closeObject ((name, node) :: done).reverse stack) stack)
  | _, _ => none

/-- Takes one token, if it may stand there: the transitions of `Reading`. -/
def step : Reading → Token → Option Reading
  | .value stack, token => startValue stack token
  | .firstItem stack, .closeArray => some (.after (Node.closeArray [] stack) stack)
  | .firstItem stack, token => startValue (.item [] :: stack) token
  | .firstKey stack, .closeObject => some (.after (Node.closeObject [] stack) stack)
  | .firstKey stack, .string name => some (.colon [] name stack)
  | .firstKey _, _ => none
  | .key done stack, .string name => some (.colon done name stack)
  | .key _ _, _ => none
  | .colon done name stack, .colon => some (.value (.member done name :: stack))
  | .colon _ _ _, _ => none
  | .after node stack, token => afterValue node stack token

end Reading

namespace Node

/-- The tree of a sequence of tokens, if it is one complete value, with no container open. -/
def ofTokens? (tokens : List Token) : Option Node :=
  match tokens.foldlM Reading.step (.value []) with
  | some (.after node []) => some node
  | _ => none

/-- The tree of a text: that of its `tokens?`. -/
def ofText? (text : String) : Option Node := (tokens? text.toList).bind ofTokens?

mutual

/-- The value of a tree, if every part of it has one. A key that is repeated in an object keeps its
first place and its last value (`OrderedMap.ofList`). -/
def json? : Node → Option Json
  | .null => some .null
  | .bool b => some (.bool b)
  | .number n => some (.number n)
  | .string s => some (.string s)
  | .array items => (jsonItems? items).map .array
  | .object members => (jsonMembers? members).map fun ms => .object (OrderedMap.ofList ms).entries
  | .unusable => none

/-- The values of items, each by `json?`. -/
def jsonItems? : List Node → Option (List Json)
  | [] => some []
  | node :: rest => do return (← json? node) :: (← jsonItems? rest)

/-- The values of members, each by `json?`, with repeated keys as they are. -/
def jsonMembers? : List (String × Node) → Option (List (String × Json))
  | [] => some []
  | (key, node) :: rest => do return (key, ← json? node) :: (← jsonMembers? rest)

end

end Node

/-- The value of a JSON text, that of its tree by `Node.json?`. -/
def parse? (text : String) : Option Json := (Node.ofText? text).bind Node.json?

end DocTypes.Json

import DocTypes.Decimal.Shortest
import DocTypes.Json.Token

/-!
# Writing JSON

The text of a JSON value, either in one line without blanks (`Json.render`) or with one item or
member a line, two blanks of indentation for each level and a blank after each colon
(`Json.renderPretty`). Strings escape the quote, the backslash and control characters and nothing
else. Doubles are written with the fewest digits that read back (`Decimal.shortest`).
-/

namespace DocTypes

/-- Doubles are written in positional notation if their first digit stands for a power of ten from
`10^-5` to `10^15`. -/
def JsonNumber.layout : Decimal.Layout := ⟨-5, 15⟩

/-- The text of the integer `n`, in base ten. -/
def JsonNumber.renderInt (n : Int) : List Char :=
  if n < 0 then '-' :: Nat.toDigits 10 n.natAbs else Nat.toDigits 10 n.natAbs

/-- The text of a number. A double that is no number (`Float.isFinite` fails) has none and is
written as `null`. -/
def JsonNumber.render : JsonNumber → List Char
  | int n => renderInt n
  | float x =>
    if x.isFinite then
      let digits := Decimal.render layout (Decimal.shortest x.toBits)
      if x.toBits < 0x8000000000000000 then digits else '-' :: digits
    else "null".toList

namespace Json

/-- A digit of a hexadecimal number, for `n` below 16. -/
def hexDigit (n : Nat) : Char := Nat.digitChar n

/-- How the character `c` is written inside a string. -/
def escape (c : Char) : List Char :=
  if c = '"' then ['\\', '"']
  else if c = '\\' then ['\\', '\\']
  else if c = '\n' then ['\\', 'n']
  else if c = '\r' then ['\\', 'r']
  else if c = '\t' then ['\\', 't']
  else if c = '\x08' then ['\\', 'b']
  else if c = '\x0c' then ['\\', 'f']
  else if c.toNat < 32 then
    ['\\', 'u', '0', '0', hexDigit (c.toNat / 16), hexDigit (c.toNat % 16)]
  else [c]

/-- The text of a string, with its quotes and every character by `escape`. -/
def renderString (s : String) : List Char := '"' :: s.toList.flatMap escape ++ ['"']

/-- How the parts of a container are set off from each other, by blanks only, so that a `Formatter`
never changes what is read. -/
structure Formatter where
  /-- What stands in front of an item, a member or a closing bracket at a level of nesting. -/
  lineBreak : Nat → List Char
  /-- What stands between the colon of a member and its value. -/
  afterColon : List Char
  isBlank_of_mem_lineBreak : ∀ level, ∀ c ∈ lineBreak level, isBlank c = true
  isBlank_of_mem_afterColon : ∀ c ∈ afterColon, isBlank c = true

namespace Formatter

/-- Everything in one line: no `lineBreak` and nothing `afterColon`. -/
def compact : Formatter where
  lineBreak _ := []
  afterColon := []
  isBlank_of_mem_lineBreak := by simp
  isBlank_of_mem_afterColon := by simp

/-- One item or member a line, indented by its `level`. -/
def pretty : Formatter where
  lineBreak level := '\n' :: List.replicate (2 * level) ' '
  afterColon := [' ']
  isBlank_of_mem_lineBreak level c hc := by
    rcases List.mem_cons.1 hc with rfl | hc
    · rfl
    · rw [List.eq_of_mem_replicate hc]
      rfl
  isBlank_of_mem_afterColon c hc := by
    rw [List.mem_singleton.1 hc]
    rfl

end Formatter

mutual

/-- The text of a value that stands at the `level` of nesting, with the blanks of `f`. -/
def write (f : Formatter) (level : Nat) : Json → List Char
  | .null => "null".toList
  | .bool true => "true".toList
  | .bool false => "false".toList
  | .number n => n.render
  | .string s => renderString s
  | .array [] => ['[', ']']
  | .array (item :: rest) =>
    '[' :: f.lineBreak (level + 1) ++ write f (level + 1) item ++ writeItems f level rest ++
      f.lineBreak level ++ [']']
  | .object [] => ['\x7b', '\x7d']
  | .object ((key, value) :: rest) =>
    '\x7b' :: f.lineBreak (level + 1) ++ renderString key ++ ':' :: f.afterColon ++
      write f (level + 1) value ++ writeMembers f level rest ++ f.lineBreak level ++ ['\x7d']

/-- The text of the further items of an array at `level`, each behind a comma. -/
def writeItems (f : Formatter) (level : Nat) : List Json → List Char
  | [] => []
  | item :: rest =>
    ',' :: f.lineBreak (level + 1) ++ write f (level + 1) item ++ writeItems f level rest

/-- The text of the further members of an object at `level`, each behind a comma. -/
def writeMembers (f : Formatter) (level : Nat) : List (String × Json) → List Char
  | [] => []
  | (key, value) :: rest =>
    ',' :: f.lineBreak (level + 1) ++ renderString key ++ ':' :: f.afterColon ++
      write f (level + 1) value ++ writeMembers f level rest

end

/-- The text of a value in one line, by `Formatter.compact`. -/
def render (j : Json) : String := String.ofList (write .compact 0 j)

/-- The text of a value in lines, by `Formatter.pretty`. -/
def renderPretty (j : Json) : String := String.ofList (write .pretty 0 j)

end Json

end DocTypes

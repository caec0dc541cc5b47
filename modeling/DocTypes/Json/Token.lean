import DocTypes.Decimal.Numeral
import DocTypes.Json.Basic
import DocTypes.Text.Lexeme

/-!
# The tokens of a JSON text

Cutting a JSON text into punctuation, words, numbers and strings (`tokens?`). A text that follows
the grammar may still hold a number that no double can stand for, or a string with half of a
surrogate pair. Such a token has no value, and it depends on who reads it whether that is a fault:
what is skipped need not have one.

Each scanner has a lemma beside it that says how much it takes. `length_lt_of_scanToken?` is the
last of them, and the reason why `tokens?` ends.
-/

namespace DocTypes.Json

/-- A token of a JSON text. A `number` or a `string` may have no value. -/
inductive Token
  | openObject
  | closeObject
  | openArray
  | closeArray
  | comma
  | colon
  | null
  | bool (b : Bool)
  | number (value : Option JsonNumber)
  | string (value : Option String)

/-- The number that the numeral `n` stands for. Whole numerals are integers if they fit 64 bits,
with or without a sign; a minus sign in front of zero needs a double. -/
def numberOf? (n : Numeral) : Option JsonNumber :=
  let magnitude := Numeral.spelled 0 n.whole
  if n.isWhole && !n.negative && magnitude < UInt64.size then some (.int magnitude)
  else if n.isWhole && n.negative && 0 < magnitude && magnitude ≤ 9223372036854775808 then
    some (.int (-magnitude))
  else n.toFloat?.map .float

/-- The digits in front of `cs`, and the rest; none if there is no digit. -/
def scanDigits? (cs : List Char) : Option (List Nat × List Char) :=
  match cs.takeWhile Char.isDigit with
  | [] => none
  | digits => some (digits.map fun c => c.toNat - 48, cs.dropWhile Char.isDigit)

/-- The fraction that may follow the whole part of a number: a point and `scanDigits?`, or
nothing. -/
def scanFraction? : List Char → Option (Option (List Nat) × List Char)
  | '.' :: rest => (scanDigits? rest).map fun (digits, left) => (some digits, left)
  | cs => some (none, cs)

/-- The power of ten that may end a number: a letter, perhaps a sign, and `scanDigits?`, or
nothing. -/
def scanExponent? : List Char → Option (Option Int × List Char)
  | [] => some (none, [])
  | c :: rest =>
    if c == 'e' || c == 'E' then
      let (negative, digits) := match rest with
        | '-' :: digits => (true, digits)
        | '+' :: digits => (false, digits)
        | _ => (false, rest)
      (scanDigits? digits).map fun (digits, left) =>
        let e : Int := Numeral.spelled 0 digits
        (some (if negative then -e else e), left)
    else some (none, c :: rest)

/-- The number in front of `cs`, and the rest. The whole part has no leading zeros. -/
def scanNumber? (cs : List Char) : Option (Numeral × List Char) := do
  let (negative, cs) := match cs with
    | '-' :: rest => (true, rest)
    | _ => (false, cs)
  let (whole, cs) ← scanDigits? cs
  if whole.length ≠ 1 && whole.head? == some 0 then none
  else
    let (fraction, cs) ← scanFraction? cs
    let (exponent, cs) ← scanExponent? cs
    return (⟨negative, whole, fraction, exponent⟩, cs)

/-- A part of a string literal: a character, or a `unit` of 16 bits written in hexadecimal. -/
inductive StringPart
  | char (c : Char)
  | unit (u : Nat)
deriving DecidableEq, Repr

/-- The value of the hexadecimal digit `c`, in either case. -/
def hexDigit? (c : Char) : Option Nat :=
  if c.isDigit then some (c.toNat - 48)
  else if 'a' ≤ c && c ≤ 'f' then some (c.toNat - 87)
  else if 'A' ≤ c && c ≤ 'F' then some (c.toNat - 55)
  else none

/-- The unit that four hexadecimal digits spell, by `hexDigit?`. -/
def hexUnit? (a b c d : Char) : Option Nat := do
  return (((← hexDigit? a) * 16 + (← hexDigit? b)) * 16 + (← hexDigit? c)) * 16 + (← hexDigit? d)

/-- The character that a letter stands for after a backslash, other than `u`. -/
def escaped? : Char → Option Char
  | '"' => some '"'
  | '\\' => some '\\'
  | '/' => some '/'
  | 'b' => some '\x08'
  | 'f' => some '\x0c'
  | 'n' => some '\n'
  | 'r' => some '\r'
  | 't' => some '\t'
  | _ => none

/-- The parts of a string literal whose opening quote has been read, and what follows its closing
quote. Control characters, those below 32, have to be written as escapes. -/
def scanString? : List Char → Option (List StringPart × List Char)
  | [] => none
  | '"' :: rest => some ([], rest)
  | '\\' :: 'u' :: a :: b :: c :: d :: rest => do
    let unit ← hexUnit? a b c d
    let (parts, left) ← scanString? rest
    return (.unit unit :: parts, left)
  | '\\' :: c :: rest => do
    let char ← escaped? c
    let (parts, left) ← scanString? rest
    return (.char char :: parts, left)
  | c :: rest =>
    if c.toNat < 32 then none
    else do
      let (parts, left) ← scanString? rest
      return (.char c :: parts, left)

/-- A unit `u` that only the second half of a pair may be. -/
def isLowSurrogate (u : Nat) : Bool := 0xDC00 ≤ u && u ≤ 0xDFFF

/-- A unit `u` that only the first half of a pair may be. -/
def isHighSurrogate (u : Nat) : Bool := 0xD800 ≤ u && u ≤ 0xDBFF

/-- The text of a string literal. Two units that form a surrogate pair are one character; half of a
pair by itself (`isHighSurrogate`, `isLowSurrogate`) is none. -/
def textOf? : List StringPart → Option (List Char)
  | [] => some []
  | .char c :: rest => (textOf? rest).map (c :: ·)
  | [.unit u] => if isHighSurrogate u || isLowSurrogate u then none else some [Char.ofNat u]
  | .unit u :: .unit v :: rest =>
    if isHighSurrogate u then
      if isLowSurrogate v then
        (textOf? rest).map (Char.ofNat (0x10000 + (u - 0xD800) * 0x400 + (v - 0xDC00)) :: ·)
      else none
    else if isLowSurrogate u then none
    else (textOf? (.unit v :: rest)).map (Char.ofNat u :: ·)
  | .unit u :: .char c :: rest =>
    if isHighSurrogate u || isLowSurrogate u then none
    else (textOf? (.char c :: rest)).map (Char.ofNat u :: ·)

/-- The words of the language, with the tokens that they are. -/
def words : List (String × Token) :=
  [("null", .null), ("true", .bool true), ("false", .bool false)]

/-- The token that the text `cs` starts with, and the rest. It may have no value (`textOf?`,
`numberOf?`). -/
def scanToken? (cs : List Char) : Option (Token × List Char) :=
  match cs with
  | [] => none
  | c :: rest =>
    match c with
    | '\x7b' => some (.openObject, rest)
    | '\x7d' => some (.closeObject, rest)
    | '[' => some (.openArray, rest)
    | ']' => some (.closeArray, rest)
    | ',' => some (.comma, rest)
    | ':' => some (.colon, rest)
    | '"' => (scanString? rest).map fun (parts, left) =>
      (.string ((textOf? parts).map String.ofList), left)
    | _ =>
      match words.findSome? fun (word, token) =>
          (Lexeme.afterWord? word cs).map fun left => (token, left) with
      | some found => some found
      | none => (scanNumber? cs).map fun (n, left) => (.number (numberOf? n), left)

/-- Blanks between tokens; `Json.Formatter` uses no others. -/
def isBlank (c : Char) : Bool := c == ' ' || c == '\t' || c == '\n' || c == '\r'

/-- What `scanDigits?` finds is at least one digit. -/
theorem length_lt_of_scanDigits? {cs left : List Char} {digits : List Nat}
    (h : scanDigits? cs = some (digits, left)) : left.length < cs.length := by
  unfold scanDigits? at h
  split at h
  · simp at h
  · next hd =>
    simp only [Option.some.injEq, Prod.mk.injEq] at h
    have := congrArg List.length (List.takeWhile_append_dropWhile (p := Char.isDigit) (l := cs))
    have : 0 < (cs.takeWhile Char.isDigit).length := List.length_pos_iff.2 hd
    rw [← h.2]
    simp only [List.length_append] at *
    omega

/-- What `scanFraction?` leaves is no longer than `cs`. -/
theorem length_le_of_scanFraction? {cs left : List Char} {digits : Option (List Nat)}
    (h : scanFraction? cs = some (digits, left)) : left.length ≤ cs.length := by
  unfold scanFraction? at h
  split at h
  · obtain ⟨⟨ds, l⟩, hd, he⟩ := Option.map_eq_some_iff.1 h
    have := length_lt_of_scanDigits? hd
    simp only [Prod.mk.injEq] at he
    rw [← he.2]
    simp only [List.length_cons]
    omega
  · simp_all

/-- What `scanExponent?` leaves is no longer than `cs`. -/
theorem length_le_of_scanExponent? {cs left : List Char} {e : Option Int}
    (h : scanExponent? cs = some (e, left)) : left.length ≤ cs.length := by
  unfold scanExponent? at h
  split at h
  · simp_all
  · next c rest =>
    split at h
    · dsimp only at h
      obtain ⟨⟨ds, l⟩, hd, he⟩ := Option.map_eq_some_iff.1 h
      have := length_lt_of_scanDigits? hd
      simp only [Prod.mk.injEq] at he
      rw [← he.2]
      split at this <;> simp only [List.length_cons] at * <;> omega
    · simp_all

/-- What `scanNumber?` finds takes a character, since `scanDigits?` does. -/
theorem length_lt_of_scanNumber? {cs left : List Char} {n : Numeral}
    (h : scanNumber? cs = some (n, left)) : left.length < cs.length := by
  simp only [scanNumber?, Option.bind_eq_bind, Option.bind_eq_some_iff, Prod.exists,
    Option.pure_def] at h
  obtain ⟨whole, l₁, h₁, h⟩ := h
  split at h
  · simp at h
  · simp only [Option.bind_eq_some_iff, Prod.exists, Option.some.injEq, Prod.mk.injEq] at h
    obtain ⟨fraction, l₂, h₂, exponent, l₃, h₃, h⟩ := h
    -- The whole part takes at least one digit, and nothing behind it gives any back.
    have := length_lt_of_scanDigits? h₁
    have := length_le_of_scanFraction? h₂
    have := length_le_of_scanExponent? h₃
    rw [← h.2]
    split at * <;> simp only [List.length_cons] at * <;> omega

/-- What `scanString?` finds takes a character, the closing quote at least. -/
theorem length_lt_of_scanString? {cs left : List Char} {parts : List StringPart}
    (h : scanString? cs = some (parts, left)) : left.length < cs.length := by
  fun_induction scanString? cs generalizing parts with
  | case1 => simp at h
  | case2 rest => simp_all
  -- One case for each clause that goes on: a unit, an escape, and a character as it is.
  | case3 a b c d rest ih =>
    simp only [Option.bind_eq_bind, Option.bind_eq_some_iff, Prod.exists, Option.pure_def,
      Option.some.injEq, Prod.mk.injEq] at h
    obtain ⟨_, _, inner, l, hl, _, rfl⟩ := h
    have := ih hl
    simp only [List.length_cons]
    omega
  | case4 c rest _ ih =>
    simp only [Option.bind_eq_bind, Option.bind_eq_some_iff, Prod.exists, Option.pure_def,
      Option.some.injEq, Prod.mk.injEq] at h
    obtain ⟨_, _, inner, l, hl, _, rfl⟩ := h
    have := ih hl
    simp only [List.length_cons]
    omega
  | case5 => simp at h
  | case6 c rest _ _ _ _ ih =>
    simp only [Option.bind_eq_bind, Option.bind_eq_some_iff, Prod.exists, Option.pure_def,
      Option.some.injEq, Prod.mk.injEq] at h
    obtain ⟨inner, l, hl, _, rfl⟩ := h
    have := ih hl
    simp only [List.length_cons]
    omega

/-- Each of the `words` takes a character. -/
theorem length_lt_of_words {cs left : List Char} {token : Token}
    (h : (words.findSome? fun (word, token) =>
      (Lexeme.afterWord? word cs).map fun left => (token, left)) = some (token, left)) :
    left.length < cs.length := by
  obtain ⟨⟨word, t⟩, hw, h⟩ := List.exists_of_findSome?_eq_some h
  obtain ⟨l, hl, he⟩ := Option.map_eq_some_iff.1 h
  have happ := Lexeme.afterWord?_eq_some_iff.1 hl
  simp only [Prod.mk.injEq] at he
  have : 0 < word.toList.length := by
    simp only [words, List.mem_cons, Prod.mk.injEq, List.not_mem_nil, or_false] at hw
    rcases hw with ⟨rfl, _⟩ | ⟨rfl, _⟩ | ⟨rfl, _⟩ <;> decide
  rw [happ, ← he.2, List.length_append]
  omega

/-- Every token that `scanToken?` finds takes at least one character. -/
theorem length_lt_of_scanToken? {cs left : List Char} {token : Token}
    (h : scanToken? cs = some (token, left)) : left.length < cs.length := by
  unfold scanToken? at h
  split at h
  · simp at h
  · split at h
    -- A mark takes one character by itself. What is left are strings, words and numbers.
    case h_7 =>
      obtain ⟨⟨parts, l⟩, hp, he⟩ := Option.map_eq_some_iff.1 h
      have := length_lt_of_scanString? hp
      simp_all
      omega
    case h_8 =>
      split at h
      · next found hf =>
        simp only [Option.some.injEq] at h
        subst h
        exact length_lt_of_words hf
      · obtain ⟨⟨n, l⟩, hn, he⟩ := Option.map_eq_some_iff.1 h
        have := length_lt_of_scanNumber? hn
        simp_all
    all_goals simp_all

/-- The tokens of a text, if all of it can be cut into tokens by `scanToken?`. -/
def tokens? : List Char → Option (List Token)
  | [] => some []
  | c :: rest =>
    if isBlank c then tokens? rest
    else
      match _h : scanToken? (c :: rest) with
      | none => none
      | some (token, left) => (tokens? left).map (token :: ·)
termination_by cs => cs.length
decreasing_by
  · simp
  · exact length_lt_of_scanToken? _h

end DocTypes.Json

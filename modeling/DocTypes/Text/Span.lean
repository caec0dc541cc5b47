/-!
# Byte ranges

Places in a text are counted in bytes of its UTF-8 form. A `Span` is a range of such places, and
`byteLength` measures a list of characters, so that the place of a part of a text is known from what
stands in front of it. `byteLength_toList` says that this is the `utf8ByteSize` of the text.
-/

namespace DocTypes

/-- The range of bytes from `start` up to, and without, `stop`. -/
structure Span where
  start : Nat
  stop : Nat
deriving DecidableEq, Repr, Inhabited

namespace Span

/-- How many bytes a span covers, as `len` counts them: none if `stop` is in front of `start`. -/
def length (s : Span) : Nat := s.stop - s.start

/-- A span that covers no byte (`is_empty`). -/
def isEmpty (s : Span) : Bool := s.length == 0

/-- A span is empty if `stop` is not behind `start`. -/
theorem isEmpty_iff (s : Span) : s.isEmpty = true ↔ s.stop ≤ s.start := by
  simp [isEmpty, length, Nat.sub_eq_zero_iff_le]

end Span

/-- The number of bytes that the characters take in UTF-8, each of them its `utf8Size`. -/
def byteLength : List Char → Nat
  | [] => 0
  | c :: cs => c.utf8Size + byteLength cs

/-- No characters take no bytes. -/
@[simp]
theorem byteLength_nil : byteLength [] = 0 := rfl

/-- The first character `c` takes its `utf8Size`. -/
@[simp]
theorem byteLength_cons (c : Char) (cs : List Char) :
    byteLength (c :: cs) = c.utf8Size + byteLength cs := rfl

/-- The bytes of `cs` and of `ds` add up. -/
@[simp]
theorem byteLength_append (cs ds : List Char) :
    byteLength (cs ++ ds) = byteLength cs + byteLength ds := by
  induction cs with
  | nil => simp
  | cons c cs ih => simp [ih, Nat.add_assoc]

/-- Only the empty text has `byteLength` zero, since every character takes a byte
(`Char.utf8Size_pos`). -/
theorem byteLength_eq_zero_iff {cs : List Char} : byteLength cs = 0 ↔ cs = [] := by
  cases cs with
  | nil => simp
  | cons c cs =>
    have := Char.utf8Size_pos c
    simp
    omega

/-- What `byteLength` counts is the `utf8ByteSize` of the string of the characters. -/
theorem byteLength_eq_utf8ByteSize (cs : List Char) :
    byteLength cs = (String.ofList cs).utf8ByteSize := by
  induction cs with
  | nil => simp
  | cons c cs ih => simp [String.ofList_cons, ih]

/-- The bytes of a text `s` are those of its characters, `s.toList`. -/
theorem byteLength_toList (s : String) : byteLength s.toList = s.utf8ByteSize := by
  rw [byteLength_eq_utf8ByteSize, String.ofList_toList]

end DocTypes

/-!
# Identifiers, name paths and padding

The words that type declarations and import statements are made of. An identifier starts with an
ASCII letter, an underscore or any character beyond ASCII, and goes on with those or ASCII digits
(`isIdentifierStart_iff`, `isIdentifierContinue_iff`). A name path is identifiers joined by single
backslashes. Both are read greedily from the front of a text: `identifier?` and `path?` return what
they took and what is left, and take nothing else (`eq_append_of_identifier?`,
`eq_append_of_path?`).
-/

namespace DocTypes.Lexeme

/-- The character between the segments of a `name_path`. -/
def separator : Char := '\\'

/-- Blanks that may stand around a term or between the words of an import (`padding`);
`isPadding_iff` spells them out. -/
def isPadding (c : Char) : Bool := c == ' ' || c == '\t'

/-- Characters that an identifier may start with (`identifier_start`); `isIdentifierStart_iff`
spells them out. -/
def isIdentifierStart (c : Char) : Bool := c.isAlpha || c == '_' || 128 ≤ c.toNat

/-- Characters that an identifier may go on with (`identifier_continue`); `isIdentifierContinue_iff`
spells them out. -/
def isIdentifierContinue (c : Char) : Bool := c.isAlphanum || c == '_' || 128 ≤ c.toNat

/-- The text `cs` without the padding in front of it. -/
def skipPadding (cs : List Char) : List Char := cs.dropWhile isPadding

/-- The text `cs` without a separator in front of it. -/
def dropSeparator (cs : List Char) : List Char :=
  match cs with
  | '\\' :: rest => rest
  | _ => cs

/-- What follows the given characters at the front of the text, if they all stand there. -/
def afterChars? : List Char → List Char → Option (List Char)
  | [], cs => some cs
  | _ :: _, [] => none
  | w :: ws, c :: cs => if w = c then afterChars? ws cs else none

/-- What follows the fixed `word` at the front of the text, if it stands there. -/
def afterWord? (word : String) (cs : List Char) : Option (List Char) :=
  afterChars? word.toList cs

/-- The longest identifier that the text starts with, and the rest (`identifier`). -/
def identifier? : List Char → Option (List Char × List Char)
  | [] => none
  | c :: rest =>
    if isIdentifierStart c then
      some (c :: rest.takeWhile isIdentifierContinue, rest.dropWhile isIdentifierContinue)
    else none

/-- What may still belong to a name path after its first character, and the rest. A `separator`
belongs to it only if an identifier follows. -/
def pathTail : List Char → List Char × List Char
  | [] => ([], [])
  | [c] => if isIdentifierContinue c then ([c], []) else ([], [c])
  | c :: d :: rest =>
    if isIdentifierContinue c || (c == separator && isIdentifierStart d) then
      let (taken, left) := pathTail (d :: rest)
      (c :: taken, left)
    else ([], c :: d :: rest)

/-- The longest name path that the text starts with, and the rest (`name_path`). -/
def path? : List Char → Option (List Char × List Char)
  | [] => none
  | c :: rest =>
    if isIdentifierStart c then
      let (taken, left) := pathTail rest
      some (c :: taken, left)
    else none

/-- The segment of the name path `path` after its last `separator`; the whole path if it has
none. -/
def lastSegment (path : String) : String :=
  String.ofList (path.toList.reverse.takeWhile (· != separator)).reverse

/-- The namespace of a class (`namespace_of`): what stands in front of the last `separator` of its
name. -/
def namespaceOf (className : String) : String :=
  String.ofList ((className.toList.reverse.dropWhile (· != separator)).drop 1).reverse

/-- `isPadding` holds of spaces and tabs. -/
theorem isPadding_iff {c : Char} : isPadding c = true ↔ c = ' ' ∨ c = '\t' := by
  simp [isPadding]

/-- `isIdentifierStart` holds of ASCII letters, of the underscore and of any character beyond
ASCII. -/
theorem isIdentifierStart_iff {c : Char} : isIdentifierStart c = true ↔
    'A' ≤ c ∧ c ≤ 'Z' ∨ 'a' ≤ c ∧ c ≤ 'z' ∨ c = '_' ∨ 128 ≤ c.toNat := by
  have halpha : c.isAlpha = true ↔ c.isUpper = true ∨ c.isLower = true := by
    rw [← Bool.or_eq_true]
    rfl
  have hupper : c.isUpper = true ↔ 'A' ≤ c ∧ c ≤ 'Z' := decide_eq_true_iff
  have hlower : c.isLower = true ↔ 'a' ≤ c ∧ c ≤ 'z' :=
    Bool.and_eq_true_iff.trans (and_congr decide_eq_true_iff decide_eq_true_iff)
  rw [isIdentifierStart, Bool.or_eq_true, Bool.or_eq_true, halpha, hupper, hlower, beq_iff_eq,
    decide_eq_true_eq, or_assoc, or_assoc]

/-- `isIdentifierContinue` holds where `isIdentifierStart` does, and of ASCII digits. -/
theorem isIdentifierContinue_iff {c : Char} : isIdentifierContinue c = true ↔
    isIdentifierStart c = true ∨ '0' ≤ c ∧ c ≤ '9' := by
  have hdigit : c.isDigit = true ↔ '0' ≤ c ∧ c ≤ '9' :=
    Bool.and_eq_true_iff.trans (and_congr decide_eq_true_iff decide_eq_true_iff)
  simp only [isIdentifierContinue, isIdentifierStart, Char.isAlphanum, Bool.or_eq_true, hdigit]
  constructor
  · rintro (((ha | hd) | hu) | hn)
    · exact .inl (.inl (.inl ha))
    · exact .inr hd
    · exact .inl (.inl (.inr hu))
    · exact .inl (.inr hn)
  · rintro (((ha | hu) | hn) | hd)
    · exact .inl (.inl (.inl ha))
    · exact .inl (.inr hu)
    · exact .inr hn
    · exact .inl (.inl (.inr hd))

/-- What `skipPadding` leaves is an end of the text. -/
theorem skipPadding_suffix (cs : List Char) : skipPadding cs <:+ cs := List.dropWhile_suffix _

/-- What `dropSeparator` leaves is an end of the text. -/
theorem dropSeparator_suffix (cs : List Char) : dropSeparator cs <:+ cs := by
  unfold dropSeparator
  split
  · next rest => exact List.suffix_cons _ rest
  · exact List.suffix_rfl

/-- The characters `ws` are found exactly where the text starts with them. -/
theorem afterChars?_eq_some_iff {ws cs left : List Char} :
    afterChars? ws cs = some left ↔ cs = ws ++ left := by
  fun_induction afterChars? ws cs <;> simp_all [eq_comm]

/-- A `word` is found by `afterWord?` exactly where the text starts with it. -/
theorem afterWord?_eq_some_iff {word : String} {cs left : List Char} :
    afterWord? word cs = some left ↔ cs = word.toList ++ left :=
  afterChars?_eq_some_iff

/-- What `afterWord?` leaves is an end of the text. -/
theorem suffix_of_afterWord? {word : String} {cs left : List Char}
    (h : afterWord? word cs = some left) : left <:+ cs :=
  ⟨word.toList, (afterWord?_eq_some_iff.1 h).symm⟩

/-- What `identifier?` took and what it left are the text. -/
theorem eq_append_of_identifier? {cs taken left : List Char}
    (h : identifier? cs = some (taken, left)) : cs = taken ++ left := by
  cases cs with
  | nil => simp [identifier?] at h
  | cons c rest =>
    simp only [identifier?] at h
    split at h
    · simp only [Option.some.injEq, Prod.mk.injEq] at h
      obtain ⟨rfl, rfl⟩ := h
      simp [List.takeWhile_append_dropWhile]
    · simp at h

/-- What `pathTail` took and what it left are the text. -/
theorem pathTail_append (cs : List Char) : (pathTail cs).1 ++ (pathTail cs).2 = cs := by
  fun_induction pathTail cs <;> simp_all

/-- What `path?` took and what it left are the text. -/
theorem eq_append_of_path? {cs taken left : List Char} (h : path? cs = some (taken, left)) :
    cs = taken ++ left := by
  cases cs with
  | nil => simp [path?] at h
  | cons c rest =>
    simp only [path?] at h
    split at h
    · simp only [Option.some.injEq, Prod.mk.injEq] at h
      obtain ⟨rfl, rfl⟩ := h
      simp [pathTail_append]
    · simp at h

end DocTypes.Lexeme

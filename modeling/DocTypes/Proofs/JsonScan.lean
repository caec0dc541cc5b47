import DocTypes.Json.Printer
import Mathlib.Data.List.Basic

/-!
# Scanning what was written

A number, a string or a word that was written is scanned again by `scanToken?` as the token that it
was written for, whatever text follows (`scanToken?_renderInt`, `scanToken?_renderString`). A number
is the one kind of token that does not end by itself; what follows it must not continue it
(`Delimited`), and neither punctuation nor a blank does.
-/

namespace DocTypes

/-- A number that is read as it is written: `int` of an integer that fits 64 bits, with or without a
sign. -/
def JsonNumber.IsExact : JsonNumber → Prop
  | int n => -9223372036854775808 ≤ n ∧ n < 18446744073709551616
  | float _ => False

namespace Json

/-! ### Integers -/

/-- The text `rest` does not continue a number in front of it. -/
def Delimited (rest : List Char) : Prop :=
  ∀ c ∈ rest.head?, c.isDigit = false ∧ c ≠ '.' ∧ c ≠ 'e' ∧ c ≠ 'E'

/-- The end of the text continues no number, by `Delimited`. -/
theorem delimited_nil : Delimited [] := by
  simp [Delimited]

/-- Whether a text is `Delimited` is seen from its first character. -/
theorem delimited_cons {c : Char} {rest : List Char}
    (hc : c.isDigit = false ∧ c ≠ '.' ∧ c ≠ 'e' ∧ c ≠ 'E') : Delimited (c :: rest) := by
  intro d hd
  rw [List.head?_cons, Option.mem_some_iff] at hd
  rwa [← hd]

/-- Blanks by `isBlank` continue no number. -/
theorem Delimited.blanks_append {blanks rest : List Char} (hr : Delimited rest)
    (hb : ∀ c ∈ blanks, isBlank c = true) : Delimited (blanks ++ rest) := by
  cases blanks with
  | nil => exact hr
  | cons c blanks =>
    have hc := hb c List.mem_cons_self
    simp only [isBlank, Bool.or_eq_true, beq_iff_eq] at hc
    apply delimited_cons
    rcases hc with ((rfl | rfl) | rfl) | rfl <;> decide

/-- The digits in front of a text that is `Delimited` are all that `scanDigits?` takes. -/
theorem scanDigits?_append {digits rest : List Char} (hd : ∀ c ∈ digits, c.isDigit = true)
    (hne : digits ≠ []) (hr : Delimited rest) :
    scanDigits? (digits ++ rest) = some (digits.map fun c => c.toNat - 48, rest) := by
  have hstop : rest.takeWhile Char.isDigit = [] ∧ rest.dropWhile Char.isDigit = rest := by
    cases rest with
    | nil => simp
    | cons c rest => simp [(hr c (by simp)).1]
  unfold scanDigits?
  rw [List.takeWhile_append_of_pos hd, List.dropWhile_append_of_pos hd, hstop.1, hstop.2,
    List.append_nil]
  cases digits with
  | nil => exact absurd rfl hne
  | cons d digits => rfl

/-- The digits that `Nat.toDigits` gives for a positive number do not start with a zero. -/
theorem head?_toDigits_ne_zero {n : Nat} (hn : 0 < n) : (Nat.toDigits 10 n).head? ≠ some '0' := by
  -- By induction along the digits: the first digit is that of a tenth of the number.
  induction n using Nat.strongRecOn with
  | ind n ih =>
    by_cases hlt : n < 10
    · rw [Nat.toDigits_of_lt_base hlt, List.head?_cons]
      intro h
      have hval : n.digitChar.toNat - 48 = n := Nat.toNat_digitChar_sub_48_of_lt_ten hlt
      rw [Option.some.inj h] at hval
      simp at hval
      omega
    · rw [Nat.toDigits_of_base_le (by omega) (by omega),
        List.head?_append_of_ne_nil _ Nat.toDigits_ne_nil]
      exact ih (n / 10) (by omega) (by omega)

/-- The values of the digits of `n`, most significant first. -/
def digitsOf (n : Nat) : List Nat := (Nat.toDigits 10 n).map fun c => c.toNat - 48

/-- The digits of a number spell it by `Numeral.spelled`. -/
theorem spelled_digitsOf (n : Nat) : Numeral.spelled 0 (digitsOf n) = n := by
  unfold Numeral.spelled digitsOf
  rw [List.foldl_map]
  exact Nat.ofDigitChars_ten_toDigits

/-- `digitsOf` writes no leading zero, unless it is the only digit. -/
theorem digitsOf_leading (n : Nat) :
    (digitsOf n).length ≠ 1 → (digitsOf n).head? ≠ some 0 := by
  intro hlength
  by_cases hn : n = 0
  · subst hn
    exact absurd rfl hlength
  · have hhead := head?_toDigits_ne_zero (Nat.pos_of_ne_zero hn)
    unfold digitsOf
    rw [List.head?_map]
    intro h
    obtain ⟨c, hc, hv⟩ := Option.map_eq_some_iff.1 h
    have hdigit : c.isDigit = true :=
      Nat.isDigit_of_mem_toDigits (by omega) (by omega) (List.mem_of_mem_head? hc)
    have h48 : 48 ≤ c.toNat := by
      simp only [Char.isDigit, Bool.and_eq_true, decide_eq_true_eq] at hdigit
      exact hdigit.1
    have hzero : c = '0' := Char.toNat_inj.1 (show c.toNat = 48 by omega)
    rw [hzero] at hc
    exact hhead hc

/-- An integer that `renderInt` wrote is scanned by `scanNumber?` as its sign and its digits. -/
theorem scanNumber?_renderInt (n : Int) {rest : List Char} (hr : Delimited rest) :
    scanNumber? (JsonNumber.renderInt n ++ rest) =
      some (⟨decide (n < 0), digitsOf n.natAbs, none, none⟩, rest) := by
  have hd : ∀ c ∈ Nat.toDigits 10 n.natAbs, c.isDigit = true := fun c hc =>
    Nat.isDigit_of_mem_toDigits (by omega) (by omega) hc
  have hdigits := scanDigits?_append hd Nat.toDigits_ne_nil hr
  -- What follows neither goes on with a fraction nor with an exponent.
  have hfraction : scanFraction? rest = some (none, rest) := by
    unfold scanFraction?
    split
    · next rest => exact absurd rfl (hr '.' (by simp)).2.1
    · rfl
  have hexponent : scanExponent? rest = some (none, rest) := by
    unfold scanExponent?
    split
    · rfl
    · next c rest =>
      obtain ⟨-, -, he, hE⟩ := hr c (by simp)
      rw [if_neg (by simp [he, hE])]
  -- The digits do not begin with a sign, so the sign is read if and only if it was written.
  have hno : ¬∃ left, Nat.toDigits 10 n.natAbs ++ rest = '-' :: left := by
    rintro ⟨left, hleft⟩
    have hmem : '-' ∈ Nat.toDigits 10 n.natAbs := by
      have hhead : (Nat.toDigits 10 n.natAbs ++ rest).head? = (Nat.toDigits 10 n.natAbs).head? :=
        List.head?_append_of_ne_nil _ Nat.toDigits_ne_nil
      rw [hleft, List.head?_cons] at hhead
      exact List.mem_of_mem_head? hhead.symm
    exact absurd (hd '-' hmem) (by decide)
  unfold scanNumber?
  split
  · next negative cs hsign =>
    obtain ⟨rfl, rfl⟩ : negative = decide (n < 0) ∧ cs = Nat.toDigits 10 n.natAbs ++ rest := by
      unfold JsonNumber.renderInt at hsign
      by_cases hneg : n < 0
      · simp only [hneg, if_true, List.cons_append] at hsign
        cases hsign
        simp [hneg]
      · simp only [hneg, if_false] at hsign
        split at hsign
        · next left hleft => exact absurd ⟨left, hleft⟩ hno
        · cases hsign
          simp [hneg]
    rw [hdigits, ← digitsOf]
    simp [hfraction, hexponent]
    exact digitsOf_leading _

/-- An integer that fits 64 bits (`hn`) is the number that `numberOf?` finds for its sign and its
digits. -/
theorem numberOf?_digitsOf {n : Int} (hn : (JsonNumber.int n).IsExact) :
    numberOf? ⟨decide (n < 0), digitsOf n.natAbs, none, none⟩ = some (.int n) := by
  obtain ⟨hlow, hhigh⟩ := hn
  unfold numberOf?
  simp only [spelled_digitsOf, Numeral.isWhole, Option.isNone_none, Bool.true_and]
  -- A negative number has 63 bits below its sign, and the others have 64.
  by_cases hneg : n < 0
  · have hpos : 0 < n.natAbs := by omega
    have hle : n.natAbs ≤ 9223372036854775808 := by omega
    have habs : -(n.natAbs : Int) = n := by omega
    rw [if_neg (by simp [hneg]), if_pos (by simp [hneg, hpos, hle]), habs]
  · have hlt : n.natAbs < UInt64.size := by
      rw [show UInt64.size = 18446744073709551616 from rfl]
      omega
    have habs : (n.natAbs : Int) = n := by omega
    rw [if_pos (by simp [hneg, hlt]), habs]

/-! ### Strings -/

/-- What a character is scanned as inside a string: a `unit`, if it was written as one. -/
def partOf (c : Char) : StringPart :=
  if c.toNat < 32 ∧ c ∉ ['\n', '\r', '\t', '\x08', '\x0c'] then .unit c.toNat else .char c

/-- The two hexadecimal digits that `hexDigit` gives for a control character spell it. -/
theorem hexUnit?_hexDigit :
    ∀ n < 32, hexUnit? '0' '0' (hexDigit (n / 16)) (hexDigit (n % 16)) = some n := by
  decide

/-- A character that needs no escape is scanned by `scanString?` as itself. -/
theorem scanString?_cons {c : Char} {rest : List Char} (hquote : c ≠ '"') (hslash : c ≠ '\\')
    (hc : ¬c.toNat < 32) :
    scanString? (c :: rest) = (scanString? rest).map fun p => (.char c :: p.1, p.2) := by
  rw [scanString?.eq_def]
  split
  · contradiction
  · next h => exact absurd (List.cons.inj h).1 hquote
  · next h => exact absurd (List.cons.inj h).1 hslash
  · next h => exact absurd (List.cons.inj h).1 hslash
  · next h =>
    cases h
    rw [if_neg hc]
    cases scanString? rest <;> rfl

/-- A character that `escape` wrote is scanned again, whatever follows. -/
theorem scanString?_escape_append (c : Char) (rest : List Char) :
    scanString? (escape c ++ rest) =
      (scanString? rest).map fun p => (partOf c :: p.1, p.2) := by
  -- Seven characters have an escape of two characters, control characters have one of six, and any
  -- other stands for itself.
  by_cases hshort : c ∈ ['"', '\\', '\n', '\r', '\t', '\x08', '\x0c']
  · simp only [List.mem_cons, List.not_mem_nil, or_false] at hshort
    rcases hshort with rfl | rfl | rfl | rfl | rfl | rfl | rfl <;>
      cases h : scanString? rest <;>
      simp [escape, partOf, scanString?, escaped?, h]
  · simp only [List.mem_cons, List.not_mem_nil, or_false, not_or] at hshort
    obtain ⟨hquote, hslash, hn, hr, ht, hb, hf⟩ := hshort
    unfold escape partOf
    simp only [hquote, hslash, hn, hr, ht, hb, hf, if_false, List.mem_cons, List.not_mem_nil,
      or_self, not_false_eq_true, and_true]
    split
    · next hc =>
      cases h : scanString? rest <;> simp [scanString?, hexUnit?_hexDigit _ hc, h]
    · next hc => exact scanString?_cons hquote hslash hc

/-- The units that stand for control characters are no halves of pairs for `textOf?`, whatever
follows. -/
theorem textOf?_partOf_cons (c : Char) (parts : List StringPart) :
    textOf? (partOf c :: parts) = (textOf? parts).map (c :: ·) := by
  unfold partOf
  split
  · next hc =>
    have hhigh : isHighSurrogate c.toNat = false := by
      simp [isHighSurrogate]
      omega
    have hlow : isLowSurrogate c.toNat = false := by
      simp [isLowSurrogate]
      omega
    have hofNat : Char.ofNat c.toNat = c := Char.ofNat_toNat c
    match parts with
    | [] => simp [textOf?, hhigh, hlow, hofNat]
    | .unit v :: parts => simp [textOf?, hhigh, hlow, hofNat]
    | .char d :: parts => simp [textOf?, hhigh, hlow, hofNat]
  · rw [textOf?]

/-- The parts of a text that was written have the text by `textOf?`. -/
theorem textOf?_map_partOf (cs : List Char) : textOf? (cs.map partOf) = some cs := by
  induction cs with
  | nil => rfl
  | cons c cs ih => rw [List.map_cons, textOf?_partOf_cons, ih, Option.map_some]

/-- A string that `escape` wrote is scanned by `scanString?` to its closing quote. -/
theorem scanString?_flatMap_escape (cs rest : List Char) :
    scanString? (cs.flatMap escape ++ '"' :: rest) = some (cs.map partOf, rest) := by
  induction cs with
  | nil => rfl
  | cons c cs ih =>
    rw [List.flatMap_cons, List.append_assoc, scanString?_escape_append, ih]
    rfl

/-! ### Tokens -/

/-- A string that `renderString` wrote is scanned as a token with its text. -/
theorem scanToken?_renderString (s : String) (rest : List Char) :
    scanToken? (renderString s ++ rest) = some (.string (some s), rest) := by
  have htext : renderString s ++ rest = '"' :: (s.toList.flatMap escape ++ '"' :: rest) := by
    simp [renderString]
  rw [htext]
  simp [scanToken?, scanString?_flatMap_escape, textOf?_map_partOf]

/-- An integer that `renderInt` wrote starts with a digit or a sign. -/
theorem exists_renderInt_eq_cons (n : Int) :
    ∃ c cs, JsonNumber.renderInt n = c :: cs ∧ (c.isDigit = true ∨ c = '-') := by
  unfold JsonNumber.renderInt
  split
  · exact ⟨'-', _, rfl, .inr rfl⟩
  · obtain ⟨c, cs, hc⟩ := List.exists_cons_of_ne_nil (Nat.toDigits_ne_nil (n := n.natAbs) (b := 10))
    have hmem : c ∈ Nat.toDigits 10 n.natAbs := by
      rw [hc]
      exact List.mem_cons_self
    exact ⟨c, cs, hc, .inl (Nat.isDigit_of_mem_toDigits (by omega) (by omega) hmem)⟩

/-- What starts with a digit or a sign (`hc`) is none of `words`. -/
theorem findSome?_words_eq_none {c : Char} {cs : List Char} (hc : c.isDigit = true ∨ c = '-') :
    (words.findSome? fun (word, token) =>
      (Lexeme.afterWord? word (c :: cs)).map fun left => (token, left)) = none := by
  rw [List.findSome?_eq_none_iff]
  rintro ⟨word, token⟩ hmem
  rw [Option.map_eq_none_iff, Option.eq_none_iff_forall_ne_some]
  intro left hleft
  have happ := Lexeme.afterWord?_eq_some_iff.1 hleft
  simp only [words, List.mem_cons, Prod.mk.injEq, List.not_mem_nil, or_false] at hmem
  rcases hmem with ⟨rfl, -⟩ | ⟨rfl, -⟩ | ⟨rfl, -⟩
  all_goals
    rw [(List.cons.inj happ).1] at hc
    exact absurd hc (by decide)

/-- An integer that `renderInt` wrote is scanned as a token with its value, if it is exact (`hn`)
and nothing continues it (`hr`). -/
theorem scanToken?_renderInt {n : Int} (hn : (JsonNumber.int n).IsExact) {rest : List Char}
    (hr : Delimited rest) :
    scanToken? (JsonNumber.renderInt n ++ rest) = some (.number (some (.int n)), rest) := by
  have hscan := scanNumber?_renderInt n hr
  obtain ⟨c, cs, htext, hc⟩ := exists_renderInt_eq_cons n
  rw [htext, List.cons_append] at hscan ⊢
  unfold scanToken?
  split
  · contradiction
  · next d ds heq =>
    cases heq
    rw [findSome?_words_eq_none hc, hscan]
    -- None of the punctuation marks is a digit or a sign.
    split
    case h_8 => simp [numberOf?_digitsOf hn]
    all_goals exact absurd hc (by decide)

/-- A text in front of which `scanToken?` finds a token has this token and those of what is left. -/
theorem tokens?_of_scanToken? {c : Char} {cs left : List Char} {token : Token}
    (hblank : isBlank c = false) (h : scanToken? (c :: cs) = some (token, left)) :
    tokens? (c :: cs) = (tokens? left).map (token :: ·) := by
  rw [tokens?, if_neg (by rw [hblank]; decide)]
  split
  · next hnone =>
    rw [h] at hnone
    cases hnone
  · next t l hsome =>
    rw [h] at hsome
    cases hsome
    rfl

/-- Blanks in front of a text do not count for `tokens?`. -/
theorem tokens?_blanks_append {blanks cs : List Char} (hb : ∀ c ∈ blanks, isBlank c = true) :
    tokens? (blanks ++ cs) = tokens? cs := by
  induction blanks with
  | nil => rfl
  | cons c blanks ih =>
    rw [List.cons_append, tokens?, if_pos (hb c List.mem_cons_self)]
    exact ih fun d hd => hb d (List.mem_cons_of_mem _ hd)

/-- The tokens of a string that `renderString` wrote and of what follows. -/
theorem tokens?_renderString_append (s : String) (rest : List Char) :
    tokens? (renderString s ++ rest) = (tokens? rest).map (.string (some s) :: ·) :=
  tokens?_of_scanToken? (c := '"') rfl (scanToken?_renderString s rest)

/-- The tokens of an integer that `renderInt` wrote and of what follows. -/
theorem tokens?_renderInt_append {n : Int} (hn : (JsonNumber.int n).IsExact) {rest : List Char}
    (hr : Delimited rest) :
    tokens? (JsonNumber.renderInt n ++ rest) =
      (tokens? rest).map (.number (some (.int n)) :: ·) := by
  have hscan := scanToken?_renderInt hn hr
  obtain ⟨c, cs, htext, hc⟩ := exists_renderInt_eq_cons n
  rw [htext, List.cons_append] at hscan ⊢
  apply tokens?_of_scanToken? _ hscan
  rw [← Bool.not_eq_true]
  intro hblank
  simp only [isBlank, Bool.or_eq_true, beq_iff_eq] at hblank
  rcases hblank with ((rfl | rfl) | rfl) | rfl
  all_goals exact absurd hc (by decide)

end Json

end DocTypes

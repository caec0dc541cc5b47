import DocTypes.Json.Printer
import Mathlib.Data.List.Basic

/-!
# JSON laid out in lines

A value that `write` lays out in lines has its line breaks where the layout puts them and nowhere
else: a line break inside a string is escaped, and no number holds one. So the lines of a value that
stands one level deeper are the same lines, all but the first with two more blanks in front
(`indent_write`). Hence the text of an object is made of the texts that its members have by
themselves (`write_object`).
-/

namespace DocTypes

namespace Json

/-- The lines of `text`, with two more blanks at the start of each but the first. -/
def indent (text : List Char) : List Char :=
  text.flatMap fun c => if c = '\n' then ['\n', ' ', ' '] else [c]

/-- The member `m` on a line of its own, given the text of its value. -/
def memberText (m : String × List Char) : List Char :=
  '\n' :: ' ' :: ' ' :: renderString m.1 ++ ':' :: ' ' :: indent m.2

/-- An object in lines, given the texts of the values of its members, each laid out by
`memberText`. -/
def objectText : List (String × List Char) → List Char
  | [] => ['\x7b', '\x7d']
  | m :: rest =>
    '\x7b' :: memberText m ++ rest.flatMap (fun m => ',' :: memberText m) ++ ['\n', '\x7d']

/-! ## Where there is no line break -/

/-- The digits that `Nat.toDigits` gives for a number are on one line. -/
theorem newline_notMem_toDigits (n : Nat) : '\n' ∉ Nat.toDigits 10 n := by
  intro h
  have hdigit : '\n'.isDigit = true := Nat.isDigit_of_mem_toDigits (by omega) (by omega) h
  exact absurd hdigit (by decide)

/-- What `Decimal.render` gives for a decimal is on one line. -/
theorem newline_notMem_renderDecimal (layout : Decimal.Layout) (d : Decimal) :
    '\n' ∉ Decimal.render layout d := by
  have hdigits : '\n' ∉ Nat.toDigits 10 d.coefficient := newline_notMem_toDigits _
  have htake (n : Nat) : '\n' ∉ (Nat.toDigits 10 d.coefficient).take n :=
    fun h => hdigits (List.mem_of_mem_take h)
  have hdrop (n : Nat) : '\n' ∉ (Nat.toDigits 10 d.coefficient).drop n :=
    fun h => hdigits (List.mem_of_mem_drop h)
  simp only [Decimal.render]
  split
  · split
    · simp [hdigits]
    · split <;> simp [hdigits, htake, hdrop]
  · have hexponent (m : Nat) : '\n' ∉ Nat.toDigits 10 m := newline_notMem_toDigits m
    have hsign (first : Int) : '\n' ≠ if 0 ≤ first then '+' else '-' := by split <;> decide
    simp only [List.mem_append, List.mem_cons, not_or]
    refine ⟨⟨htake 1, ?_⟩, by decide, hsign _, hexponent _⟩
    -- There is a point only if further digits follow.
    split
    · exact List.not_mem_nil
    · rw [List.mem_cons, not_or]
      exact ⟨by decide, hdrop 1⟩

/-- What `JsonNumber.render` gives for a number is on one line. -/
theorem newline_notMem_renderNumber (n : JsonNumber) : '\n' ∉ n.render := by
  -- An integer has digits and a sign, and a double is written as a decimal, or as `null` if it is
  -- not finite.
  cases n with
  | int n =>
    have hdigits : '\n' ∉ Nat.toDigits 10 n.natAbs := newline_notMem_toDigits _
    rw [JsonNumber.render, JsonNumber.renderInt]
    split <;> simp [hdigits]
  | float x =>
    have hdigits := newline_notMem_renderDecimal JsonNumber.layout (Decimal.shortest x.toBits)
    rw [JsonNumber.render]
    split
    · simp only
      split <;> simp [hdigits]
    · decide

/-- What `hexDigit` gives for a hexadecimal digit is no line break. -/
theorem hexDigit_ne_newline : ∀ n < 16, '\n' ≠ hexDigit n := by
  decide

/-- `escape` writes no line break, also for a line break inside a string. -/
theorem newline_notMem_escape (c : Char) : '\n' ∉ escape c := by
  by_cases hbreak : c = '\n'
  · subst hbreak
    decide
  unfold escape
  iterate 6
    split
    · decide
  split
  · next hcontrol =>
    -- Any other control character is written by its number.
    have hhigh : '\n' ≠ hexDigit (c.toNat / 16) := hexDigit_ne_newline _ (by omega)
    have hlow : '\n' ≠ hexDigit (c.toNat % 16) := hexDigit_ne_newline _ (by omega)
    simp [hhigh, hlow]
  · simp [Ne.symm hbreak]

/-- What `renderString` gives for a string is on one line. -/
theorem newline_notMem_renderString (s : String) : '\n' ∉ renderString s := by
  simp [renderString, newline_notMem_escape]

/-! ## Indentation -/

/-- `indent` goes over texts one after the other. -/
theorem indent_append (s t : List Char) : indent (s ++ t) = indent s ++ indent t :=
  List.flatMap_append

/-- A character `c` that is no line break stays as it is. -/
theorem indent_cons {c : Char} (hc : c ≠ '\n') (text : List Char) :
    indent (c :: text) = c :: indent text := by
  rw [indent, List.flatMap_cons, if_neg hc]
  rfl

/-- A text without a line break (`h`) stays as it is. -/
theorem indent_eq_self {text : List Char} (h : '\n' ∉ text) : indent text = text := by
  induction text with
  | nil => rfl
  | cons c text ih =>
    rw [List.mem_cons, not_or] at h
    rw [indent_cons (Ne.symm h.1), ih h.2]

/-- `indent` makes of a line break the one of the next level. -/
theorem indent_lineBreak (level : Nat) :
    indent (Formatter.pretty.lineBreak level) = Formatter.pretty.lineBreak (level + 1) := by
  have hblanks : '\n' ∉ List.replicate (2 * level) ' ' := by simp
  have hindent : indent (Formatter.pretty.lineBreak level) =
      '\n' :: ' ' :: ' ' :: List.replicate (2 * level) ' ' := by
    show '\n' :: ' ' :: ' ' :: indent (List.replicate (2 * level) ' ') = _
    rw [indent_eq_self hblanks]
  rw [hindent]
  rfl

/-- What `renderString` gives stays as it is. -/
theorem indent_renderString (s : String) : indent (renderString s) = renderString s :=
  indent_eq_self (newline_notMem_renderString s)

/-- What the layout puts behind a colon, `afterColon`, stays as it is. -/
theorem indent_afterColon : indent Formatter.pretty.afterColon = Formatter.pretty.afterColon := rfl

mutual

/-- A value that `write` puts one level deeper has the same lines, indented. -/
theorem indent_write (level : Nat) : (j : Json) →
    indent (write .pretty level j) = write .pretty (level + 1) j
  | .null => rfl
  | .bool true => rfl
  | .bool false => rfl
  | .number n => indent_eq_self (newline_notMem_renderNumber n)
  | .string s => indent_renderString s
  | .array [] => rfl
  | .array (item :: rest) => by
    have hopen : '[' ≠ '\n' := by decide
    have hclose : indent [']'] = [']'] := rfl
    simp only [write, List.cons_append, indent_cons hopen, indent_append, indent_lineBreak, hclose,
      indent_write (level + 1) item, indent_writeItems level rest]
  | .object [] => rfl
  | .object ((key, value) :: rest) => by
    have hopen : '\x7b' ≠ '\n' := by decide
    have hcolon : ':' ≠ '\n' := by decide
    have hclose : indent ['\x7d'] = ['\x7d'] := rfl
    simp only [write, List.cons_append, indent_cons hopen, indent_cons hcolon, indent_append,
      indent_lineBreak, indent_renderString, indent_afterColon, hclose,
      indent_write (level + 1) value, indent_writeMembers level rest]

/-- So have the further items of an array, by `writeItems`. -/
theorem indent_writeItems (level : Nat) : (items : List Json) →
    indent (writeItems .pretty level items) = writeItems .pretty (level + 1) items
  | [] => rfl
  | item :: rest => by
    have hcomma : ',' ≠ '\n' := by decide
    simp only [writeItems, List.cons_append, indent_cons hcomma, indent_append, indent_lineBreak,
      indent_write (level + 1) item, indent_writeItems level rest]

/-- So have the further members of an object, by `writeMembers`. -/
theorem indent_writeMembers (level : Nat) : (members : List (String × Json)) →
    indent (writeMembers .pretty level members) = writeMembers .pretty (level + 1) members
  | [] => rfl
  | (key, value) :: rest => by
    have hcomma : ',' ≠ '\n' := by decide
    have hcolon : ':' ≠ '\n' := by decide
    simp only [writeMembers, List.cons_append, indent_cons hcomma, indent_cons hcolon,
      indent_append, indent_lineBreak, indent_renderString, indent_afterColon,
      indent_write (level + 1) value, indent_writeMembers level rest]

end

/-! ## Objects -/

/-- A member of the outermost object is its key and its value, which `write` puts one level deep. -/
theorem memberText_write (key : String) (value : Json) :
    memberText (key, write .pretty 0 value) =
      Formatter.pretty.lineBreak 1 ++ renderString key ++ ':' :: Formatter.pretty.afterColon ++
        write .pretty 1 value := by
  have hbreak : Formatter.pretty.lineBreak 1 = ['\n', ' ', ' '] := rfl
  have hcolon : Formatter.pretty.afterColon = [' '] := rfl
  rw [memberText, indent_write, hbreak, hcolon]
  simp

/-- The further members of the outermost object stand behind commas, each by `memberText`. -/
theorem writeMembers_eq_flatMap (members : List (String × Json)) :
    writeMembers .pretty 0 members =
      members.flatMap fun m => ',' :: memberText (m.1, write .pretty 0 m.2) := by
  induction members with
  | nil => rfl
  | cons m members ih => simp [writeMembers, memberText_write, ih]

/-- An object is laid out by `write` with the texts that its members have by themselves. -/
theorem write_object (members : List (String × Json)) :
    write .pretty 0 (.object members) =
      objectText (members.map fun m => (m.1, write .pretty 0 m.2)) := by
  cases members with
  | nil => rfl
  | cons m members =>
    have hclose : Formatter.pretty.lineBreak 0 = ['\n'] := rfl
    rw [List.map_cons, objectText, memberText_write, List.flatMap_map, ← writeMembers_eq_flatMap,
      write, hclose]
    simp only [List.cons_append, List.append_assoc, List.nil_append]

/-- The lines of the first member are those of its value, indented. -/
example : objectText [("a", "[\n  1\n]".toList), ("b", "2".toList)] =
    "\x7b\n  \"a\": [\n    1\n  ],\n  \"b\": 2\n\x7d".toList := by
  decide

end Json

end DocTypes

import DocTypes.Proofs.SplitGrammar

/-!
# Where pieces end

No name, no suffix and no padding takes a bar. So each reader that is used for a piece reads the
same from the front of a whole declaration, where the piece is followed by a bar or by the end of
the text: `readName?_append_of_endsPiece` is this for `readName?`, with one lemma for each reader
that it uses. This is why a declaration may be cut at its bars before anything is read.
-/

namespace DocTypes.TypeExpr

open Lexeme

/-- What may follow a piece: nothing, or a `bar` and whatever comes then. -/
def EndsPiece (tail : List Char) : Prop := ∀ c ∈ tail.head?, c = bar

variable {tail : List Char}

/-- `EndsPiece` at the end of a text. -/
theorem endsPiece_nil : EndsPiece [] := nofun

/-- `EndsPiece` at a bar. -/
theorem endsPiece_bar (rest : List Char) : EndsPiece (bar :: rest) := fun _ hc =>
  (Option.some.inj hc).symm

/-- `EndsPiece` leaves two cases: `tail` is empty or starts with a bar. -/
theorem EndsPiece.cases (h : EndsPiece tail) : tail = [] ∨ ∃ rest, tail = bar :: rest := by
  cases tail with
  | nil => exact .inl rfl
  | cons c rest =>
    obtain rfl : c = bar := h c rfl
    exact .inr ⟨rest, rfl⟩

/-- `skipPadding` leaves a bar, and so whatever ends a piece. -/
theorem skipPadding_append_of_endsPiece (h : EndsPiece tail) (cs : List Char) :
    skipPadding (cs ++ tail) = skipPadding cs ++ tail := by
  have htail : skipPadding tail = tail := by
    rcases h.cases with rfl | ⟨rest, rfl⟩
    · rfl
    · exact List.dropWhile_cons_of_neg (by decide)
  induction cs with
  | nil => exact htail
  | cons c cs ih =>
    by_cases hc : isPadding c = true
    · rw [List.cons_append, skipPadding, skipPadding, List.dropWhile_cons_of_pos hc,
        List.dropWhile_cons_of_pos hc]
      exact ih
    · rw [List.cons_append, skipPadding, skipPadding, List.dropWhile_cons_of_neg hc,
        List.dropWhile_cons_of_neg hc]
      rfl

/-- `afterWord?` finds no bar in a word that holds none (`hword`). -/
theorem afterWord?_append_of_endsPiece (h : EndsPiece tail) {word : String}
    (hword : bar ∉ word.toList) (cs : List Char) :
    afterWord? word (cs ++ tail) = (afterWord? word cs).map (· ++ tail) := by
  unfold afterWord?
  generalize word.toList = ws at hword
  -- Along the word: where the piece is at its end, the next character is a bar and differs from
  -- `w`.
  induction ws generalizing cs with
  | nil => rfl
  | cons w ws ih =>
    rw [List.mem_cons, not_or] at hword
    cases cs with
    | nil =>
      rcases h.cases with rfl | ⟨rest, rfl⟩
      · rfl
      · exact if_neg (Ne.symm hword.1)
    | cons c cs =>
      rw [List.cons_append, afterChars?, afterChars?]
      by_cases hc : w = c
      · rw [if_pos hc, if_pos hc, ih _ hword.2]
      · rw [if_neg hc, if_neg hc]
        rfl

/-- `pathTail` does not go on at a bar. -/
theorem pathTail_append_of_endsPiece (h : EndsPiece tail) (cs : List Char) :
    pathTail (cs ++ tail) = ((pathTail cs).1, (pathTail cs).2 ++ tail) := by
  have hcut : cs = (pathTail cs).1 ++ (pathTail cs).2 := (pathTail_append cs).symm
  have hleft : continuesPath ((pathTail cs).2 ++ tail) = false := by
    have hstop := continuesPath_pathTail cs
    rcases h.cases with rfl | ⟨rest, rfl⟩
    · rwa [List.append_nil]
    · -- The character in front of the bar decides, and no identifier starts with a bar.
      match (pathTail cs).2, hstop with
      | [], _ => cases rest <;> rfl
      | [c], hc =>
        have hbar : isIdentifierStart bar = false := by decide
        simpa [continuesPath, hbar] using hc
      | c :: d :: more, hc => exact hc
  conv_lhs => rw [hcut, List.append_assoc]
  exact (isTail_pathTail cs).pathTail_append hleft

/-- The same for `path?`, which is `pathTail` behind one character. -/
theorem path?_append_of_endsPiece (h : EndsPiece tail) (cs : List Char) :
    path? (cs ++ tail) = (path? cs).map fun r => (r.1, r.2 ++ tail) := by
  cases cs with
  | nil =>
    rcases h.cases with rfl | ⟨rest, rfl⟩
    · rfl
    · rfl
  | cons c cs =>
    rw [List.cons_append, path?, path?]
    by_cases hc : isIdentifierStart c = true
    · rw [if_pos hc, if_pos hc, pathTail_append_of_endsPiece h]
      rfl
    · rw [if_neg hc, if_neg hc]
      rfl

/-- `readName?` reads a name from a whole declaration as it does from the piece that starts with
it. -/
theorem readName?_append_of_endsPiece (h : EndsPiece tail) (cs : List Char) :
    readName? (cs ++ tail) = (readName? cs).map fun r => (r.1, r.2 ++ tail) := by
  unfold readName?
  rw [afterWord?_append_of_endsPiece h (by decide), afterWord?_append_of_endsPiece h (by decide)]
  cases hclosed : afterWord? Keyword.closedResource cs with
  | some rest => rfl
  | none =>
    cases hthis : afterWord? thisMarker cs with
    | some rest => rfl
    | none =>
      simp only [Option.map_none]
      cases cs with
      | nil =>
        rcases h.cases with rfl | ⟨rest, rfl⟩
        · rfl
        · rfl
      | cons c cs =>
        by_cases hc : c = '\\'
        · subst hc
          simp only [List.cons_append, path?_append_of_endsPiece h, Option.map_map]
          rfl
        · have hpath := path?_append_of_endsPiece h (c :: cs)
          rw [List.cons_append] at hpath ⊢
          split
          · next heq => exact absurd (List.cons.inj heq).1 hc
          · split
            · next heq => exact absurd (List.cons.inj heq).1 hc
            · rw [hpath, Option.map_map, Option.map_map]
              rfl

end DocTypes.TypeExpr

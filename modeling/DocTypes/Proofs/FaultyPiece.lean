import DocTypes.Proofs.SplitGrammar

/-!
# Pieces that are no terms

A piece of a declaration that is not a term is empty, or it is a bare suffix, or it is malformed: it
has a character that has no place in it (`IsMalformed`). Each of the three is read by `readPiece` as
what it is, and this does not depend on where the piece stands (`readPiece_of_strip_eq_nil`,
`readPiece_of_strip_eq_suffix`, `IsMalformed.stopsSoundly`).

A malformed piece is read up to some place, and what is read up to there is sound: something could
follow with which the piece would not be malformed (`IsSound`).
-/

namespace DocTypes.TypeExpr

open Lexeme

/-- A piece that is neither empty when `strip` takes off its blanks, nor a bare suffix, nor a
term. -/
structure IsMalformed (piece : List Char) : Prop where
  ne_nil : strip piece ≠ []
  ne_suffix : strip piece ≠ arraySuffix.toList
  not_term : ¬IsTermText (strip piece)

/-- The text `front` is the beginning of a piece that is not malformed: `more` could complete it. -/
def IsSound (front : List Char) : Prop := ∃ more, bar ∉ more ∧ ¬IsMalformed (front ++ more)

variable {piece before body after front left rest : List Char}

/-! ## Pieces that are not malformed -/

/-- `strip` leaves nothing of blanks. -/
theorem strip_eq_nil_of_forall (h : ∀ c ∈ piece, isPadding c = true) : strip piece = [] := by
  rw [strip, skipPadding_eq_nil_iff.2 h]
  rfl

/-- What `strip` leaves nothing of is blanks. -/
theorem forall_isPadding_of_strip_eq_nil (h : strip piece = []) :
    ∀ c ∈ piece, isPadding c = true := by
  have hbody : ∀ c ∈ skipPadding piece, isPadding c = true := List.rdropWhile_eq_nil_iff.1 h
  have hsplit : piece.takeWhile isPadding ++ skipPadding piece = piece :=
    List.takeWhile_append_dropWhile
  intro c hc
  rw [← hsplit] at hc
  exact (List.mem_append.1 hc).elim List.mem_takeWhile_imp (hbody c)

/-- Blanks, by `isPadding`, are not malformed. -/
theorem not_isMalformed_blanks (h : ∀ c ∈ piece, isPadding c = true) : ¬IsMalformed piece :=
  fun hm => hm.ne_nil (strip_eq_nil_of_forall h)

/-- The `arraySuffix` between blanks is not malformed. -/
theorem not_isMalformed_suffix (hb : ∀ c ∈ before, isPadding c = true)
    (ha : ∀ c ∈ after, isPadding c = true) :
    ¬IsMalformed (before ++ (arraySuffix.toList ++ after)) := by
  have hstrip : strip (before ++ (arraySuffix.toList ++ after)) = arraySuffix.toList := by
    refine (strip_append hb ha (by decide) ?_ ?_).2
    · intro c hc
      obtain rfl : '[' = c := Option.some.inj hc
      rfl
    · intro c hc
      obtain rfl : ']' = c := Option.some.inj hc
      rfl
  exact fun hm => hm.ne_suffix hstrip

/-- A term (`hbody`) between blanks is not malformed. -/
theorem not_isMalformed_term (hb : ∀ c ∈ before, isPadding c = true)
    (ha : ∀ c ∈ after, isPadding c = true) (hbody : IsTermText body) :
    ¬IsMalformed (before ++ (body ++ after)) := by
  obtain ⟨name, isArray, hterm⟩ := exists_isTerm_iff.2 hbody
  obtain ⟨hne, hf, hl⟩ := hterm.ends
  have hstrip : strip (before ++ (body ++ after)) = body := (strip_append hb ha hne hf hl).2
  exact fun hm => hm.not_term (hstrip.symm ▸ hbody)

/-- What is not malformed `IsSound`, as nothing has to follow. -/
theorem isSound_of_not_isMalformed (h : ¬IsMalformed front) : IsSound front :=
  ⟨[], List.not_mem_nil, by rwa [List.append_nil]⟩

/-- A separator behind the blanks of `before` is sound, since a name can follow. -/
theorem isSound_separator (hb : ∀ c ∈ before, isPadding c = true) : IsSound (before ++ ['\\']) := by
  have hname : IsTypeName ['\\', 'A'] := .inr (.inr (.inr ⟨['A'], rfl, by decide⟩))
  have hbody : IsTermText ['\\', 'A'] := ⟨_, hname, .inl rfl⟩
  have happend : before ++ ['\\'] ++ ['A'] = before ++ (['\\', 'A'] ++ []) := by simp
  refine ⟨['A'], by decide, ?_⟩
  rw [happend]
  exact not_isMalformed_term hb (List.forall_mem_nil _) hbody

/-- A malformed piece that begins with a text which could be all of it, blanks apart (`hbody`), goes
on behind the text and blanks. -/
theorem exists_cons_of_isMalformed
    (hbody : ∀ blanks, (∀ c ∈ blanks, isPadding c = true) →
      ¬IsMalformed (before ++ (body ++ blanks)))
    (h : IsMalformed (before ++ (body ++ rest))) :
    IsSound (before ++ (body ++ rest.takeWhile isPadding)) ∧
      before ++ (body ++ rest) = before ++ (body ++ rest.takeWhile isPadding) ++ skipPadding rest ∧
      ∃ c others, skipPadding rest = c :: others := by
  refine ⟨?_, ?_, ?_⟩
  · exact isSound_of_not_isMalformed (hbody _ fun c hc => List.mem_takeWhile_imp hc)
  · rw [List.append_assoc, List.append_assoc, skipPadding, List.takeWhile_append_dropWhile]
  · refine List.exists_cons_of_ne_nil fun hnil => ?_
    -- With blanks to its end it would be such a text, and not malformed.
    exact hbody rest (skipPadding_eq_nil_iff.1 hnil) h

/-! ## How pieces are read -/

/-- A place is found from what is left at it, by `byteLength`. -/
theorem place_eq (h : piece = front ++ left) (start : Nat) :
    start + byteLength piece - byteLength left = start + byteLength front := by
  rw [h, byteLength_append]
  omega

/-- An empty piece is read by `readPiece` as one, with all of its blanks. -/
theorem readPiece_of_strip_eq_nil (h : strip piece = []) (start : Nat) :
    readPiece start piece = .empty ⟨start, start + byteLength piece⟩ := by
  have hskip : skipPadding piece = [] :=
    skipPadding_eq_nil_iff.2 (forall_isPadding_of_strip_eq_nil h)
  have hname : readName? [] = none := rfl
  unfold readPiece
  simp only [hskip, hname]

/-- A bare suffix is read by `readPiece` as one, without the blanks around it. -/
theorem readPiece_of_strip_eq_suffix (h : strip piece = arraySuffix.toList) (start : Nat) :
    readPiece start piece = .bareSuffix
      ⟨start + byteLength (piece.takeWhile isPadding),
        start + byteLength (piece.takeWhile isPadding) + 2⟩ := by
  have hbefore : ∀ c ∈ piece.takeWhile isPadding, isPadding c = true :=
    fun c hc => List.mem_takeWhile_imp hc
  have hafter : ∀ c ∈ (skipPadding piece).rtakeWhile isPadding, isPadding c = true :=
    fun c hc => List.mem_rtakeWhile_imp hc
  have hsplit := eq_append_strip_append piece
  rw [h] at hsplit
  generalize piece.takeWhile isPadding = before at hbefore hsplit ⊢
  generalize (skipPadding piece).rtakeWhile isPadding = after at hafter hsplit
  have hskip : skipPadding piece = '[' :: ']' :: after := by
    rw [hsplit]
    exact List.dropWhile_append_of_pos hbefore
  have hname : readName? ('[' :: ']' :: after) = none := rfl
  have hsuffix : afterWord? arraySuffix ('[' :: ']' :: after) = some after :=
    afterWord?_eq_some_iff.2 rfl
  have hrest : skipPadding after = [] := skipPadding_eq_nil_iff.2 hafter
  have hstart : start + byteLength piece - byteLength ('[' :: ']' :: after) =
      start + byteLength before := place_eq hsplit start
  have hstop : start + byteLength piece - byteLength after = start + byteLength before + 2 := by
    have htwo : byteLength arraySuffix.toList = 2 := by decide
    rw [← List.append_assoc] at hsplit
    rw [place_eq hsplit start, byteLength_append, htwo, Nat.add_assoc]
  unfold readPiece
  simp only [hskip, hname, hsuffix, hrest, hstart, hstop]
  rfl

/-- `readPiece` reads the piece up to some place, which moves with the piece, and what is read up to
there is sound. What is expected at the place only depends on whether the piece is the first one. -/
def StopsSoundly (piece : List Char) : Prop :=
  ∃ front left, piece = front ++ left ∧ IsSound front ∧ ∃ expected : Nat → Expectation,
    (∀ start start', (start = 0 ↔ start' = 0) → expected start = expected start') ∧
    ∀ start, readPiece start piece = .malformed (start + byteLength front) (expected start)

/-- The place may be given by what is `left` there, as `readPiece` has it. -/
theorem StopsSoundly.of_left (hsplit : piece = front ++ left) (hsound : IsSound front)
    (expected : Nat → Expectation)
    (hexpected : ∀ start start', (start = 0 ↔ start' = 0) → expected start = expected start')
    (hread : ∀ start, readPiece start piece =
      .malformed (start + byteLength piece - byteLength left) (expected start)) :
    StopsSoundly piece := by
  refine ⟨front, left, hsplit, hsound, expected, hexpected, fun start => ?_⟩
  rw [hread, place_eq hsplit]

/-- A malformed piece that begins with a name, by `hname`, stops behind the name, or behind the
suffix or the blanks that follow it. -/
theorem stopsSoundly_of_name {name : Name} {afterName : List Char} (h : IsMalformed piece)
    (hname : readName? (skipPadding piece) = some (name, afterName)) : StopsSoundly piece := by
  have hblanks : ∀ c ∈ piece.takeWhile isPadding, isPadding c = true :=
    fun c hc => List.mem_takeWhile_imp hc
  have hpiece : piece = piece.takeWhile isPadding ++ skipPadding piece :=
    List.takeWhile_append_dropWhile.symm
  generalize piece.takeWhile isPadding = before at hblanks hpiece
  obtain ⟨word, hword, hmeaning⟩ := isName_of_readName? hname
  have htype : IsTypeName word := exists_isName_iff.1 ⟨name, hmeaning⟩
  rw [hword] at hpiece
  cases hsuffix : afterWord? arraySuffix afterName with
  | some afterSuffix =>
    have hsplit : piece = before ++ ((word ++ arraySuffix.toList) ++ afterSuffix) := by
      rw [List.append_assoc, ← afterWord?_eq_some_iff.1 hsuffix]
      exact hpiece
    -- Behind the suffix only blanks can stand, and what they are followed by stops the reading.
    have hterm : IsTermText (word ++ arraySuffix.toList) := ⟨word, htype, .inr rfl⟩
    obtain ⟨hsound, hfront, c, others, hleft⟩ := exists_cons_of_isMalformed
      (fun blanks hb => not_isMalformed_term hblanks hb hterm) (hsplit ▸ h)
    refine .of_left (hsplit.trans hfront) hsound (fun _ => .memberEnd) (fun _ _ _ => rfl) ?_
    intro start
    unfold readPiece
    simp only [hname, hsuffix, hleft]
  | none =>
    -- At once behind the name the suffix could stand, behind blanks it could not.
    have hterm : IsTermText word := ⟨word, htype, .inl rfl⟩
    obtain ⟨hsound, hfront, c, others, hleft⟩ := exists_cons_of_isMalformed
      (fun blanks hb => not_isMalformed_term hblanks hb hterm) (hpiece ▸ h)
    refine .of_left (hpiece.trans hfront) hsound
      (fun _ => if skipPadding afterName = afterName then .suffixOrEnd else .memberEnd)
      (fun _ _ _ => rfl) ?_
    intro start
    unfold readPiece
    simp only [hname, hsuffix, hleft]

/-- A malformed piece that does not begin with a name, by `hname`, stops behind its blanks, behind a
separator, or behind a bare suffix and blanks. -/
theorem stopsSoundly_of_no_name (h : IsMalformed piece)
    (hname : readName? (skipPadding piece) = none) : StopsSoundly piece := by
  have hblanks : ∀ c ∈ piece.takeWhile isPadding, isPadding c = true :=
    fun c hc => List.mem_takeWhile_imp hc
  have hpiece : piece = piece.takeWhile isPadding ++ skipPadding piece :=
    List.takeWhile_append_dropWhile.symm
  generalize piece.takeWhile isPadding = before at hblanks hpiece
  obtain ⟨c, others, hbody⟩ : ∃ c others, skipPadding piece = c :: others := by
    refine List.exists_cons_of_ne_nil fun hnil => ?_
    exact not_isMalformed_blanks (skipPadding_eq_nil_iff.1 hnil) h
  rw [hbody] at hname hpiece
  by_cases hc : c = '\\'
  · -- A name had to follow the separator.
    subst hc
    have hsplit : piece = before ++ ['\\'] ++ others := by
      rw [List.append_assoc]
      exact hpiece
    refine .of_left hsplit (isSound_separator hblanks) (fun _ => .typeName) (fun _ _ _ => rfl) ?_
    intro start
    unfold readPiece
    simp only [hbody, hname]
  · cases hsuffix : afterWord? arraySuffix (c :: others) with
    | some afterSuffix =>
      have hsplit : piece = before ++ (arraySuffix.toList ++ afterSuffix) := by
        rw [← afterWord?_eq_some_iff.1 hsuffix]
        exact hpiece
      obtain ⟨hsound, hfront, d, others', hleft⟩ := exists_cons_of_isMalformed
        (fun blanks hb => not_isMalformed_suffix hblanks hb) (hsplit ▸ h)
      refine .of_left (hsplit.trans hfront) hsound (fun _ => .memberEnd) (fun _ _ _ => rfl) ?_
      intro start
      unfold readPiece
      simp only [hbody, hname, hsuffix, hleft]
      split
      · next heq => cases heq
      · next heq => exact absurd (List.cons.inj heq).1 hc
      · rfl
    | none =>
      -- Nothing starts like this. Only at the start of the text the end is not an alternative.
      refine .of_left hpiece (isSound_of_not_isMalformed (not_isMalformed_blanks hblanks))
        (fun start => if start + byteLength before = 0 then .type else .typeOrEnd) ?_ ?_
      · intro start start' hstart
        simp only [Nat.add_eq_zero_iff, hstart]
      · intro start
        unfold readPiece
        simp only [hbody, hname, hsuffix, place_eq hpiece start]
        split
        · next heq => cases heq
        · next heq => exact absurd (List.cons.inj heq).1 hc
        · rfl

/-- A malformed piece stops, with `readName?` or without. -/
theorem IsMalformed.stopsSoundly (h : IsMalformed piece) : StopsSoundly piece := by
  cases hname : readName? (skipPadding piece) with
  | some found => exact stopsSoundly_of_name h hname
  | none => exact stopsSoundly_of_no_name h hname

/-! ## Which pieces are malformed -/

/-- A piece `IsMalformed` if and only if `readPiece` reads it as malformed, wherever it stands. -/
theorem malformation?_readPiece_eq_none_iff {start : Nat} :
    (readPiece start piece).malformation? = none ↔ ¬IsMalformed piece := by
  constructor
  · intro h hm
    obtain ⟨front, left, -, -, expected, -, hread⟩ := hm.stopsSoundly
    rw [hread] at h
    cases h
  · intro h
    -- What is not malformed is one of the three other kinds, and each is read as what it is.
    by_cases hnil : strip piece = []
    · rw [readPiece_of_strip_eq_nil hnil]
      rfl
    · by_cases hsuffix : strip piece = arraySuffix.toList
      · rw [readPiece_of_strip_eq_suffix hsuffix]
        rfl
      · have hterm : IsTermText (strip piece) := by
          by_contra hno
          exact h ⟨hnil, hsuffix, hno⟩
        obtain ⟨name, isArray, ht⟩ := exists_isTerm_iff.2 hterm
        have hread : readPiece start piece = .term ⟨name, isArray, strippedSpan start piece⟩ :=
          readPiece_eq_term_iff.2 ⟨ht, rfl⟩
        rw [hread]
        rfl

instance (piece : List Char) : Decidable (IsMalformed piece) :=
  decidable_of_iff ((readPiece 0 piece).malformation? ≠ none) <| by
    rw [ne_eq, malformation?_readPiece_eq_none_iff, not_not]

end DocTypes.TypeExpr

import DocTypes.Proofs.FaultyPiece

/-!
# Which fault is reported, and where

A declaration with a malformed piece is a syntax error, and the first malformed piece decides where.
In any other declaration the first piece that is no term decides, and what is wrong with it
(`Decides`). Reading by `parse_declaration` fails as the piece does that decides, read at its own
place (`Decides.exists_error`), so that all about errors comes from what is known of faulty pieces.
The main statement is `parse_eq_error_classified`.
-/

namespace DocTypes.TypeExpr

open Lexeme

/-- The text of `pieces` with a `bar` behind each of them. -/
def barred (pieces : List (List Char)) : List Char := pieces.flatMap (· ++ [bar])

/-- The first byte of the piece that stands behind the pieces `before`. -/
def startBehind (before : List (List Char)) : Nat := byteLength (barred before)

/-- Of the pieces of a declaration, `piece` decides which error is reported: it is the first
malformed one, or it is the first one that is no term and none is malformed. -/
inductive Decides (before : List (List Char)) (piece : List Char) (after : List (List Char)) : Prop
  | malformed : (∀ q ∈ before, ¬IsMalformed q) → IsMalformed piece → Decides before piece after
  | wellFormed : (∀ q ∈ before ++ piece :: after, ¬IsMalformed q) →
      (∀ q ∈ before, IsTermText (strip q)) → ¬IsTermText (strip piece) →
      Decides before piece after

/-- The text `s` cannot be read because of a character that has no place in it. -/
def IsSyntaxError (s : String) : Prop :=
  ∃ position expected, parse s = .error (.malformedDeclaration s position expected)

variable {s : String} {before after pieces : List (List Char)} {piece : List Char} {e : ParseError}

/-! ## Cutting texts -/

/-- Text that consists of whole pieces, as `barred` puts them together, can be cut off. -/
theorem splitOn_barred_append (h : ∀ q ∈ before, bar ∉ q) (cs : List Char) :
    (barred before ++ cs).splitOn bar = before ++ cs.splitOn bar := by
  induction before with
  | nil => rfl
  | cons q before ih =>
    have hq : bar ∉ q := h q List.mem_cons_self
    have hbefore : ∀ q ∈ before, bar ∉ q := fun p hp => h p (List.mem_cons_of_mem _ hp)
    have hcons : barred (q :: before) ++ cs = q ++ bar :: (barred before ++ cs) := by
      simp [barred]
    rw [hcons, List.splitOn_append_cons_self_of_not_mem hq, ih hbefore]
    rfl

/-- The text `piece` is one piece, where it ends at a bar or with the text (`hrest`). -/
theorem exists_splitOn_append (h : bar ∉ piece) {rest : List Char}
    (hrest : rest = [] ∨ ∃ more, rest = bar :: more) :
    ∃ after, (piece ++ rest).splitOn bar = piece :: after := by
  rcases hrest with rfl | ⟨more, rfl⟩
  · rw [List.append_nil]
    exact ⟨[], List.splitOn_eq_singleton h⟩
  · exact ⟨_, List.splitOn_append_cons_self_of_not_mem h more⟩

/-- A text is what stands in front of a piece, which is `barred before`, the piece, and what follows
it. -/
theorem exists_toList_eq (h : s.toList.splitOn bar = before ++ piece :: after) :
    ∃ rest, s.toList = barred before ++ (piece ++ rest) := by
  have hget : (s.toList.splitOn bar)[before.length]? = some piece := by
    rw [h, List.getElem?_append_right (Nat.le_refl _), Nat.sub_self]
    rfl
  obtain ⟨rest, hrest⟩ := exists_intercalate_eq hget
  have hbefore : textBefore (s.toList.splitOn bar) before.length = barred before := by
    rw [textBefore, h, List.take_left]
    rfl
  refine ⟨rest, ?_⟩
  rw [← hbefore, ← hrest, List.intercalate_splitOn]

/-! ## The piece that decides -/

/-- `readFrom` reads the pieces behind others from the place behind those on. -/
theorem readFrom_append (start : Nat) (before pieces : List (List Char)) :
    readFrom start (before ++ pieces) =
      readFrom start before ++ readFrom (start + startBehind before) pieces := by
  induction before generalizing start with
  | nil => rfl
  | cons q before ih =>
    have hstart : start + byteLength q + bar.utf8Size + startBehind before =
        start + startBehind (q :: before) := by
      simp [startBehind, barred]
      omega
    rw [List.cons_append, readFrom_cons, readFrom_cons, ih, hstart, List.cons_append]

/-- Where no piece `IsMalformed`, none is read as malformed. -/
theorem findSome?_readFrom_eq_none (h : ∀ q ∈ pieces, ¬IsMalformed q) (start : Nat) :
    (readFrom start pieces).findSome? Piece.malformation? = none := by
  induction pieces generalizing start with
  | nil => rfl
  | cons q pieces ih =>
    have hq : (readPiece start q).malformation? = none :=
      malformation?_readPiece_eq_none_iff.2 (h q List.mem_cons_self)
    rw [readFrom_cons, List.findSome?_cons, hq]
    exact ih (fun p hp => h p (List.mem_cons_of_mem _ hp)) _

/-- Where every piece is a term (`h`), all have terms by `Piece.toTerm`. -/
theorem exists_mapM_readFrom (h : ∀ q ∈ pieces, IsTermText (strip q)) (start : Nat) :
    ∃ terms, (readFrom start pieces).mapM (Piece.toTerm s) = .ok terms := by
  induction pieces generalizing start with
  | nil => exact ⟨[], rfl⟩
  | cons q pieces ih =>
    obtain ⟨name, isArray, ht⟩ := exists_isTerm_iff.2 (h q List.mem_cons_self)
    have hq : readPiece start q = .term ⟨name, isArray, strippedSpan start q⟩ :=
      readPiece_eq_term_iff.2 ⟨ht, rfl⟩
    obtain ⟨terms, hterms⟩ := ih (fun p hp => h p (List.mem_cons_of_mem _ hp))
      (start + byteLength q + bar.utf8Size)
    rw [readFrom_cons, hq, List.mapM_cons, hterms]
    exact ⟨_, rfl⟩

/-- A piece that is no term (`h`) has an error instead, by `Piece.toTerm`. -/
theorem exists_toTerm_eq_error (h : ¬IsTermText (strip piece)) (start : Nat) :
    ∃ e, (readPiece start piece).toTerm s = .error e := by
  cases hterm : (readPiece start piece).toTerm s with
  | error e => exact ⟨e, rfl⟩
  | ok t =>
    have ht := (readPiece_eq_term_iff.1 (toTerm_eq_ok_iff.1 hterm)).1
    exact absurd (exists_isTerm_iff.1 ⟨_, _, ht⟩) h

/-- `parse` fails at the first piece that is read as malformed. -/
theorem parse_of_malformation {position : Nat} {expected : Expectation}
    (h : (readPieces s).findSome? Piece.malformation? = some (position, expected)) :
    parse s = .error (.malformedDeclaration s position expected) := by
  unfold parse
  rw [h]

/-- Where no piece is read as malformed (`h`), `parse` fails at the first one without a term. -/
theorem parse_of_mapM_eq_error (h : (readPieces s).findSome? Piece.malformation? = none)
    (he : (readPieces s).mapM (Piece.toTerm s) = .error e) : parse s = .error e := by
  unfold parse
  rw [h]
  dsimp only
  split
  · next e' he' =>
    obtain rfl : e' = e := Except.error.inj (he'.symm.trans he)
    rfl
  · next terms hok => rw [he] at hok; cases hok

/-- The piece that `Decides` has an error, and `parse` fails with it. -/
theorem Decides.exists_error (hd : Decides before piece after)
    (h : s.toList.splitOn bar = before ++ piece :: after) :
    ∃ e, (readPiece (startBehind before) piece).toTerm s = .error e ∧ parse s = .error e := by
  have hread := readPieces_eq_readFrom s
  rw [h, readFrom_append, readFrom_cons, Nat.zero_add] at hread
  -- As `parse` looks for malformed pieces first, each way to decide is one of its two phases.
  cases hd with
  | malformed hbefore hpiece =>
    obtain ⟨front, left, -, -, expected, -, hstop⟩ := hpiece.stopsSoundly
    rw [hstop] at hread ⊢
    refine ⟨_, rfl, parse_of_malformation ?_⟩
    -- It is the first piece that is read as malformed.
    rw [hread, List.findSome?_append, findSome?_readFrom_eq_none hbefore]
    rfl
  | wellFormed hall hbefore hpiece =>
    obtain ⟨e, he⟩ := exists_toTerm_eq_error (s := s) hpiece (startBehind before)
    obtain ⟨terms, hterms⟩ := exists_mapM_readFrom (s := s) hbefore 0
    -- No piece is read as malformed, and all in front of this one have terms.
    refine ⟨e, he, parse_of_mapM_eq_error ?_ ?_⟩
    · rw [readPieces_eq_readFrom, h, findSome?_readFrom_eq_none hall]
    · rw [hread, List.mapM_append, hterms, List.mapM_cons, he]
      rfl

/-- A list with an item of the kind `p` has a first one. -/
theorem exists_first {p : List Char → Prop} (h : ∃ q ∈ pieces, p q) :
    ∃ before piece after, pieces = before ++ piece :: after ∧ p piece ∧ ∀ q ∈ before, ¬p q := by
  classical
  obtain ⟨piece, hfind⟩ : ∃ piece, pieces.find? (fun q => decide (p q)) = some piece := by
    rw [← Option.isSome_iff_exists, List.find?_isSome]
    simpa using h
  obtain ⟨hpiece, before, after, hsplit, hbefore⟩ := List.find?_eq_some_iff_append.1 hfind
  exact ⟨before, piece, after, hsplit, by simpa using hpiece, by simpa using hbefore⟩

/-- Where a piece is no term, some piece `Decides`. -/
theorem exists_decides (h : ∃ q ∈ pieces, ¬IsTermText (strip q)) :
    ∃ before piece after, pieces = before ++ piece :: after ∧ Decides before piece after := by
  -- A malformed piece counts first, wherever it stands among the others.
  by_cases hm : ∃ q ∈ pieces, IsMalformed q
  · obtain ⟨before, piece, after, hsplit, hpiece, hbefore⟩ := exists_first hm
    exact ⟨before, piece, after, hsplit, .malformed hbefore hpiece⟩
  · obtain ⟨before, piece, after, hsplit, hpiece, hbefore⟩ := exists_first h
    have hall : ∀ q ∈ before ++ piece :: after, ¬IsMalformed q :=
      fun q hq hmq => hm ⟨q, hsplit ▸ hq, hmq⟩
    exact ⟨before, piece, after, hsplit, .wellFormed hall (fun q hq => not_not.1 (hbefore q hq))
      hpiece⟩

/-- Whatever piece `Decides`, it is no term. -/
theorem Decides.not_isTermText (h : Decides before piece after) : ¬IsTermText (strip piece) := by
  cases h with
  | malformed _ hpiece => exact hpiece.not_term
  | wellFormed _ _ hpiece => exact hpiece

/-- `parse` fails if and only if some piece `Decides` so. -/
theorem parse_eq_error_iff : parse s = .error e ↔ ∃ before piece after,
    s.toList.splitOn bar = before ++ piece :: after ∧ Decides before piece after ∧
      (readPiece (startBehind before) piece).toTerm s = .error e := by
  constructor
  · intro h
    have hno : ¬∀ q ∈ s.toList.splitOn bar, IsTermText (strip q) := by
      rw [← exists_parse_eq_ok_iff]
      rintro ⟨expr, hok⟩
      rw [h] at hok
      cases hok
    push Not at hno
    obtain ⟨before, piece, after, hsplit, hd⟩ := exists_decides hno
    obtain ⟨e', he', hparse⟩ := hd.exists_error hsplit
    obtain rfl : e = e' := Except.error.inj (h.symm.trans hparse)
    exact ⟨before, piece, after, hsplit, hd, he'⟩
  · rintro ⟨before, piece, after, hsplit, hd, he⟩
    obtain ⟨e', he', hparse⟩ := hd.exists_error hsplit
    obtain rfl : e' = e := Except.error.inj (he'.symm.trans he)
    exact hparse

/-- A declaration is a syntax error if and only if some piece of it `IsMalformed`. -/
theorem isSyntaxError_iff : IsSyntaxError s ↔ ∃ q ∈ s.toList.splitOn bar, IsMalformed q := by
  constructor
  · rintro ⟨position, expected, h⟩
    obtain ⟨before, piece, after, hsplit, -, he⟩ := parse_eq_error_iff.1 h
    refine ⟨piece, hsplit ▸ List.mem_append_cons_self, ?_⟩
    by_contra hpiece
    have hread : (readPiece (startBehind before) piece).malformation? = none :=
      malformation?_readPiece_eq_none_iff.2 hpiece
    -- All other kinds of pieces have errors of their own.
    generalize readPiece (startBehind before) piece = read at he hread
    cases read with
    | malformed => cases hread
    | term => cases he
    | empty => cases he
    | bareSuffix => cases he
  · intro h
    obtain ⟨before, piece, after, hsplit, hpiece, hbefore⟩ := exists_first h
    obtain ⟨e, he, hparse⟩ := (Decides.malformed hbefore hpiece).exists_error hsplit
    obtain ⟨front, left, -, -, expected, -, hread⟩ := hpiece.stopsSoundly
    rw [hread] at he
    cases he
    exact ⟨_, _, hparse⟩

/-! ## Where the error is -/

/-- What is known of the place `position` in `s` where reading stops, in a piece that stands between
`start` and `stop`. -/
structure StopsAt (s : String) (start stop position : Nat) (expected : Expectation) : Prop where
  start_le : start ≤ position
  le_stop : position ≤ stop
  isValid : String.Pos.Raw.IsValid s ⟨position⟩
  /-- What has been read can be completed to a text that is no syntax error. -/
  completes : ∃ more, ¬IsSyntaxError (String.Pos.Raw.extract s 0 ⟨position⟩ ++ more)
  /-- Whatever follows the piece, reading stops there. -/
  stays : ∀ rest, (rest = "" ∨ ∃ more, rest = "|" ++ more) →
    parse (String.Pos.Raw.extract s 0 ⟨stop⟩ ++ rest) = .error
      (.malformedDeclaration (String.Pos.Raw.extract s 0 ⟨stop⟩ ++ rest) position expected)

/-- The place behind a beginning `front` of a text is one between characters, and `front` is what
stands in front of it. -/
theorem extract_zero {front left : List Char} (h : s.toList = front ++ left) :
    String.Pos.Raw.IsValid s ⟨byteLength front⟩ ∧
      String.Pos.Raw.extract s 0 ⟨byteLength front⟩ = String.ofList front := by
  have hnil : s.toList = [] ++ (front ++ left) := h
  obtain ⟨-, hvalid, hextract⟩ := extract_of_toList_eq hnil
  rw [byteLength_nil, Nat.zero_add] at hvalid hextract
  exact ⟨hvalid, hextract⟩

/-- `parse` stops in the first malformed piece, and there `StopsAt` holds. -/
theorem exists_stopsAt (h : s.toList.splitOn bar = before ++ piece :: after)
    (hbefore : ∀ q ∈ before, ¬IsMalformed q) (hpiece : IsMalformed piece) :
    ∃ position expected, parse s = .error (.malformedDeclaration s position expected) ∧
      StopsAt s (startBehind before) (startBehind before + byteLength piece) position expected := by
  have hbars : ∀ q ∈ before, bar ∉ q := fun q hq =>
    bar_notMem_of_mem_splitOn (h ▸ List.mem_append_left _ hq)
  have hbar : bar ∉ piece := bar_notMem_of_mem_splitOn (h ▸ List.mem_append_cons_self)
  obtain ⟨rest, htext⟩ := exists_toList_eq h
  obtain ⟨front, left, hfront, ⟨more, hmore, hsound⟩, expected, -, hread⟩ := hpiece.stopsSoundly
  -- A text with the same pieces up to this one stops at the same place.
  have hparse {t : String} {after' : List (List Char)}
      (ht : t.toList.splitOn bar = before ++ piece :: after') :
      parse t = .error (.malformedDeclaration t (startBehind before + byteLength front)
        (expected (startBehind before))) := by
    obtain ⟨e, he, hparse⟩ := (Decides.malformed hbefore hpiece).exists_error ht
    rw [hread] at he
    cases he
    exact hparse
  have hread : s.toList = (barred before ++ front) ++ (left ++ rest) := by
    rw [htext, hfront]
    simp
  have hwhole : s.toList = (barred before ++ piece) ++ rest := by
    rw [htext, List.append_assoc]
  obtain ⟨hvalid, hupto⟩ := extract_zero hread
  obtain ⟨-, hpast⟩ := extract_zero hwhole
  rw [byteLength_append] at hvalid hupto hpast
  refine ⟨_, _, hparse h, ?_, ?_, hvalid, ⟨String.ofList more, ?_⟩, ?_⟩
  · exact Nat.le_add_right _ _
  · rw [hfront, byteLength_append]
    omega
  · -- In the completed text this piece is the last one, and like those in front of it is sound.
    have hbar' : bar ∉ front ++ more := by
      rw [hfront, List.mem_append, not_or] at hbar
      simp [hbar.1, hmore]
    rw [isSyntaxError_iff, startBehind, hupto, String.toList_append, String.toList_ofList,
      String.toList_ofList, List.append_assoc, splitOn_barred_append hbars,
      List.splitOn_eq_singleton hbar']
    rintro ⟨q, hq, hm⟩
    rcases List.mem_append.1 hq with hq | hq
    · exact hbefore q hq hm
    · exact hsound (List.mem_singleton.1 hq ▸ hm)
  · intro rest' hrest'
    have hends : rest'.toList = [] ∨ ∃ more, rest'.toList = bar :: more := by
      rcases hrest' with rfl | ⟨more, rfl⟩
      · exact .inl rfl
      · exact .inr ⟨more.toList, by simp [bar]⟩
    obtain ⟨after', hafter'⟩ := exists_splitOn_append hbar hends
    have hsplit : (String.Pos.Raw.extract s 0 ⟨startBehind before + byteLength piece⟩ ++
        rest').toList.splitOn bar = before ++ piece :: after' := by
      rw [startBehind, hpast, String.toList_append, String.toList_ofList, List.append_assoc,
        splitOn_barred_append hbars, hafter']
    exact hparse hsplit

/-- A piece that is no term (`hterm`) and not malformed (`hm`) is empty or a bare suffix, and is
reported as what it is. -/
theorem toTerm_of_not_isMalformed (hterm : ¬IsTermText (strip piece)) (hm : ¬IsMalformed piece)
    (start : Nat) (s : String) :
    strip piece = [] ∧ (readPiece start piece).toTerm s =
        .error (.emptyMember s ⟨start, start + byteLength piece⟩) ∨
      strip piece = arraySuffix.toList ∧ (readPiece start piece).toTerm s =
        .error (.bareArraySuffix s ⟨start + byteLength (piece.takeWhile isPadding),
          start + byteLength (piece.takeWhile isPadding) + 2⟩) := by
  by_cases hnil : strip piece = []
  · refine .inl ⟨hnil, ?_⟩
    rw [readPiece_of_strip_eq_nil hnil]
    rfl
  · have hsuffix : strip piece = arraySuffix.toList := by
      by_contra hne
      exact hm ⟨hnil, hne, hterm⟩
    refine .inr ⟨hsuffix, ?_⟩
    rw [readPiece_of_strip_eq_suffix hsuffix]
    rfl

/-- A text that is no declaration by `parse` is a syntax error if some piece of it `IsMalformed`,
whatever the others are. The error marks one byte at a place in the first malformed piece, or at its
end: the text up to there could still be completed, and the place stays whatever stands behind the
piece (`StopsAt`). Otherwise the first piece that is no term is empty or a bare suffix. The error
marks all of an empty piece, and the two brackets of a bare suffix. -/
theorem parse_eq_error_classified (h : parse s = .error e) :
    ((∃ q ∈ s.toList.splitOn bar, IsMalformed q) →
      ∃ before piece after position expected,
        s.toList.splitOn bar = before ++ piece :: after ∧
        (∀ q ∈ before, ¬IsMalformed q) ∧ IsMalformed piece ∧
        e = .malformedDeclaration s position expected ∧ e.span = ⟨position, position + 1⟩ ∧
        StopsAt s (startBehind before) (startBehind before + byteLength piece) position
          expected) ∧
    ((∀ q ∈ s.toList.splitOn bar, ¬IsMalformed q) →
      ∃ before piece after,
        s.toList.splitOn bar = before ++ piece :: after ∧
        (∀ q ∈ before, IsTermText (strip q)) ∧
        ((∃ start stop, start = startBehind before ∧ stop = start + byteLength piece ∧
            strip piece = [] ∧ e = .emptyMember s ⟨start, stop⟩ ∧
            String.Pos.Raw.extract s ⟨start⟩ ⟨stop⟩ = String.ofList piece) ∨
          ∃ start, start = startBehind before + byteLength (piece.takeWhile isPadding) ∧
            strip piece = "[]".toList ∧ e = .bareArraySuffix s ⟨start, start + 2⟩ ∧
            String.Pos.Raw.extract s ⟨start⟩ ⟨start + 2⟩ = "[]")) := by
  constructor
  · intro hm
    obtain ⟨before, piece, after, hsplit, hpiece, hbefore⟩ := exists_first hm
    obtain ⟨position, expected, hparse, hstops⟩ := exists_stopsAt hsplit hbefore hpiece
    obtain rfl : e = _ := Except.error.inj (h.symm.trans hparse)
    exact ⟨before, piece, after, position, expected, hsplit, hbefore, hpiece, rfl, rfl, hstops⟩
  · intro hm
    obtain ⟨before, piece, after, hsplit, hd, he⟩ := parse_eq_error_iff.1 h
    have hpiece : ¬IsMalformed piece := hm piece (hsplit ▸ List.mem_append_cons_self)
    obtain ⟨rest, htext⟩ := exists_toList_eq hsplit
    cases hd with
    | malformed hbefore hbad => exact absurd hbad hpiece
    | wellFormed hall hbefore hterm =>
      refine ⟨before, piece, after, hsplit, hbefore, ?_⟩
      refine (toTerm_of_not_isMalformed hterm hpiece (startBehind before) s).imp ?_ ?_
      · rintro ⟨hnil, herr⟩
        obtain rfl : e = _ := Except.error.inj (he.symm.trans herr)
        exact ⟨_, _, rfl, rfl, hnil, rfl, (extract_of_toList_eq htext).2.2⟩
      · rintro ⟨hsuffix, herr⟩
        obtain rfl : e = _ := Except.error.inj (he.symm.trans herr)
        refine ⟨_, rfl, hsuffix, rfl, ?_⟩
        -- The brackets stand between the blanks in front of them and those behind.
        have hbrackets : s.toList = (barred before ++ piece.takeWhile isPadding) ++
            (arraySuffix.toList ++ ((skipPadding piece).rtakeWhile isPadding ++ rest)) := by
          rw [htext, ← hsuffix]
          conv_lhs => rw [eq_append_strip_append piece]
          simp only [List.append_assoc]
        obtain ⟨-, -, hextract⟩ := extract_of_toList_eq hbrackets
        rw [byteLength_append] at hextract
        exact hextract

/-- A syntax error between two other faults, and an empty member in front of a bare suffix. -/
theorem parse_eq_error_classified_faults :
    (∃ e, parse "[]|É \\|int|" = .error e ∧ e.span = ⟨6, 7⟩ ∧
      ∃ more, ¬IsSyntaxError ("[]|É " ++ more)) ∧
    ∃ e, parse "int| |[]" = .error e ∧ e.span = ⟨4, 5⟩ ∧
      ∃ before after, "int| |[]".toList.splitOn bar = before ++ [' '] :: after ∧
        ∀ q ∈ before, IsTermText (strip q) := by
  constructor
  · have h : parse "[]|É \\|int|" = .error (.malformedDeclaration "[]|É \\|int|" 6 .memberEnd) := by
      rfl
    obtain ⟨_, _, _, position, expected, -, -, -, he, -, hstops⟩ :=
      (parse_eq_error_classified h).1 (by decide)
    obtain ⟨rfl, rfl⟩ : 6 = position ∧ .memberEnd = expected := by simpa using he
    exact ⟨_, h, rfl, hstops.completes⟩
  · have h : parse "int| |[]" = .error (.emptyMember "int| |[]" ⟨4, 5⟩) := by rfl
    obtain ⟨before, piece, after, hsplit, hbefore, hfault⟩ :=
      (parse_eq_error_classified h).2 (by decide)
    rcases hfault with ⟨start, stop, -, -, -, he, hpiece⟩ | ⟨start, -, -, he, -⟩
    · obtain ⟨rfl, rfl⟩ : 4 = start ∧ 5 = stop := by simpa using he
      have hblank : String.ofList [' '] = String.ofList piece := hpiece
      obtain rfl : [' '] = piece := String.ofList_inj.1 hblank
      exact ⟨_, h, rfl, before, after, hsplit, hbefore⟩
    · cases he

end DocTypes.TypeExpr

import DocTypes.Proofs.PieceBoundary
import DocTypes.Proofs.TermMatch

/-!
# Members as the grammar matches them

`readPiece` reads a piece by itself, and `alternative` matches it at the front of all that is left
of the declaration. `run_alternative` says that the two agree: a piece that is not malformed is
matched to its end, and `termOf` reads off the match what `readPiece` says; behind a malformed one
matching is stuck at the place that `readPiece` gives (`IsStuck`), once the end of the text is tried
in vain. There is one lemma for each way that a piece may begin: with a name and the suffix, with a
name only, with the suffix, with neither.
-/

namespace DocTypes.Grammar

open Lexeme TypeExpr

variable {cs left tail : List Char} {a : Attempts Rule} {name : Name}

/-! ## Members -/

/-- An `alternative` with a term is what `term` takes, between blanks. -/
theorem run_alternative_of_some {trees : List (Tree Rule)} {a' : Attempts Rule}
    (h : term.run false (skipPadding cs) a = (some ⟨left, trees⟩, a')) :
    alternative.run false cs a =
      (some ⟨skipPadding left, [.node .alternative cs (skipPadding left) trees]⟩, a') := by
  have hinner : (Expr.seq (.optional term) padding).run false (skipPadding cs) a =
      (some ⟨skipPadding left, trees⟩, a') := by
    rw [Expr.run_seq_of_some (Expr.run_optional_of_some h), Expr.run_padding, Option.map_some,
      List.append_nil]
  have hbody : (Expr.seq padding (.seq (.optional term) padding)).run false cs a =
      (some ⟨skipPadding left, trees⟩, a') := by
    rw [Expr.run_seq_of_leaf (Expr.run_padding false cs a), hinner]
  exact Expr.run_rule_of_some .normal hbody

/-- An `alternative` without a term is blank. -/
theorem run_alternative_of_none {a' : Attempts Rule}
    (h : term.run false (skipPadding cs) a = (none, a')) :
    alternative.run false cs a =
      (some ⟨skipPadding cs, [.node .alternative cs (skipPadding cs) []]⟩, a') := by
  have hskip : (skipPadding cs).dropWhile isPadding = skipPadding cs :=
    List.dropWhile_idempotent _ _
  have hinner : (Expr.seq (.optional term) padding).run false (skipPadding cs) a =
      (some ⟨skipPadding cs, []⟩, a') := by
    rw [Expr.run_seq_of_leaf (Expr.run_optional_of_none h), Expr.run_padding, skipPadding, hskip]
  have hbody : (Expr.seq padding (.seq (.optional term) padding)).run false cs a =
      (some ⟨skipPadding cs, []⟩, a') := by
    rw [Expr.run_seq_of_leaf (Expr.run_padding false cs a), hinner]
  exact Expr.run_rule_of_some .normal hbody

/-! ## Members and pieces -/

/-- The rules that were tried where something else was expected, in the order of `Rule.all`. This is
the table behind the places and the advice of `readPiece`. -/
def triedFor : Expectation → List Rule
  | .typeName => [.namePath]
  | .type => [.declaration]
  | .typeOrEnd => [.term, .endOfInput]
  | .suffixOrEnd => [.arraySuffix, .endOfInput]
  | .memberEnd => [.endOfInput]

/-- Inside `declaration` the matching of `source` got stuck at the byte `position`. Whether a term
is missing at the very start of the text does not show in the rules yet. -/
structure IsStuck (source : String) (a : Attempts Rule) (position : Nat)
    (expected : Expectation) : Prop where
  split : ∃ front, source.toList = front ++ a.left ∧ byteLength front = position
  rules : position ≠ 0 ∧ a.rules = triedFor expected ∨
    a.rules = [.term, .endOfInput] ∧ expected = if position = 0 then .type else .typeOrEnd

/-- How the match of a member fits what its piece was read as. The match leaves `left` of the piece
over, and the node `t`. A member that is not `malformed` is matched to its end, and its node says by
`termOf` what the piece does by `toTerm`. Behind any other member the end of the text is tried in
vain. -/
def Fits (source : String) (left tail : List Char) (t : Tree Rule) (a : Attempts Rule) :
    Piece → Prop
  | .malformed position expected => left ≠ [] ∧
      IsStuck source (a.track a .endOfInput (left ++ tail)) position expected
  | piece => left = [] ∧ tail.length ≤ a.left.length ∧ termOf source t = piece.toTerm source

/-- In front of `tail` the rule `alternative` takes the piece, but for what is `left` of it, and the
match `Fits` what `readPiece` makes of the piece. -/
def MatchesPiece (source : String) (before piece tail : List Char) (a : Attempts Rule) : Prop :=
  ∃ left t a', left <:+ piece ∧ t.rule = .alternative ∧
    alternative.run false (piece ++ tail) a = (some ⟨left ++ tail, [t]⟩, a') ∧
    Fits source left tail t a' (readPiece (byteLength before) piece)

/-- `termOf` of a member with a name and the suffix. -/
theorem termOf_of_suffix (source : String) (t : Tree Rule) (hne : t.rule ≠ .arraySuffix)
    (b e b' e' cs left : List Char) :
    termOf source (.node .alternative cs left
        [.node .term b e [t, .node .arraySuffix b' e' []]]) =
      .ok ⟨nameOf t, true, placeOf source b, placeOf source e⟩ := by
  have hnames : [t, .node .arraySuffix b' e' []].filter (·.rule ≠ .arraySuffix) = [t] := by
    rw [List.filter_cons_of_pos (by simpa using hne)]
    rfl
  have harray : [t, .node .arraySuffix b' e' []].any (·.rule = .arraySuffix) = true := by
    simp [Tree.rule]
  simp only [termOf, Tree.children, hnames, harray, List.getLast?_singleton]
  rfl

/-- `termOf` of a member with a name only. -/
theorem termOf_of_name (source : String) (t : Tree Rule) (hne : t.rule ≠ .arraySuffix)
    (b e cs left : List Char) :
    termOf source (.node .alternative cs left [.node .term b e [t]]) =
      .ok ⟨nameOf t, false, placeOf source b, placeOf source e⟩ := by
  have hnames : [t].filter (·.rule ≠ .arraySuffix) = [t] := by
    rw [List.filter_cons_of_pos (by simpa using hne), List.filter_nil]
  have harray : [t].any (·.rule = .arraySuffix) = false := by simp [hne]
  simp only [termOf, Tree.children, hnames, harray, List.getLast?_singleton]
  rfl

/-- `termOf` rejects a member with the suffix only. -/
theorem termOf_of_bareSuffix (source : String) (b e b' e' cs left : List Char) :
    termOf source (.node .alternative cs left [.node .term b e [.node .arraySuffix b' e' []]]) =
      .error (.bareArraySuffix source ⟨placeOf source b, placeOf source e⟩) := rfl

/-- `termOf` rejects a blank member. -/
theorem termOf_of_blank (source : String) (cs left : List Char) :
    termOf source (.node .alternative cs left []) =
      .error (.emptyMember source ⟨placeOf source cs, placeOf source left⟩) := rfl

/-- What `readName?` leaves is the end of the text. -/
theorem suffix_of_readName? (h : readName? cs = some (name, left)) : left <:+ cs := by
  obtain ⟨word, rfl, -⟩ := isName_of_readName? h
  exact List.suffix_append word left

/-- Behind a name, less is left than the piece, and it is the end of the piece. -/
theorem suffix_and_length_lt_of_readName? {piece afterName : List Char}
    (h : readName? (skipPadding piece) = some (name, afterName)) :
    afterName <:+ piece ∧ afterName.length < piece.length :=
  ⟨(suffix_of_readName? h).trans (skipPadding_suffix piece),
    Nat.lt_of_lt_of_le (length_lt_of_readName? h) (skipPadding_suffix piece).length_le⟩

section Member

variable {source : String} {before piece : List Char}
  (htext : source.toList = before ++ (piece ++ tail))
include htext

/-- `placeOf` a part of a piece, counted from the start of the text. -/
theorem placeOf_append (left : List Char) : placeOf source (left ++ tail) =
    byteLength before + byteLength piece - byteLength left := by
  rw [placeOf, htext]
  simp only [byteLength_append]
  omega

/-- What stands in front of a part of a piece ends at its `placeOf`. -/
theorem exists_front (hleft : left <:+ piece) : ∃ front, source.toList = front ++ (left ++ tail) ∧
    byteLength front = byteLength before + byteLength piece - byteLength left := by
  obtain ⟨front, rfl⟩ := hleft
  refine ⟨before ++ front, by rw [htext]; simp only [List.append_assoc], ?_⟩
  simp only [byteLength_append]
  omega

/-- `IsStuck` in a piece behind its start (`hlength`), where the rules `triedFor` an expectation
were tried. -/
theorem isStuck_of_suffix (hleft : left <:+ piece) (hlength : left.length < piece.length)
    (expected : Expectation) : IsStuck source ⟨left ++ tail, triedFor expected⟩
      (byteLength before + byteLength piece - byteLength left) expected := by
  refine ⟨exists_front htext hleft, .inl ⟨?_, rfl⟩⟩
  obtain ⟨front, rfl⟩ := hleft
  have hfront : front ≠ [] := by
    rintro rfl
    simp at hlength
  have hpos : byteLength front ≠ 0 := fun h => hfront (byteLength_eq_zero_iff.1 h)
  simp only [byteLength_append]
  omega

/-- `IsStuck` where `term` or `endOfInput` was tried. -/
theorem isStuck_of_term (hleft : left <:+ piece) :
    IsStuck source ⟨left ++ tail, [.term, .endOfInput]⟩
      (byteLength before + byteLength piece - byteLength left)
      (if byteLength before + byteLength piece - byteLength left = 0 then .type else .typeOrEnd) :=
  ⟨exists_front htext hleft, .inr ⟨rfl, rfl⟩⟩

/-- `Fits` where something stands behind the term of a member and blanks that does not belong
there. -/
theorem fits_memberEnd {c : Char} {rest : List Char} {a' : Attempts Rule} {t : Tree Rule}
    (ha : a'.ClearAt (c :: rest ++ tail)) (hleft : c :: rest <:+ piece)
    (hlength : (c :: rest).length < piece.length) :
    Fits source (c :: rest) tail t a' (.malformed
      (byteLength before + byteLength piece - byteLength (c :: rest)) .memberEnd) := by
  refine ⟨List.cons_ne_nil c rest, ?_⟩
  rw [Attempts.track_of_clearAt ha]
  exact isStuck_of_suffix htext hleft hlength .memberEnd

/-- So it is behind blanks, if no rule has failed behind the term. -/
theorem fits_of_skipPadding {afterTerm rest : List Char} {c : Char} {a' : Attempts Rule}
    (ha : a'.ClearAt (afterTerm ++ tail)) (hafter : afterTerm <:+ piece)
    (hlength : afterTerm.length < piece.length) (hrest : skipPadding afterTerm = c :: rest)
    (t : Tree Rule) : Fits source (c :: rest) tail t a' (.malformed
      (byteLength before + byteLength piece - byteLength (c :: rest)) .memberEnd) := by
  have hleft : c :: rest <:+ afterTerm := hrest ▸ skipPadding_suffix afterTerm
  have hclear : a'.ClearAt (c :: rest ++ tail) := by
    refine ha.of_le ?_
    rw [List.length_append, List.length_append]
    exact Nat.add_le_add_right hleft.length_le _
  exact fits_memberEnd htext hclear (hleft.trans hafter)
    (Nat.lt_of_le_of_lt hleft.length_le hlength)

variable (htail : EndsPiece tail)

include htail in
omit htext in
/-- A member with a term, of which `afterTerm` is left over. But for blanks the term reaches to the
end of the piece (`hend`), or something stands there that does not belong there (`hstuck`). -/
theorem run_alternative_of_term {afterTerm : List Char} {trees : List (Tree Rule)}
    {a' : Attempts Rule} (last : Piece) (hlast : last.malformation? = none)
    (hterm : term.run false (skipPadding piece ++ tail) a = (some ⟨afterTerm ++ tail, trees⟩, a'))
    (hafter : afterTerm <:+ piece)
    (hend : skipPadding afterTerm = [] → readPiece (byteLength before) piece = last ∧
      tail.length ≤ a'.left.length ∧
      termOf source (.node .alternative (piece ++ tail) tail trees) = last.toTerm source)
    (hstuck : ∀ c rest, skipPadding afterTerm = c :: rest → ∀ t,
      Fits source (c :: rest) tail t a' (readPiece (byteLength before) piece)) :
    MatchesPiece source before piece tail a := by
  have hskip := skipPadding_append_of_endsPiece htail
  rw [← hskip] at hterm
  have hrun := run_alternative_of_some hterm
  rw [hskip] at hrun
  refine ⟨skipPadding afterTerm, _, a', (skipPadding_suffix afterTerm).trans hafter, rfl, hrun, ?_⟩
  -- Nothing behind the blanks, or a character that no rule takes.
  cases hrest : skipPadding afterTerm with
  | nil =>
    obtain ⟨hread, hlength, hsame⟩ := hend hrest
    rw [hread]
    cases last with
    | malformed => cases hlast
    | _ => exact ⟨rfl, hlength, hsame⟩
  | cons c rest => exact hstuck c rest hrest _

include htail

/-- A piece with a name and the suffix behind it. -/
theorem run_alternative_of_suffix {afterName afterSuffix : List Char}
    (ha : a.ClearAt (skipPadding piece ++ tail))
    (hname : readName? (skipPadding piece) = some (name, afterName))
    (hsuffix : afterWord? TypeExpr.arraySuffix afterName = some afterSuffix) :
    MatchesPiece source before piece tail a := by
  have hplace := placeOf_append htext
  have hnameTail : readName? (skipPadding piece ++ tail) = some (name, afterName ++ tail) := by
    rw [readName?_append_of_endsPiece htail, hname, Option.map_some]
  have hsuffixTail : afterWord? TypeExpr.arraySuffix (afterName ++ tail) =
      some (afterSuffix ++ tail) := by
    rw [afterWord?_append_of_endsPiece htail (by decide), hsuffix, Option.map_some]
  obtain ⟨t, a', hterm, hclear, ht, hne⟩ := run_term_of_suffix ha hnameTail hsuffixTail
  obtain ⟨hafterName, hshort⟩ := suffix_and_length_lt_of_readName? hname
  have hleft : afterSuffix <:+ afterName := suffix_of_afterWord? hsuffix
  refine run_alternative_of_term htail (.term ⟨name, true,
    byteLength before + byteLength piece - byteLength (skipPadding piece),
    byteLength before + byteLength piece - byteLength afterSuffix⟩) rfl hterm
    (hleft.trans hafterName) (fun hrest => ⟨?_, ?_, ?_⟩) fun c rest hrest t => ?_
  · -- The term reaches to the end of the piece.
    unfold readPiece
    simp only [hname, hsuffix, hrest]
  · exact (hclear.of_le (by simp)).2
  · rw [termOf_of_suffix source t hne, ht, hplace, hplace]
    rfl
  · have hread : readPiece (byteLength before) piece = .malformed
        (byteLength before + byteLength piece - byteLength (c :: rest)) .memberEnd := by
      unfold readPiece
      simp only [hname, hsuffix, hrest]
    rw [hread]
    exact fits_of_skipPadding htext hclear (hleft.trans hafterName)
      (Nat.lt_of_le_of_lt hleft.length_le hshort) hrest t

/-- A piece with a name and without the suffix, which has been tried behind the name. -/
theorem run_alternative_of_name {afterName : List Char}
    (ha : a.ClearAt (skipPadding piece ++ tail))
    (hname : readName? (skipPadding piece) = some (name, afterName))
    (hsuffix : afterWord? TypeExpr.arraySuffix afterName = none) :
    MatchesPiece source before piece tail a := by
  have hplace := placeOf_append htext
  have hnameTail : readName? (skipPadding piece ++ tail) = some (name, afterName ++ tail) := by
    rw [readName?_append_of_endsPiece htail, hname, Option.map_some]
  have hsuffixTail : afterWord? TypeExpr.arraySuffix (afterName ++ tail) = none := by
    rw [afterWord?_append_of_endsPiece htail (by decide), hsuffix, Option.map_none]
  obtain ⟨t, hterm, ht, hne⟩ := run_term_of_name ha hnameTail hsuffixTail
  obtain ⟨hafterName, hshort⟩ := suffix_and_length_lt_of_readName? hname
  refine run_alternative_of_term htail (.term ⟨name, false,
    byteLength before + byteLength piece - byteLength (skipPadding piece),
    byteLength before + byteLength piece - byteLength afterName⟩) rfl hterm hafterName
    (fun hrest => ⟨?_, by simp, ?_⟩) fun c rest hrest t => ?_
  · unfold readPiece
    simp only [hname, hsuffix, hrest]
  · rw [termOf_of_name source t hne, ht, hplace, hplace]
    rfl
  · have hread : readPiece (byteLength before) piece = .malformed
        (byteLength before + byteLength piece - byteLength (c :: rest))
        (if c :: rest = afterName then .suffixOrEnd else .memberEnd) := by
      unfold readPiece
      simp only [hname, hsuffix, hrest]
    have hleft : c :: rest <:+ afterName := hrest ▸ skipPadding_suffix afterName
    have hlength : (c :: rest).length < piece.length := Nat.lt_of_le_of_lt hleft.length_le hshort
    rw [hread]
    by_cases heq : c :: rest = afterName
    · -- The suffix has been tried at the same place.
      subst heq
      rw [if_pos rfl]
      refine ⟨List.cons_ne_nil c rest, ?_⟩
      rw [Attempts.track_mk]
      exact isStuck_of_suffix htext hafterName hlength .suffixOrEnd
    · -- It has been tried in front of the blanks.
      rw [if_neg heq]
      have hlt : (c :: rest).length < afterName.length :=
        Nat.lt_of_le_of_ne hleft.length_le fun h => heq (hleft.eq_of_length h)
      have hclear : Attempts.ClearAt ⟨afterName ++ tail, [Rule.arraySuffix]⟩
          (c :: rest ++ tail) :=
        Attempts.clearAt_of_lt (by simp only [List.length_append]; omega)
      exact fits_memberEnd htext hclear (hleft.trans hafterName) hlength

/-- A piece that starts with the suffix: behind it come blanks, and the end of the piece or
something that does not belong there. -/
theorem run_alternative_of_bareSuffix {afterSuffix : List Char}
    (ha : a.ClearAt (skipPadding piece ++ tail)) (hname : readName? (skipPadding piece) = none)
    (hsuffix : afterWord? TypeExpr.arraySuffix (skipPadding piece) = some afterSuffix) :
    MatchesPiece source before piece tail a := by
  have hplace := placeOf_append htext
  have hcs : skipPadding piece = '[' :: ']' :: afterSuffix := afterWord?_eq_some_iff.1 hsuffix
  have hbody : skipPadding piece <:+ piece := skipPadding_suffix piece
  have hlength : afterSuffix.length < piece.length := by
    have hbodyLength := hbody.length_le
    rw [hcs, List.length_cons, List.length_cons] at hbodyLength
    omega
  have hnameTail : readName? (skipPadding piece ++ tail) = none := by
    rw [readName?_append_of_endsPiece htail, hname, Option.map_none]
  have hsuffixTail : afterWord? TypeExpr.arraySuffix (skipPadding piece ++ tail) =
      some (afterSuffix ++ tail) := by
    rw [afterWord?_append_of_endsPiece htail (by decide), hsuffix, Option.map_some]
  obtain ⟨a', hterm, hclear⟩ := run_term_of_bareSuffix ha hnameTail hsuffixTail
  have hafter : afterSuffix <:+ piece := (suffix_of_afterWord? hsuffix).trans hbody
  refine run_alternative_of_term htail (.bareSuffix
    ⟨byteLength before + byteLength piece - byteLength (skipPadding piece),
      byteLength before + byteLength piece - byteLength afterSuffix⟩) rfl hterm hafter
    (fun hrest => ⟨?_, ?_, ?_⟩) fun c rest hrest t => ?_
  · unfold readPiece
    simp only [hname, hsuffix, hrest]
    rw [hcs]
    rfl
  · exact (hclear.of_le (by simp)).2
  · rw [termOf_of_bareSuffix, hplace, hplace]
    rfl
  · have hread : readPiece (byteLength before) piece = .malformed
        (byteLength before + byteLength piece - byteLength (c :: rest)) .memberEnd := by
      unfold readPiece
      simp only [hname, hsuffix, hrest]
      rw [hcs]
      rfl
    rw [hread]
    exact fits_of_skipPadding htext hclear hafter hlength hrest t

/-- A piece that starts with a separator and no path behind it. The path is missing there, which is
further on than the end of the match. -/
theorem run_alternative_of_separator {rest : List Char}
    (ha : a.ClearAt (skipPadding piece ++ tail)) (hname : readName? (skipPadding piece) = none)
    (hcs : skipPadding piece = '\\' :: rest) :
    MatchesPiece source before piece tail a := by
  have hbody : '\\' :: rest <:+ piece := hcs ▸ skipPadding_suffix piece
  have hnameTail : readName? ('\\' :: (rest ++ tail)) = none := by
    rw [← List.cons_append, ← hcs, readName?_append_of_endsPiece htail, hname, Option.map_none]
  rw [hcs, List.cons_append] at ha
  rw [hcs] at hname
  have hterm := run_term_of_separator ha hnameTail
  rw [← List.cons_append, ← hcs, ← skipPadding_append_of_endsPiece htail] at hterm
  have hrun := run_alternative_of_none hterm
  rw [skipPadding_append_of_endsPiece htail, hcs] at hrun
  have hread : readPiece (byteLength before) piece = .malformed
      (byteLength before + byteLength piece - byteLength rest) .typeName := by
    unfold readPiece
    simp only [hcs, hname]
  refine ⟨'\\' :: rest, _, _, hbody, rfl, hrun, ?_⟩
  rw [hread]
  refine ⟨List.cons_ne_nil _ rest, ?_⟩
  rw [Attempts.track_of_further (by simp)]
  exact isStuck_of_suffix htext ((List.suffix_cons _ rest).trans hbody)
    (Nat.lt_of_succ_le hbody.length_le) .typeName

/-- A piece that starts with nothing of a term: it is blank, or something stands there that does not
belong there. -/
theorem run_alternative_of_no_term (ha : a.ClearAt (skipPadding piece ++ tail))
    (hname : readName? (skipPadding piece) = none)
    (hsuffix : afterWord? TypeExpr.arraySuffix (skipPadding piece) = none)
    (hsep : ∀ rest, skipPadding piece ≠ '\\' :: rest) :
    MatchesPiece source before piece tail a := by
  have hplace := placeOf_append htext
  have hskip := skipPadding_append_of_endsPiece htail
  have hnameTail : readName? (skipPadding piece ++ tail) = none := by
    rw [readName?_append_of_endsPiece htail, hname, Option.map_none]
  have hsuffixTail : afterWord? TypeExpr.arraySuffix (skipPadding piece ++ tail) = none := by
    rw [afterWord?_append_of_endsPiece htail (by decide), hsuffix, Option.map_none]
  have hne : ∀ rest, skipPadding piece ++ tail ≠ '\\' :: rest := by
    intro rest heq
    cases hcs : skipPadding piece with
    | nil =>
      -- What ends a piece is no separator.
      rw [hcs, List.nil_append] at heq
      have hbar : '\\' = bar := htail '\\' (heq ▸ rfl)
      exact absurd hbar (by decide)
    | cons c cs =>
      rw [hcs, List.cons_append] at heq
      exact hsep cs (by rw [hcs, (List.cons.inj heq).1])
  have hterm := run_term_of_none ha hnameTail hsuffixTail hne
  rw [← hskip] at hterm
  have hrun := run_alternative_of_none hterm
  rw [hskip] at hrun
  refine ⟨skipPadding piece, _, _, skipPadding_suffix piece, rfl, hrun, ?_⟩
  cases hcs : skipPadding piece with
  | nil =>
    have hread : readPiece (byteLength before) piece =
        .empty ⟨byteLength before, byteLength before + byteLength piece⟩ := by
      rw [hcs] at hname
      unfold readPiece
      simp only [hcs, hname]
    rw [hread]
    refine ⟨rfl, Nat.le_refl _, ?_⟩
    rw [termOf_of_blank, hplace, hplace, Nat.add_sub_cancel]
    rfl
  | cons c rest =>
    have hread : readPiece (byteLength before) piece = .malformed
        (byteLength before + byteLength piece - byteLength (c :: rest))
        (if byteLength before + byteLength piece - byteLength (c :: rest) = 0 then .type
          else .typeOrEnd) := by
      have hc : c ≠ '\\' := fun h => hsep rest (by rw [hcs, h])
      rw [hcs] at hname hsuffix
      unfold readPiece
      simp only [hcs, hname, hsuffix]
      split
      · next heq => cases heq
      · next heq => exact absurd (List.cons.inj heq).1 hc
      · rfl
    rw [hread]
    refine ⟨List.cons_ne_nil c rest, ?_⟩
    rw [Attempts.track_mk]
    exact isStuck_of_term htext (hcs ▸ skipPadding_suffix piece)

/-- An `alternative` is matched as `readPiece` reads its piece. -/
theorem run_alternative (ha : a.ClearAt (piece ++ tail)) :
    MatchesPiece source before piece tail a := by
  have hclear : a.ClearAt (skipPadding piece ++ tail) := by
    rw [← skipPadding_append_of_endsPiece htail]
    exact ha.of_le (skipPadding_suffix _).length_le
  -- The cases of `readPiece`, in its order.
  cases hname : readName? (skipPadding piece) with
  | some found =>
    obtain ⟨name, afterName⟩ := found
    cases hsuffix : afterWord? TypeExpr.arraySuffix afterName with
    | some afterSuffix => exact run_alternative_of_suffix htext htail hclear hname hsuffix
    | none => exact run_alternative_of_name htext htail hclear hname hsuffix
  | none =>
    cases hsuffix : afterWord? TypeExpr.arraySuffix (skipPadding piece) with
    | some afterSuffix => exact run_alternative_of_bareSuffix htext htail hclear hname hsuffix
    | none =>
      by_cases hsep : ∃ rest, skipPadding piece = '\\' :: rest
      · obtain ⟨rest, hcs⟩ := hsep
        exact run_alternative_of_separator htext htail hclear hname hcs
      · exact run_alternative_of_no_term htext htail hclear hname hsuffix fun rest hcs =>
          hsep ⟨rest, hcs⟩

end Member

end DocTypes.Grammar

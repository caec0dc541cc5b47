import DocTypes.Proofs.ErrorPosition
import DocTypes.Proofs.MemberMatch

/-!
# Declarations as the grammar matches them

`TypeExpr.parse` cuts a text at its bars and reads each piece by itself. The grammar reads the same
text from left to right, member by member, and fails where neither a further member nor the end of
the text follows. The main statements are that this comes to the same. If `declaration` matches a
text, then `parse` gives the terms or the error that `termsOf` reads off the match
(`parse_of_declaration`). If it does not, then `parse` fails at the furthest place where a rule was
tried, with the advice that the rules tried there give (`parse_of_no_declaration`).
`exists_declaration_iff` says which texts are matched.

`run_members` is the induction on the members, with `run_alternative` for each of them.
-/

namespace DocTypes.Grammar

open Lexeme TypeExpr

/-! ## Whole declarations -/

/-- What follows the first `alternative`: further ones, and the end of the text. -/
def closing : Expr Rule := .seq furtherAlternatives endOfInput

/-- Each piece behind a `bar`. -/
def textBehind (pieces : List (List Char)) : List Char := pieces.flatMap (bar :: ·)

/-- What follows a piece, as `textBehind`, ends it. -/
theorem endsPiece_textBehind (pieces : List (List Char)) : EndsPiece (textBehind pieces) := by
  cases pieces with
  | nil => exact endsPiece_nil
  | cons piece pieces => exact endsPiece_bar _

/-- Pieces between bars are the first piece and `textBehind` the others. -/
theorem intercalate_eq_append_textBehind (piece : List Char) (pieces : List (List Char)) :
    [bar].intercalate (piece :: pieces) = piece ++ textBehind pieces := by
  induction pieces generalizing piece with
  | nil => simp [textBehind]
  | cons next pieces ih =>
    rw [List.intercalate_cons_cons, ih]
    simp [textBehind]

/-- At the end of the text `closing` takes nothing further. -/
theorem run_closing_nil (a : Attempts Rule) :
    closing.run false [] a = (some ⟨[], [.node .endOfInput [] [] []]⟩, a) := by
  have hmany : furtherAlternatives.run false [] a = (some ⟨[], []⟩, a) :=
    Expr.run_many_of_none (Expr.run_seq_of_none rfl)
  rw [closing, Expr.run_seq_of_leaf hmany, run_endOfInput_nil]

/-- Where neither a bar nor the end of the text follows, `closing` fails: `endOfInput` is tried in
vain. -/
theorem run_closing_of_ne {c : Char} (hc : c ≠ bar) (rest : List Char) (a : Attempts Rule) :
    closing.run false (c :: rest) a = (none, a.track a .endOfInput (c :: rest)) := by
  have hword : (Expr.word "|" : Expr Rule).run false (c :: rest) a = (none, a) := by
    have hread : afterWord? "|" (c :: rest) = none := if_neg (Ne.symm hc)
    rw [Expr.run, hread]
    rfl
  have hmany : furtherAlternatives.run false (c :: rest) a = (some ⟨c :: rest, []⟩, a) :=
    Expr.run_many_of_none (Expr.run_seq_of_none hword)
  rw [closing, Expr.run_seq_of_leaf hmany, run_endOfInput_of_ne (List.cons_ne_nil c rest)]

/-- Behind a bar `closing` takes an `alternative`, and then the rest. -/
theorem run_closing_bar {cs : List Char} {a a' : Attempts Rule} {m : Match Rule}
    (h : alternative.run false cs a = (some m, a')) (hlength : m.left.length ≤ cs.length) :
    closing.run false (bar :: cs) a = (Expr.seq alternative closing).run false cs a := by
  have hword : (Expr.word "|" : Expr Rule).run false (bar :: cs) a = (some ⟨cs, []⟩, a) := rfl
  have hone : (Expr.seq (.word "|") alternative).run false (bar :: cs) a = (some m, a') := by
    rw [Expr.run_seq_of_leaf hword, h]
  have hmany : furtherAlternatives.run false (bar :: cs) a =
      ((furtherAlternatives.run false m.left a').1.map fun n => ⟨n.left, m.trees ++ n.trees⟩,
        (furtherAlternatives.run false m.left a').2) :=
    Expr.run_many_of_some hone (Nat.lt_succ_of_le hlength)
  -- A repetition always matches, so both sides go on with what it leaves.
  obtain ⟨n, a'', hrest⟩ : ∃ n a'', furtherAlternatives.run false m.left a' = (some n, a'') :=
    ⟨_, _, rfl⟩
  rw [hrest, Option.map_some] at hmany
  rw [closing, Expr.run_seq_of_some hmany, Expr.run_seq_of_some h, Expr.run_seq_of_some hrest]
  simp [Function.comp_def]

section First

variable {source : String} {before piece : List Char} {pieces : List (List Char)}
  {a : Attempts Rule} (htext : source.toList = before ++ (piece ++ textBehind pieces))
  (ha : a.ClearAt (piece ++ textBehind pieces))
include htext ha

/-- Matching gets stuck in a member that `readPiece` reads as `malformed`. -/
theorem run_member_of_malformed {position : Nat} {expected : Expectation} (hbar : bar ∉ piece)
    (h : readPiece (byteLength before) piece = .malformed position expected) :
    ∃ a', (Expr.seq alternative closing).run false (piece ++ textBehind pieces) a = (none, a') ∧
      IsStuck source a' position expected := by
  obtain ⟨left, t, a', hsuffix, -, hrun, hfits⟩ := run_alternative htext (endsPiece_textBehind _) ha
  rw [h] at hfits
  obtain ⟨hne, hstuck⟩ := hfits
  obtain ⟨c, rest, rfl⟩ := List.exists_cons_of_ne_nil hne
  have hc : c ≠ bar := by
    rintro rfl
    exact hbar (hsuffix.subset List.mem_cons_self)
  refine ⟨_, ?_, hstuck⟩
  rw [Expr.run_seq_of_some hrun, List.cons_append, run_closing_of_ne hc]
  rfl

/-- Any other member is matched to its end, and `termOf` says of its node what the piece does. -/
theorem run_member_of_none
    (h : (readPiece (byteLength before) piece).malformation? = none) :
    ∃ t a', alternative.run false (piece ++ textBehind pieces) a =
        (some ⟨textBehind pieces, [t]⟩, a') ∧ (textBehind pieces).length ≤ a'.left.length ∧
      t.rule = .alternative ∧
      termOf source t = (readPiece (byteLength before) piece).toTerm source := by
  obtain ⟨left, t, a', -, ht, hrun, hfits⟩ := run_alternative htext (endsPiece_textBehind _) ha
  generalize readPiece (byteLength before) piece = read at h hfits
  cases read with
  | malformed position expected => cases h
  | _ =>
    obtain ⟨rfl, hlength, hterm⟩ := hfits
    exact ⟨t, a', hrun, hlength, ht, hterm⟩

end First

/-- Each node is an `alternative` of which `termOf` says what the piece does. -/
def SaysAll (source : String) (trees : List (Tree Rule)) (pieces : List Piece) : Prop :=
  List.Forall₂ (fun t piece => t.rule = .alternative ∧ termOf source t = piece.toTerm source)
    trees pieces

/-- How a match of members fits what their `pieces` were read as: it ends with the text, or it got
stuck at the first malformed piece. -/
def FitAll (source : String) (pieces : List Piece) (r : Result Rule) : Prop :=
  match pieces.findSome? Piece.malformation? with
  | some (position, expected) => ∃ a, r = (none, a) ∧ IsStuck source a position expected
  | none => ∃ trees a, r = (some ⟨[], trees ++ [.node .endOfInput [] [] []]⟩, a) ∧
      SaysAll source trees pieces

/-- For `FitAll` a malformed piece is the last one that matters. -/
theorem FitAll.malformed {source : String} {position : Nat} {expected : Expectation}
    {a : Attempts Rule} (h : IsStuck source a position expected) (pieces : List Piece) :
    FitAll source (.malformed position expected :: pieces) (none, a) := ⟨a, rfl, h⟩

/-- Behind any other piece `FitAll` is that of the pieces behind it. -/
theorem FitAll.cons {source : String} {piece : Piece} {pieces : List Piece} {t : Tree Rule}
    {r : Result Rule} (hpiece : piece.malformation? = none) (ht : t.rule = .alternative)
    (hterm : termOf source t = piece.toTerm source) (h : FitAll source pieces r) :
    FitAll source (piece :: pieces) (r.1.map fun n => ⟨n.left, [t] ++ n.trees⟩, r.2) := by
  have hfind : (piece :: pieces).findSome? Piece.malformation? =
      pieces.findSome? Piece.malformation? := by rw [List.findSome?_cons, hpiece]
  unfold FitAll at h ⊢
  rw [hfind]
  cases hfound : pieces.findSome? Piece.malformation? with
  | some found =>
    rw [hfound] at h
    obtain ⟨a, rfl, hstuck⟩ := h
    exact ⟨a, rfl, hstuck⟩
  | none =>
    rw [hfound] at h
    obtain ⟨trees, a, rfl, hsays⟩ := h
    exact ⟨t :: trees, a, rfl, .cons ⟨ht, hterm⟩ hsays⟩

/-- `FitAll` holds with a malformed first member: the whole match gets stuck there. -/
theorem fitAll_of_malformation {source : String} {before piece : List Char}
    {pieces : List (List Char)} {a : Attempts Rule} {found : Nat × Expectation}
    (htext : source.toList = before ++ (piece ++ textBehind pieces))
    (ha : a.ClearAt (piece ++ textBehind pieces)) (hbar : bar ∉ piece)
    (h : (readPiece (byteLength before) piece).malformation? = some found) (others : List Piece) :
    FitAll source (readPiece (byteLength before) piece :: others)
      ((Expr.seq alternative closing).run false (piece ++ textBehind pieces) a) := by
  cases hread : readPiece (byteLength before) piece with
  | malformed position expected =>
    obtain ⟨a', hrun, hstuck⟩ := run_member_of_malformed htext ha hbar hread
    rw [hrun]
    exact .malformed hstuck others
  | _ =>
    rw [hread] at h
    cases h

/-- All members are matched as `readFrom` reads their pieces. -/
theorem run_members {source : String} (pieces : List (List Char)) {before piece : List Char}
    {a : Attempts Rule} (hbar : ∀ p ∈ piece :: pieces, bar ∉ p)
    (htext : source.toList = before ++ (piece ++ textBehind pieces))
    (ha : a.ClearAt (piece ++ textBehind pieces)) :
    FitAll source (readFrom (byteLength before) (piece :: pieces))
      ((Expr.seq alternative closing).run false (piece ++ textBehind pieces) a) := by
  -- The induction is on the pieces behind the first one. Each member is entered at a clear place.
  induction pieces generalizing before piece a with
  | nil =>
    rw [readFrom_cons]
    cases hpiece : (readPiece (byteLength before) piece).malformation? with
    | some found => exact fitAll_of_malformation htext ha (hbar piece List.mem_cons_self) hpiece _
    | none =>
      obtain ⟨t, a', hrun, -, ht, hterm⟩ := run_member_of_none htext ha hpiece
      have hend : closing.run false (textBehind []) a' =
          (some ⟨[], [.node .endOfInput [] [] []]⟩, a') := run_closing_nil a'
      rw [Expr.run_seq_of_some hrun, hend]
      exact FitAll.cons hpiece ht hterm ⟨[], a', rfl, .nil⟩
  | cons next pieces ih =>
    rw [readFrom_cons]
    cases hpiece : (readPiece (byteLength before) piece).malformation? with
    | some found => exact fitAll_of_malformation htext ha (hbar piece List.mem_cons_self) hpiece _
    | none =>
      obtain ⟨t, a', hrun, hlength, ht, hterm⟩ := run_member_of_none htext ha hpiece
      have hnext : textBehind (next :: pieces) = bar :: (next ++ textBehind pieces) := rfl
      have htext' : source.toList = (before ++ piece ++ [bar]) ++ (next ++ textBehind pieces) := by
        rw [htext, hnext]
        simp only [List.append_assoc, List.singleton_append]
      have hstart : byteLength (before ++ piece ++ [bar]) =
          byteLength before + byteLength piece + bar.utf8Size := by
        simp only [byteLength_append, byteLength_cons, byteLength_nil, Nat.add_zero]
      have hclear : a'.ClearAt (next ++ textBehind pieces) :=
        Attempts.clearAt_of_lt (Nat.lt_of_lt_of_le (Nat.lt_succ_self _) hlength)
      -- The place behind the bar is clear, because it is further on than all that has failed.
      have hrest := ih (fun p hp => hbar p (List.mem_cons_of_mem _ hp)) htext' hclear
      obtain ⟨left, t', a'', hsuffix, -, hmember, -⟩ :=
        run_alternative htext' (endsPiece_textBehind pieces) hclear
      have hle : (left ++ textBehind pieces).length ≤ (next ++ textBehind pieces).length := by
        rw [List.length_append, List.length_append]
        exact Nat.add_le_add_right hsuffix.length_le _
      rw [hstart, ← run_closing_bar hmember hle, ← hnext] at hrest
      rw [Expr.run_seq_of_some hrun]
      exact FitAll.cons hpiece ht hterm hrest

/-! ## Declarations -/

/-- Where `declaration` itself is tracked, the rules are `triedFor` what was expected. It takes the
place of the rules inside it if they were tried at the very start of the text. -/
theorem track_declaration_of_isStuck {source : String} {a : Attempts Rule} {position : Nat}
    {expected : Expectation} (h : IsStuck source a position expected) :
    ∃ left, Attempts.track ⟨source.toList, []⟩ a .declaration source.toList =
      ⟨left, triedFor expected⟩ ∧ placeOf source left = position := by
  obtain ⟨⟨front, hsplit, hfront⟩, hrules⟩ := h
  obtain ⟨left, rules⟩ := a
  have hplace : placeOf source left = position := by
    rw [placeOf, hsplit, byteLength_append, hfront, Nat.add_sub_cancel]
  -- Behind the start of the text, the rules inside are further on than `declaration`.
  have hfurther (hposition : position ≠ 0) :
      Attempts.track ⟨source.toList, []⟩ ⟨left, rules⟩ .declaration source.toList =
        ⟨left, rules⟩ := by
    have hne : front ≠ [] := by
      rintro rfl
      exact hposition hfront.symm
    have hpos : 0 < front.length := List.length_pos_iff.2 hne
    refine Attempts.track_of_further ?_
    rw [hsplit, List.length_append]
    exact Nat.lt_add_of_pos_left hpos
  rcases hrules with ⟨hposition, rfl⟩ | ⟨rfl, rfl⟩
  · exact ⟨left, hfurther hposition, hplace⟩
  · by_cases hposition : position = 0
    · have hnil : front = [] := byteLength_eq_zero_iff.1 (hfront.trans hposition)
      have hleft : source.toList = left := by rw [hsplit, hnil, List.nil_append]
      refine ⟨left, ?_, hplace⟩
      rw [if_pos hposition, hleft]
      exact Attempts.track_of_length_ne_one Attempts.clearAt_start (by decide)
    · refine ⟨left, ?_, hplace⟩
      rw [if_neg hposition, hfurther hposition]
      rfl

/-- The rules `triedFor` an expectation give its advice. -/
theorem advice_triedFor (expected : Expectation) :
    Grammar.advice (triedFor expected) = expected.advice := by
  cases expected <;> decide

/-- Where no piece is malformed, `parse` makes of the pieces what `toTerm` makes of each. -/
theorem map_terms_parse (source : String)
    (h : (readPieces source).findSome? Piece.malformation? = none) :
    (parse source).map TypeExpr.terms = (readPieces source).mapM (Piece.toTerm source) := by
  unfold parse
  split
  · next hfound => simp [h] at hfound
  · split
    · next e he => exact he.symm
    · next terms hterms => exact hterms.symm

/-- The nodes of the members are the ones that `termsOf` goes over. -/
theorem termsOf_of_saysAll {source : String} {trees : List (Tree Rule)} {pieces : List Piece}
    (h : SaysAll source trees pieces) (cs left : List Char) :
    termsOf source (.node .declaration cs left (trees ++ [.node .endOfInput [] [] []])) =
      pieces.mapM (Piece.toTerm source) := by
  have hmembers : (trees ++ [Tree.node Rule.endOfInput [] [] []]).filter
      (·.rule = .alternative) = trees := by
    have hall : ∀ t ∈ trees, decide (t.rule = .alternative) = true := by
      intro t ht
      obtain ⟨piece, -, hrule, -⟩ := exists_of_mem_forall₂ h.flip ht
      exact decide_eq_true hrule
    rw [List.filter_append, List.filter_eq_self.2 hall]
    exact List.append_nil trees
  rw [termsOf, Tree.children, hmembers]
  clear hmembers
  induction h with
  | nil => rfl
  | cons hone _ ih => rw [List.mapM_cons, List.mapM_cons, hone.2, ih]

/-- `FitAll` holds of a whole text and of `readPieces`. -/
theorem fitAll_source (source : String) : FitAll source (readPieces source)
    ((Expr.seq alternative closing).run false source.toList ⟨source.toList, []⟩) := by
  obtain ⟨piece, pieces, hsplit⟩ :=
    List.exists_cons_of_ne_nil (List.splitOn_ne_nil bar source.toList)
  have htext : source.toList = piece ++ textBehind pieces := by
    rw [← intercalate_eq_append_textBehind, ← hsplit, List.intercalate_splitOn]
  have hbar : ∀ p ∈ piece :: pieces, bar ∉ p := fun p hp =>
    bar_notMem_of_mem_splitOn (hsplit ▸ hp)
  rw [readPieces_eq_readFrom, hsplit, htext]
  exact @run_members source pieces [] piece _ hbar htext Attempts.clearAt_start

/-- If `declaration` matches a text, the match is one node, and `parse` gives the terms or the error
that `termsOf` reads off it, as `parse_declaration` goes over the pairs. -/
theorem parse_of_declaration {source : String} {m : Match Rule} {a : Attempts Rule}
    (h : declaration.runText source = (some m, a)) :
    ∃ t, m.trees = [t] ∧ (parse source).map TypeExpr.terms = termsOf source t := by
  have hfit := fitAll_source source
  unfold FitAll at hfit
  -- By `fitAll_source` the body matches if no piece is malformed, and then `declaration` does.
  split at hfit
  · next position expected hfound =>
    obtain ⟨a', hrun, -⟩ := hfit
    have hdeclaration : declaration.runText source = (none, _) :=
      Expr.run_rule_of_none .normal hrun
    cases hdeclaration.symm.trans h
  · next hnone =>
    obtain ⟨trees, a', hrun, hsays⟩ := hfit
    have hdeclaration : declaration.runText source = (some _, _) :=
      Expr.run_rule_of_some .normal hrun
    cases hdeclaration.symm.trans h
    refine ⟨_, rfl, ?_⟩
    rw [map_terms_parse source hnone, termsOf_of_saysAll hsays]

/-- If `declaration` does not match, `parse` fails at the furthest place where a rule was tried, and
advises what the rules that were tried there give. -/
theorem parse_of_no_declaration {source : String} {a : Attempts Rule}
    (h : declaration.runText source = (none, a)) :
    ∃ expected, parse source =
        .error (.malformedDeclaration source (placeOf source a.left) expected) ∧
      expected.advice = Grammar.advice a.rules := by
  have hfit := fitAll_source source
  unfold FitAll at hfit
  -- By `fitAll_source` the body got stuck at the first malformed piece, which is the one that
  -- `parse` reports.
  split at hfit
  · next position expected hfound =>
    obtain ⟨a', hrun, hstuck⟩ := hfit
    have hdeclaration : declaration.runText source = (none, _) :=
      Expr.run_rule_of_none .normal hrun
    obtain ⟨left, htrack, hplace⟩ := track_declaration_of_isStuck hstuck
    rw [htrack] at hdeclaration
    cases hdeclaration.symm.trans h
    refine ⟨expected, ?_, (advice_triedFor expected).symm⟩
    rw [hplace]
    unfold parse
    split
    · next position' expected' hfound' =>
      cases hfound.symm.trans hfound'
      rfl
    · next hnone => cases hfound.symm.trans hnone
  · next hnone =>
    obtain ⟨trees, a', hrun, -⟩ := hfit
    have hdeclaration : declaration.runText source = (some _, _) :=
      Expr.run_rule_of_some .normal hrun
    cases hdeclaration.symm.trans h

/-- `readPieces` reads no malformed piece if there is none. -/
theorem findSome?_readPieces_eq_none_iff {source : String} :
    (readPieces source).findSome? Piece.malformation? = none ↔
      ∀ piece ∈ source.toList.splitOn bar, ¬IsMalformed piece := by
  constructor
  · intro h piece hpiece
    obtain ⟨i, hi⟩ := List.mem_iff_getElem?.1 hpiece
    have hread := getElem?_readPieces source i
    rw [hi, Option.map_some] at hread
    exact malformation?_readPiece_eq_none_iff.1
      (List.findSome?_eq_none_iff.1 h _ (List.mem_of_getElem? hread))
  · intro h
    rw [readPieces_eq_readFrom]
    exact findSome?_readFrom_eq_none h 0

/-- The rule `declaration` matches the texts that have no `IsMalformed` piece. -/
theorem exists_declaration_iff {source : String} :
    (∃ m a, declaration.runText source = (some m, a)) ↔
      ∀ piece ∈ source.toList.splitOn bar, ¬IsMalformed piece := by
  rw [← findSome?_readPieces_eq_none_iff]
  have hfit := fitAll_source source
  unfold FitAll at hfit
  split at hfit
  · next position expected hfound =>
    obtain ⟨a', hrun, -⟩ := hfit
    have hdeclaration : declaration.runText source = (none, _) :=
      Expr.run_rule_of_none .normal hrun
    rw [hfound, hdeclaration]
    exact ⟨nofun, nofun⟩
  · next hnone =>
    obtain ⟨trees, a', hrun, -⟩ := hfit
    have hdeclaration : declaration.runText source = (some _, _) :=
      Expr.run_rule_of_some .normal hrun
    exact ⟨fun _ => hnone, fun _ => ⟨_, _, hdeclaration⟩⟩

end DocTypes.Grammar

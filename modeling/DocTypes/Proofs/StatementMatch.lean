import DocTypes.Proofs.ImportPath
import DocTypes.Proofs.Matching

/-!
# Import statements as the grammar matches them

`ImportStatement.parse` reads the parts of a statement one after the other and keeps what is left
where it has to stop. The main statements say that this is how the grammar matches: if
`importStatement` matches a text, then `parse` gives the statement that `statementOf` reads off the
match (`parse_of_statement`), and if it does not, then `parse` fails at the furthest place where a
rule was tried (`parse_of_no_statement`).

`run_importPath` and `run_importAlias` say what the parts take and what is tried in vain, and
`run_ending` what the blanks and the end behind them come to.
-/

namespace DocTypes.Grammar

open Lexeme ImportStatement

variable {cs left : List Char} {a : Attempts Rule}

/-! ## Paths -/

/-- A separator in front is skipped if there is one, as `dropSeparator` does. -/
theorem run_optionalSeparator (cs : List Char) (a : Attempts Rule) :
    (Expr.optional (.word "\\")).run false cs a = (some ⟨dropSeparator cs, []⟩, a) := by
  by_cases hsep : ∃ rest, cs = '\\' :: rest
  · obtain ⟨rest, rfl⟩ := hsep
    exact Expr.run_optional_of_some rfl
  · have hread : afterWord? "\\" cs = none := by
      rw [Option.eq_none_iff_forall_ne_some]
      exact fun rest hrest => hsep ⟨rest, afterWord?_eq_some_iff.1 hrest⟩
    have hword : (Expr.word "\\" : Expr Rule).run false cs a = (none, a) := by
      rw [Expr.run_word, hread]
      rfl
    have hcs : dropSeparator cs = cs := by
      unfold dropSeparator
      split
      · next rest => exact absurd ⟨rest, rfl⟩ hsep
      · rfl
    rw [Expr.run_optional_of_none hword, hcs]

/-- A path that `path?` reads behind the separator is matched, and the node has it as its text. -/
theorem run_importPath_of_some {path : List Char}
    (h : path? (dropSeparator cs) = some (path, left)) :
    ∃ t, importPath.run false cs a = (some ⟨left, [t]⟩, a) ∧ t.rule = .importPath ∧
      dropSeparator t.text = path := by
  have hread : afterPath? (dropSeparator cs) = some left := by rw [afterPath?, h]; rfl
  have hbody : (Expr.seq (.optional (.word "\\")) namePath).run false cs a =
      (some ⟨left, [.node .namePath (dropSeparator cs) left []]⟩, a) := by
    rw [Expr.run_seq_of_leaf (run_optionalSeparator cs a), isToken_namePath.run_of_some hread]
  refine ⟨_, Expr.run_rule_of_some .compound hbody, rfl, ?_⟩
  obtain ⟨word, hword, hcs⟩ := exists_isPathWord h
  have hdrop : dropSeparator word = path := by
    simpa only [List.append_nil] using hword.dropSeparator_append []
  rw [hcs, text_node, hdrop]

/-- If `path?` reads none, `namePath` is what is missing behind the separator. -/
theorem run_importPath_of_none (ha : a.ClearAt cs) (h : path? (dropSeparator cs) = none) :
    importPath.run false cs a = (none, ⟨dropSeparator cs, [.namePath]⟩) := by
  have hle : (dropSeparator cs).length ≤ cs.length := (dropSeparator_suffix cs).length_le
  have hread : afterPath? (dropSeparator cs) = none := by rw [afterPath?, h]; rfl
  have hbody : (Expr.seq (.optional (.word "\\")) namePath).run false cs a =
      (none, ⟨dropSeparator cs, [.namePath]⟩) := by
    rw [Expr.run_seq_of_leaf (run_optionalSeparator cs a), isToken_namePath.run_of_none hread,
      Attempts.track_of_clearAt (ha.of_le hle)]
  have hrun : importPath.run false cs a =
      (none, a.track ⟨dropSeparator cs, [.namePath]⟩ .importPath cs) :=
    Expr.run_rule_of_none .compound hbody
  rw [hrun]
  rcases Nat.lt_or_eq_of_le hle with hlt | heq
  · rw [Attempts.track_of_further hlt]
  · -- There is no separator, and `namePath` is the only rule that has failed inside.
    rw [(dropSeparator_suffix cs).eq_of_length heq, Attempts.track_singleton ha]

/-! ## Short names -/

/-- `gap` takes the blanks that `skipPadding` does, if there is one. -/
theorem run_gap_of_lt (h : (skipPadding cs).length < cs.length) (isAtomic : Bool) :
    gap.run isAtomic cs a = (some ⟨skipPadding cs, []⟩, a) := by
  cases cs with
  | nil => cases h
  | cons c rest =>
    have hc : isPadding c = true := by
      by_contra hne
      rw [skipPadding, List.dropWhile_cons_of_neg hne] at h
      exact Nat.lt_irrefl _ h
    have hone : (Expr.char isPadding : Expr Rule).run isAtomic (c :: rest) a =
        (some ⟨rest, []⟩, a) := by rw [Expr.run, if_pos hc]
    rw [gap, Expr.run_seq_of_leaf hone, Expr.run_padding, skipPadding, skipPadding,
      List.dropWhile_cons_of_pos hc]

/-- Without a blank `gap` fails, and no rule is tracked. -/
theorem run_gap_of_not_lt (h : ¬(skipPadding cs).length < cs.length) (isAtomic : Bool) :
    gap.run isAtomic cs a = (none, a) := by
  cases cs with
  | nil => exact Expr.run_seq_of_none rfl
  | cons c rest =>
    have hc : ¬isPadding c = true := by
      intro hc
      rw [skipPadding, List.dropWhile_cons_of_pos hc] at h
      exact h (Nat.lt_succ_of_le (skipPadding_suffix rest).length_le)
    have hnone : (Expr.char isPadding : Expr Rule).run isAtomic (c :: rest) a = (none, a) := by
      rw [Expr.run, if_neg hc]
    exact Expr.run_seq_of_none hnone

/-- `keywordAs` takes the word of an alias. -/
theorem isToken_keywordAs : keywordAs.IsToken .keywordAs (afterWord? aliasWord) := isToken_word _ _

/-- `readAliasWord?` takes more than the blanks that `skipPadding` does. -/
theorem length_lt_of_readAliasWord? (h : readAliasWord? cs = some left) :
    left.length < (skipPadding cs).length := by
  obtain ⟨-, behind, hword, hbehind, rfl⟩ := readAliasWord?_eq_some_iff.1 h
  calc (skipPadding behind).length < behind.length := length_skipPadding_lt_iff.2 hbehind
    _ ≤ (skipPadding cs).length := List.IsSuffix.length_le ⟨_, hword.symm⟩

/-- Where `readAliasWord?` reads `as`, what is left of `importAlias` is the identifier. -/
theorem run_aliasBody {afterWord : List Char} (h : readAliasWord? cs = some afterWord) :
    ∃ t, t.rule ≠ .identifier ∧
      (Expr.seq gap (.seq keywordAs (.seq gap identifier))).run false cs a =
        ((identifier.run false afterWord a).1.map fun m => ⟨m.left, t :: m.trees⟩,
          (identifier.run false afterWord a).2) := by
  obtain ⟨hcs, behind, hword, hbehind, rfl⟩ := readAliasWord?_eq_some_iff.1 h
  have hfirst := run_gap_of_lt (a := a) (length_skipPadding_lt_iff.2 hcs) false
  have hsecond := run_gap_of_lt (a := a) (length_skipPadding_lt_iff.2 hbehind) false
  have has := isToken_keywordAs.run_of_some (a := a) (afterWord?_eq_some_iff.2 hword)
  refine ⟨.node .keywordAs (skipPadding cs) behind [], by simp, ?_⟩
  rw [Expr.run_seq_of_leaf hfirst, Expr.run_seq_of_some has, Expr.run_seq_of_leaf hsecond]
  rfl

/-- An identifier behind `as` is matched by `importAlias`, and it is the first one in the node. -/
theorem run_importAlias_of_some {afterWord name : List Char}
    (h : readAliasWord? cs = some afterWord) (hname : identifier? afterWord = some (name, left)) :
    ∃ t, importAlias.run false cs a = (some ⟨left, [t]⟩, a) ∧ t.rule = .importAlias ∧
      (t.children.find? (·.rule = .identifier)).map Tree.text = some name := by
  obtain ⟨t, ht, hbody⟩ := run_aliasBody (a := a) h
  have hread : afterIdentifier? afterWord = some left := by rw [afterIdentifier?, hname]; rfl
  rw [isToken_identifier.run_of_some hread] at hbody
  refine ⟨_, Expr.run_rule_of_some .compound hbody, rfl, ?_⟩
  have hfind : [t, .node .identifier afterWord left []].find? (·.rule = .identifier) =
      some (.node .identifier afterWord left []) := by
    rw [List.find?_cons_of_neg (by simpa using ht)]
    rfl
  show ([t, .node .identifier afterWord left []].find? (·.rule = .identifier)).map Tree.text = _
  rw [hfind, Option.map_some, eq_append_of_identifier? hname, text_node]

/-- If none follows `as` (`hname`), `identifier` is what is missing there. -/
theorem run_importAlias_of_noName {afterWord : List Char} (ha : a.ClearAt cs)
    (h : readAliasWord? cs = some afterWord) (hname : identifier? afterWord = none) :
    importAlias.run false cs a = (none, ⟨afterWord, [.identifier]⟩) := by
  obtain ⟨t, -, hbody⟩ := run_aliasBody (a := a) h
  have hread : afterIdentifier? afterWord = none := by rw [afterIdentifier?, hname]; rfl
  have hlength : afterWord.length < cs.length :=
    Nat.lt_of_lt_of_le (length_lt_of_readAliasWord? h) (skipPadding_suffix cs).length_le
  have hclear : a.ClearAt afterWord := ha.of_le hlength.le
  rw [isToken_identifier.run_of_none hread, Attempts.track_of_clearAt hclear] at hbody
  have hrun : importAlias.run false cs a =
      (none, a.track ⟨afterWord, [.identifier]⟩ .importAlias cs) :=
    Expr.run_rule_of_none .compound hbody
  rw [hrun, Attempts.track_of_further hlength]

/-- Where `readAliasWord?` reads no `as`, `importAlias` fails, and no rule is tried behind the
blanks. -/
theorem run_importAlias_of_none (ha : a.ClearAt cs) (h : readAliasWord? cs = none) :
    ∃ a', importAlias.run false cs a = (none, a') ∧
      (skipPadding cs).length ≤ a'.left.length := by
  have hle : (skipPadding cs).length ≤ cs.length := (skipPadding_suffix cs).length_le
  -- A missing blank is no rule, so it is `importAlias` that fails where it starts.
  have hblank (hbody : (Expr.seq gap (.seq keywordAs (.seq gap identifier))).run false cs a =
      (none, a)) : ∃ a', importAlias.run false cs a = (none, a') ∧
        (skipPadding cs).length ≤ a'.left.length := by
    have hrun : importAlias.run false cs a = (none, a.track a .importAlias cs) :=
      Expr.run_rule_of_none .compound hbody
    rw [Attempts.track_of_clearAt ha] at hrun
    exact ⟨_, hrun, hle⟩
  -- There is no blank at all, or no `as` behind the blanks, or no blank behind `as`.
  by_cases hcs : (skipPadding cs).length < cs.length
  · have hfirst := run_gap_of_lt (a := a) hcs false
    cases hword : afterWord? aliasWord (skipPadding cs) with
    | none =>
      have has := isToken_keywordAs.run_of_none (a := a) hword
      rw [Attempts.track_of_clearAt (ha.of_le hle)] at has
      have hbody : (Expr.seq gap (.seq keywordAs (.seq gap identifier))).run false cs a =
          (none, ⟨skipPadding cs, [.keywordAs]⟩) := by
        rw [Expr.run_seq_of_leaf hfirst, Expr.run_seq_of_none has]
      have hrun : importAlias.run false cs a =
          (none, a.track ⟨skipPadding cs, [.keywordAs]⟩ .importAlias cs) :=
        Expr.run_rule_of_none .compound hbody
      rw [Attempts.track_of_further hcs] at hrun
      exact ⟨_, hrun, Nat.le_refl _⟩
    | some behind =>
      have hbehind : ¬(skipPadding behind).length < behind.length := by
        intro hlt
        have hsome := readAliasWord?_eq_some_iff.2 ⟨length_skipPadding_lt_iff.1 hcs, behind,
          afterWord?_eq_some_iff.1 hword, length_skipPadding_lt_iff.1 hlt, rfl⟩
        cases h.symm.trans hsome
      have has := isToken_keywordAs.run_of_some (a := a) hword
      refine hblank ?_
      rw [Expr.run_seq_of_leaf hfirst, Expr.run_seq_of_some has,
        Expr.run_seq_of_none (run_gap_of_not_lt hbehind false)]
      rfl
  · exact hblank (Expr.run_seq_of_none (run_gap_of_not_lt hcs false))

/-! ## Statements -/

/-- Blanks up to the end of the text (`h`) are taken by `padding` and `endOfInput`. -/
theorem run_ending_of_nil (h : skipPadding cs = []) (a : Attempts Rule) :
    (Expr.seq padding endOfInput).run false cs a =
      (some ⟨[], [.node .endOfInput [] [] []]⟩, a) := by
  rw [Expr.run_seq_of_leaf (Expr.run_padding false cs a), h, run_endOfInput_nil]

/-- Anything else behind the blanks is not. If no rule has failed further on (`ha`), this is the
furthest place. -/
theorem run_ending_of_ne (h : skipPadding cs ≠ [])
    (ha : (skipPadding cs).length ≤ a.left.length) :
    ∃ a', (Expr.seq padding endOfInput).run false cs a = (none, a') ∧
      a'.left = skipPadding cs := by
  refine ⟨a.track a .endOfInput (skipPadding cs), ?_, Attempts.left_track_self ha⟩
  rw [Expr.run_seq_of_leaf (Expr.run_padding false cs a), run_endOfInput_of_ne h]

/-- If one has (`h`), the furthest place stays as it is, and `endOfInput` is dropped. -/
theorem run_ending_of_further (h : a.left.length < (skipPadding cs).length) :
    (Expr.seq padding endOfInput).run false cs a = (none, a) := by
  have hne : skipPadding cs ≠ [] := List.ne_nil_of_length_pos (by omega)
  rw [Expr.run_seq_of_leaf (Expr.run_padding false cs a), run_endOfInput_of_ne hne,
    Attempts.track_of_further h]

/-- How the match of the parts of a statement fits what `readParts` makes of it. By `statementOf`
the nodes say what the parts are, and the furthest place is the one where reading stops. -/
inductive FitsParts : Except (List Char) (List Char × Option (List Char)) → Result Rule → Prop
  | ok {path : List Char} {shortName : Option (List Char)} {trees : List (Tree Rule)}
      {a : Attempts Rule} (reading : ∀ source start,
        statementOf source (.node .importStatement start [] trees) =
          ⟨String.ofList path, shortName.map String.ofList, placeOf source start,
            placeOf source []⟩) :
      FitsParts (.ok (path, shortName)) (some ⟨[], trees⟩, a)
  | error {left : List Char} {a : Attempts Rule} (place : a.left = left) :
      FitsParts (.error left) (none, a)

/-- What `statementOf` reads off the nodes of a statement without a short name. -/
theorem statementOf_plain {t : Tree Rule} {path : List Char} (ht : t.rule = .importPath)
    (hpath : dropSeparator t.text = path) (source : String) (start : List Char) :
    statementOf source
        (.node .importStatement start [] [t, .node .endOfInput [] [] []]) =
      ⟨String.ofList path, none, placeOf source start, placeOf source []⟩ := by
  have hnode : [t, .node .endOfInput [] [] []].filter (·.rule = .importPath) = [t] := by
    rw [List.filter_cons_of_pos (by simpa using ht)]
    rfl
  have halias : [t, .node .endOfInput [] [] []].filter (·.rule = .importAlias) = [] := by
    rw [List.filter_cons_of_neg (by simp [ht])]
    rfl
  simp only [statementOf, Tree.children_node, hnode, halias, List.getLast?_singleton, hpath]
  rfl

/-- What `statementOf` reads off the nodes of a statement with a short name. -/
theorem statementOf_renamed {t u : Tree Rule} {path name : List Char} (ht : t.rule = .importPath)
    (hpath : dropSeparator t.text = path) (hu : u.rule = .importAlias)
    (hname : (u.children.find? (·.rule = .identifier)).map Tree.text = some name)
    (source : String) (start : List Char) :
    statementOf source
        (.node .importStatement start [] [t, u, .node .endOfInput [] [] []]) =
      ⟨String.ofList path, some (String.ofList name), placeOf source start, placeOf source []⟩ := by
  have hnode : [t, u, .node .endOfInput [] [] []].filter (·.rule = .importPath) = [t] := by
    rw [List.filter_cons_of_pos (by simpa using ht), List.filter_cons_of_neg (by simp [hu])]
    rfl
  have halias : [t, u, .node .endOfInput [] [] []].filter (·.rule = .importAlias) = [u] := by
    rw [List.filter_cons_of_neg (by simp [ht]), List.filter_cons_of_pos (by simpa using hu)]
    rfl
  obtain ⟨v, hv, rfl⟩ := Option.map_eq_some_iff.1 hname
  simp only [statementOf, Tree.children_node, hnode, halias, List.getLast?_singleton, hpath, hv]
  rfl

/-- Behind the parts come blanks and the end of the text, or the place where reading stops. By
`reading` the nodes of the parts say what they are, and no rule has failed further on (`hplace`). -/
theorem fitsParts_ending (path : List Char) (shortName : Option (List Char))
    (trees : List (Tree Rule)) (hplace : (skipPadding cs).length ≤ a.left.length)
    (reading : ∀ source start,
      statementOf source
          (.node .importStatement start [] (trees ++ [.node .endOfInput [] [] []])) =
        ⟨String.ofList path, shortName.map String.ofList, placeOf source start,
          placeOf source []⟩) :
    FitsParts
      (match skipPadding cs with
        | [] => .ok (path, shortName)
        | left => .error left)
      (((Expr.seq padding endOfInput).run false cs a).1.map fun m => ⟨m.left, trees ++ m.trees⟩,
        ((Expr.seq padding endOfInput).run false cs a).2) := by
  split
  · next hnil =>
    rw [run_ending_of_nil hnil]
    exact .ok reading
  · next hne =>
    obtain ⟨a', hend, hleft⟩ := run_ending_of_ne hne hplace
    rw [hend]
    exact .error hleft

/-- The parts of a statement are matched as `readParts` reads them. -/
theorem run_statementBody (ha : a.ClearAt cs) :
    FitsParts (readParts cs) (statementBody.run false cs a) := by
  have hskip : (skipPadding cs).length ≤ cs.length := (skipPadding_suffix cs).length_le
  rw [readParts_eq, statementBody, Expr.run_seq_of_leaf (Expr.run_padding false cs a)]
  -- As `readParts_eq` goes: first the path, then the short name if there is one, and then the end.
  -- The rule that has failed furthest is the place where `readParts` stops.
  cases hpath : path? (dropSeparator (skipPadding cs)) with
  | none =>
    rw [Expr.run_seq_of_none (run_importPath_of_none (ha.of_le hskip) hpath)]
    exact .error rfl
  | some parts =>
    obtain ⟨path, afterPath⟩ := parts
    obtain ⟨t, hrun, ht, htext⟩ := run_importPath_of_some (a := a) hpath
    have hafter : afterPath.length ≤ (skipPadding cs).length :=
      (List.IsSuffix.trans ⟨path, (eq_append_of_path? hpath).symm⟩
        (dropSeparator_suffix _)).length_le
    have hclear : a.ClearAt afterPath := ha.of_le (hafter.trans hskip)
    rw [Expr.run_seq_of_some hrun]
    dsimp only
    cases halias : readAliasWord? afterPath with
    | none =>
      obtain ⟨a', hnone, hplace⟩ := run_importAlias_of_none hclear halias
      rw [Expr.run_seq_of_leaf (Expr.run_optional_of_none hnone)]
      exact fitsParts_ending path none [t] hplace (statementOf_plain ht htext)
    | some afterWord =>
      dsimp only
      cases hname : identifier? afterWord with
      | none =>
        -- The option gives way to the end of the text, but `as` was read further than that.
        have hnone := run_importAlias_of_noName hclear halias hname
        rw [Expr.run_seq_of_leaf (Expr.run_optional_of_none hnone),
          run_ending_of_further (length_lt_of_readAliasWord? halias)]
        exact .error rfl
      | some parts =>
        obtain ⟨name, afterName⟩ := parts
        obtain ⟨u, hsome, hu, hu'⟩ := run_importAlias_of_some (a := a) halias hname
        have hshort : (skipPadding afterName).length ≤ a.left.length :=
          calc (skipPadding afterName).length ≤ afterName.length :=
                (skipPadding_suffix afterName).length_le
            _ ≤ afterWord.length :=
                List.IsSuffix.length_le ⟨name, (eq_append_of_identifier? hname).symm⟩
            _ ≤ afterPath.length := (suffix_of_readAliasWord? halias).length_le
            _ ≤ a.left.length := hclear.2
        rw [Expr.run_seq_of_some (Expr.run_optional_of_some hsome)]
        dsimp only
        rw [Option.map_map]
        exact fitsParts_ending path (some name) [t, u] hshort (statementOf_renamed ht htext hu hu')

/-- Where `track` is for a rule that starts with the text, the furthest place stays as it is. -/
theorem left_track_of_suffix {before : Attempts Rule} {name : Rule} (h : a.left <:+ cs) :
    (before.track a name cs).left = a.left := by
  rcases Nat.lt_or_eq_of_le h.length_le with hlt | heq
  · rw [Attempts.track_of_further hlt]
  · have hcs : a.left = cs := h.eq_of_length heq
    rw [Attempts.track, if_pos heq]
    split
    · rfl
    · exact hcs.symm

/-- If `importStatement` matches a text, the match is one node, and `parse` gives the statement that
`statementOf` reads off it. -/
theorem parse_of_statement {source : String} {m : Match Rule} {a : Attempts Rule}
    (h : importStatement.runText source = (some m, a)) :
    ∃ t, m.trees = [t] ∧ parse source = .ok (statementOf source t) := by
  have hfit : FitsParts (readParts source.toList)
      (statementBody.run false source.toList ⟨source.toList, []⟩) :=
    run_statementBody Attempts.clearAt_start
  have hplace : placeOf source source.toList = 0 := Nat.sub_self _
  cases hbody : statementBody.run false source.toList ⟨source.toList, []⟩ with
  | mk found a' =>
    cases found with
    | none => cases (Expr.run_rule_of_none .normal hbody).symm.trans h
    | some n =>
      cases (Expr.run_rule_of_some .normal hbody).symm.trans h
      rw [hbody] at hfit
      generalize hread : readParts source.toList = parts at hfit
      -- The nodes are those of the body, so `reading` is about the whole statement.
      cases hfit with
      | ok reading =>
        refine ⟨_, rfl, ?_⟩
        rw [reading, hplace]
        simp only [parse, hread]
        rfl

/-- If `importStatement` does not match, `parse` fails at the furthest place where a rule was
tried. -/
theorem parse_of_no_statement {source : String} {a : Attempts Rule}
    (h : importStatement.runText source = (none, a)) :
    parse source = .error (.malformedImport source (placeOf source a.left)) := by
  have hfit : FitsParts (readParts source.toList)
      (statementBody.run false source.toList ⟨source.toList, []⟩) :=
    run_statementBody Attempts.clearAt_start
  cases hbody : statementBody.run false source.toList ⟨source.toList, []⟩ with
  | mk found a' =>
    cases found with
    | some n => cases (Expr.run_rule_of_some .normal hbody).symm.trans h
    | none =>
      cases (Expr.run_rule_of_none .normal hbody).symm.trans h
      rw [hbody] at hfit
      generalize hread : readParts source.toList = parts at hfit
      cases hfit with
      | error place =>
        have hsuffix : a'.left <:+ source.toList := place ▸ suffix_of_readParts hread
        simp only [parse, hread, left_track_of_suffix hsuffix, place]
        rfl

/-- `importStatement` matches the texts whose words are an import. -/
theorem exists_importStatement_iff {source : String} :
    (∃ m a, importStatement.runText source = (some m, a)) ↔
      ∃ path shortName, IsImport (words source.toList) path shortName := by
  constructor
  · rintro ⟨m, a, h⟩
    obtain ⟨t, -, hparse⟩ := parse_of_statement h
    exact ⟨_, _, (parse_eq_ok_iff.1 hparse).1⟩
  · rintro ⟨path, shortName, himport⟩
    have hread : readParts source.toList = .ok (path, shortName) := readParts_eq_ok_iff.2 himport
    cases hrun : importStatement.runText source with
    | mk found a =>
      cases found with
      | some m => exact ⟨m, a, rfl⟩
      | none =>
        have hparse := parse_of_no_statement hrun
        simp only [parse, hread, reduceCtorEq] at hparse

end DocTypes.Grammar

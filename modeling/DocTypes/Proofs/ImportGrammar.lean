import DocTypes.Import.Statement
import DocTypes.Proofs.SplitGrammar

/-!
# Import statements as words

The words of a text are its longest runs of characters that are no blanks. By
`parse_import_statement` a statement can be read if and only if its words are a path, or a path,
`as` and an identifier (`IsImport`). The reader does not cut the text into words. It takes a path
and an identifier as far as they go and skips blanks in between, so what has to be shown is that it
ends each of them where a word ends: `readParts_eq_ok_iff` says so. `suffix_of_readParts` gives the
other side, that the reader stops at a place in the text. The main statement is `parse_words`.
-/

namespace DocTypes

open Lexeme

namespace Lexeme

variable {c : Char} {cs word after : List Char} {rest : List (List Char)}

/-! ## Words -/

/-- The words of a text: the longest runs of characters that are no blanks by `isPadding`. -/
def words (cs : List Char) : List (List Char) := (cs.splitOnP isPadding).filter (!·.isEmpty)

/-- The text `cs` is one word. -/
structure IsWord (cs : List Char) : Prop where
  ne_nil : cs ≠ []
  forall_not_isPadding : ∀ c ∈ cs, isPadding c = false

/-- The text `cs` does not go on with the word in front of it: it starts with a blank, or there is
none. -/
def EndsWord (cs : List Char) : Prop := ∀ c ∈ cs.head?, isPadding c = true

/-- A blank in front of a text (`hc`) is in none of its `words`. -/
theorem words_cons_of_isPadding (hc : isPadding c = true) (cs : List Char) :
    words (c :: cs) = words cs := by
  rw [words, List.splitOnP_cons_eq_if_modifyHead, if_pos hc, List.filter_cons_of_neg (by simp)]
  rfl

/-- `skipPadding` in front of a text changes none of its `words`. -/
theorem words_skipPadding (cs : List Char) : words (skipPadding cs) = words cs := by
  induction cs with
  | nil => rfl
  | cons c cs ih =>
    rw [skipPadding, List.dropWhile_cons]
    split
    · next hc => rw [words_cons_of_isPadding hc, ← ih, skipPadding]
    · rfl

/-- A word stands alone in front of a text that does not go on with it (`ha`). -/
theorem words_append (hw : IsWord word) (ha : EndsWord after) :
    words (word ++ after) = word :: words after := by
  have hkept : (!word.isEmpty) = true := by simpa using hw.ne_nil
  -- The word ends with the text, or at the blank that follows it.
  cases after with
  | nil =>
    rw [words, List.append_nil, List.splitOnP_eq_singleton hw.forall_not_isPadding,
      List.filter_cons, if_pos hkept]
    rfl
  | cons c cs =>
    have hc : isPadding c = true := ha c rfl
    rw [words_cons_of_isPadding hc, words,
      List.splitOnP_append_cons_of_forall_mem hw.forall_not_isPadding c hc,
      List.filter_cons, if_pos hkept]
    rfl

/-- Blanks, of which `skipPadding` leaves nothing, end every word. -/
theorem endsWord_of_skipPadding_eq_nil (h : skipPadding cs = []) : EndsWord cs :=
  fun c hc => List.dropWhile_eq_nil_iff.1 h c (List.mem_of_mem_head? hc)

/-- A text that is not blank (`h`) starts, behind its blanks, with its first word. -/
theorem exists_skipPadding_eq (h : skipPadding cs ≠ []) :
    ∃ word after, skipPadding cs = word ++ after ∧ IsWord word ∧ EndsWord after := by
  obtain ⟨c, rest, hcs⟩ := List.exists_cons_of_ne_nil h
  have hc : isPadding c = false := by
    have hhead := List.head?_dropWhile_not isPadding cs
    rw [← skipPadding, hcs] at hhead
    simpa using hhead
  refine ⟨(c :: rest).takeWhile (!isPadding ·), (c :: rest).dropWhile (!isPadding ·), ?_,
    ⟨?_, ?_⟩, ?_⟩
  · rw [hcs, List.takeWhile_append_dropWhile]
  · simp [hc]
  · intro d hd
    simpa using List.mem_takeWhile_imp hd
  · intro d hd
    have hhead := List.head?_dropWhile_not (!isPadding ·) (c :: rest)
    rw [Option.mem_def.1 hd] at hhead
    simpa using hhead

/-- A text without `words` is blank. -/
theorem skipPadding_eq_nil_of_words_eq_nil (h : words cs = []) : skipPadding cs = [] := by
  by_contra hne
  obtain ⟨word, after, hcs, hword, hafter⟩ := exists_skipPadding_eq hne
  rw [← words_skipPadding, hcs, words_append hword hafter] at h
  cases h

/-- A text with `words` starts, behind its blanks, with the first of them, and the others are those
of what follows. -/
theorem skipPadding_of_words_eq_cons (h : words cs = word :: rest) :
    ∃ after, skipPadding cs = word ++ after ∧ EndsWord after ∧ words after = rest := by
  have hne : skipPadding cs ≠ [] := by
    intro hnil
    rw [← words_skipPadding, hnil] at h
    cases h
  obtain ⟨word', after, hcs, hword, hafter⟩ := exists_skipPadding_eq hne
  rw [← words_skipPadding, hcs, words_append hword hafter] at h
  obtain ⟨rfl, hrest⟩ := List.cons.inj h
  exact ⟨after, hcs, hafter, hrest⟩

/-- `skipPadding` skips something if and only if the text starts with a blank. -/
theorem length_skipPadding_lt_iff :
    (skipPadding cs).length < cs.length ↔ cs ≠ [] ∧ EndsWord cs := by
  cases cs with
  | nil => simp [skipPadding]
  | cons c cs =>
    have hle : (cs.dropWhile isPadding).length ≤ cs.length := (List.dropWhile_sublist _).length_le
    simp only [skipPadding, List.dropWhile_cons, EndsWord, List.head?_cons, Option.mem_some_iff,
      forall_eq', ne_eq, reduceCtorEq, not_false_eq_true, true_and]
    split
    · next hc => simp [hc]; omega
    · next hc => simp [hc]

/-- A name path is one word by `IsWord`. -/
theorem IsPath.isWord (h : IsPath cs) : IsWord cs where
  ne_nil := h.ne_nil
  forall_not_isPadding := TypeExpr.isPadding_eq_false_of_isPath h

/-- A blank by `isPadding` belongs to no name. -/
theorem ne_of_isPadding (hc : isPadding c = true) :
    isIdentifierContinue c = false ∧ c ≠ separator :=
  TypeExpr.ne_of_mem_marks (TypeExpr.mem_marks_of_isPadding hc)

/-- A path that ends with a word (`ha`) is read by `path?` up to there. -/
theorem IsPath.path?_append (h : IsPath cs) (ha : EndsWord after) :
    path? (cs ++ after) = some (cs, after) := by
  refine path?_eq_some_iff.2 ⟨rfl, h, ?_⟩
  match after with
  | [] => rfl
  | [c] => exact (ne_of_isPadding (ha c rfl)).1
  | c :: d :: rest =>
    obtain ⟨hcontinue, hseparator⟩ := ne_of_isPadding (ha c rfl)
    simp [continuesPath, hcontinue, hseparator]

/-- An identifier that ends with a word (`ha`) is read by `identifier?` up to there. -/
theorem IsIdentifier.identifier?_append (h : IsIdentifier cs) (ha : EndsWord after) :
    identifier? (cs ++ after) = some (cs, after) :=
  identifier?_eq_some_iff.2 ⟨rfl, h, fun c hc => (ne_of_isPadding (ha c hc)).1⟩

end Lexeme

namespace ImportStatement

variable {cs word path after left : List Char} {shortName : Option (List Char)}
  {rest : List (List Char)} {s : String}

/-! ## Reading the words of a statement -/

/-- The word stands for `path`: it is the path, or the path with a separator in front. -/
def IsPathWord (word path : List Char) : Prop :=
  IsPath path ∧ (word = path ∨ word = separator :: path)

/-- The words of a statement, with the path and the short name that it gives. -/
inductive IsImport : List (List Char) → List Char → Option (List Char) → Prop
  | plain {word path : List Char} : IsPathWord word path → IsImport [word] path none
  | renamed {word path shortName : List Char} : IsPathWord word path → IsIdentifier shortName →
      IsImport [word, "as".toList, shortName] path (some shortName)

/-- What stands for a path by `IsPathWord` is one word. -/
theorem IsPathWord.isWord (h : IsPathWord word path) : IsWord word := by
  obtain ⟨hpath, rfl | rfl⟩ := h
  · exact hpath.isWord
  · refine ⟨List.cons_ne_nil _ _, List.forall_mem_cons.2 ⟨by decide, ?_⟩⟩
    exact hpath.isWord.forall_not_isPadding

/-- The path of a statement by `IsImport` is a name path. -/
theorem IsImport.isPath (h : IsImport rest path shortName) : IsPath path := by
  cases h with
  | plain hword => exact hword.1
  | renamed hword _ => exact hword.1

/-- The short name that a statement gives by `IsImport` is an identifier. -/
theorem IsImport.isIdentifier {name : List Char} (h : IsImport rest path (some name)) :
    IsIdentifier name := by
  cases h with
  | renamed _ hname => exact hname

/-- The separator in front of a path is dropped by `dropSeparator`, and nothing else. -/
theorem IsPathWord.dropSeparator_append (h : IsPathWord word path) (after : List Char) :
    dropSeparator (word ++ after) = path ++ after := by
  obtain ⟨hpath, rfl | rfl⟩ := h
  · obtain ⟨c, rest, rfl, hc, -⟩ := hpath.exists_cons
    unfold dropSeparator
    split
    · next heq =>
      obtain ⟨rfl, -⟩ := List.cons.inj heq
      exact absurd hc (by decide)
    · rfl
  · rfl

/-- A path that `path?` reads behind a separator or without one is given by a word. -/
theorem exists_isPathWord (h : path? (dropSeparator cs) = some (path, after)) :
    ∃ word, IsPathWord word path ∧ cs = word ++ after := by
  obtain ⟨happend, hpath, -⟩ := path?_eq_some_iff.1 h
  unfold dropSeparator at happend
  split at happend
  · exact ⟨separator :: path, ⟨hpath, .inr rfl⟩, by rw [happend]; rfl⟩
  · exact ⟨path, ⟨hpath, .inl rfl⟩, happend⟩

/-- `readAliasWord?` reads the word `as` with the blanks around it, of which there is one on either
side. -/
theorem readAliasWord?_eq_some_iff : readAliasWord? cs = some left ↔
    (cs ≠ [] ∧ EndsWord cs) ∧ ∃ behind, skipPadding cs = aliasWord.toList ++ behind ∧
      (behind ≠ [] ∧ EndsWord behind) ∧ skipPadding behind = left := by
  unfold readAliasWord?
  simp only [Option.bind_eq_bind, Option.bind_eq_some_iff, afterWord?_eq_some_iff,
    Option.pure_def, Option.ite_none_right_eq_some, Option.some.injEq, Bool.and_eq_true,
    decide_eq_true_eq, length_skipPadding_lt_iff]
  constructor
  · rintro ⟨behind, hword, ⟨hcs, hbehind⟩, hleft⟩
    exact ⟨hcs, behind, hword, hbehind, hleft⟩
  · rintro ⟨hcs, behind, hword, hbehind, hleft⟩
    exact ⟨behind, hword, ⟨hcs, hbehind⟩, hleft⟩

/-- If `readAliasWord?` reads `as`, it is the first word, and the others are those of what is
left. -/
theorem words_of_readAliasWord? (h : readAliasWord? cs = some left) :
    EndsWord cs ∧ words cs = "as".toList :: words left := by
  obtain ⟨⟨-, hcs⟩, behind, hword, ⟨-, hbehind⟩, rfl⟩ := readAliasWord?_eq_some_iff.1 h
  have has : IsPath aliasWord.toList := by decide
  refine ⟨hcs, ?_⟩
  calc words cs = words (aliasWord.toList ++ behind) := by rw [← words_skipPadding, hword]
    _ = aliasWord.toList :: words behind := words_append has.isWord hbehind
    _ = aliasWord.toList :: words (skipPadding behind) := by rw [words_skipPadding]

/-- If `as` is the first word and another one follows (`h`), then `readAliasWord?` reads it up to
this one. -/
theorem exists_readAliasWord?_eq (hcs : EndsWord cs)
    (h : words cs = "as".toList :: word :: rest) :
    ∃ after, readAliasWord? cs = some (word ++ after) ∧ EndsWord after ∧ words after = rest := by
  obtain ⟨behind, hskip, hbehind, hwords⟩ := skipPadding_of_words_eq_cons h
  obtain ⟨after, hafter, hends, hrest⟩ := skipPadding_of_words_eq_cons hwords
  have hne : cs ≠ [] := by
    rintro rfl
    cases h
  have hbehindne : behind ≠ [] := by
    rintro rfl
    cases hwords
  exact ⟨after, readAliasWord?_eq_some_iff.2 ⟨⟨hne, hcs⟩, behind, hskip, ⟨hbehindne, hbehind⟩,
    hafter⟩, hends, hrest⟩

/-- How `readParts` goes on, with the separator in front of the path set apart. -/
theorem readParts_eq (cs : List Char) : readParts cs =
    match path? (dropSeparator (skipPadding cs)) with
    | none => .error (dropSeparator (skipPadding cs))
    | some (path, afterPath) =>
      match readAliasWord? afterPath with
      | none =>
        match skipPadding afterPath with
        | [] => .ok (path, none)
        | left => .error left
      | some afterWord =>
        match identifier? afterWord with
        | none => .error afterWord
        | some (shortName, afterShortName) =>
          match skipPadding afterShortName with
          | [] => .ok (path, some shortName)
          | left => .error left := rfl

/-- What `readParts` reads as the parts of a statement is given by its `words`. -/
theorem isImport_of_readParts (h : readParts cs = .ok (path, shortName)) :
    IsImport (words cs) path shortName := by
  rw [readParts_eq] at h
  split at h
  · cases h
  -- Behind the path there is nothing but blanks, or `as` and a short name. In both cases the path
  -- ends where the first word does.
  · next p afterPath hp =>
    obtain ⟨word, hword, hcs⟩ := exists_isPathWord hp
    have hwords (ha : EndsWord afterPath) : words cs = word :: words afterPath := by
      rw [← words_skipPadding, hcs, words_append hword.isWord ha]
    split at h
    · split at h
      · next hnil =>
        cases h
        rw [hwords (endsWord_of_skipPadding_eq_nil hnil), ← words_skipPadding, hnil]
        exact .plain hword
      · cases h
    · next afterWord halias =>
      obtain ⟨hends, hafter⟩ := words_of_readAliasWord? halias
      split at h
      · cases h
      · next name afterName hname =>
        obtain ⟨rfl, hidentifier, -⟩ := identifier?_eq_some_iff.1 hname
        split at h
        · next hnil =>
          cases h
          rw [hwords hends, hafter, words_append (IsPath.identifier hidentifier).isWord
            (endsWord_of_skipPadding_eq_nil hnil), ← words_skipPadding afterName, hnil]
          exact .renamed hword hidentifier
        · cases h

/-- The `words` of a statement are read by `readParts` as its parts. -/
theorem readParts_of_isImport (h : IsImport (words cs) path shortName) :
    readParts cs = .ok (path, shortName) := by
  -- The path ends where the first word does.
  have hpath {word : List Char} {rest : List (List Char)} (hword : IsPathWord word path)
      (hwords : words cs = word :: rest) : ∃ after, EndsWord after ∧ words after = rest ∧
        path? (dropSeparator (skipPadding cs)) = some (path, after) := by
    obtain ⟨after, hcs, hends, hrest⟩ := skipPadding_of_words_eq_cons hwords
    refine ⟨after, hends, hrest, ?_⟩
    rw [hcs, hword.dropSeparator_append, hword.1.path?_append hends]
  generalize hwords : words cs = ws at h
  rw [readParts_eq]
  -- What follows the first word decides whether `as` is looked for with success.
  cases h with
  | plain hword =>
    obtain ⟨after, -, hrest, hp⟩ := hpath hword hwords
    have hnil : skipPadding after = [] := skipPadding_eq_nil_of_words_eq_nil hrest
    have hnone : readAliasWord? after = none := by
      unfold readAliasWord?
      rw [hnil]
      rfl
    simp only [hp, hnone, hnil]
  | @renamed word _ name hword hname =>
    obtain ⟨after, hends, hrest, hp⟩ := hpath hword hwords
    obtain ⟨behind, halias, hbehind, hnone⟩ := exists_readAliasWord?_eq hends hrest
    have hnil : skipPadding behind = [] := skipPadding_eq_nil_of_words_eq_nil hnone
    simp only [hp, halias, hname.identifier?_append hbehind, hnil]

/-- `readParts` reads a statement as the parts that its `words` give. -/
theorem readParts_eq_ok_iff :
    readParts cs = .ok (path, shortName) ↔ IsImport (words cs) path shortName :=
  ⟨isImport_of_readParts, readParts_of_isImport⟩

/-! ## Where reading stops -/

/-- What `readAliasWord?` leaves is an end of the text. -/
theorem suffix_of_readAliasWord? (h : readAliasWord? cs = some left) : left <:+ cs := by
  obtain ⟨-, behind, hword, -, rfl⟩ := readAliasWord?_eq_some_iff.1 h
  have hbehind : behind <:+ skipPadding cs := ⟨_, hword.symm⟩
  exact (skipPadding_suffix behind).trans (hbehind.trans (skipPadding_suffix cs))

/-- A statement that `readParts` cannot read leaves an end of the text. -/
theorem suffix_of_readParts (h : readParts cs = .error left) : left <:+ cs := by
  have hstart : dropSeparator (skipPadding cs) <:+ cs :=
    (dropSeparator_suffix _).trans (skipPadding_suffix cs)
  -- Wherever reading stops, what is left is an end of what was left before.
  rw [readParts_eq] at h
  split at h
  · cases h
    exact hstart
  · next p afterPath hp =>
    have hafter : afterPath <:+ cs := List.IsSuffix.trans ⟨p, (eq_append_of_path? hp).symm⟩ hstart
    split at h
    · split at h
      · cases h
      · cases h
        exact (skipPadding_suffix _).trans hafter
    · next afterWord halias =>
      have hword : afterWord <:+ cs := (suffix_of_readAliasWord? halias).trans hafter
      split at h
      · cases h
        exact hword
      · next name afterName hname =>
        have hbehind : afterName <:+ cs :=
          List.IsSuffix.trans ⟨name, (eq_append_of_identifier? hname).symm⟩ hword
        split at h
        · cases h
        · cases h
          exact (skipPadding_suffix _).trans hbehind

/-- `parse` reads a statement as what its `words` give. -/
theorem parse_eq_ok_iff {i : ImportStatement} : parse s = .ok i ↔
    IsImport (words s.toList) i.path.toList (i.explicitAlias.map String.toList) ∧
      i.span = ⟨0, s.utf8ByteSize⟩ := by
  obtain ⟨path, explicitAlias, span⟩ := i
  rw [← readParts_eq_ok_iff, ← byteLength_toList]
  unfold parse
  dsimp only
  cases hread : readParts s.toList with
  | error left => simp
  | ok parts =>
    obtain ⟨p, name⟩ := parts
    simp only [Except.ok.injEq, mk.injEq, Prod.mk.injEq]
    constructor
    · rintro ⟨rfl, rfl, rfl⟩
      simp [Function.comp_def]
    · rintro ⟨⟨rfl, rfl⟩, rfl⟩
      simp [Function.comp_def]

/-- A statement that `parse` cannot read (`h`) is reported at a place of its text. -/
theorem exists_parse_eq_error (h : ∀ i, parse s ≠ .ok i) : ∃ position,
    parse s = .error (.malformedImport s position) ∧ String.Pos.Raw.IsValid s ⟨position⟩ := by
  unfold parse at h ⊢
  dsimp only at h ⊢
  cases hread : readParts s.toList with
  | ok parts =>
    rw [hread] at h
    exact absurd rfl (h _)
  | error left =>
    -- The place is behind what was read, which is a front of the text.
    obtain ⟨front, hfront⟩ := suffix_of_readParts hread
    have hplace : byteLength s.toList - byteLength left = byteLength front := by
      rw [← hfront, byteLength_append, Nat.add_sub_cancel]
    refine ⟨byteLength front, by simp only [hplace], ?_⟩
    have htext : s.toList = front ++ (left ++ []) := by rw [List.append_nil, hfront]
    exact (TypeExpr.extract_of_toList_eq htext).1

/-- For `parse_import_statement` a text is an import statement if and only if its `words` are a
path, with a separator in front or without, or such a path, `as` and an identifier (`IsImport`). The
path of the statement is the first word without the separator, and the third word, if there is one,
is the short name that it gives. Any other text is reported as a whole, at a place in it or at its
end. -/
theorem parse_words (s : String) :
    ((∃ i, parse s = .ok i) ↔ ∃ path shortName, IsImport (words s.toList) path shortName) ∧
    (∀ i, parse s = .ok i →
      IsImport (words s.toList) i.path.toList (i.explicitAlias.map String.toList)) ∧
    ((∀ path shortName, ¬IsImport (words s.toList) path shortName) →
      ∃ e position, parse s = .error e ∧ e = .malformedImport s position ∧ e.source = s ∧
        e.span.start = position ∧ String.Pos.Raw.IsValid s ⟨position⟩) := by
  refine ⟨⟨?_, ?_⟩, fun i hi => (parse_eq_ok_iff.1 hi).1, fun hnone => ?_⟩
  · rintro ⟨i, hi⟩
    exact ⟨_, _, (parse_eq_ok_iff.1 hi).1⟩
  · rintro ⟨path, shortName, himport⟩
    refine ⟨⟨String.ofList path, shortName.map String.ofList, 0, s.utf8ByteSize⟩, ?_⟩
    refine parse_eq_ok_iff.2 ⟨?_, rfl⟩
    simpa [Function.comp_def] using himport
  · obtain ⟨position, herror, hvalid⟩ :=
      exists_parse_eq_error fun i hi => hnone _ _ (parse_eq_ok_iff.1 hi).1
    exact ⟨_, position, herror, rfl, rfl, rfl, hvalid⟩

/-- A statement with blanks all around and the word `as` as its short name, and one in which the
short name is missing. -/
theorem parse_words_as :
    (∃ i, parse " \\É\\A\tas  as " = .ok i ∧
      IsImport ["\\É\\A".toList, "as".toList, "as".toList] i.path.toList
        (i.explicitAlias.map String.toList)) ∧
    ∃ e, parse "É as " = .error e ∧ e.source = "É as " ∧
      String.Pos.Raw.IsValid "É as " ⟨e.span.start⟩ := by
  constructor
  · obtain ⟨hiff, hparts, -⟩ := parse_words " \\É\\A\tas  as "
    have hwords : words " \\É\\A\tas  as ".toList =
        ["\\É\\A".toList, "as".toList, "as".toList] := by decide
    rw [hwords] at hiff hparts
    have hpath : IsPathWord "\\É\\A".toList "É\\A".toList := ⟨by decide, .inr rfl⟩
    obtain ⟨i, hi⟩ := hiff.2 ⟨_, _, .renamed hpath (by decide)⟩
    exact ⟨i, hi, hparts i hi⟩
  · obtain ⟨-, -, hother⟩ := parse_words "É as "
    have hwords : words "É as ".toList = ["É".toList, "as".toList] := by decide
    rw [hwords] at hother
    obtain ⟨e, position, herror, -, hsource, rfl, hvalid⟩ := hother nofun
    exact ⟨e, herror, hsource, hvalid⟩

end ImportStatement

end DocTypes

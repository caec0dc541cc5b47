import DocTypes.Proofs.MapM
import DocTypes.Proofs.TermGrammar
import Mathlib.Data.Set.List
import Mathlib.Data.String.Basic

/-!
# Declarations as plain splits

At every bar a declaration falls into pieces, and `parse` reads it if and only if each piece is a
term of the grammar. `parse_eq_ok_iff` reduces reading a declaration to `readPieces`, and
`exists_term_of_parse` finds the term of each piece. The main statement is `parse_split_grammar`:
the accepted texts, and for each term of the union its meaning and the place where it stands.
-/

namespace DocTypes.TypeExpr

open Lexeme

/-- The pieces of a text are what `splitOn` finds between its bars. -/
theorem splitPieces_eq_splitOn (cs : List Char) : splitPieces cs = cs.splitOn bar := by
  fun_induction splitPieces cs with
  | case1 => rfl
  | case2 c rest hc ih =>
    rw [List.splitOn_cons_eq_if_modifyHead, if_pos hc, ih]
  | case3 c rest piece pieces h hc ih =>
    rw [List.splitOn_cons_eq_if_modifyHead, hc, ← ih, h]
    rfl
  | case4 c rest h hc => exact absurd h (splitPieces_ne_nil rest)

/-- No `bar` is left in the pieces. -/
theorem bar_notMem_of_mem_splitOn {cs piece : List Char} (h : piece ∈ cs.splitOn bar) :
    bar ∉ piece := by
  rw [← splitPieces_eq_splitOn] at h
  -- Along `splitPieces`: a character goes to the first piece or, if it is a bar, starts a new one.
  fun_induction splitPieces cs generalizing piece with
  | case1 =>
    obtain rfl : piece = [] := by simpa using h
    simp
  | case2 c rest hc ih =>
    rcases List.mem_cons.1 h with rfl | h
    · simp
    · exact ih h
  | case3 c rest p ps hs hc ih =>
    rw [hs] at ih
    rcases List.mem_cons.1 h with rfl | h
    · have hne : bar ≠ c := fun he => by simp [he] at hc
      simpa [hne] using ih (by simp)
    · exact ih (by simp [h])
  | case4 c rest hs hc => exact absurd hs (splitPieces_ne_nil rest)

/-- A text with a single piece has no `bar`. -/
theorem bar_notMem_of_length_splitOn {cs : List Char} (h : (cs.splitOn bar).length = 1) :
    bar ∉ cs := by
  obtain ⟨piece, hpiece⟩ := List.length_eq_one_iff.1 h
  have htext : [bar].intercalate [piece] = cs := hpiece ▸ List.intercalate_splitOn bar
  obtain rfl : piece = cs := by simpa using htext
  exact bar_notMem_of_mem_splitOn (hpiece ▸ List.mem_singleton_self _)

/-- If texts that are joined by bars have no more pieces than there are texts, then none of them has
a `bar`. -/
theorem bar_notMem_of_length_splitOn_intercalate {texts : List (List Char)}
    (h : (([bar].intercalate texts).splitOn bar).length ≤ texts.length) :
    ∀ text ∈ texts, bar ∉ text := by
  have hpos (cs : List Char) : 0 < (cs.splitOn bar).length :=
    List.length_pos_iff.2 (List.splitOn_ne_nil bar cs)
  induction texts with
  | nil => exact nofun
  | cons text texts ih =>
    cases texts with
    | nil =>
      rw [List.intercalate_singleton] at h
      have hone : (text.splitOn bar).length = 1 := Nat.le_antisymm h (hpos text)
      simpa using bar_notMem_of_length_splitOn hone
    | cons next rest =>
      rw [List.intercalate_cons_cons, List.append_assoc, List.singleton_append,
        List.splitOn_append_cons_self, List.length_append, List.length_cons] at h
      have hfirst := hpos text
      have hrest := ih (by omega)
      -- The other texts are pieces themselves, which leaves one piece for the first text.
      rw [List.splitOn_intercalate bar hrest (List.cons_ne_nil next rest)] at h
      exact List.forall_mem_cons.2 ⟨bar_notMem_of_length_splitOn (by omega), hrest⟩

/-- What stands in front of the piece of number `i`, bars included. -/
def textBefore (pieces : List (List Char)) (i : Nat) : List Char :=
  (pieces.take i).flatMap (· ++ [bar])

/-- The pieces as `readPiece` reads them, if the first one starts at `start`. -/
def readFrom (start : Nat) (pieces : List (List Char)) : List Piece :=
  (locatePieces start pieces).map fun (start, piece) => readPiece start piece

/-- In `readFrom` the first piece is read where it starts, and the others behind it and its bar. -/
theorem readFrom_cons (start : Nat) (piece : List Char) (pieces : List (List Char)) :
    readFrom start (piece :: pieces) =
      readPiece start piece :: readFrom (start + byteLength piece + bar.utf8Size) pieces := rfl

/-- `readPieces` reads the pieces of a text from its start on. -/
theorem readPieces_eq_readFrom (s : String) : readPieces s = readFrom 0 (s.toList.splitOn bar) := by
  rw [readPieces, splitPieces_eq_splitOn]
  rfl

/-- Each piece is read behind its `textBefore`. -/
theorem getElem?_readFrom (start i : Nat) (pieces : List (List Char)) :
    (readFrom start pieces)[i]? =
      pieces[i]?.map fun piece => readPiece (start + byteLength (textBefore pieces i)) piece := by
  -- The place where a piece starts grows along the pieces, so `start` is left free.
  induction pieces generalizing start i with
  | nil => rfl
  | cons piece pieces ih =>
    rw [readFrom_cons]
    cases i with
    | zero => simp [textBefore]
    | succ i =>
      have hstart : start + byteLength piece + bar.utf8Size + byteLength (textBefore pieces i) =
          start + byteLength (textBefore (piece :: pieces) (i + 1)) := by
        simp [textBefore]
        omega
      rw [List.getElem?_cons_succ, List.getElem?_cons_succ, ih, hstart]

/-- What `readPieces` reads for the piece of number `i`. -/
theorem getElem?_readPieces (s : String) (i : Nat) :
    (readPieces s)[i]? = (s.toList.splitOn bar)[i]?.map fun piece =>
      readPiece (byteLength (textBefore (s.toList.splitOn bar) i)) piece := by
  rw [readPieces_eq_readFrom, getElem?_readFrom]
  simp

/-- `toTerm` succeeds at a piece that is a `term`. -/
theorem toTerm_eq_ok_iff {source : String} {piece : Piece} {t : Term} :
    piece.toTerm source = .ok t ↔ piece = .term t := by
  cases piece <;> simp [Piece.toTerm]

/-- `toTerm` succeeds at all pieces if all of them are terms. -/
theorem mapM_toTerm_eq_ok_iff {source : String} {pieces : List Piece} {terms : List Term} :
    pieces.mapM (Piece.toTerm source) = .ok terms ↔ pieces = terms.map .term := by
  rw [mapM_eq_ok_iff, ← List.forall₂_eq_eq_eq, List.forall₂_map_right_iff]
  simp only [toTerm_eq_ok_iff]

/-- `parse` succeeds if and only if `readPieces` reads a term at every piece. -/
theorem parse_eq_ok_iff {s : String} {e : TypeExpr} :
    parse s = .ok e ↔ e.source = s ∧ readPieces s = e.terms.map .term := by
  unfold parse
  split
  · next position expected hm =>
    refine ⟨by simp, fun ⟨_, h⟩ => ?_⟩
    -- Terms are not malformed.
    have : (e.terms.map Piece.term).findSome? Piece.malformation? = none := by
      simp [List.findSome?_map, Function.comp_def, Piece.malformation?]
    simp [h, this] at hm
  · split
    · next err herr =>
      refine ⟨by simp, fun ⟨_, h⟩ => ?_⟩
      rw [mapM_toTerm_eq_ok_iff.2 h] at herr
      simp at herr
    · next terms hterms =>
      have ht := mapM_toTerm_eq_ok_iff.1 hterms
      obtain ⟨source, terms', hne⟩ := e
      simp only [Except.ok.injEq, mk.injEq, ht]
      rw [List.map_inj_right fun _ _ => Piece.term.inj, eq_comm]

/-- The texts that are terms: an `IsTypeName`, with or without the array suffix. -/
def IsTermText (body : List Char) : Prop :=
  ∃ word, IsTypeName word ∧ (body = word ∨ body = word ++ "[]".toList)

/-- Every `IsTermText` has a meaning, as an `IsTerm`. -/
theorem exists_isTerm_iff {body : List Char} :
    (∃ name isArray, IsTerm body name isArray) ↔ IsTermText body := by
  constructor
  · rintro ⟨name, isArray, word, hw, rfl⟩
    refine ⟨word, exists_isName_iff.1 ⟨name, hw⟩, ?_⟩
    cases isArray with
    | true => exact .inr rfl
    | false => exact .inl (List.append_nil word)
  · rintro ⟨word, hw, hb⟩
    obtain ⟨name, hn⟩ := exists_isName_iff.2 hw
    rcases hb with rfl | rfl
    · exact ⟨name, false, body, hn, by simp⟩
    · exact ⟨name, true, word, hn, rfl⟩

/-- `strip` takes no blank off a text that is a term. -/
theorem IsTermText.strip_eq {body : List Char} (h : IsTermText body) : strip body = body := by
  obtain ⟨name, isArray, ht⟩ := exists_isTerm_iff.2 h
  exact ht.strip_eq

/-- If `cs` with the array suffix behind it is a term, the term of the elements is `cs` by
itself. -/
theorem exists_isTerm_of_suffix {cs : List Char} (h : IsTermText (strip (cs ++ "[]".toList))) :
    bar ∉ cs ∧ ∃ name, IsTerm (strip cs) name false ∧
      IsTerm (strip (cs ++ "[]".toList)) name true := by
  obtain ⟨name, isArray, ht⟩ := exists_isTerm_iff.2 h
  have hsplit := eq_append_strip_append (cs ++ "[]".toList)
  generalize hbefore : (cs ++ "[]".toList).takeWhile isPadding = before at hsplit
  generalize hafter : (skipPadding (cs ++ "[]".toList)).rtakeWhile isPadding = after at hsplit
  have hb : ∀ c ∈ before, isPadding c = true :=
    fun c hc => List.mem_takeWhile_imp (hbefore ▸ hc)
  have hlast : ']' ∈ (cs ++ "[]".toList).getLast? := by
    rw [List.getLast?_append_of_ne_nil _ (by decide)]
    decide
  -- The suffix ends the text, so no blank stands behind the term.
  have hnil : after = [] := by
    by_contra hne
    rw [hsplit, ← List.append_assoc, List.getLast?_append_of_ne_nil _ hne] at hlast
    have hpad : isPadding ']' = true :=
      List.mem_rtakeWhile_imp (hafter ▸ List.mem_of_getLast? hlast)
    exact absurd hpad (by decide)
  obtain ⟨word, hw, hstrip⟩ := id ht
  have hname := exists_isName_iff.1 ⟨name, hw⟩
  rw [hnil, List.append_nil, hstrip] at hsplit
  cases isArray with
  | false =>
    -- No name ends in the suffix.
    obtain ⟨hne, -, hl⟩ := hname.ends
    rw [hsplit, if_neg (by decide), List.append_nil, List.getLast?_append_of_ne_nil _ hne] at hlast
    exact absurd rfl (hl _ hlast).2
  | true =>
    obtain rfl : cs = before ++ word := by
      rw [if_pos rfl, ← List.append_assoc] at hsplit
      exact List.append_cancel_right hsplit
    have hterm : IsTerm word name false := ⟨word, hw, by simp⟩
    obtain ⟨hne, hf, hl⟩ := hterm.ends
    have hword := (strip_append hb (List.forall_mem_nil _) hne hf hl).2
    rw [List.append_nil] at hword
    refine ⟨fun hbar => ?_, name, hword.symm ▸ hterm, ht⟩
    rcases List.mem_append.1 hbar with hm | hm
    · exact absurd (hb _ hm) (by decide)
    · exact hname.bar_notMem hm

/-- `readPieces` reads as many pieces as there are between the bars. -/
theorem length_readPieces (s : String) :
    (readPieces s).length = (s.toList.splitOn bar).length := by
  have hlength (start : Nat) (pieces : List (List Char)) :
      (readFrom start pieces).length = pieces.length := by
    induction pieces generalizing start with
    | nil => rfl
    | cons piece pieces ih => rw [readFrom_cons, List.length_cons, List.length_cons, ih]
  rw [readPieces_eq_readFrom, hlength]

/-- Each piece of a declaration that `parse` accepts is the term of its number. -/
theorem exists_term_of_parse {s : String} {e : TypeExpr} (h : parse s = .ok e) {i : Nat}
    {piece : List Char} (hp : (s.toList.splitOn bar)[i]? = some piece) :
    ∃ t, e.terms[i]? = some t ∧
      readPiece (byteLength (textBefore (s.toList.splitOn bar) i)) piece = .term t := by
  have hr := getElem?_readPieces s i
  rw [hp, (parse_eq_ok_iff.1 h).2, List.getElem?_map] at hr
  obtain ⟨t, ht, he⟩ := Option.map_eq_some_iff.1 hr
  exact ⟨t, ht, he.symm⟩

/-- `parse` accepts a text if and only if every piece of it is an `IsTermText`, once stripped. -/
theorem exists_parse_eq_ok_iff {s : String} :
    (∃ e, parse s = .ok e) ↔ ∀ piece ∈ s.toList.splitOn bar, IsTermText (strip piece) := by
  constructor
  · rintro ⟨e, he⟩ piece hp
    obtain ⟨i, hi⟩ := List.mem_iff_getElem?.1 hp
    obtain ⟨t, -, ht⟩ := exists_term_of_parse he hi
    exact exists_isTerm_iff.1 ⟨_, _, (readPiece_eq_term_iff.1 ht).1⟩
  · intro h
    have hrange : readPieces s ∈ Set.range (List.map Piece.term) := by
      rw [Set.range_list_map]
      intro p hp
      obtain ⟨i, hi⟩ := List.mem_iff_getElem?.1 hp
      rw [getElem?_readPieces, Option.map_eq_some_iff] at hi
      obtain ⟨piece, hi, rfl⟩ := hi
      obtain ⟨name, isArray, ht⟩ := exists_isTerm_iff.2 (h piece (List.mem_of_getElem? hi))
      exact ⟨⟨name, isArray, _⟩, (readPiece_eq_term_iff.2 ⟨ht, rfl⟩).symm⟩
    obtain ⟨terms, hterms⟩ := hrange
    have hne : terms ≠ [] := by
      rintro rfl
      exact readPieces_ne_nil s hterms.symm
    exact ⟨⟨s, terms, hne⟩, parse_eq_ok_iff.2 ⟨rfl, hterms.symm⟩⟩

/-- A text that is joined from `pieces` by bars is the `textBefore` a piece, the piece, and what
follows it. -/
theorem exists_intercalate_eq {pieces : List (List Char)} {i : Nat} {piece : List Char}
    (h : pieces[i]? = some piece) :
    ∃ after, [bar].intercalate pieces = textBefore pieces i ++ (piece ++ after) := by
  induction pieces generalizing i with
  | nil => simp at h
  | cons p ps ih =>
    cases i with
    | zero =>
      obtain rfl : p = piece := by simpa using h
      cases ps with
      | nil => exact ⟨[], by simp [textBefore]⟩
      | cons q qs => exact ⟨bar :: [bar].intercalate (q :: qs), by simp [textBefore]⟩
    | succ i =>
      rw [List.getElem?_cons_succ] at h
      obtain ⟨after, ha⟩ := ih h
      cases ps with
      | nil => simp at h
      | cons q qs =>
        refine ⟨after, ?_⟩
        rw [List.intercalate_cons_cons, ha]
        simp [textBefore]

/-- The places in front of a `part` of a text and behind it are places between characters, and
`extract` finds the part between them. -/
theorem extract_of_toList_eq {s : String} {before part after : List Char}
    (h : s.toList = before ++ (part ++ after)) :
    String.Pos.Raw.IsValid s ⟨byteLength before⟩ ∧
      String.Pos.Raw.IsValid s ⟨byteLength before + byteLength part⟩ ∧
      String.Pos.Raw.extract s ⟨byteLength before⟩ ⟨byteLength before + byteLength part⟩ =
        String.ofList part := by
  have hs : s = String.ofList (before ++ part ++ after) := by
    rw [List.append_assoc, ← h, String.ofList_toList]
  have hlen (cs : List Char) : String.utf8Len cs = byteLength cs := by
    rw [← String.utf8ByteSize_ofList, byteLength_eq_utf8ByteSize]
  refine ⟨?_, ?_, ?_⟩
  · rw [String.Pos.Raw.isValid_iff_exists_append]
    refine ⟨String.ofList before, String.ofList (part ++ after), by simp [hs], ?_⟩
    rw [String.Pos.Raw.ext_iff]
    exact byteLength_eq_utf8ByteSize before
  · rw [String.Pos.Raw.isValid_iff_exists_append]
    refine ⟨String.ofList (before ++ part), String.ofList after, by simp [hs, String.append_assoc],
      ?_⟩
    rw [String.Pos.Raw.ext_iff, ← byteLength_append]
    exact byteLength_eq_utf8ByteSize _
  · rw [hs, ← hlen, ← hlen]
    exact String.extract_of_valid before part after

/-- `parse_declaration` accepts a text if and only if each piece between its bars is a term once the
blanks around it are stripped (`IsTermText`). The union has one term for each piece, in order; each
term has the meaning of its piece (`IsTerm`) and is an array if the piece ends in the suffix; and
its `span` is that of the stripped piece, which is the text of the term. -/
theorem parse_split_grammar (s : String) :
    ((∃ e, parse s = .ok e) ↔ ∀ piece ∈ s.toList.splitOn bar, IsTermText (strip piece)) ∧
      ∀ e, parse s = .ok e → e.source = s ∧
        e.terms.length = (s.toList.splitOn bar).length ∧
        ∀ i piece t, (s.toList.splitOn bar)[i]? = some piece → e.terms[i]? = some t →
          IsTerm (strip piece) t.name t.isArray ∧
          (t.isArray = true ↔ "[]".toList <:+ strip piece) ∧
          t.span.start = byteLength (textBefore (s.toList.splitOn bar) i) +
            byteLength (piece.takeWhile isPadding) ∧
          t.span.stop = t.span.start + byteLength (strip piece) ∧
          String.Pos.Raw.IsValid s ⟨t.span.start⟩ ∧ String.Pos.Raw.IsValid s ⟨t.span.stop⟩ ∧
          String.Pos.Raw.extract s ⟨t.span.start⟩ ⟨t.span.stop⟩ = t.text := by
  refine ⟨exists_parse_eq_ok_iff, fun e he => ?_⟩
  obtain ⟨hsource, hterms⟩ := parse_eq_ok_iff.1 he
  have hlen : e.terms.length = (s.toList.splitOn bar).length := by
    rw [← length_readPieces, hterms, List.length_map]
  refine ⟨hsource, hlen, fun i piece t hp ht => ?_⟩
  obtain ⟨t', ht', hread⟩ := exists_term_of_parse he hp
  obtain rfl : t = t' := Option.some.inj (ht.symm.trans ht')
  obtain ⟨hterm, hspan⟩ := readPiece_eq_term_iff.1 hread
  obtain ⟨after, hafter⟩ := exists_intercalate_eq hp
  -- The text around the stripped piece, cut at the ends of its range.
  have htext : s.toList = textBefore (s.toList.splitOn bar) i ++ piece.takeWhile isPadding ++
      (strip piece ++ ((skipPadding piece).rtakeWhile isPadding ++ after)) := by
    calc s.toList = [bar].intercalate (s.toList.splitOn bar) := (List.intercalate_splitOn bar).symm
      _ = textBefore (s.toList.splitOn bar) i ++ (piece ++ after) := hafter
      _ = _ := by
        conv_lhs => rw [eq_append_strip_append piece]
        simp only [List.append_assoc]
  obtain ⟨hstart, hstop, hextract⟩ := extract_of_toList_eq htext
  rw [byteLength_append] at hstart hstop hextract
  rw [hspan, strippedSpan]
  refine ⟨hterm, hterm.isArray_iff, rfl, rfl, hstart, hstop, ?_⟩
  rw [hextract, ← hterm.toList_text, String.ofList_toList]

/-- A union of two padded members, the second of them, `\É`, beyond ASCII. -/
theorem parse_split_grammar_padded :
    ∃ e, parse " int[]\t|\\É " = .ok e ∧ e.terms.length = 2 ∧
      ∀ t, e.terms[1]? = some t → t.isArray = false ∧ t.span = ⟨8, 11⟩ := by
  obtain ⟨hiff, hterms⟩ := parse_split_grammar " int[]\t|\\É "
  have hsplit : " int[]\t|\\É ".toList.splitOn bar = [" int[]\t".toList, "\\É ".toList] := by decide
  rw [hsplit] at hiff hterms
  obtain ⟨e, he⟩ := hiff.2 <| by
    simp only [List.mem_cons, List.not_mem_nil, or_false, forall_eq_or_imp, forall_eq]
    exact ⟨⟨"int".toList, .inr (.inr (.inl (by decide))), .inr (by decide)⟩,
      ⟨"\\É".toList, .inr (.inr (.inr ⟨"É".toList, rfl, by decide⟩)), .inl (by decide)⟩⟩
  obtain ⟨-, hlen, hterm⟩ := hterms e he
  refine ⟨e, he, hlen, fun t ht => ?_⟩
  obtain ⟨-, harray, hstart, hstop, -⟩ := hterm 1 _ t rfl ht
  have h₈ : t.span.start = 8 := hstart.trans (by decide)
  have h₁₁ : t.span.stop = 11 := by
    rw [hstop, h₈]
    decide
  refine ⟨Bool.eq_false_iff.2 fun ha => absurd (harray.1 ha) (by decide), ?_⟩
  rw [← h₈, ← h₁₁]

end DocTypes.TypeExpr

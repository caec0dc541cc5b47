import DocTypes.Proofs.NamePath
import DocTypes.TypeExpr.Reader
import Mathlib.Data.List.DropRight

/-!
# The grammar of terms

A term is a name with or without the array suffix, and blanks may stand around it. `IsTypeName` is
the language of names and `IsName` says what each of them means. `readName?` tries the alternatives
in a fixed order and takes names greedily; `isName_of_readName?` and `readName?_append` show that
this loses and adds nothing. `readPiece_eq_term_iff` is the specification of the reader of pieces:
it accepts the terms of the grammar, `IsTerm`, with their meaning and their range.
-/

namespace DocTypes.TypeExpr

open Lexeme

/-! ## Names -/

/-- The texts that are names of types: the two words with a blank or a mark, an `IsPath`, and one
behind a separator. -/
def IsTypeName (word : List Char) : Prop :=
  word = "resource (closed)".toList ∨ word = "$this".toList ∨ IsPath word ∨
    ∃ path, word = '\\' :: path ∧ IsPath path

/-- The words that name no class when they are written without a separator in front: the keywords of
`PrimitiveKind`, `self`, and the words that are recognised and left alone. -/
def reservedWords : List String :=
  PrimitiveKind.all.map PrimitiveKind.keyword ++ "self" :: Keyword.unhandledWords

/-- What each `IsTypeName` means. -/
inductive IsName : List Char → Name → Prop
  | primitive (kind : PrimitiveKind) : IsName kind.keyword.toList (.primitive kind)
  | self : IsName "self".toList .self
  | this : IsName "$this".toList .this
  | unhandled {word : String} : word ∈ Keyword.unhandledWords →
      IsName word.toList (.unhandled word)
  | className {path : List Char} : IsPath path → String.ofList path ∉ reservedWords →
      IsName path (.className (String.ofList path) false)
  | qualified {path : List Char} : IsPath path →
      IsName ('\\' :: path) (.className (String.ofList path) true)

/-- The `keyword` of each primitive kind is a name path. -/
theorem isPath_keyword (kind : PrimitiveKind) : IsPath kind.keyword.toList := by
  cases kind <;> decide

/-- The `unhandledWords` are name paths, but for the one that holds a space. -/
theorem isPath_of_mem_unhandledWords {word : String} (h : word ∈ Keyword.unhandledWords) :
    word = Keyword.closedResource ∨ IsPath word.toList := by
  simp only [Keyword.unhandledWords, List.mem_cons, List.not_mem_nil, or_false] at h
  rcases h with rfl | rfl | rfl | rfl | rfl | rfl | rfl | rfl
  all_goals first
    | exact .inl rfl
    | exact .inr (by decide)

/-- `ofWord` gives a word what it is reserved for, else a class. -/
theorem isName_ofWord {word : List Char}
    (h : IsPath word ∨ String.ofList word = Keyword.closedResource) :
    IsName word (.ofWord (String.ofList word)) := by
  -- The meanings are tried in order; a class is what is left when the word is not reserved.
  unfold Name.ofWord Keyword.ofWord?
  cases hk : PrimitiveKind.ofKeyword? (String.ofList word) with
  | some kind =>
    have hw : kind.keyword.toList = word := by
      rw [PrimitiveKind.keyword_of_ofKeyword? hk, String.toList_ofList]
    exact hw ▸ .primitive kind
  | none =>
    dsimp only
    by_cases hs : String.ofList word = "self"
    · have hw : "self".toList = word := by rw [← hs, String.toList_ofList]
      rw [if_pos hs]
      exact hw ▸ .self
    · rw [if_neg hs]
      by_cases hu : String.ofList word ∈ Keyword.unhandledWords
      · rw [if_pos hu]
        simpa using IsName.unhandled hu
      · rw [if_neg hu]
        refine .className (h.resolve_right fun hc => hu (hc ▸ by decide)) ?_
        have hn : ∀ kind ∈ PrimitiveKind.all, kind.keyword ≠ String.ofList word := by
          simpa [PrimitiveKind.ofKeyword?] using hk
        simp only [reservedWords, List.mem_append, List.mem_map, List.mem_cons, not_or, not_exists,
          not_and]
        exact ⟨hn, hs, hu⟩

/-- An `IsName` is one of the four forms of `IsTypeName`. -/
theorem exists_isName_iff {word : List Char} : (∃ name, IsName word name) ↔ IsTypeName word := by
  constructor
  · rintro ⟨name, h⟩
    cases h with
    | primitive kind => exact .inr (.inr (.inl (isPath_keyword kind)))
    | self => exact .inr (.inr (.inl (by decide)))
    | this => exact .inr (.inl rfl)
    | unhandled hu =>
      rcases isPath_of_mem_unhandledWords hu with rfl | hp
      · exact .inl rfl
      · exact .inr (.inr (.inl hp))
    | className hp => exact .inr (.inr (.inl hp))
    | qualified hp => exact .inr (.inr (.inr ⟨_, rfl, hp⟩))
  · rintro (rfl | rfl | hp | ⟨path, rfl, hp⟩)
    · exact ⟨_, isName_ofWord (.inr (by decide))⟩
    · exact ⟨_, .this⟩
    · exact ⟨_, isName_ofWord (.inl hp)⟩
    · exact ⟨_, .qualified hp⟩

/-- The characters that stand around names: blanks, brackets, the `bar` and the mark of `$this`. -/
def marks : List Char := [' ', '\t', '[', ']', '(', ')', '$', '|']

/-- A member of `marks` neither goes on with an identifier nor separates two. -/
theorem ne_of_mem_marks {c : Char} (h : c ∈ marks) :
    isIdentifierContinue c = false ∧ c ≠ separator := by
  simp only [marks, List.mem_cons, List.not_mem_nil, or_false] at h
  rcases h with rfl | rfl | rfl | rfl | rfl | rfl | rfl | rfl <;> decide

/-- No character of an `IsPath` is among the `marks`. -/
theorem not_mem_marks_of_isPath {path : List Char} (h : IsPath path) : ∀ c ∈ path, c ∉ marks := by
  intro c hc hmark
  obtain ⟨h₁, h₂⟩ := ne_of_mem_marks hmark
  rcases h.forall_mem c hc with hi | hs
  · simp [hi] at h₁
  · exact h₂ hs

/-- `isPadding` characters are among the `marks`. -/
theorem mem_marks_of_isPadding {c : Char} (h : isPadding c = true) : c ∈ marks := by
  rcases isPadding_iff.1 h with rfl | rfl <;> decide

/-- There are no blanks in an `IsPath`. -/
theorem isPadding_eq_false_of_isPath {path : List Char} (h : IsPath path) :
    ∀ c ∈ path, isPadding c = false := fun c hc =>
  Bool.eq_false_iff.2 fun hpad => not_mem_marks_of_isPath h c hc (mem_marks_of_isPadding hpad)

/-- An `IsTypeName` has a first and a last character, neither of them is padding, and the last one
does not close the array suffix. -/
theorem IsTypeName.ends {word : List Char} (h : IsTypeName word) :
    word ≠ [] ∧ (∀ c ∈ word.head?, isPadding c = false) ∧
      ∀ c ∈ word.getLast?, isPadding c = false ∧ c ≠ ']' := by
  have path {cs : List Char} (hp : IsPath cs) :
      ∀ c ∈ cs, isPadding c = false ∧ c ≠ ']' := fun c hc => by
    have hm := not_mem_marks_of_isPath hp c hc
    exact ⟨isPadding_eq_false_of_isPath hp c hc, fun he => hm (he ▸ by decide)⟩
  -- The first two forms are words of their own, whose ends are computed; a path has no mark at all.
  rcases h with rfl | rfl | hp | ⟨cs, rfl, hp⟩
  · refine ⟨by decide, fun c hc => ?_, fun c hc => ?_⟩
    · obtain rfl : 'r' = c := Option.some.inj hc
      rfl
    · obtain rfl : ')' = c := Option.some.inj hc
      decide
  · refine ⟨by decide, fun c hc => ?_, fun c hc => ?_⟩
    · obtain rfl : '$' = c := Option.some.inj hc
      rfl
    · obtain rfl : 's' = c := Option.some.inj hc
      decide
  · refine ⟨hp.ne_nil, fun c hc => ?_, fun c hc => ?_⟩
    · exact (path hp c (List.mem_of_mem_head? hc)).1
    · exact path hp c (List.mem_of_getLast? hc)
  · refine ⟨by simp, by simp; decide, fun c hc => ?_⟩
    rw [List.getLast?_cons_of_ne_nil hp.ne_nil] at hc
    exact path hp c (List.mem_of_getLast? hc)

/-- No `bar` is part of an `IsTypeName`. -/
theorem IsTypeName.bar_notMem {word : List Char} (h : IsTypeName word) : bar ∉ word := by
  rcases h with rfl | rfl | hp | ⟨path, rfl, hp⟩
  · decide
  · decide
  · exact fun hb => not_mem_marks_of_isPath hp bar hb (by decide)
  · have hne : bar ≠ '\\' := by decide
    simpa [hne] using fun hb => not_mem_marks_of_isPath hp bar hb (by decide)

/-! ## Reading a name -/

/-- What `readName?` takes for a name is one, and its meaning is the right one. -/
theorem isName_of_readName? {cs left : List Char} {name : Name}
    (h : readName? cs = some (name, left)) : ∃ word, cs = word ++ left ∧ IsName word name := by
  unfold readName? at h
  split at h
  · next rest hr =>
    obtain ⟨rfl, rfl⟩ := Prod.mk.inj (Option.some.inj h)
    have hn : IsName Keyword.closedResource.toList (.ofWord Keyword.closedResource) := by
      have hw := isName_ofWord (.inr (String.ofList_toList (s := Keyword.closedResource)))
      rwa [String.ofList_toList] at hw
    exact ⟨_, afterWord?_eq_some_iff.1 hr, hn⟩
  · split at h
    · next rest hr =>
      obtain ⟨rfl, rfl⟩ := Prod.mk.inj (Option.some.inj h)
      exact ⟨_, afterWord?_eq_some_iff.1 hr, .this⟩
    · split at h
      · next rest =>
        obtain ⟨⟨path, l⟩, hp, he⟩ := Option.map_eq_some_iff.1 h
        obtain ⟨rfl, rfl⟩ := Prod.mk.inj he
        obtain ⟨rfl, hpath, -⟩ := path?_eq_some_iff.1 hp
        exact ⟨_, rfl, .qualified hpath⟩
      · obtain ⟨⟨path, l⟩, hp, he⟩ := Option.map_eq_some_iff.1 h
        obtain ⟨rfl, rfl⟩ := Prod.mk.inj he
        obtain ⟨rfl, hpath, -⟩ := path?_eq_some_iff.1 hp
        exact ⟨_, rfl, isName_ofWord (.inl hpath)⟩

/-- `readName?` reads a name path with its meaning, unless more of a name follows. The closed
resource is the only name that goes on behind a path, with a bracket (`hb`). -/
theorem readName?_append_of_isPath {path left : List Char} (hp : IsPath path)
    (hl : continuesPath left = false) (hb : '(' ∉ left) :
    readName? (path ++ left) = some (.ofWord (String.ofList path), left) := by
  have hm := not_mem_marks_of_isPath hp
  -- The alternatives that are tried before a path: each has a mark that the path has not.
  have hclosed : afterWord? Keyword.closedResource (path ++ left) = none := by
    rw [Option.eq_none_iff_forall_ne_some]
    intro rest hr
    have he := afterWord?_eq_some_iff.1 hr
    have hmem : '(' ∈ path ++ left := by
      rw [he]
      exact List.mem_append_left _ (by decide)
    rcases List.mem_append.1 hmem with h | h
    · exact hm _ h (by decide)
    · exact hb h
  obtain ⟨c, rest, rfl, hc, -⟩ := hp.exists_cons
  have hthis : afterWord? thisMarker (c :: rest ++ left) = none := by
    rw [Option.eq_none_iff_forall_ne_some]
    intro rest' hr
    have he := afterWord?_eq_some_iff.1 hr
    have hd : c = '$' := (List.cons.inj he).1
    exact hm c (by simp) (hd ▸ by decide)
  have hsep : c ≠ '\\' := by
    rintro rfl
    simp [isIdentifierStart] at hc
  have hpath : path? (c :: rest ++ left) = some (c :: rest, left) :=
    path?_eq_some_iff.2 ⟨rfl, hp, hl⟩
  unfold readName?
  simp only [hclosed, hthis]
  split
  · next he => exact absurd (List.cons.inj he).1 hsep
  · rw [hpath]
    rfl

/-- `ofWord` makes a class of a word that is not reserved. -/
theorem ofWord_eq_className {word : String} (h : word ∉ reservedWords) :
    Name.ofWord word = .className word false := by
  simp only [reservedWords, List.mem_append, List.mem_map, List.mem_cons, not_or, not_exists,
    not_and] at h
  obtain ⟨hk, hs, hu⟩ := h
  have hn : PrimitiveKind.ofKeyword? word = none := by
    simpa [PrimitiveKind.ofKeyword?] using hk
  simp [Name.ofWord, Keyword.ofWord?, hn, hs, hu]

/-- `readName?` reads an `IsName` with its meaning, unless more of a name follows (`hl`, `hb`). -/
theorem readName?_append {word left : List Char} {name : Name} (h : IsName word name)
    (hl : continuesPath left = false) (hb : '(' ∉ left) :
    readName? (word ++ left) = some (name, left) := by
  -- Every name but two is a path or a path behind a separator; `$this` and the closed resource are
  -- tried as whole words before.
  cases h with
  | primitive kind =>
    have hw : Name.ofWord kind.keyword = .primitive kind := by
      simp [Name.ofWord, Keyword.ofWord?, PrimitiveKind.ofKeyword?_keyword]
    rw [readName?_append_of_isPath (isPath_keyword kind) hl hb, String.ofList_toList, hw]
  | self => exact readName?_append_of_isPath (by decide) hl hb
  | this =>
    have hclosed : afterWord? Keyword.closedResource ("$this".toList ++ left) = none := rfl
    have hthis : afterWord? thisMarker ("$this".toList ++ left) = some left :=
      afterWord?_eq_some_iff.2 rfl
    unfold readName?
    simp only [hclosed, hthis]
  | @unhandled word hu =>
    have hw : ∀ w ∈ Keyword.unhandledWords, Name.ofWord w = .unhandled w := by decide
    rcases isPath_of_mem_unhandledWords hu with rfl | hp
    · have hclosed : afterWord? Keyword.closedResource (Keyword.closedResource.toList ++ left) =
          some left := afterWord?_eq_some_iff.2 rfl
      unfold readName?
      simp only [hclosed, hw _ hu]
    · rw [readName?_append_of_isPath hp hl hb, String.ofList_toList, hw word hu]
  | className hp hr =>
    rw [readName?_append_of_isPath hp hl hb, ofWord_eq_className hr]
  | @qualified path hp =>
    have hpath : path? (path ++ left) = some (path, left) := path?_eq_some_iff.2 ⟨rfl, hp, hl⟩
    unfold readName?
    simp only [List.cons_append, hpath]
    rfl

/-! ## Reading a piece -/

/-- A piece without the blanks in front of it, by `skipPadding`, and behind it. -/
def strip (cs : List Char) : List Char := (skipPadding cs).rdropWhile isPadding

/-- A name of the given meaning, with the `arraySuffix` at once after it or not at all. -/
def IsTerm (body : List Char) (name : Name) (isArray : Bool) : Prop :=
  ∃ word, IsName word name ∧ body = word ++ if isArray then arraySuffix.toList else []

/-- A piece is its `strip` between blanks. -/
theorem eq_append_strip_append (piece : List Char) :
    piece = piece.takeWhile isPadding ++
      (strip piece ++ (skipPadding piece).rtakeWhile isPadding) := by
  rw [strip, List.rdropWhile_append_rtakeWhile, skipPadding, List.takeWhile_append_dropWhile]

/-- `strip` takes off the blanks around a text that has none at its ends, and nothing else. -/
theorem strip_append {before body after : List Char} (hb : ∀ c ∈ before, isPadding c = true)
    (ha : ∀ c ∈ after, isPadding c = true) (hne : body ≠ [])
    (hf : ∀ c ∈ body.head?, isPadding c = false) (hl : ∀ c ∈ body.getLast?, isPadding c = false) :
    (before ++ (body ++ after)).takeWhile isPadding = before ∧
      strip (before ++ (body ++ after)) = body := by
  obtain ⟨c, rest, rfl⟩ := List.exists_cons_of_ne_nil hne
  have hc : isPadding c = false := hf c rfl
  have hlast : isPadding ((c :: rest).getLast hne) = false :=
    hl _ (List.getLast?_eq_some_getLast hne)
  constructor
  · rw [List.takeWhile_append_of_pos hb]
    simp [hc]
  · have hskip : skipPadding (before ++ (c :: rest ++ after)) = c :: rest ++ after := by
      rw [skipPadding, List.dropWhile_append_of_pos hb]
      simp [hc]
    have hafter : ∀ c ∈ after.reverse, isPadding c = true := fun c hm => ha c (by simpa using hm)
    rw [strip, hskip, List.rdropWhile, List.reverse_append, List.dropWhile_append_of_pos hafter]
    have := List.rdropWhile_eq_self_iff.2 fun h => by simpa using hlast
    simpa [List.rdropWhile] using this

/-- An `IsTerm` has a first and a last character, and neither is padding. -/
theorem IsTerm.ends {body : List Char} {name : Name} {isArray : Bool}
    (h : IsTerm body name isArray) :
    body ≠ [] ∧ (∀ c ∈ body.head?, isPadding c = false) ∧
      ∀ c ∈ body.getLast?, isPadding c = false := by
  obtain ⟨word, hw, rfl⟩ := h
  obtain ⟨hne, hf, hl⟩ := (exists_isName_iff.1 ⟨name, hw⟩).ends
  refine ⟨by simp [hne], ?_, ?_⟩
  · rwa [List.head?_append_of_ne_nil _ hne]
  · cases isArray with
    | true =>
      rw [if_pos rfl, List.getLast?_append_of_ne_nil _ (by decide)]
      intro c hc
      obtain rfl : ']' = c := Option.some.inj hc
      rfl
    | false => simpa using fun c hc => (hl c hc).1

/-- `strip` takes no blank off an `IsTerm`. -/
theorem IsTerm.strip_eq {body : List Char} {name : Name} {isArray : Bool}
    (h : IsTerm body name isArray) : strip body = body := by
  obtain ⟨hne, hf, hl⟩ := h.ends
  have hstrip := (strip_append (List.forall_mem_nil _) (List.forall_mem_nil _) hne hf hl).2
  simpa using hstrip

/-- No `bar` is part of an `IsTerm`. -/
theorem IsTerm.bar_notMem {body : List Char} {name : Name} {isArray : Bool}
    (h : IsTerm body name isArray) : bar ∉ body := by
  obtain ⟨word, hw, rfl⟩ := h
  have hword : bar ∉ word := (exists_isName_iff.1 ⟨name, hw⟩).bar_notMem
  cases isArray with
  | true => simpa [hword] using (by decide : bar ∉ arraySuffix.toList)
  | false => simpa using hword

/-- An `IsTerm` is an array if and only if it ends in the `arraySuffix`, since no name does. -/
theorem IsTerm.isArray_iff {body : List Char} {name : Name} {isArray : Bool}
    (h : IsTerm body name isArray) : isArray = true ↔ arraySuffix.toList <:+ body := by
  obtain ⟨word, hw, rfl⟩ := h
  constructor
  · rintro rfl
    exact List.suffix_append word _
  · intro hs
    by_contra hf
    obtain ⟨hne, -, hl⟩ := (exists_isName_iff.1 ⟨name, hw⟩).ends
    obtain ⟨front, he⟩ := hs
    simp only [hf] at he
    have hlast : ']' ∈ word.getLast? := by
      rw [show word = front ++ arraySuffix.toList by simpa using he.symm,
        List.getLast?_append_of_ne_nil _ (by decide)]
      decide
    exact (hl _ hlast).2 rfl

/-- Only padding stands where `skipPadding` leaves nothing. -/
theorem skipPadding_eq_nil_iff {cs : List Char} :
    skipPadding cs = [] ↔ ∀ c ∈ cs, isPadding c = true := by
  simp [skipPadding, List.dropWhile_eq_nil_iff]

/-- A piece that `readPiece` reads as a term is an `IsTerm` between blanks. -/
theorem exists_isTerm_of_readPiece {start : Nat} {piece : List Char} {t : Term}
    (h : readPiece start piece = .term t) :
    ∃ before body after, piece = before ++ (body ++ after) ∧
      (∀ c ∈ before, isPadding c = true) ∧ (∀ c ∈ after, isPadding c = true) ∧
      IsTerm body t.name t.isArray := by
  have hpiece : piece.takeWhile isPadding ++ skipPadding piece = piece :=
    List.takeWhile_append_dropWhile
  have hbefore : ∀ c ∈ piece.takeWhile isPadding, isPadding c = true :=
    fun c hc => List.mem_takeWhile_imp hc
  unfold readPiece at h
  dsimp only at h
  split at h
  · next name afterName hn =>
    obtain ⟨word, hbody, hw⟩ := isName_of_readName? hn
    split at h
    · next afterSuffix hs =>
      split at h
      · next hrest =>
        obtain rfl := Piece.term.inj h
        refine ⟨_, word ++ arraySuffix.toList, afterSuffix, ?_, hbefore,
          skipPadding_eq_nil_iff.1 hrest, word, hw, rfl⟩
        rw [List.append_assoc, ← afterWord?_eq_some_iff.1 hs, ← hbody, hpiece]
      · simp at h
    · split at h
      · next hrest =>
        obtain rfl := Piece.term.inj h
        refine ⟨_, word, afterName, ?_, hbefore, skipPadding_eq_nil_iff.1 hrest, word, hw,
          by simp⟩
        rw [← hbody, hpiece]
      · simp at h
  · split at h
    · simp at h
    · simp at h
    · split at h
      · split at h <;> simp at h
      · simp at h

/-- `readPiece` reads an `IsTerm` between blanks, and its range leaves out the blanks. -/
theorem readPiece_append (start : Nat) {before body after : List Char} {name : Name}
    {isArray : Bool} (hb : ∀ c ∈ before, isPadding c = true)
    (ha : ∀ c ∈ after, isPadding c = true) (h : IsTerm body name isArray) :
    readPiece start (before ++ (body ++ after)) = .term ⟨name, isArray,
      start + byteLength before, start + byteLength before + byteLength body⟩ := by
  obtain ⟨hne, hf, hl⟩ := h.ends
  have hskip : skipPadding (before ++ (body ++ after)) = body ++ after := by
    obtain ⟨c, rest, rfl⟩ := List.exists_cons_of_ne_nil hne
    rw [skipPadding, List.dropWhile_append_of_pos hb]
    simp [hf c rfl]
  have hrest : skipPadding after = [] := by
    simpa [skipPadding, List.dropWhile_eq_nil_iff] using ha
  have hmarks : ∀ c ∈ after, c = ' ' ∨ c = '\t' := fun c hc => isPadding_iff.1 (ha c hc)
  obtain ⟨word, hw, rfl⟩ := h
  -- Neither the suffix nor a blank goes on with the name, so the whole of it is read.
  unfold readPiece
  dsimp only
  rw [hskip]
  cases isArray with
  | true =>
    have hn : readName? (word ++ arraySuffix.toList ++ after) =
        some (name, arraySuffix.toList ++ after) := by
      rw [List.append_assoc]
      refine readName?_append hw rfl fun hp => ?_
      rcases List.mem_append.1 hp with hp | hp
      · simp [arraySuffix] at hp
      · rcases hmarks _ hp with h | h <;> simp at h
    have hs : afterWord? arraySuffix (arraySuffix.toList ++ after) = some after :=
      afterWord?_eq_some_iff.2 rfl
    simp only [if_true, hn, hs, hrest, byteLength_append]
    simp only [Piece.term.injEq, Term.mk.injEq, Span.mk.injEq, true_and]
    omega
  | false =>
    have hcont : continuesPath after = false ∧ afterWord? arraySuffix after = none := by
      cases after with
      | nil => exact ⟨rfl, rfl⟩
      | cons c rest =>
        rcases hmarks c (by simp) with rfl | rfl
        · cases rest <;> exact ⟨rfl, rfl⟩
        · cases rest <;> exact ⟨rfl, rfl⟩
    have hn : readName? (word ++ after) = some (name, after) := by
      refine readName?_append hw hcont.1 fun hp => ?_
      rcases hmarks _ hp with h | h <;> simp at h
    simp only [Bool.false_eq_true, if_false, List.append_nil, hn, hcont.2, hrest,
      byteLength_append]
    simp only [Piece.term.injEq, Term.mk.injEq, Span.mk.injEq, true_and]
    omega

/-- The range of the `strip` of a piece, if the piece starts at byte `start`. -/
def strippedSpan (start : Nat) (piece : List Char) : Span :=
  let first := start + byteLength (piece.takeWhile isPadding)
  ⟨first, first + byteLength (strip piece)⟩

/-- `readPiece` accepts what the grammar describes, with the same meaning and the `strippedSpan`. -/
theorem readPiece_eq_term_iff {start : Nat} {piece : List Char} {t : Term} :
    readPiece start piece = .term t ↔
      IsTerm (strip piece) t.name t.isArray ∧ t.span = strippedSpan start piece := by
  constructor
  · intro h
    obtain ⟨before, body, after, rfl, hb, ha, ht⟩ := exists_isTerm_of_readPiece h
    obtain ⟨hne, hf, hl⟩ := ht.ends
    obtain ⟨htake, hstrip⟩ := strip_append hb ha hne hf hl
    rw [readPiece_append start hb ha ht] at h
    rw [strippedSpan, htake, hstrip]
    exact ⟨ht, (congrArg Term.span (Piece.term.inj h)).symm⟩
  · rintro ⟨ht, hs⟩
    have hb : ∀ c ∈ piece.takeWhile isPadding, isPadding c = true :=
      fun c hc => List.mem_takeWhile_imp hc
    have ha : ∀ c ∈ (skipPadding piece).rtakeWhile isPadding, isPadding c = true :=
      fun c hc => List.mem_rtakeWhile_imp hc
    have hr := readPiece_append start hb ha ht
    rw [← eq_append_strip_append piece] at hr
    rw [hr]
    obtain ⟨name, isArray, span⟩ := t
    obtain rfl : span = strippedSpan start piece := hs
    rfl

/-- An `IsTerm` has one meaning only. -/
theorem IsTerm.unique {body : List Char} {name name' : Name} {isArray isArray' : Bool}
    (h : IsTerm body name isArray) (h' : IsTerm body name' isArray') :
    name = name' ∧ isArray = isArray' := by
  -- Both meanings are what the reader gives.
  have hr : readPiece 0 ([] ++ (body ++ [])) = _ := readPiece_append 0 (by simp) (by simp) h
  rw [readPiece_append 0 (by simp) (by simp) h'] at hr
  simp only [Piece.term.injEq, Term.mk.injEq] at hr
  exact ⟨hr.1.symm, hr.2.1.symm⟩

/-- The `text` of a name is the name as it was written. -/
theorem IsName.toList_text {word : List Char} {name : Name} (h : IsName word name) :
    name.text.toList = word := by
  cases h with
  | primitive kind => rfl
  | self => rfl
  | this => rfl
  | unhandled => rfl
  | className => simp [Name.text]
  | qualified => simp [Name.text]

/-- The `text` of a term is the term as it was written. -/
theorem IsTerm.toList_text {body : List Char} {t : Term} (h : IsTerm body t.name t.isArray) :
    t.text.toList = body := by
  obtain ⟨word, hw, rfl⟩ := h
  cases ha : t.isArray with
  | true => simp [Term.text, ha, hw.toList_text]
  | false => simp [Term.text, ha, hw.toList_text]

end DocTypes.TypeExpr

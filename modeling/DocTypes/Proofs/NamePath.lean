import DocTypes.Text.Lexeme
import Mathlib.Data.List.TakeWhile

/-!
# Name paths and the greedy reader

`IsPath` says what a name path is: identifiers joined by single separators. The reader `path?` takes
characters one at a time and decides with one character of look-ahead whether a separator still
belongs to the name. `IsTail` is its view of a path, what may stand behind the first character, and
`isPath_cons_iff` joins the two views. `path?_eq_some_iff` is the specification of the reader: it
takes a name path, and what is left cannot prolong it (`continuesPath`). `IsPath.lastSegment_spec`
takes a path apart into its `namespaceOf` and its short name.
-/

namespace DocTypes.Lexeme

/-- The words that may be a segment of a name: `isIdentifierStart`, and then `isIdentifierContinue`
throughout. -/
def IsIdentifier (cs : List Char) : Prop :=
  ∃ c rest, cs = c :: rest ∧ isIdentifierStart c = true ∧
    ∀ d ∈ rest, isIdentifierContinue d = true

/-- Identifiers joined by single characters `separator`. -/
inductive IsPath : List Char → Prop
  | identifier {word : List Char} : IsIdentifier word → IsPath word
  | join {word rest : List Char} :
      IsIdentifier word → IsPath rest → IsPath (word ++ separator :: rest)

/-- What may stand in a name path behind a first character for which `isIdentifierStart` holds. -/
inductive IsTail : List Char → Prop
  | nil : IsTail []
  | continued {c : Char} {rest : List Char} : isIdentifierContinue c = true → IsTail rest →
      IsTail (c :: rest)
  | segment {c : Char} {rest : List Char} : isIdentifierStart c = true → IsTail rest →
      IsTail (separator :: c :: rest)

/-- Whether a text could prolong a name path that stands in front of it. The greedy `path?` leaves
no such text. -/
def continuesPath : List Char → Bool
  | [] => false
  | [c] => isIdentifierContinue c
  | c :: d :: _ => isIdentifierContinue c || (c == separator && isIdentifierStart d)

instance (cs : List Char) : Decidable (IsIdentifier cs) :=
  match cs with
  | [] => .isFalse fun ⟨_, _, h, _⟩ => by simp at h
  | c :: rest =>
    decidable_of_iff ((isIdentifierStart c && rest.all isIdentifierContinue) = true) <| by
      rw [Bool.and_eq_true, List.all_eq_true]
      exact ⟨fun ⟨hc, hr⟩ => ⟨c, rest, rfl, hc, hr⟩, fun ⟨_, _, h, hc, hr⟩ => by
        obtain ⟨rfl, rfl⟩ := List.cons.inj h
        exact ⟨hc, hr⟩⟩

/-- Every character of `isIdentifierStart` is one of `isIdentifierContinue`. -/
theorem isIdentifierContinue_of_start {c : Char} (h : isIdentifierStart c = true) :
    isIdentifierContinue c = true := isIdentifierContinue_iff.2 (.inl h)

/-- A run `word` of identifier characters in front of an `IsTail` is an `IsTail`. -/
theorem IsTail.append {word rest : List Char} (hw : ∀ d ∈ word, isIdentifierContinue d = true)
    (hr : IsTail rest) : IsTail (word ++ rest) := by
  induction word with
  | nil => exact hr
  | cons d word ih =>
    have hd : isIdentifierContinue d = true := hw d (by simp)
    exact .continued hd (ih fun e he => hw e (by simp [he]))

/-- An `IsTail` is a run of identifier characters, and behind it nothing or a `separator` and a
path. -/
theorem IsTail.exists_split {rest : List Char} (h : IsTail rest) :
    ∃ word left, rest = word ++ left ∧ (∀ d ∈ word, isIdentifierContinue d = true) ∧
      (left = [] ∨ ∃ path, left = separator :: path ∧ IsPath path) := by
  induction h with
  | nil => exact ⟨[], [], rfl, by simp, .inl rfl⟩
  | @continued c rest hc _ ih =>
    obtain ⟨word, left, rfl, hw, hl⟩ := ih
    refine ⟨c :: word, left, rfl, ?_, hl⟩
    simpa using ⟨hc, hw⟩
  | @segment c rest hc _ ih =>
    obtain ⟨word, left, rfl, hw, hl⟩ := ih
    have hword : IsIdentifier (c :: word) := ⟨c, word, rfl, hc, hw⟩
    refine ⟨[], _, rfl, by simp, .inr ⟨c :: (word ++ left), rfl, ?_⟩⟩
    rcases hl with rfl | ⟨path, rfl, hp⟩
    · simpa using IsPath.identifier hword
    · exact IsPath.join hword hp

/-- An `IsTail` whose first character passes `isIdentifierStart` is one without it. -/
theorem IsTail.of_cons {c : Char} {rest : List Char} (h : IsTail (c :: rest))
    (hc : isIdentifierStart c = true) : IsTail rest := by
  generalize hcs : c :: rest = cs at h
  cases h with
  | nil => simp at hcs
  | continued _ hr =>
    obtain ⟨-, rfl⟩ := List.cons.inj hcs
    exact hr
  | segment =>
    obtain ⟨rfl, -⟩ := List.cons.inj hcs
    simp [isIdentifierStart, separator] at hc

/-- Every path starts with an identifier, and an `IsTail` follows its first character. -/
theorem IsPath.exists_cons {cs : List Char} (h : IsPath cs) :
    ∃ c rest, cs = c :: rest ∧ isIdentifierStart c = true ∧ IsTail rest := by
  induction h with
  | identifier hw =>
    obtain ⟨c, rest, rfl, hc, hr⟩ := hw
    exact ⟨c, rest, rfl, hc, by simpa using IsTail.append hr .nil⟩
  | join hw _ ih =>
    obtain ⟨c, rest, rfl, hc, hr⟩ := hw
    obtain ⟨d, left, rfl, hd, hl⟩ := ih
    exact ⟨c, _, rfl, hc, IsTail.append hr (.segment hd hl)⟩

/-- `IsPath` is a character that starts an identifier, and an `IsTail`. -/
theorem isPath_cons_iff {c : Char} {rest : List Char} :
    IsPath (c :: rest) ↔ isIdentifierStart c = true ∧ IsTail rest := by
  constructor
  · intro h
    obtain ⟨d, left, he, hd, hl⟩ := h.exists_cons
    obtain ⟨rfl, rfl⟩ := List.cons.inj he
    exact ⟨hd, hl⟩
  · rintro ⟨hc, hr⟩
    obtain ⟨word, left, rfl, hw, hl⟩ := hr.exists_split
    have hword : IsIdentifier (c :: word) := ⟨c, word, rfl, hc, hw⟩
    rcases hl with rfl | ⟨path, rfl, hp⟩
    · simpa using IsPath.identifier hword
    · exact IsPath.join hword hp

/-- An `IsPath` has a first character. -/
theorem IsPath.ne_nil {cs : List Char} (h : IsPath cs) : cs ≠ [] := by
  obtain ⟨c, rest, rfl, -⟩ := h.exists_cons
  simp

/-- Two paths joined by a `separator` are an `IsPath`, along the first one. -/
theorem IsPath.join_path {path rest : List Char} (hp : IsPath path) (hr : IsPath rest) :
    IsPath (path ++ separator :: rest) := by
  induction hp with
  | identifier hw => exact .join hw hr
  | join hw _ ih =>
    rw [List.append_assoc]
    exact .join hw ih

/-- The characters of an `IsPath` are those of `isIdentifierContinue` and separators. -/
theorem IsPath.forall_mem {cs : List Char} (h : IsPath cs) :
    ∀ c ∈ cs, isIdentifierContinue c = true ∨ c = separator := by
  induction h with
  | identifier hw =>
    obtain ⟨c, rest, rfl, hc, hr⟩ := hw
    intro d hd
    rcases List.mem_cons.1 hd with rfl | hd
    · exact .inl (isIdentifierContinue_of_start hc)
    · exact .inl (hr d hd)
  | @join word rest hw _ ih =>
    obtain ⟨c, tail, rfl, hc, hr⟩ := hw
    intro d hd
    rcases List.mem_append.1 hd with hd | hd
    · rcases List.mem_cons.1 hd with rfl | hd
      · exact .inl (isIdentifierContinue_of_start hc)
      · exact .inl (hr d hd)
    · rcases List.mem_cons.1 hd with rfl | hd
      · exact .inr rfl
      · exact ih d hd

/-- `pathTail` takes a character that goes on with an identifier, whatever follows it. -/
theorem pathTail_cons {c : Char} (hc : isIdentifierContinue c = true) (rest : List Char) :
    pathTail (c :: rest) = (c :: (pathTail rest).1, (pathTail rest).2) := by
  cases rest with
  | nil => simp [pathTail, hc]
  | cons d rest => simp [pathTail, hc]

/-- `pathTail` takes a `separator` together with the start of an identifier behind it. -/
theorem pathTail_separator {c : Char} (hc : isIdentifierStart c = true) (rest : List Char) :
    pathTail (separator :: c :: rest) =
      (separator :: c :: (pathTail rest).1, (pathTail rest).2) := by
  rw [pathTail]
  simp [hc, pathTail_cons (isIdentifierContinue_of_start hc)]

/-- What `pathTail` takes is an `IsTail`. -/
theorem isTail_pathTail (cs : List Char) : IsTail (pathTail cs).1 := by
  -- The cases are those of the reader: no character, one, or two that it looks at together.
  fun_induction pathTail cs with
  | case1 => exact .nil
  | case2 c hc => exact .continued hc .nil
  | case3 c hc => exact .nil
  | case4 c d rest h taken left heq ih =>
    rw [heq] at ih
    rcases Bool.or_eq_true _ _ ▸ h with hc | hs
    · exact .continued hc ih
    · -- The identifier behind a separator has been read into the tail: its start is taken off.
      obtain ⟨rfl, hd⟩ : c = separator ∧ isIdentifierStart d = true := by simpa using hs
      rw [pathTail_cons (isIdentifierContinue_of_start hd)] at heq
      obtain ⟨rfl, -⟩ := Prod.mk.inj heq
      exact .segment hd (ih.of_cons hd)
  | case5 c d rest h => exact .nil

/-- `pathTail` stops only where the path cannot go on. -/
theorem continuesPath_pathTail (cs : List Char) : continuesPath (pathTail cs).2 = false := by
  fun_induction pathTail cs with
  | case1 => rfl
  | case2 c hc => rfl
  | case3 c hc => simpa [continuesPath] using hc
  | case4 c d rest h taken left heq ih => simpa [heq] using ih
  | case5 c d rest h => simpa [continuesPath] using h

/-- `pathTail` takes all of an `IsTail` that is followed by something else (`hl`). -/
theorem IsTail.pathTail_append {taken left : List Char} (h : IsTail taken)
    (hl : continuesPath left = false) : pathTail (taken ++ left) = (taken, left) := by
  -- Along `h`: at its end `hl` stops the reader, and before that it takes what each constructor
  -- adds.
  induction h with
  | nil =>
    match left with
    | [] => rfl
    | [c] => simpa [pathTail, continuesPath] using hl
    | c :: d :: rest =>
      simp only [continuesPath] at hl
      simp [pathTail, hl]
  | continued hc _ ih => rw [List.cons_append, pathTail_cons hc, ih]
  | segment hc _ ih => rw [List.cons_append, List.cons_append, pathTail_separator hc, ih]

/-- `path?` takes an `IsPath`, and as much as it can: nothing that `continuesPath` is left. -/
theorem path?_eq_some_iff {cs taken left : List Char} :
    path? cs = some (taken, left) ↔
      cs = taken ++ left ∧ IsPath taken ∧ continuesPath left = false := by
  constructor
  · intro h
    refine ⟨eq_append_of_path? h, ?_⟩
    cases cs with
    | nil => simp [path?] at h
    | cons c rest =>
      simp only [path?] at h
      split at h
      · next hc =>
        simp only [Option.some.injEq, Prod.mk.injEq] at h
        obtain ⟨rfl, rfl⟩ := h
        exact ⟨isPath_cons_iff.2 ⟨hc, isTail_pathTail rest⟩, continuesPath_pathTail rest⟩
      · simp at h
  · rintro ⟨rfl, hp, hl⟩
    obtain ⟨c, rest, rfl, hc, hr⟩ := hp.exists_cons
    simp [path?, hc, hr.pathTail_append hl]

instance (cs : List Char) : Decidable (IsPath cs) :=
  decidable_of_iff (path? cs = some (cs, [])) <| by
    rw [path?_eq_some_iff]
    simp [continuesPath]

/-- `identifier?` takes an `IsIdentifier`, and as much as it can. -/
theorem identifier?_eq_some_iff {cs taken left : List Char} :
    identifier? cs = some (taken, left) ↔ cs = taken ++ left ∧ IsIdentifier taken ∧
      ∀ c ∈ left.head?, isIdentifierContinue c = false := by
  constructor
  · intro h
    refine ⟨eq_append_of_identifier? h, ?_⟩
    cases cs with
    | nil => simp [identifier?] at h
    | cons c rest =>
      simp only [identifier?] at h
      split at h
      · next hc =>
        simp only [Option.some.injEq, Prod.mk.injEq] at h
        obtain ⟨rfl, rfl⟩ := h
        refine ⟨⟨c, _, rfl, hc, fun d hd => List.mem_takeWhile_imp hd⟩, fun d hd => ?_⟩
        have hhead := List.head?_dropWhile_not isIdentifierContinue rest
        rw [Option.mem_def.1 hd] at hhead
        simpa using hhead
      · simp at h
  · rintro ⟨rfl, ⟨c, rest, rfl, hc, hrest⟩, hleft⟩
    have htake : left.takeWhile isIdentifierContinue = [] := by
      cases left with
      | nil => rfl
      | cons d left => simp [hleft d rfl]
    have hdrop : left.dropWhile isIdentifierContinue = left := by
      cases left with
      | nil => rfl
      | cons d left => simp [hleft d rfl]
    rw [List.cons_append, identifier?, if_pos hc, List.takeWhile_append_of_pos hrest,
      List.dropWhile_append_of_pos hrest, htake, hdrop, List.append_nil]

/-! ## Short names -/

/-- An `IsPath` is an identifier, or a path, a `separator` and an identifier. -/
theorem IsPath.exists_last {cs : List Char} (h : IsPath cs) : ∃ last, IsIdentifier last ∧
    (cs = last ∨ ∃ front, IsPath front ∧ cs = front ++ separator :: last) := by
  induction h with
  | @identifier word hw => exact ⟨word, hw, .inl rfl⟩
  | @join word rest hw _ ih =>
    obtain ⟨last, hlast, rfl | ⟨front, hfront, rfl⟩⟩ := ih
    · exact ⟨rest, hlast, .inr ⟨word, .identifier hw, rfl⟩⟩
    · refine ⟨last, hlast, .inr ⟨word ++ separator :: front, .join hw hfront, ?_⟩⟩
      simp

/-- No `separator` is part of an `IsIdentifier`. -/
theorem IsIdentifier.ne_separator {word : List Char} (h : IsIdentifier word) :
    ∀ c ∈ word, (c != separator) = true := by
  obtain ⟨c, rest, rfl, hc, hr⟩ := h
  have hno : isIdentifierContinue separator = false := by decide
  intro d hd
  have hcont : isIdentifierContinue d = true := by
    rcases List.mem_cons.1 hd with rfl | hd
    · exact isIdentifierContinue_of_start hc
    · exact hr d hd
  rw [bne_iff_ne]
  rintro rfl
  rw [hno] at hcont
  cases hcont

/-- The `lastSegment` of a path is an identifier. A path without a namespace is its short name, and
any other is its `namespaceOf`, a separator and the short name. -/
theorem IsPath.lastSegment_spec {path : String} (h : IsPath path.toList) :
    IsIdentifier (lastSegment path).toList ∧
      (namespaceOf path = "" ∧ lastSegment path = path ∨
        namespaceOf path ≠ "" ∧ namespaceOf path ++ "\\" ++ lastSegment path = path) := by
  obtain ⟨cs, rfl⟩ : ∃ cs, path = String.ofList cs := ⟨_, String.ofList_toList.symm⟩
  rw [String.toList_ofList] at h
  obtain ⟨last, hlast, hcs⟩ := h.exists_last
  have hrev : ∀ c ∈ last.reverse, (c != separator) = true :=
    fun c hc => hlast.ne_separator c (List.mem_reverse.1 hc)
  have hstop : (separator != separator) = false := bne_self_eq_false _
  unfold namespaceOf lastSegment
  rw [String.toList_ofList, String.toList_ofList]
  rcases hcs with rfl | ⟨front, hfront, rfl⟩
  · rw [List.takeWhile_eq_self_iff.2 hrev, List.dropWhile_eq_nil_iff.2 hrev, List.reverse_reverse]
    exact ⟨hlast, .inl ⟨rfl, rfl⟩⟩
  · have hreverse : (front ++ separator :: last).reverse =
        last.reverse ++ separator :: front.reverse := by simp
    rw [hreverse, List.takeWhile_append_of_pos hrev, List.dropWhile_append_of_pos hrev]
    simp only [List.takeWhile_cons, List.dropWhile_cons, hstop, List.append_nil, List.drop_one,
      List.tail_cons, List.reverse_reverse, Bool.false_eq_true, if_false]
    refine ⟨hlast, .inr ⟨?_, ?_⟩⟩
    · rw [ne_eq, String.ofList_eq_empty_iff]
      exact hfront.ne_nil
    · rw [← String.toList_inj]
      simp [separator]

end DocTypes.Lexeme

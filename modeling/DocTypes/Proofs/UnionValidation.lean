import DocTypes.Proofs.SplitGrammar
import DocTypes.Validation

/-!
# Unions are judged member by member

The answer of `validate` for a declaration is determined by the answers for its members, each taken
by itself as a declaration. `resolve_eq_ok_iff` says so of what a declaration stands for, and
`toOption_validateRaw` of the check of a value: without an answer for some member there is none, and
otherwise it is the disjunction of the answers. Hence neither the order of the members nor how often
they are repeated makes a difference. The main statement is `validateRaw_union`.
-/

namespace DocTypes

open TypeExpr Lexeme

/-! ## Resolving member by member -/

namespace Scope

/-- What a piece of a declaration stands for, if `readPiece` reads a term. It is read at `0`: the
place matters for ranges only. -/
def resolvePiece? (s : Scope) (piece : List Char) : Option TypeTerm :=
  match readPiece 0 piece with
  | .term t => some (s.resolveTerm t)
  | _ => none

/-- What a name stands for with the array suffix or, unless `isArray`, without it. -/
def resolveParts (s : Scope) (name : Name) (isArray : Bool) : TypeTerm :=
  if isArray then .arrayOf (s.resolveName name) else s.resolveName name

/-- A name path that is not among the `reservedWords` is the name of the class that it stands
for. -/
theorem exists_isName_of_notMem_reservedWords {s : Scope} {word : String}
    (hpath : IsPath word.toList) (hfree : word ∉ reservedWords) :
    ∃ n, IsName word.toList n ∧ s.resolveName n = .classRef (s.resolveUnqualified word) := by
  refine ⟨_, .className hpath (by rwa [String.ofList_toList]), ?_⟩
  rw [resolveName, String.ofList_toList]

/-- `resolvePiece?` gives something if and only if the piece is an `IsTerm` of the grammar. -/
theorem resolvePiece?_eq_some_iff {s : Scope} {piece : List Char} {term : TypeTerm} :
    s.resolvePiece? piece = some term ↔
      ∃ name isArray, IsTerm (strip piece) name isArray ∧ s.resolveParts name isArray = term := by
  unfold resolvePiece?
  constructor
  · intro h
    split at h
    · next t ht =>
      exact ⟨t.name, t.isArray, (readPiece_eq_term_iff.1 ht).1, Option.some.inj h⟩
    · simp at h
  · rintro ⟨name, isArray, ht, rfl⟩
    have hr : readPiece 0 piece = .term ⟨name, isArray, strippedSpan 0 piece⟩ :=
      readPiece_eq_term_iff.2 ⟨ht, rfl⟩
    rw [hr]
    rfl

/-- For `resolvePiece?` it does not matter where a piece stands (`start`). -/
theorem resolvePiece?_of_readPiece {s : Scope} {start : Nat} {piece : List Char} {t : Term}
    (h : readPiece start piece = .term t) : s.resolvePiece? piece = some (s.resolveTerm t) :=
  resolvePiece?_eq_some_iff.2 ⟨t.name, t.isArray, (readPiece_eq_term_iff.1 h).1, rfl⟩

/-- If all pieces are terms, `resolvePiece?` takes each to what `resolveTerm` makes of its term. -/
theorem mapM_resolvePiece?_of_readFrom {s : Scope} {start : Nat} {pieces : List (List Char)}
    {terms : List Term} (h : readFrom start pieces = terms.map .term) :
    pieces.mapM s.resolvePiece? = some (terms.map s.resolveTerm) := by
  rw [mapM_eq_some_iff]
  induction pieces generalizing start terms with
  | nil =>
    obtain rfl : terms = [] := List.map_eq_nil_iff.1 h.symm
    exact .nil
  | cons piece pieces ih =>
    cases terms with
    | nil => cases h
    | cons t terms =>
      obtain ⟨ht, hrest⟩ := List.cons.inj h
      exact .cons (resolvePiece?_of_readPiece ht) (ih hrest)

/-- What the pieces of a declaration that `parse` accepts stand for. -/
theorem mapM_resolvePiece?_of_parse {s : Scope} {raw : String} {e : TypeExpr}
    (h : parse raw = .ok e) :
    (raw.toList.splitOn bar).mapM s.resolvePiece? = some (e.terms.map s.resolveTerm) := by
  have hterms := (parse_eq_ok_iff.1 h).2
  rw [readPieces_eq_readFrom] at hterms
  exact mapM_resolvePiece?_of_readFrom hterms

/-- A declaration stands for what `resolvePiece?` makes of its pieces, in order. -/
theorem resolve_eq_ok_iff {s : Scope} {raw : String} {d : TypeDeclaration} :
    s.resolve raw = .ok d ↔ (raw.toList.splitOn bar).mapM s.resolvePiece? = some d.terms := by
  constructor
  · intro h
    unfold resolve at h
    cases hp : parse raw with
    | error e => simp [hp, Except.map] at h
    | ok e =>
      obtain rfl : s.resolveExpr e = d := by simpa [hp, Except.map] using h
      exact mapM_resolvePiece?_of_parse hp
  · intro h
    have hterm : ∀ piece ∈ raw.toList.splitOn bar, IsTermText (strip piece) := by
      intro piece hpiece
      have hsome : s.resolvePiece? piece ≠ none := fun hn => by
        simp [mapM_eq_none_iff.2 ⟨piece, hpiece, hn⟩] at h
      obtain ⟨term, ht⟩ := Option.ne_none_iff_exists'.1 hsome
      obtain ⟨name, isArray, hi, -⟩ := resolvePiece?_eq_some_iff.1 ht
      exact exists_isTerm_iff.1 ⟨name, isArray, hi⟩
    obtain ⟨e, he⟩ := exists_parse_eq_ok_iff.2 hterm
    rw [mapM_resolvePiece?_of_parse he] at h
    obtain ⟨terms, hne⟩ := d
    obtain rfl : e.terms.map s.resolveTerm = terms := Option.some.inj h
    rw [resolve, he]
    rfl

/-- Every term of what `resolve` makes of a text is what some piece stands for. -/
theorem exists_piece_of_resolve {s : Scope} {raw : String} {d : TypeDeclaration}
    (h : s.resolve raw = .ok d) {term : TypeTerm} (ht : term ∈ d.terms) :
    ∃ piece, s.resolvePiece? piece = some term := by
  obtain ⟨piece, -, hpiece⟩ := exists_of_mem_mapM (resolve_eq_ok_iff.1 h) ht
  exact ⟨piece, hpiece⟩

/-- A text in which the terms of a declaration are `written` one by one is their texts, with bars in
between. -/
theorem toList_intercalate_terms (d : TypeDeclaration) (written : TypeTerm → String) :
    ("|".intercalate (d.terms.map written)).toList =
      [bar].intercalate (d.terms.map fun term => (written term).toList) := by
  rw [String.toList_intercalate, List.map_map]
  rfl

/-- If no term is `written` with a bar (`hbar`), the pieces of such a text are the texts of the
terms. -/
theorem splitOn_intercalate_terms {d : TypeDeclaration} {written : TypeTerm → String}
    (hbar : ∀ term ∈ d.terms, bar ∉ (written term).toList) :
    ("|".intercalate (d.terms.map written)).toList.splitOn bar =
      d.terms.map fun term => (written term).toList := by
  have hne : (d.terms.map fun term => (written term).toList) ≠ [] := by simpa using d.terms_ne_nil
  rw [toList_intercalate_terms]
  exact List.splitOn_intercalate bar (List.forall_mem_map.2 hbar) hne

/-- A text in which the terms of a declaration are `written` one by one stands for the declaration
if and only if each is written without a bar, and so that `resolvePiece?` takes it to the term. -/
theorem resolve_intercalate_eq_ok_iff {s : Scope} {d : TypeDeclaration}
    {written : TypeTerm → String} :
    s.resolve ("|".intercalate (d.terms.map written)) = .ok d ↔
      ∀ term ∈ d.terms, bar ∉ (written term).toList ∧
        s.resolvePiece? (written term).toList = some term := by
  rw [resolve_eq_ok_iff]
  constructor
  · intro h
    -- There are as many pieces as terms, so no text has a bar and the pieces are the texts.
    have hlength := (mapM_eq_some_iff.1 h).length_eq
    rw [toList_intercalate_terms] at hlength
    have htexts := bar_notMem_of_length_splitOn_intercalate (by rw [hlength, List.length_map])
    have hbar : ∀ term ∈ d.terms, bar ∉ (written term).toList :=
      fun term ht => htexts _ (List.mem_map_of_mem ht)
    rw [splitOn_intercalate_terms hbar, mapM_eq_some_iff, List.forall₂_map_left_iff,
      List.forall₂_same] at h
    exact fun term ht => ⟨hbar term ht, h term ht⟩
  · intro h
    rw [splitOn_intercalate_terms fun term ht => (h term ht).1]
    exact mapM_map_eq_some fun term ht => (h term ht).2

/-- If `resolvePiece?` takes a piece with the array suffix to something, it is the arrays of what
the piece stands for without the suffix. -/
theorem exists_name_of_resolvePiece?_suffix {s : Scope} {cs : List Char} {term : TypeTerm}
    (h : s.resolvePiece? (cs ++ "[]".toList) = some term) :
    bar ∉ cs ∧ ∃ name, term = .arrayOf (s.resolveName name) ∧
      s.resolvePiece? cs = some (s.resolveName name) := by
  obtain ⟨name, isArray, hterm, rfl⟩ := resolvePiece?_eq_some_iff.1 h
  obtain ⟨hbar, name', helement, harray⟩ :=
    exists_isTerm_of_suffix (exists_isTerm_iff.1 ⟨name, isArray, hterm⟩)
  obtain ⟨rfl, rfl⟩ := hterm.unique harray
  exact ⟨hbar, name, rfl, resolvePiece?_eq_some_iff.2 ⟨name, false, helement, rfl⟩⟩

end Scope

/-! ## The answer for a union -/

/-- What a term answers for a value, if it can be decided in the context `c`. -/
def TypeTerm.answer? (r : TypeRegistry) (c : ObjectContext) (v : Value) (t : TypeTerm) :
    Option Bool :=
  if t.undecidable? c = none then some (t.holds r c v) else none

/-- `validate` has an answer if `answer?` has one for all terms, and then it is their
disjunction. -/
theorem TypeDeclaration.toOption_validate (r : TypeRegistry) (c : ObjectContext)
    (d : TypeDeclaration) (v : Value) :
    (d.validate r c v).toOption =
      (d.terms.mapM (TypeTerm.answer? r c v)).map fun answers => answers.any id := by
  unfold validate
  cases hf : d.terms.findSome? (·.undecidable? c) with
  | some e =>
    obtain ⟨t, ht, hu⟩ := List.exists_of_findSome?_eq_some hf
    have hn : d.terms.mapM (TypeTerm.answer? r c v) = none :=
      mapM_eq_none_iff.2 ⟨t, ht, by simp [TypeTerm.answer?, hu]⟩
    rw [hn]
    rfl
  | none =>
    have hu := List.findSome?_eq_none_iff.1 hf
    have hs : d.terms.mapM (TypeTerm.answer? r c v) = some (d.terms.map (·.holds r c v)) := by
      rw [mapM_eq_some_iff, List.forall₂_map_right_iff, List.forall₂_same]
      exact fun t ht => if_pos (hu t ht)
    rw [hs]
    simp [Except.toOption, List.any_map]

namespace ClassDescriptor

/-- What a piece of a declaration answers for a value, if it stands for a term that has an
`answer?`. -/
def pieceAnswer? (d : ClassDescriptor) (r : TypeRegistry) (c : ObjectContext) (v : Value)
    (piece : List Char) : Option Bool :=
  ((d.scope r).resolvePiece? piece).bind (TypeTerm.answer? r c v)

/-- `validateRaw` has an answer if all pieces do, and then it is their disjunction. -/
theorem toOption_validateRaw_pieces (d : ClassDescriptor) (r : TypeRegistry) (c : ObjectContext)
    (raw : String) (v : Value) :
    (d.validateRaw r c (some raw) v).toOption =
      ((raw.toList.splitOn bar).mapM (d.pieceAnswer? r c v)).map fun answers => answers.any id := by
  have hpieces : (raw.toList.splitOn bar).mapM (d.pieceAnswer? r c v) =
      ((raw.toList.splitOn bar).mapM (d.scope r).resolvePiece?).bind fun terms =>
        terms.mapM (TypeTerm.answer? r c v) := mapM_bind
  rw [hpieces]
  unfold validateRaw resolve?
  cases hr : (d.scope r).resolve raw with
  | error e =>
    -- If every piece stood for something, so would the declaration.
    have hn : (raw.toList.splitOn bar).mapM (d.scope r).resolvePiece? = none := by
      rw [Option.eq_none_iff_forall_ne_some]
      intro terms hs
      have hne : terms ≠ [] := by
        rintro rfl
        have := (mapM_eq_some_iff.1 hs).length_eq
        simp at this
      rw [Scope.resolve_eq_ok_iff (d := ⟨terms, hne⟩) |>.2 hs] at hr
      simp at hr
    simp only [hr, hn]
    rfl
  | ok declaration =>
    simp only [hr, Scope.resolve_eq_ok_iff.1 hr]
    exact declaration.toOption_validate r c v

/-- A declaration without bars (`h`) is judged as its only piece. -/
theorem toOption_validateRaw_of_bar_notMem {d : ClassDescriptor} {r : TypeRegistry}
    {c : ObjectContext} {raw : String} (v : Value) (h : bar ∉ raw.toList) :
    (d.validateRaw r c (some raw) v).toOption = d.pieceAnswer? r c v raw.toList := by
  rw [toOption_validateRaw_pieces, List.splitOn_eq_singleton h, List.mapM_cons]
  cases ha : d.pieceAnswer? r c v raw.toList <;> simp

/-- The members of a declaration, what stands between its bars, as texts of their own. -/
def members (raw : String) : List String := (raw.toList.splitOn bar).map String.ofList

/-- `validateRaw` has an answer if it has one at all `members`, each taken by itself, and then it is
the disjunction of these. -/
theorem toOption_validateRaw (d : ClassDescriptor) (r : TypeRegistry) (c : ObjectContext)
    (raw : String) (v : Value) :
    (d.validateRaw r c (some raw) v).toOption =
      ((members raw).mapM fun m => (d.validateRaw r c (some m) v).toOption).map
        fun answers => answers.any id := by
  -- A member is a declaration with one piece, since no bar is left in it.
  have hmember : ∀ piece ∈ raw.toList.splitOn bar,
      (d.validateRaw r c (some (String.ofList piece)) v).toOption = d.pieceAnswer? r c v piece := by
    intro piece hp
    have hbar : bar ∉ (String.ofList piece).toList := by
      rw [String.toList_ofList]
      exact bar_notMem_of_mem_splitOn hp
    rw [toOption_validateRaw_of_bar_notMem v hbar, String.toList_ofList]
  rw [toOption_validateRaw_pieces, members, List.mapM_map, ← mapM_congr hmember]
  rfl

/-- Whether `validateRaw` cannot check a declaration at all: it cannot be read, or holds a term that
cannot be decided. -/
def Fails (d : ClassDescriptor) (r : TypeRegistry) (c : ObjectContext) (raw : String) (v : Value) :
    Prop :=
  ∃ e, d.validateRaw r c (some raw) v = .error e

/-- `Fails` says that there is no answer. -/
theorem fails_iff {d : ClassDescriptor} {r : TypeRegistry} {c : ObjectContext} {raw : String}
    {v : Value} : d.Fails r c raw v ↔ (d.validateRaw r c (some raw) v).toOption = none := by
  unfold Fails
  cases d.validateRaw r c (some raw) v <;> simp [Except.toOption]

/-- `validateRaw` succeeds with `b` if that is the answer. -/
theorem validateRaw_eq_ok_iff {d : ClassDescriptor} {r : TypeRegistry} {c : ObjectContext}
    {raw : String} {v : Value} {b : Bool} :
    d.validateRaw r c (some raw) v = .ok b ↔
      (d.validateRaw r c (some raw) v).toOption = some b := by
  cases d.validateRaw r c (some raw) v <;> simp [Except.toOption]

/-- `Fails` holds of a declaration if and only if it does of a member. -/
theorem fails_iff_exists_member {d : ClassDescriptor} {r : TypeRegistry} {c : ObjectContext}
    {raw : String} {v : Value} : d.Fails r c raw v ↔ ∃ m ∈ members raw, d.Fails r c m v := by
  simp only [fails_iff]
  rw [toOption_validateRaw, Option.map_eq_none_iff, mapM_eq_none_iff]

/-- A declaration that does not fail (`h`) accepts a value if and only if a member of it does. -/
theorem accepts_iff_exists_member {d : ClassDescriptor} {r : TypeRegistry} {c : ObjectContext}
    {raw : String} {v : Value} (h : ¬d.Fails r c raw v) :
    d.validateRaw r c (some raw) v = .ok true ↔
      ∃ m ∈ members raw, d.validateRaw r c (some m) v = .ok true := by
  rw [fails_iff, toOption_validateRaw, Option.map_eq_none_iff] at h
  obtain ⟨answers, ha⟩ := Option.ne_none_iff_exists'.1 h
  simp only [validateRaw_eq_ok_iff]
  rw [toOption_validateRaw, ha]
  have hall := mapM_eq_some_iff.1 ha
  simp only [Option.map_some, Option.some.injEq, List.any_eq_true, id, exists_eq_right]
  generalize members raw = ms at hall
  clear ha h
  -- Member by member: each has the answer of its number, and the disjunction is true where one of
  -- them is.
  induction hall with
  | nil => simp
  | cons hb _ ih => simp [hb, ih]

/-- The answer of `validateRaw` depends on the set of `members` only. -/
theorem toOption_validateRaw_congr {d : ClassDescriptor} {r : TypeRegistry} {c : ObjectContext}
    {raw raw' : String} {v : Value} (h : ∀ m, m ∈ members raw ↔ m ∈ members raw') :
    (d.validateRaw r c (some raw) v).toOption = (d.validateRaw r c (some raw') v).toOption := by
  have hfails : d.Fails r c raw v ↔ d.Fails r c raw' v := by
    rw [fails_iff_exists_member, fails_iff_exists_member]
    simp only [h]
  by_cases hf : d.Fails r c raw v
  · rw [fails_iff.1 hf, fails_iff.1 (hfails.1 hf)]
  · -- Both have an answer, and what is not accepted is rejected.
    have hf' : ¬d.Fails r c raw' v := fun h' => hf (hfails.2 h')
    have haccepts : d.validateRaw r c (some raw) v = .ok true ↔
        d.validateRaw r c (some raw') v = .ok true := by
      rw [accepts_iff_exists_member hf, accepts_iff_exists_member hf']
      simp only [h]
    rw [validateRaw_eq_ok_iff, validateRaw_eq_ok_iff] at haccepts
    obtain ⟨b, hb⟩ := Option.ne_none_iff_exists'.1 fun hn => hf (fails_iff.2 hn)
    obtain ⟨b', hb'⟩ := Option.ne_none_iff_exists'.1 fun hn => hf' (fails_iff.2 hn)
    rw [hb, hb', Option.some.injEq, Option.some.injEq] at haccepts
    rw [hb, hb', Bool.eq_iff_iff.2 haccepts]

/-- Whether a declaration `Fails` does not depend on the value. -/
theorem fails_value_irrelevant {d : ClassDescriptor} {r : TypeRegistry} {c : ObjectContext}
    {raw : String} (v v' : Value) : d.Fails r c raw v ↔ d.Fails r c raw v' := by
  -- Whether a term can be decided depends on the context only.
  have hpiece (piece : List Char) :
      d.pieceAnswer? r c v piece = none ↔ d.pieceAnswer? r c v' piece = none := by
    simp only [pieceAnswer?, TypeTerm.answer?, Option.bind_eq_none_iff, ite_eq_right_iff,
      reduceCtorEq]
  simp only [fails_iff]
  rw [toOption_validateRaw_pieces, toOption_validateRaw_pieces, Option.map_eq_none_iff,
    Option.map_eq_none_iff, mapM_eq_none_iff, mapM_eq_none_iff]
  simp only [hpiece]

/-- `validateRaw` accepts an array at a text with the suffix if and only if it accepts the elements
at the text without it. -/
theorem accepts_suffix_iff {d : ClassDescriptor} {r : TypeRegistry} {c : ObjectContext}
    {t : String} {v : Value} (ht : IsTermText (strip (t ++ "[]").toList))
    (hf : ¬d.Fails r c t v) :
    d.validateRaw r c (some (t ++ "[]")) v = .ok true ↔
      ∃ items, v = .array items ∧
        ∀ item ∈ items, d.validateRaw r c (some t) item.2 = .ok true := by
  rw [String.toList_append] at ht
  obtain ⟨hbar, name, helement, harray⟩ := exists_isTerm_of_suffix ht
  have hbar' : bar ∉ (t ++ "[]").toList := by
    rw [String.toList_append, List.mem_append]
    exact fun h => h.elim hbar (by decide)
  set element := (d.scope r).resolveName name with hel
  -- The elements are judged by one term, and the array by the term of arrays of it.
  have hanswer (w : Value) :
      (d.validateRaw r c (some t) w).toOption = element.answer? r c w := by
    rw [toOption_validateRaw_of_bar_notMem w hbar, pieceAnswer?,
      Scope.resolvePiece?_eq_some_iff.2 ⟨name, false, helement, rfl⟩]
    rfl
  have hanswer' : (d.validateRaw r c (some (t ++ "[]")) v).toOption =
      (TypeTerm.arrayOf element).answer? r c v := by
    rw [toOption_validateRaw_of_bar_notMem v hbar', pieceAnswer?, String.toList_append,
      Scope.resolvePiece?_eq_some_iff.2 ⟨name, true, harray, rfl⟩]
    rfl
  -- The element type does not fail, so the type of the arrays can be decided too.
  have hu : element.undecidable? c = none := by
    rw [fails_iff, hanswer v, TypeTerm.answer?] at hf
    by_contra hn
    exact hf (if_neg hn)
  have hitem (w : Value) :
      d.validateRaw r c (some t) w = .ok true ↔ element.holds r c w = true := by
    rw [validateRaw_eq_ok_iff, hanswer, TypeTerm.answer?, if_pos hu, Option.some.injEq]
  rw [validateRaw_eq_ok_iff, hanswer', TypeTerm.answer?, TypeTerm.undecidable?, if_pos hu,
    Option.some.injEq]
  simp only [hitem]
  cases v with
  | array items => simp [TypeTerm.holds]
  | _ => simp [TypeTerm.holds]

/-- Validation is compositional and free of order. A declaration `Fails` if and only if a member of
it fails by itself, and otherwise `validateRaw` accepts a value if and only if it does at a member.
So two declarations with the same `members`, in whatever order and however often repeated, have the
same outcome. Whether a declaration fails does not depend on the value. An array is accepted if and
only if each of its elements is accepted by the element type. -/
theorem validateRaw_union (d : ClassDescriptor) (r : TypeRegistry) (c : ObjectContext) :
    (∀ raw v, (d.Fails r c raw v ↔ ∃ m ∈ members raw, d.Fails r c m v) ∧
      (¬d.Fails r c raw v → (d.validateRaw r c (some raw) v = .ok true ↔
        ∃ m ∈ members raw, d.validateRaw r c (some m) v = .ok true))) ∧
    (∀ raw raw' v, (∀ m, m ∈ members raw ↔ m ∈ members raw') →
      (d.validateRaw r c (some raw) v).toOption = (d.validateRaw r c (some raw') v).toOption) ∧
    (∀ raw v v', d.Fails r c raw v ↔ d.Fails r c raw v') ∧
    ∀ t v, IsTermText (strip (t ++ "[]").toList) → ¬d.Fails r c t v →
      (d.validateRaw r c (some (t ++ "[]")) v = .ok true ↔
        ∃ items, v = .array items ∧
          ∀ item ∈ items, d.validateRaw r c (some t) item.2 = .ok true) :=
  ⟨fun _ _ => ⟨fails_iff_exists_member, accepts_iff_exists_member⟩,
    fun _ _ _ => toOption_validateRaw_congr, fun _ => fails_value_irrelevant,
    fun _ _ => accepts_suffix_iff⟩

/-- The descriptor of a class `name` without members. -/
def bare (name : String) : ClassDescriptor := ⟨name, "", ∅, [], ∅, ∅, ∅⟩

/-- A list of texts, a union with the list type `string[]` in two orders, and the list type by
itself. -/
theorem validateRaw_union_texts :
    let v : Value := .array [(.index 0, .string "a"), (.name "k", .string "b")]
    ((bare "A").validateRaw ∅ (.static "A") (some "int|string[]") v).toOption =
        ((bare "A").validateRaw ∅ (.static "A") (some "string[]|int|int") v).toOption ∧
      (bare "A").validateRaw ∅ (.static "A") (some "string[]") v = .ok true ∧
      (bare "A").Fails ∅ (.static "A") "$this|int" v := by
  intro v
  obtain ⟨hunion, hcongr, hfails, harray⟩ := validateRaw_union (bare "A") ∅ (.static "A")
  have hf : ¬(bare "A").Fails ∅ (.static "A") "string" v := by
    rintro ⟨e, he⟩
    cases he
  refine ⟨hcongr _ _ v fun m => ?_, ?_, ?_⟩
  · have h₁ : members "int|string[]" = ["int", "string[]"] := by decide
    have h₂ : members "string[]|int|int" = ["string[]", "int", "int"] := by decide
    simp only [h₁, h₂, List.mem_cons, List.not_mem_nil, or_false]
    tauto
  · refine (harray "string" v ⟨"string".toList, ?_, .inr (by decide)⟩ hf).2 ⟨_, rfl, ?_⟩
    · exact .inr (.inr (.inl (by decide)))
    · simp only [List.mem_cons, List.not_mem_nil, or_false, forall_eq_or_imp, forall_eq]
      exact ⟨rfl, rfl⟩
  · have hthis : (bare "A").Fails ∅ (.static "A") "$this|int" .null :=
      (hunion "$this|int" .null).1.2 ⟨"$this", by decide, _, rfl⟩
    exact (hfails "$this|int" .null v).1 hthis

end ClassDescriptor

end DocTypes

import DocTypes.Proofs.CacheRuns
import DocTypes.Proofs.ErrorPosition
import DocTypes.Proofs.UnionValidation

/-!
# How a class names itself

A declaration in a class may name the class as `self`, by its full name with a separator in front,
or by its short name, unless that is a reserved word or imported (`NamesItself`). `self` is settled
by the context and the two others by the registry, and the ways meet because a manifest knows every
class that it declares (`AtHome`).

Writing one for another leaves every check as it is. If the declaration cannot be read, it still
cannot, and for the same reason: the same piece is at fault, and only its place moves
(`ParseError.relocate`). The main statement is `validateRaw_respelled`.
-/

namespace DocTypes

open TypeExpr Lexeme

/-! ## Faults that move -/

/-- A range in what starts at `start`, if that is moved to `start'`. -/
def Span.relocate (start start' : Nat) (span : Span) : Span :=
  ⟨span.start - start + start', span.stop - start + start'⟩

/-- The same error about another text `source`, where what was at `start` is at `start'`. -/
def ParseError.relocate (source : String) (start start' : Nat) : ParseError → ParseError
  | emptyMember _ span => .emptyMember source (span.relocate start start')
  | bareArraySuffix _ span => .bareArraySuffix source (span.relocate start start')
  | malformedDeclaration _ position expected =>
    .malformedDeclaration source (position - start + start') expected
  | malformedImport _ position => .malformedImport source (position - start + start')

namespace TypeExpr

/-- `startBehind` is `0` for the first piece only. -/
theorem startBehind_eq_zero_iff {before : List (List Char)} :
    startBehind before = 0 ↔ before = [] := by
  rw [startBehind, byteLength_eq_zero_iff]
  cases before with
  | nil => simp [barred]
  | cons q before => simp [barred]

/-- A piece that is no term (`hpiece`) has the same error in another text and at another place, as
long as it stays the first piece or another one (`hfirst`). -/
theorem toTerm_relocate {s s' : String} {piece : List Char} {start start' : Nat} {e : ParseError}
    (hpiece : ¬IsTermText (strip piece)) (hfirst : start = 0 ↔ start' = 0)
    (h : (readPiece start piece).toTerm s = .error e) :
    (readPiece start' piece).toTerm s' = .error (e.relocate s' start start') := by
  -- A malformed piece stops the reader at a place of its own; a piece that is empty or a bare
  -- suffix is marked by its range.
  by_cases hm : IsMalformed piece
  · obtain ⟨front, left, -, -, expected, hsame, hread⟩ := hm.stopsSoundly
    rw [hread] at h ⊢
    cases h
    -- What is expected depends on the place only in that the text may start there.
    rw [hsame start start' hfirst, Piece.toTerm, ParseError.relocate, Nat.add_sub_cancel_left,
      Nat.add_comm]
  · rcases toTerm_of_not_isMalformed hpiece hm start s with ⟨hnil, he⟩ | ⟨hsuffix, he⟩
    · obtain rfl : e = _ := Except.error.inj (h.symm.trans he)
      rw [readPiece_of_strip_eq_nil hnil]
      simp only [Piece.toTerm, ParseError.relocate, Span.relocate, Nat.sub_self, Nat.zero_add,
        Nat.add_sub_cancel_left, Nat.add_comm start']
    · obtain rfl : e = _ := Except.error.inj (h.symm.trans he)
      rw [readPiece_of_strip_eq_suffix hsuffix]
      simp only [Piece.toTerm, ParseError.relocate, Span.relocate, Nat.add_assoc,
        Nat.add_sub_cancel_left, Nat.add_comm _ start']

end TypeExpr

/-! ## The names of a class for itself -/

/-- In the namespace of a class, `nameInside` makes the name of the class of its `lastSegment`. -/
theorem Scope.nameInside_lastSegment {s : Scope} {className : String}
    (hnamespace : s.inNamespace = namespaceOf className) (hpath : IsPath className.toList) :
    s.nameInside (lastSegment className) = className := by
  rw [Scope.nameInside, hnamespace]
  rcases hpath.lastSegment_spec.2 with ⟨hnone, hname⟩ | ⟨hsome, hname⟩
  · rw [if_pos hnone, hname]
  · rw [if_neg hsome, hname]

namespace ClassDescriptor

variable {d : ClassDescriptor} {r : TypeRegistry} {c : ObjectContext} {word : List Char}
  {piece piece' : List Char} {before after pieces pieces' : List (List Char)} {raw raw' : String}

/-- The names that stand for the class of `d` itself in its declarations. -/
inductive NamesItself (d : ClassDescriptor) : List Char → Prop
  | self : NamesItself d "self".toList
  | qualified : NamesItself d ('\\' :: d.name.toList)
  | short : lastSegment d.name ∉ reservedWords → d.imports.get? (lastSegment d.name) = none →
      NamesItself d (lastSegment d.name).toList

/-- Two pieces of a declaration are the same, or both are `NamesItself`, with the same array suffix
or without it. -/
def Respelled (d : ClassDescriptor) (piece piece' : List Char) : Prop :=
  piece = piece' ∨ ∃ word word' suffix, d.NamesItself word ∧ d.NamesItself word' ∧
    (suffix = [] ∨ suffix = "[]".toList) ∧ strip piece = word ++ suffix ∧
    strip piece' = word' ++ suffix

/-- The class is known to `r`, by a name path, and its declarations are resolved in its own
namespace. -/
structure AtHome (d : ClassDescriptor) (r : TypeRegistry) : Prop where
  isPath : IsPath d.name.toList
  known : r.contains d.name = true
  inNamespace : d.inNamespace = namespaceOf d.name

/-- The class itself, as `selfRef` or by its name. -/
inductive Itself (d : ClassDescriptor) : TypeTerm → Prop
  | selfRef : Itself d .selfRef
  | classRef : Itself d (.classRef d.name)

/-- Each of the names stands for the class `Itself`, where it is `AtHome`. -/
theorem NamesItself.exists_isName (h : d.NamesItself word) (hd : d.AtHome r) :
    ∃ name, IsName word name ∧ d.Itself ((d.scope r).resolveName name) := by
  -- The registry is asked only for the short name, which is looked up in the namespace.
  cases h with
  | self => exact ⟨.self, .self, .selfRef⟩
  | qualified =>
    refine ⟨_, .qualified hd.isPath, ?_⟩
    rw [Scope.resolveName, String.ofList_toList]
    exact .classRef
  | short hfree himports =>
    have hshort : IsPath (lastSegment d.name).toList :=
      .identifier hd.isPath.lastSegment_spec.1
    obtain ⟨n, hname, hn⟩ :=
      Scope.exists_isName_of_notMem_reservedWords (s := d.scope r) hshort hfree
    refine ⟨n, hname, ?_⟩
    have hinside : (d.scope r).nameInside (lastSegment d.name) = d.name :=
      Scope.nameInside_lastSegment hd.inNamespace hd.isPath
    have hresolve : (d.scope r).resolveUnqualified (lastSegment d.name) = d.name := by
      rw [Scope.resolveUnqualified, hinside]
      simp only [scope, himports, hd.known, if_true]
    rw [hn, hresolve]
    exact .classRef

/-- With the array suffix or without it, a `NamesItself` is a term. -/
theorem NamesItself.isTermText (h : d.NamesItself word) (hd : d.AtHome r) {suffix : List Char}
    (hsuffix : suffix = [] ∨ suffix = "[]".toList) : IsTermText (word ++ suffix) := by
  obtain ⟨name, hname, -⟩ := h.exists_isName hd
  refine ⟨word, exists_isName_iff.1 ⟨name, hname⟩, ?_⟩
  rcases hsuffix with rfl | rfl
  · exact .inl (List.append_nil word)
  · exact .inr rfl

/-! ## Checks -/

/-- No value tells the terms `t` and `t'` apart in the context `c`. -/
structure Indistinguishable (r : TypeRegistry) (c : ObjectContext) (t t' : TypeTerm) : Prop where
  undecidable?_eq : t.undecidable? c = t'.undecidable? c
  holds_eq : ∀ v, t.holds r c v = t'.holds r c v

/-- The class `Itself` is one and the same however it is named, where it is the class of the context
(`hc`). -/
theorem Itself.indistinguishable (hd : d.AtHome r) (hc : c.className = d.name) {t t' : TypeTerm}
    (h : d.Itself t) (h' : d.Itself t') : Indistinguishable r c t t' := by
  -- Both ask for an instance of the class, and that the class is known is no further question.
  have hself {t : TypeTerm} (h : d.Itself t) :
      t.undecidable? c = none ∧ ∀ v, t.holds r c v = TypeTerm.isInstance r d.name v := by
    cases h with
    | selfRef =>
      refine ⟨rfl, fun v => ?_⟩
      rw [TypeTerm.holds, hc]
    | classRef =>
      refine ⟨rfl, fun v => ?_⟩
      rw [TypeTerm.holds, hd.known, Bool.true_and]
  refine ⟨?_, fun v => ?_⟩
  · rw [(hself h).1, (hself h').1]
  · rw [(hself h).2, (hself h').2]

/-- An `arrayOf` keeps `Indistinguishable` terms so. -/
theorem Indistinguishable.arrayOf {t t' : TypeTerm} (h : Indistinguishable r c t t') :
    Indistinguishable r c (.arrayOf t) (.arrayOf t') := by
  refine ⟨?_, fun v => ?_⟩
  · rw [TypeTerm.undecidable?, TypeTerm.undecidable?, h.undecidable?_eq]
  · cases v with
    | array items => simp only [TypeTerm.holds, h.holds_eq]
    | _ => rfl

/-- `validate` is the same at declarations whose terms are `Indistinguishable`. -/
theorem validate_eq_of_forall₂ {declaration declaration' : TypeDeclaration}
    (h : List.Forall₂ (Indistinguishable r c) declaration.terms declaration'.terms) (v : Value) :
    declaration'.validate r c v = declaration.validate r c v := by
  unfold TypeDeclaration.validate
  generalize declaration.terms = terms at h
  generalize declaration'.terms = terms' at h
  obtain ⟨hundecidable, hholds⟩ :
      terms'.findSome? (·.undecidable? c) = terms.findSome? (·.undecidable? c) ∧
        (terms'.any fun t => t.holds r c v) = terms.any fun t => t.holds r c v := by
    induction h with
    | nil => exact ⟨rfl, rfl⟩
    | cons ht _ ih =>
      constructor
      · rw [List.findSome?_cons, List.findSome?_cons, ht.undecidable?_eq, ih.1]
      · rw [List.any_cons, List.any_cons, ht.holds_eq, ih.2]
  rw [hundecidable, hholds]

/-- What a `Respelled` piece stands for is `Indistinguishable` from what it stood for. -/
theorem Respelled.exists_resolvePiece? (h : d.Respelled piece piece') (hd : d.AtHome r)
    (hc : c.className = d.name) {term : TypeTerm}
    (hterm : (d.scope r).resolvePiece? piece = some term) :
    ∃ term', (d.scope r).resolvePiece? piece' = some term' ∧ Indistinguishable r c term term' := by
  rcases h with rfl | ⟨word, word', suffix, hword, hword', hsuffix, hpiece, hpiece'⟩
  · exact ⟨term, hterm, rfl, fun v => rfl⟩
  · obtain ⟨name, hname, hitself⟩ := hword.exists_isName hd
    obtain ⟨name', hname', hitself'⟩ := hword'.exists_isName hd
    have hsame := hitself.indistinguishable hd hc hitself'
    obtain ⟨isArray, rfl⟩ : ∃ isArray : Bool, suffix = if isArray then arraySuffix.toList else [] :=
      hsuffix.elim (fun h => ⟨false, h⟩) fun h => ⟨true, h⟩
    have ht : IsTerm (strip piece) name isArray := ⟨word, hname, hpiece⟩
    have ht' : IsTerm (strip piece') name' isArray := ⟨word', hname', hpiece'⟩
    have hmeaning : (d.scope r).resolvePiece? piece =
        some ((d.scope r).resolveParts name isArray) :=
      Scope.resolvePiece?_eq_some_iff.2 ⟨name, isArray, ht, rfl⟩
    obtain rfl : term = _ := Option.some.inj (hterm.symm.trans hmeaning)
    refine ⟨_, Scope.resolvePiece?_eq_some_iff.2 ⟨name', isArray, ht', rfl⟩, ?_⟩
    cases isArray with
    | true => exact hsame.arrayOf
    | false => exact hsame

/-- `validateRaw` at a text that `resolve` accepts is `validate` at what it stands for. -/
theorem validateRaw_of_resolve {declaration : TypeDeclaration}
    (h : (d.scope r).resolve raw = .ok declaration) (v : Value) :
    d.validateRaw r c (some raw) v = declaration.validate r c v := by
  rw [validateRaw, resolve?, h]
  rfl

/-- `validateRaw` at a text that cannot be read fails with the error of `parse`. -/
theorem validateRaw_of_parse_eq_error {e : ParseError} (h : parse raw = .error e) (v : Value) :
    d.validateRaw r c (some raw) v = .error (.declaration e) := by
  rw [validateRaw, resolve?, Scope.resolve, h]
  rfl

/-- A declaration that can be read (`hparse`) is checked as before when it is `Respelled`. -/
theorem validateRaw_of_forall₂_respelled (hd : d.AtHome r) (hc : c.className = d.name)
    (h : List.Forall₂ d.Respelled (raw.toList.splitOn bar) (raw'.toList.splitOn bar))
    {expr : TypeExpr} (hparse : parse raw = .ok expr) (v : Value) :
    d.validateRaw r c (some raw') v = d.validateRaw r c (some raw) v := by
  have hresolve : (d.scope r).resolve raw = .ok ((d.scope r).resolveExpr expr) := by
    rw [Scope.resolve, hparse]
    rfl
  have hpiece : ∀ p p' t, d.Respelled p p' → (d.scope r).resolvePiece? p = some t →
      ∃ t', (d.scope r).resolvePiece? p' = some t' ∧ Indistinguishable r c t t' :=
    fun _ _ _ hp ht => hp.exists_resolvePiece? hd hc ht
  obtain ⟨terms', hterms', hsame⟩ :=
    exists_mapM_of_forall₂ hpiece h (Scope.resolve_eq_ok_iff.1 hresolve)
  have hne : terms' ≠ [] := by
    rintro rfl
    exact ((d.scope r).resolveExpr expr).terms_ne_nil (List.forall₂_nil_right_iff.1 hsame)
  have hresolve' : (d.scope r).resolve raw' = .ok ⟨terms', hne⟩ :=
    Scope.resolve_eq_ok_iff.2 hterms'
  rw [validateRaw_of_resolve hresolve, validateRaw_of_resolve hresolve']
  exact validate_eq_of_forall₂ hsame v

/-! ## Respelled declarations that cannot be read -/

/-- A piece that is no term is left alone, by `NamesItself.isTermText`. -/
theorem Respelled.eq_of_not_isTermText (h : d.Respelled piece piece') (hd : d.AtHome r)
    (hpiece : ¬IsTermText (strip piece)) : piece' = piece := by
  rcases h with rfl | ⟨word, word', suffix, hword, -, hsuffix, hstrip, -⟩
  · rfl
  · rw [hstrip] at hpiece
    exact absurd (hword.isTermText hd hsuffix) hpiece

/-- A term that is `Respelled` is still a term. -/
theorem Respelled.isTermText (h : d.Respelled piece piece') (hd : d.AtHome r)
    (hpiece : IsTermText (strip piece)) : IsTermText (strip piece') := by
  rcases h with rfl | ⟨word, word', suffix, -, hword', hsuffix, -, hstrip'⟩
  · exact hpiece
  · rw [hstrip']
    exact hword'.isTermText hd hsuffix

/-- A piece that is not `IsMalformed` is not when it is `Respelled`. -/
theorem Respelled.not_isMalformed (h : d.Respelled piece piece') (hd : d.AtHome r)
    (hpiece : ¬IsMalformed piece) : ¬IsMalformed piece' := by
  by_cases hterm : IsTermText (strip piece)
  · exact fun hm => hm.not_term (h.isTermText hd hterm)
  · rwa [h.eq_of_not_isTermText hd hterm]

/-- The piece that `Decides` still does when those before and after it are `Respelled`. -/
theorem decides_of_forall₂_respelled (hd : d.AtHome r) {before' after' : List (List Char)}
    (hbefore : List.Forall₂ d.Respelled before before')
    (hafter : List.Forall₂ d.Respelled after after') (h : Decides before piece after) :
    Decides before' piece after' := by
  have hsound {pieces pieces' : List (List Char)} (hp : List.Forall₂ d.Respelled pieces pieces')
      (hall : ∀ q ∈ pieces, ¬IsMalformed q) : ∀ q ∈ pieces', ¬IsMalformed q := by
    intro q' hq'
    obtain ⟨q, hq, hr⟩ := exists_of_mem_forall₂ hp hq'
    exact hr.not_isMalformed hd (hall q hq)
  cases h with
  | malformed hall hpiece => exact .malformed (hsound hbefore hall) hpiece
  | wellFormed hall hterms hpiece =>
    refine .wellFormed (hsound (List.rel_append hbefore (.cons (.inl rfl) hafter)) hall) ?_ hpiece
    intro q' hq'
    obtain ⟨q, hq, hr⟩ := exists_of_mem_forall₂ hbefore hq'
    exact hr.isTermText hd (hterms q hq)

/-- A declaration that cannot be read cannot be read when it is `Respelled`, because of the same
piece, and the error of `parse` is relocated. -/
theorem exists_parse_eq_error_of_respelled (hd : d.AtHome r)
    (h : List.Forall₂ d.Respelled (raw.toList.splitOn bar) (raw'.toList.splitOn bar))
    {e : ParseError} (hparse : parse raw = .error e) :
    ∃ before before' piece after after', raw.toList.splitOn bar = before ++ piece :: after ∧
      raw'.toList.splitOn bar = before' ++ piece :: after' ∧ before.length = before'.length ∧
      Decides before piece after ∧ Decides before' piece after' ∧
      parse raw' = .error (e.relocate raw' (startBehind before) (startBehind before')) := by
  obtain ⟨before, piece, after, hsplit, hdecides, he⟩ := parse_eq_error_iff.1 hparse
  have hpiece : ¬IsTermText (strip piece) := hdecides.not_isTermText
  rw [hsplit] at h
  obtain ⟨before', piece', after', hsplit', hbefore, hsame, hafter⟩ :=
    exists_of_forall₂_append_cons h
  -- The piece at fault is no term, so it has been left alone.
  obtain rfl := hsame.eq_of_not_isTermText hd hpiece
  have hlength : before.length = before'.length := hbefore.length_eq
  have hfirst : startBehind before = 0 ↔ startBehind before' = 0 := by
    rw [startBehind_eq_zero_iff, startBehind_eq_zero_iff, ← List.length_eq_zero_iff, hlength,
      List.length_eq_zero_iff]
  have hdecides' : Decides before' piece' after' :=
    decides_of_forall₂_respelled hd hbefore hafter hdecides
  refine ⟨before, before', piece', after, after', hsplit, hsplit', hlength, hdecides, hdecides', ?_⟩
  exact parse_eq_error_iff.2
    ⟨before', piece', after', hsplit', hdecides', toTerm_relocate hpiece hfirst he⟩

/-! ## Classes of a manifest -/

variable {f : MetadataFactory} {types : List TypeDefinition} {classes : List ClassDeclaration}
  {className : String}

/-- A class of a manifest whose name is a path (`hpath`) is `AtHome` in what the manifest knows. -/
theorem atHome_of_build (hsource : Manifest.ofParts types classes = .ok ⟨types, f.source⟩)
    (hregistry : Manifest.registry ⟨types, f.source⟩ = .ok f.registry)
    (hbuild : f.build className = .ok d) (hpath : IsPath className.toList) :
    d.name = className ∧ d.AtHome f.registry := by
  have hname : d.name = className := MetadataFactory.name_of_build hsource hbuild
  obtain ⟨c, hdeclared, hc⟩ := MetadataFactory.exists_declaration_of_build hbuild
  obtain ⟨bare, features, hbare, -, rfl⟩ := build_eq_ok_iff.1 hc
  obtain ⟨imports, properties, methods, -, -, -, rfl⟩ := ofDeclaration_eq_ok_iff.1 hbare
  have hknown := Manifest.contains_of_declared hregistry hdeclared
  exact ⟨hname, hname.symm ▸ hpath, hname.symm ▸ hknown, rfl⟩

/-- Take a class of a manifest whose name is a path (`hpath`), its descriptor `d`, and what the
manifest knows (`hregistry`), and respell a declaration piece by piece (`hraw`): write names of the
class for itself for one another, with their suffixes. If `parse` could read `raw`, every value is
judged by `validateRaw` as before in every context of the class, errors included. If it could not,
it still cannot: the same piece `Decides` for the same reason, and the error is about the new text,
where the piece may have moved (`relocate`). -/
theorem validateRaw_respelled (hsource : Manifest.ofParts types classes = .ok ⟨types, f.source⟩)
    (hregistry : Manifest.registry ⟨types, f.source⟩ = .ok f.registry)
    (hbuild : f.build className = .ok d) (hpath : IsPath className.toList)
    (hraw : List.Forall₂ d.Respelled (raw.toList.splitOn bar) (raw'.toList.splitOn bar))
    (hc : c.className = className) (v : Value) :
    (∀ expr, parse raw = .ok expr →
      d.validateRaw f.registry c (some raw') v = d.validateRaw f.registry c (some raw) v) ∧
    ∀ e, parse raw = .error e →
      ∃ before before' piece after after', raw.toList.splitOn bar = before ++ piece :: after ∧
        raw'.toList.splitOn bar = before' ++ piece :: after' ∧ before.length = before'.length ∧
        Decides before piece after ∧ Decides before' piece after' ∧
        d.validateRaw f.registry c (some raw) v = .error (.declaration e) ∧
        d.validateRaw f.registry c (some raw') v = .error (.declaration
          (e.relocate raw' (startBehind before) (startBehind before'))) := by
  obtain ⟨rfl, hd⟩ := atHome_of_build hsource hregistry hbuild hpath
  refine ⟨fun expr hparse => validateRaw_of_forall₂_respelled hd hc hraw hparse v, ?_⟩
  intro e hparse
  obtain ⟨before, before', piece, after, after', hsplit, hsplit', hlength, hdecides, hdecides',
    hparse'⟩ := exists_parse_eq_error_of_respelled hd hraw hparse
  exact ⟨before, before', piece, after, after', hsplit, hsplit', hlength, hdecides, hdecides',
    validateRaw_of_parse_eq_error hparse v, validateRaw_of_parse_eq_error hparse' v⟩

/-- The class `Crate` in a namespace. -/
def yardClasses : List ClassDeclaration := [{ name := "Yard\\Crate", imports := ["Metal\\Nail"] }]

/-- What a manifest of `yardClasses` knows. -/
def yardTypes : TypeRegistry where
  definitions := [{ name := "Yard\\Crate", kind := .class }]
  nodup_names := by decide

/-- A factory for a manifest of `yardClasses`. -/
def yard : MetadataFactory where
  source := OrderedMap.ofList (yardClasses.map fun c => (c.name, c))
  registry := yardTypes
  analyzers := []

/-- The `registry` of the manifest can be built. -/
theorem registry_yard : Manifest.registry ⟨[], yard.source⟩ = .ok yard.registry := by
  have hbuild : TypeRegistry.build yardTypes.definitions = .ok yardTypes := by cbv
  exact hbuild

/-- A union of the class and of its arrays is checked alike in two spellings, `self` and the names.
An empty member stays one, and is marked where it stands. -/
theorem validateRaw_respelled_yard :
    Manifest.ofParts [] yardClasses = .ok ⟨[], yard.source⟩ ∧
    Manifest.registry ⟨[], yard.source⟩ = .ok yard.registry ∧
    IsPath "Yard\\Crate".toList ∧
    ∃ d, yard.build "Yard\\Crate" = .ok d ∧
      (∀ v, d.validateRaw yard.registry (.static "Yard\\Crate") (some "\\Yard\\Crate|Crate[]") v =
        d.validateRaw yard.registry (.static "Yard\\Crate") (some "self|self[]") v) ∧
      ∀ v, d.validateRaw yard.registry (.static "Yard\\Crate") (some "\\Yard\\Crate|") v =
        .error (.declaration (.emptyMember "\\Yard\\Crate|" ⟨12, 12⟩)) := by
  have hsource : Manifest.ofParts [] yardClasses = .ok ⟨[], yard.source⟩ := by rfl
  have hpath : IsPath "Yard\\Crate".toList := by decide
  have hc : (ObjectContext.static "Yard\\Crate").className = "Yard\\Crate" := rfl
  obtain ⟨d, hbuild, hname, himports⟩ : ∃ d, yard.build "Yard\\Crate" = .ok d ∧
      d.name = "Yard\\Crate" ∧ d.imports.get? "Crate" = none := ⟨_, by rfl, by rfl, by rfl⟩
  have hqualified : d.NamesItself "\\Yard\\Crate".toList := by
    have h : d.NamesItself ('\\' :: d.name.toList) := .qualified
    rwa [hname] at h
  have hshort : d.NamesItself "Crate".toList := by
    have hlast : lastSegment d.name = "Crate" := by
      rw [hname]
      rfl
    rw [← hlast]
    exact .short (by rw [hlast]; decide) (by rw [hlast, himports])
  refine ⟨hsource, registry_yard, hpath, d, hbuild, fun v => ?_, fun v => ?_⟩
  · have hraw : List.Forall₂ d.Respelled ("self|self[]".toList.splitOn bar)
        ("\\Yard\\Crate|Crate[]".toList.splitOn bar) :=
      .cons (.inr ⟨_, _, [], .self, hqualified, .inl rfl, by decide, by decide⟩)
        (.cons (.inr ⟨_, _, "[]".toList, .self, hshort, .inr rfl, by decide, by decide⟩) .nil)
    obtain ⟨expr, hparse⟩ : ∃ expr, parse "self|self[]" = .ok expr := ⟨_, by rfl⟩
    exact (validateRaw_respelled hsource registry_yard hbuild hpath hraw hc v).1 expr hparse
  · have hraw : List.Forall₂ d.Respelled ("self|".toList.splitOn bar)
        ("\\Yard\\Crate|".toList.splitOn bar) :=
      .cons (.inr ⟨_, _, [], .self, hqualified, .inl rfl, by decide, by decide⟩)
        (.cons (.inl rfl) .nil)
    have hparse : parse "self|" = .error (.emptyMember "self|" ⟨5, 5⟩) := by rfl
    obtain ⟨before, before', piece, after, after', hsplit, hsplit', hlength, hdecides, -, -, h⟩ :=
      (validateRaw_respelled hsource registry_yard hbuild hpath hraw hc v).2 _ hparse
    have hpieces : "self|".toList.splitOn bar = ["self".toList, []] := by decide
    have hpieces' : "\\Yard\\Crate|".toList.splitOn bar = ["\\Yard\\Crate".toList, []] := by decide
    rw [hpieces] at hsplit
    rw [hpieces'] at hsplit'
    -- It is not the first piece that decides, since it is a term.
    cases before with
    | nil =>
      obtain ⟨rfl, -⟩ := List.cons.inj hsplit
      have hself : IsTermText (strip "self".toList) := ⟨_, .inr (.inr (.inl (by decide))), .inl rfl⟩
      exact absurd hself hdecides.not_isTermText
    | cons q before =>
      obtain ⟨rfl, hrest⟩ := List.cons.inj hsplit
      obtain rfl : before = [] := by
        cases before with
        | nil => rfl
        | cons q before => simp at hrest
      obtain ⟨q', rfl⟩ := List.length_eq_one_iff.1 hlength.symm
      obtain ⟨rfl, -⟩ := List.cons.inj hsplit'
      exact h

/-- A text that cannot be read is quoted in the error, so the error of `validateRaw` changes with
the spelling. -/
theorem validateRaw_respelled_unreadable :
    Manifest.ofParts [] yardClasses = .ok ⟨[], yard.source⟩ ∧
    Manifest.registry ⟨[], yard.source⟩ = .ok yard.registry ∧
    IsPath "Yard\\Crate".toList ∧
    ∃ d, yard.build "Yard\\Crate" = .ok d ∧
      d.validateRaw yard.registry (.static "Yard\\Crate") (some "\\Yard\\Crate|") .null ≠
        d.validateRaw yard.registry (.static "Yard\\Crate") (some "self|") .null := by
  obtain ⟨d, hbuild⟩ : ∃ d, yard.build "Yard\\Crate" = .ok d := ⟨_, by rfl⟩
  have hself : parse "self|" = .error (.emptyMember "self|" ⟨5, 5⟩) := by rfl
  have hcrate : parse "\\Yard\\Crate|" = .error (.emptyMember "\\Yard\\Crate|" ⟨12, 12⟩) := by rfl
  refine ⟨by rfl, registry_yard, by decide, d, hbuild, ?_⟩
  rw [validateRaw_of_parse_eq_error hself, validateRaw_of_parse_eq_error hcrate]
  decide

end ClassDescriptor

end DocTypes

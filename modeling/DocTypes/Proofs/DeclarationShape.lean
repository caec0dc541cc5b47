import DocTypes.Proofs.DescriptorStore
import DocTypes.Proofs.ObjectProperties
import DocTypes.Proofs.PrintedText

/-!
# The shape of declarations

A declaration has at least one term, and what a text stands for has flat terms only (`IsFlat`): no
array has arrays for its elements. Of the declarations with legal names, the flat ones are those
that are printed as texts that can be read (`exists_parse_text_iff`).

The declarations of a descriptor come from a class that is built or from a text that is read, by
`from_json`. In the first case they are what texts stand for, so they are flat. Reading asks for a
term and for nothing more, so in the second case they are flat if the text was written for a class
that was built, and may be anything if it was not (`ofText?_render_holding`). The main statement is
`declaration_shape`.
-/

namespace DocTypes

open TypeExpr Lexeme

namespace TypeTerm

variable {t : TypeTerm}

/-- How many arrays there are by `arrayOf`, one inside the other. -/
def depth : TypeTerm → Nat
  | arrayOf element => element.depth + 1
  | primitive _ => 0
  | classRef _ => 0
  | selfRef => 0
  | thisRef => 0
  | unhandled _ => 0

/-- The names in a term are of the language: a class has a name path (`IsPath`), and a word without
a check is one of `Keyword.unhandledWords`. -/
def IsLegal : TypeTerm → Prop
  | classRef name => IsPath name.toList
  | unhandled word => word ∈ Keyword.unhandledWords
  | arrayOf element => element.IsLegal
  | primitive _ => True
  | selfRef => True
  | thisRef => True

/-! ## Printed terms -/

/-- A legal term that is no array (`harray`) is printed as a name by `text`. -/
theorem IsLegal.isTypeName_text (h : t.IsLegal) (harray : t.isArray = false) :
    IsTypeName t.text.toList := by
  cases t with
  | primitive kind => exact exists_isName_iff.1 ⟨_, .primitive kind⟩
  | classRef name => exact .inr (.inr (.inl h))
  | selfRef => exact exists_isName_iff.1 ⟨_, .self⟩
  | thisRef => exact exists_isName_iff.1 ⟨_, .this⟩
  | arrayOf element => cases harray
  | unhandled word => exact exists_isName_iff.1 ⟨_, .unhandled h⟩

/-- A legal term is printed by `text` without a `bar`. -/
theorem IsLegal.bar_notMem_text (h : t.IsLegal) : bar ∉ t.text.toList := by
  -- Only an array is printed from another term; every other term is printed as a name.
  induction t with
  | arrayOf element ih =>
    rw [text, String.toList_append, List.mem_append, not_or]
    exact ⟨ih h, by decide⟩
  | _ => exact (h.isTypeName_text rfl).bar_notMem

/-- A text with two array suffixes is no term: by `IsTerm.unique` its elements are arrays or not. -/
theorem not_isTermText_suffix_suffix (cs : List Char) :
    ¬IsTermText (strip (cs ++ "[]".toList ++ "[]".toList)) := by
  intro h
  obtain ⟨-, name, helement, -⟩ := exists_isTerm_of_suffix h
  obtain ⟨-, name', -, harray⟩ := exists_isTerm_of_suffix (exists_isTerm_iff.1 ⟨_, _, helement⟩)
  -- The elements would be an array and no array.
  cases (helement.unique harray).2

/-- A legal term that `IsFlat` is printed as a term of the grammar. -/
theorem IsLegal.isTermText_text (h : t.IsLegal) (hflat : t.IsFlat) : IsTermText t.text.toList := by
  cases t with
  | arrayOf element =>
    exact ⟨element.text.toList, isTypeName_text h hflat, .inr String.toList_append⟩
  | _ => exact ⟨_, h.isTypeName_text rfl, .inl rfl⟩

/-- A term that is printed as a term of the grammar is flat: with two arrays there would be two
suffixes. -/
theorem isFlat_of_isTermText_text (h : IsTermText (strip t.text.toList)) : t.IsFlat := by
  cases t with
  | arrayOf element =>
    cases element with
    | arrayOf inner =>
      simp only [text, String.toList_append] at h
      exact absurd h (not_isTermText_suffix_suffix inner.text.toList)
    | _ => rfl
  | _ => trivial

/-- A term is `Storable` at `level` where there is room for its arrays, as many as its `depth`. -/
theorem storable_toJson {level : Nat} (h : level + t.depth < Json.depthLimit) :
    Json.Storable level t.toJson := by
  -- Each array takes one level, so the level is left free.
  induction t generalizing level with
  | arrayOf element ih =>
    rw [depth] at h
    exact storable_tagged (by omega) (ih (by omega))
  | selfRef => exact storable_bare h
  | thisRef => exact storable_bare h
  | _ => exact storable_tagged h (.string _)

end TypeTerm

/-- A declaration with legal names (`h`) is printed as a text that `TypeExpr.parse` can read if and
only if its terms are flat. -/
theorem TypeDeclaration.exists_parse_text_iff {declaration : TypeDeclaration}
    (h : ∀ t ∈ declaration.terms, t.IsLegal) :
    (∃ e, parse declaration.text = .ok e) ↔ ∀ t ∈ declaration.terms, t.IsFlat := by
  rw [exists_parse_eq_ok_iff, text,
    Scope.splitOn_intercalate_terms fun t ht => (h t ht).bar_notMem_text, List.forall_mem_map]
  refine forall₂_congr fun t ht => ⟨TypeTerm.isFlat_of_isTermText_text, fun hflat => ?_⟩
  have hterm := (h t ht).isTermText_text hflat
  rwa [hterm.strip_eq]

namespace Scope

variable {s : Scope} {raw : String} {declaration : TypeDeclaration}

/-- What `resolveName` gives for a name is legal if the class in it is named by a name path. -/
theorem isLegal_resolveName {word : List Char} {n : Name} (h : IsName word n)
    (hnames : ∀ name ∈ (s.resolveName n).classNames, IsPath name.toList) :
    (s.resolveName n).IsLegal := by
  cases h with
  | primitive kind => trivial
  | self => trivial
  | this => trivial
  | unhandled hword => exact hword
  | className => exact hnames _ (List.mem_singleton_self _)
  | qualified => exact hnames _ (List.mem_singleton_self _)

/-- What `resolve` gives for a text is legal if the classes in it are named by name paths. -/
theorem isLegal_of_resolve (h : s.resolve raw = .ok declaration)
    (hnames : ∀ name ∈ declaration.classNames, IsPath name.toList) :
    ∀ t ∈ declaration.terms, t.IsLegal := by
  intro t ht
  obtain ⟨piece, hpiece⟩ := exists_piece_of_resolve h ht
  obtain ⟨n, isArray, ⟨word, hword, -⟩, rfl⟩ := resolvePiece?_eq_some_iff.1 hpiece
  have hclasses : ∀ name ∈ (s.resolveParts n isArray).classNames, IsPath name.toList :=
    fun name hname => hnames name (List.mem_flatMap.2 ⟨_, ht, hname⟩)
  cases isArray with
  | true => exact isLegal_resolveName hword hclasses
  | false => exact isLegal_resolveName hword hclasses

end Scope

namespace ClassDescriptor

variable {c : ClassDeclaration} {known : TypeRegistry} {analyzers : List Analyzer}
  {d : ClassDescriptor} {declaration : TypeDeclaration}

/-- The declarations of a class that `build` describes are flat, since texts stand for them. -/
theorem isFlat_of_build (h : build c known analyzers = .ok d) (hd : d.Declares declaration) :
    ∀ t ∈ declaration.terms, t.IsFlat := by
  obtain ⟨text, hresolve⟩ := exists_resolve_of_build h hd
  exact Scope.isFlat_of_resolve hresolve

/-- If the classes in a declaration of a class that `build` describes are named by name paths
(`hnames`), its printed text can be read. -/
theorem exists_parse_text_of_build (h : build c known analyzers = .ok d)
    (hd : d.Declares declaration)
    (hnames : ∀ name ∈ declaration.classNames, IsPath name.toList) :
    ∃ e, parse declaration.text = .ok e := by
  obtain ⟨text, hresolve⟩ := exists_resolve_of_build h hd
  have hlegal := Scope.isLegal_of_resolve hresolve hnames
  exact (TypeDeclaration.exists_parse_text_iff hlegal).2 (isFlat_of_build h hd)

/-- What `ofText?` reads from the texts of a descriptor that was built is this descriptor. -/
theorem eq_of_ofText?_of_build (hstandard : ∀ a ∈ analyzers, a.IsStandard)
    (h : build c known analyzers = .ok d) {text : String} {d' : ClassDescriptor}
    (htext : text = d.render ∨ text = d.renderPretty) (hread : ofText? text = some d') :
    d' = d := by
  obtain ⟨hline, hlines⟩ := (storable_of_build hstandard h).ofText?_eq_some
  rcases htext with rfl | rfl
  · exact Option.some.inj (hread.symm.trans hline)
  · exact Option.some.inj (hread.symm.trans hlines)

/-! ## Declarations that are read -/

/-- The type that `optional?` finds in a field is read from some part by
`TypeDeclaration.ofNode?`. -/
theorem exists_ofNode?_of_optional? {r : Json.Record} {name : String}
    (h : r.optional? name TypeDeclaration.ofNode? = some (some declaration)) :
    ∃ part, TypeDeclaration.ofNode? part = some declaration := by
  unfold Json.Record.optional? at h
  split at h
  · next part _ => exact ⟨part, Json.read_of_nullable? h⟩
  · split at h <;> cases h

/-- The type of a property that `PropertyDescriptor.ofNode?` reads is read from some part. -/
theorem exists_ofNode?_of_property {node : Json.Node} {p : PropertyDescriptor}
    (h : PropertyDescriptor.ofNode? node = some p) (hp : p.declaration = some declaration) :
    ∃ part, TypeDeclaration.ofNode? part = some declaration := by
  simp only [PropertyDescriptor.ofNode?, Option.bind_eq_bind, Option.bind_eq_some_iff,
    Option.pure_def, Option.some.injEq] at h
  obtain ⟨r, -, _, -, _, -, _, -, _, hdeclaration, rfl⟩ := h
  exact exists_ofNode?_of_optional? (hdeclaration.trans (congrArg some hp))

/-- The types of a virtual method that `MethodDescriptor.ofNode?` reads are read from some parts. -/
theorem exists_ofNode?_of_method {node : Json.Node} {m : MethodDescriptor}
    (h : MethodDescriptor.ofNode? node = some m)
    (hm : m.returnType = some declaration ∨
      ∃ p ∈ m.parameters.entries, p.2 = some declaration) :
    ∃ part, TypeDeclaration.ofNode? part = some declaration := by
  simp only [MethodDescriptor.ofNode?, Option.bind_eq_bind, Option.bind_eq_some_iff,
    Option.pure_def, Option.some.injEq] at h
  obtain ⟨r, -, _, -, _, -, parameters, hparameters, returnType, hreturn, _, -, rfl⟩ := h
  rcases hm with hm | ⟨p, hp, hdeclaration⟩
  · exact exists_ofNode?_of_optional? (hreturn.trans (congrArg some hm))
  · obtain ⟨field, -, hmap⟩ := Option.bind_eq_some_iff.1 hparameters
    obtain ⟨members, -, hread⟩ := Json.exists_member_of_map? hmap
    obtain ⟨n, -, hvalue⟩ := hread p hp
    exact ⟨n.2, Json.read_of_nullable? (hvalue.trans (congrArg some hdeclaration))⟩

/-- The declarations of a descriptor that `ofText?` reads are read from arrays of their terms. -/
theorem exists_items_of_ofText? {text : String} (h : ofText? text = some d)
    (hd : d.Declares declaration) :
    ∃ items : List Json.Node, items ≠ [] ∧
      items.mapM (fun item => TypeTerm.ofNode? item false) = some declaration.terms := by
  obtain ⟨node, -, hnode⟩ := Option.bind_eq_some_iff.1 h
  simp only [ofNode?, Option.bind_eq_bind, Option.bind_eq_some_iff, Option.pure_def,
    Option.some.injEq] at hnode
  obtain ⟨r, -, _, -, _, -, _, -, _, -, properties, hproperties, methods, hmethods, _, -, rfl⟩ :=
    hnode
  obtain ⟨part, hpart⟩ : ∃ part, TypeDeclaration.ofNode? part = some declaration := by
    -- The three places where a declaration stands are read as parts of the properties or of the
    -- methods.
    cases hd with
    | property hp hdeclaration =>
      obtain ⟨n, hread⟩ := Json.Record.exists_value_of_defaulted? hproperties _ hp
      exact exists_ofNode?_of_property hread hdeclaration
    | parameter hm hp hdeclaration =>
      obtain ⟨n, hread⟩ := Json.Record.exists_value_of_defaulted? hmethods _ hm
      exact exists_ofNode?_of_method hread (.inr ⟨_, hp, hdeclaration⟩)
    | returnType hm hdeclaration =>
      obtain ⟨n, hread⟩ := Json.Record.exists_value_of_defaulted? hmethods _ hm
      exact exists_ofNode?_of_method hread (.inl hdeclaration)
  obtain ⟨items, -, hterms⟩ := TypeDeclaration.ofNode?_eq_some_iff.1 hpart
  refine ⟨items, ?_, hterms⟩
  rintro rfl
  exact declaration.terms_ne_nil (Option.some.inj hterms).symm

/-! ## The store holds any shape -/

/-- The descriptor of a class with a single property `p`, which has the given type. -/
def holding (declaration : TypeDeclaration) : ClassDescriptor where
  name := "A"
  inNamespace := ""
  imports := ∅
  annotations := []
  properties := ⟨[("p", ⟨"A", "p", [], some declaration⟩)], by simp⟩
  methods := ∅
  features := ∅

/-- `ofText?` reads such a descriptor again if the arrays of the type are not nested deeper than
`Json.depthLimit` lets them be. They stand four levels down. -/
theorem ofText?_render_holding (h : ∀ t ∈ declaration.terms, t.depth + 4 < Json.depthLimit) :
    ofText? (holding declaration).render = some (holding declaration) := by
  have hstorable : (holding declaration).Storable := by
    -- Only the one property holds a declaration.
    refine ⟨fun e he => ?_, nofun, nofun, nofun⟩
    obtain rfl := List.mem_singleton.1 he
    refine TypeDeclaration.storable_toJson (by decide) fun t ht => ?_
    have hdepth := h t ht
    exact TypeTerm.storable_toJson (by omega)
  exact hstorable.ofText?_eq_some.1

/-- The descriptor `holding declaration` declares `declaration`. -/
theorem declares_holding (declaration : TypeDeclaration) :
    (holding declaration).Declares declaration :=
  .property (List.mem_singleton_self _) rfl

/-- A declaration has a term. If a class that was built by `build` declares it, no array in it has
arrays for its elements, and its text can be read by `parse` if its classes are named by name paths.
If a descriptor that was read by `ofText?` declares it, it was read from an array with an item for
each term, and no array in it has arrays for its elements if the text was written for a class that
was built. For other texts it is true only that its own text, if its names are legal, can be read
exactly if no array in it has arrays for its elements. And such a text there is for any declaration,
up to the depth that all values have. -/
theorem declaration_shape (declaration : TypeDeclaration) :
    declaration.terms ≠ [] ∧
    (∀ c known analyzers d, build c known analyzers = .ok d → d.Declares declaration →
      (∀ t ∈ declaration.terms, t.IsFlat) ∧
      ((∀ name ∈ declaration.classNames, IsPath name.toList) →
        ∃ e, parse declaration.text = .ok e)) ∧
    (∀ text d, ofText? text = some d → d.Declares declaration →
      (∃ items : List Json.Node, items ≠ [] ∧
        items.mapM (fun item => TypeTerm.ofNode? item false) = some declaration.terms) ∧
      (∀ c known analyzers built, (∀ a ∈ analyzers, a.IsStandard) →
        build c known analyzers = .ok built → text = built.render ∨ text = built.renderPretty →
        ∀ t ∈ declaration.terms, t.IsFlat) ∧
      ((∀ t ∈ declaration.terms, t.IsLegal) →
        ((∃ e, parse declaration.text = .ok e) ↔ ∀ t ∈ declaration.terms, t.IsFlat))) ∧
    ((∀ t ∈ declaration.terms, t.depth + 4 < Json.depthLimit) →
      ∃ text d, ofText? text = some d ∧ d.Declares declaration) := by
  refine ⟨declaration.terms_ne_nil, ?_, ?_, fun hdepth => ?_⟩
  · intro c known analyzers d h hd
    exact ⟨isFlat_of_build h hd, exists_parse_text_of_build h hd⟩
  · intro text d h hd
    refine ⟨exists_items_of_ofText? h hd, ?_, TypeDeclaration.exists_parse_text_iff⟩
    intro c known analyzers built hstandard hbuild htext
    obtain rfl := eq_of_ofText?_of_build hstandard hbuild htext h
    exact isFlat_of_build hbuild hd
  · exact ⟨_, _, ofText?_render_holding hdepth, declares_holding declaration⟩

/-- The class `nodeClass` is built with a property for arrays of its own objects, and a descriptor
is read with one for arrays of such arrays. Only the first type is printed as a text that can be
read. -/
theorem declaration_shape_node :
    build nodeClass ∅ [] = .ok { nodeDescriptor with features := ∅ } ∧
    (∃ e, parse (TypeDeclaration.single (.arrayOf .selfRef)).text = .ok e) ∧
    (∃ text d, ofText? text = some d ∧ d.Declares (.single (.arrayOf (.arrayOf .selfRef)))) ∧
    ¬∃ e, parse (TypeDeclaration.single (.arrayOf (.arrayOf .selfRef))).text = .ok e := by
  let nested : TypeDeclaration := .single (.arrayOf (.arrayOf .selfRef))
  obtain ⟨-, hbuilt, -, -⟩ := declaration_shape (.single (.arrayOf .selfRef))
  obtain ⟨-, -, hread, hany⟩ := declaration_shape nested
  have hbuild : build nodeClass ∅ [] = .ok { nodeDescriptor with features := ∅ } := by rfl
  obtain ⟨-, hparse⟩ := hbuilt _ _ _ _ hbuild (.property (List.mem_singleton_self _) rfl)
  have hdepth : ∀ t ∈ nested.terms, t.depth + 4 < Json.depthLimit := by decide
  obtain ⟨text, d, htext, hnested⟩ := hany hdepth
  obtain ⟨-, -, hshape⟩ := hread text d htext hnested
  have hlegal : ∀ t ∈ nested.terms, t.IsLegal := List.forall_mem_singleton.2 trivial
  refine ⟨hbuild, hparse nofun, ⟨text, d, htext, hnested⟩, fun hreadable => ?_⟩
  cases (hshape hlegal).1 hreadable _ (List.mem_singleton_self _)

/-- A descriptor in which a property holds arrays of arrays. -/
def matrixJson : Json :=
  .object [("name", .string "A"), ("namespace", .string ""), ("imports", .object []),
    ("annotations", .array []),
    ("properties", .object [("p", .object [("class", .string "A"), ("name", .string "p"),
      ("annotations", .array []), ("declaration", .array [
        .object [("kind", .string "array_of"), ("value",
          .object [("kind", .string "array_of"), ("value",
            .object [("kind", .string "primitive"), ("value", .string "int")])])]])])]),
    ("virtual_methods", .object []), ("features", .object [])]

/-- The text of `matrixJson` is read, and the type of the property is printed as a text that cannot
be read, although there is no class in it. -/
theorem exists_ofText?_not_isFlat : ∃ d declaration, ofText? matrixJson.render = some d ∧
    d.Declares declaration ∧
    declaration.terms = [.arrayOf (.arrayOf (.primitive .int))] ∧
    ¬(∀ t ∈ declaration.terms, t.IsFlat) ∧ declaration.classNames = [] ∧
    declaration.text = "int[][]" ∧ ¬∃ e, parse declaration.text = .ok e := by
  let matrix : TypeDeclaration := .single (.arrayOf (.arrayOf (.primitive .int)))
  have hjson : matrixJson = (holding matrix).toJson := by rfl
  have hread : ofText? matrixJson.render = some (holding matrix) := by
    rw [hjson]
    exact ofText?_render_holding (by decide)
  have hlegal : ∀ t ∈ matrix.terms, t.IsLegal := List.forall_mem_singleton.2 trivial
  have hnested : ¬∀ t ∈ matrix.terms, t.IsFlat := by
    intro hflat
    cases hflat _ (List.mem_singleton_self _)
  exact ⟨_, matrix, hread, declares_holding matrix, rfl, hnested, rfl, rfl,
    mt (TypeDeclaration.exists_parse_text_iff hlegal).1 hnested⟩

end ClassDescriptor

end DocTypes

import DocTypes.Analyzer
import DocTypes.Proofs.MapM

/-!
# What a built descriptor holds

Every declaration of a descriptor that was made by `build` is what some text stands for in the class
(`exists_resolve_of_build`), and every feature is what one of the analyzers has extracted
(`exists_extract_of_build`). For this each function that a descriptor is built with has a lemma that
says when it succeeds and with what.
-/

namespace DocTypes

/-- In `d`, `declaration` is the type of a property, of a parameter or of a return value. -/
inductive ClassDescriptor.Declares (d : ClassDescriptor) (declaration : TypeDeclaration) : Prop
  | property {p : String × PropertyDescriptor} (hp : p ∈ d.properties.entries)
      (h : p.2.declaration = some declaration)
  | parameter {m : String × MethodDescriptor} (hm : m ∈ d.methods.entries)
      {p : String × Option TypeDeclaration} (hp : p ∈ m.2.parameters.entries)
      (h : p.2 = some declaration)
  | returnType {m : String × MethodDescriptor} (hm : m ∈ d.methods.entries)
      (h : m.2.returnType = some declaration)

namespace Scope

variable {s : Scope} {declaration : TypeDeclaration}

/-! ## What each part is described by -/

/-- `describeProperty` succeeds at a property that has no more than one type, if `resolveMember` can
read this. -/
theorem describeProperty_eq_ok_iff {c : PropertyDeclaration} {p : PropertyDescriptor} :
    s.describeProperty c = .ok p ↔ c.annotations.vars.length ≤ 1 ∧
      ∃ type, s.resolveMember (.property c.name) c.annotations.vars.head? = .ok type ∧
        ⟨s.className, c.name, c.annotations, type⟩ = p := by
  unfold describeProperty
  simp only
  split
  · next hmany =>
    refine ⟨nofun, ?_⟩
    rintro ⟨hone, -⟩
    omega
  · next hone =>
    simp only [bind_eq_ok_iff, pure, Except.pure, Except.ok.injEq, Nat.not_lt.1 hone, true_and]

/-- The type that `describeProperty` reads is the only one that the property is declared with. -/
theorem vars_eq_of_describeProperty {c : PropertyDeclaration} {p : PropertyDescriptor}
    (h : s.describeProperty c = .ok p) :
    c.annotations.vars = c.annotations.vars.head?.toList := by
  obtain ⟨hone, -⟩ := describeProperty_eq_ok_iff.1 h
  rw [← List.take_one, List.take_of_length_le hone]

/-- `describeParameter` succeeds at a parameter that has no default value, if `resolveMember` can
read its type. -/
theorem describeParameter_eq_ok_iff {method : String} {a : String × ParameterAnnotation}
    {p : String × Option TypeDeclaration} :
    s.describeParameter method a = .ok p ↔ a.2.hasDefault = false ∧
      ∃ type, s.resolveMember (.parameter method a.1) a.2.type = .ok type ∧ (a.1, type) = p := by
  unfold describeParameter
  split
  · next hdefault => simp [hdefault]
  · next hdefault =>
    have hnone : a.2.hasDefault = false := by simpa using hdefault
    simp only [bind_eq_ok_iff, pure, Except.pure, Except.ok.injEq, hnone, true_and]

/-- `describeMethod` succeeds if `describeParameter` does at all parameters, in their order, and
`resolveMember` can read the return type. -/
theorem describeMethod_eq_ok_iff {a : MethodAnnotation} {m : MethodDescriptor} :
    s.describeMethod a = .ok m ↔ ∃ parameters type,
      a.parameters.entries.mapM (s.describeParameter a.name) = .ok parameters ∧
      s.resolveMember (.returnType a.name) a.returnType = .ok type ∧
      ⟨s.className, a.name, OrderedMap.ofList parameters, type, a.isStatic⟩ = m := by
  unfold describeMethod
  simp only [bind_eq_ok_iff, pure, Except.pure, Except.ok.injEq, exists_and_left]

/-- The described `parameters` have the names of the declared ones. -/
theorem map_fst_of_mapM_describeParameter {method : String}
    {annotations : List (String × ParameterAnnotation)}
    {parameters : List (String × Option TypeDeclaration)}
    (h : annotations.mapM (s.describeParameter method) = .ok parameters) :
    parameters.map Prod.fst = annotations.map Prod.fst := by
  rw [mapM_eq_ok_iff] at h
  induction h with
  | nil => rfl
  | cons hdescribe _ ih =>
    obtain ⟨-, type, -, rfl⟩ := describeParameter_eq_ok_iff.1 hdescribe
    rw [List.map_cons, List.map_cons, ih]

/-- No two of `parameters` have one name, so `OrderedMap.ofList` stores them as they come. -/
theorem entries_ofList_of_mapM_describeParameter {m : MethodAnnotation}
    {parameters : List (String × Option TypeDeclaration)}
    (h : m.parameters.entries.mapM (s.describeParameter m.name) = .ok parameters) :
    (OrderedMap.ofList parameters).entries = parameters := by
  refine OrderedMap.entries_ofList_of_nodup ?_
  rw [map_fst_of_mapM_describeParameter h]
  exact m.parameters.nodup_keys

/-- `describeMethods` describes virtual methods one by one, each under its name, behind those of
`done`. -/
theorem exists_entries_of_describeMethods {done methods : OrderedMap String MethodDescriptor}
    {annotations : List MethodAnnotation} (h : s.describeMethods done annotations = .ok methods) :
    ∃ described, methods.entries = done.entries ++ described ∧
      List.Forall₂ (fun a e => e.1 = a.name ∧ s.describeMethod a = .ok e.2) annotations
        described := by
  -- By induction on the annotations, for all that has been described before: each method joins
  -- `done`.
  induction annotations generalizing done with
  | nil =>
    cases h
    exact ⟨[], (List.append_nil _).symm, .nil⟩
  | cons a annotations ih =>
    rw [describeMethods] at h
    -- A name that was described before is an error.
    split at h
    · cases h
    · next hnew =>
      obtain ⟨method, hmethod, hrest⟩ := bind_eq_ok_iff.1 h
      obtain ⟨described, hentries, hall⟩ := ih hrest
      have hnone : done.get? a.name = none := by simpa [OrderedMap.contains] using hnew
      have hstore : (done.insert a.name method).entries = done.entries ++ [(a.name, method)] :=
        OrderedMap.store_of_notMem (OrderedMap.get?_eq_none_iff.1 hnone)
      refine ⟨(a.name, method) :: described, ?_, .cons ⟨rfl, hmethod⟩ hall⟩
      rw [hentries, hstore, List.append_assoc]
      rfl

/-- The virtual methods of a class are described in order by `describeMethod`, each under its
name. -/
theorem forall₂_of_describeMethods {methods : OrderedMap String MethodDescriptor}
    {annotations : List MethodAnnotation} (h : s.describeMethods ∅ annotations = .ok methods) :
    List.Forall₂ (fun a e => e.1 = a.name ∧ s.describeMethod a = .ok e.2) annotations
      methods.entries := by
  obtain ⟨described, hentries, hall⟩ := exists_entries_of_describeMethods h
  rw [hentries]
  exact hall

/-! ## Where declarations come from -/

/-- A type that `resolveMember` gives is what its text stands for. -/
theorem exists_resolve_of_resolveMember {member : Member} {raw : Option String}
    (h : s.resolveMember member raw = .ok (some declaration)) :
    ∃ text, s.resolve text = .ok declaration := by
  unfold resolveMember at h
  split at h
  · cases h
  · next text =>
    split at h
    · cases h
    · next hresolve =>
      cases h
      exact ⟨text, hresolve⟩

/-- The type of a property that `describeProperty` gives is what a text stands for. -/
theorem exists_resolve_of_describeProperty {c : PropertyDeclaration} {p : PropertyDescriptor}
    (h : s.describeProperty c = .ok p) (hp : p.declaration = some declaration) :
    ∃ text, s.resolve text = .ok declaration := by
  obtain ⟨-, type, hmember, rfl⟩ := describeProperty_eq_ok_iff.1 h
  obtain rfl : type = some declaration := hp
  exact exists_resolve_of_resolveMember hmember

/-- The type of a parameter that `describeParameter` gives is what a text stands for. -/
theorem exists_resolve_of_describeParameter {method : String} {a : String × ParameterAnnotation}
    {p : String × Option TypeDeclaration} (h : s.describeParameter method a = .ok p)
    (hp : p.2 = some declaration) : ∃ text, s.resolve text = .ok declaration := by
  obtain ⟨-, type, hmember, rfl⟩ := describeParameter_eq_ok_iff.1 h
  obtain rfl : type = some declaration := hp
  exact exists_resolve_of_resolveMember hmember

/-- The types of a virtual method that `describeMethod` gives, of the return value or of a parameter
(`hm`), are what texts stand for. -/
theorem exists_resolve_of_describeMethod {a : MethodAnnotation} {m : MethodDescriptor}
    (h : s.describeMethod a = .ok m)
    (hm : m.returnType = some declaration ∨
      ∃ p ∈ m.parameters.entries, p.2 = some declaration) :
    ∃ text, s.resolve text = .ok declaration := by
  obtain ⟨parameters, type, hparameters, hreturn, rfl⟩ := describeMethod_eq_ok_iff.1 h
  rcases hm with hm | ⟨p, hp, hdecl⟩
  · obtain rfl : type = some declaration := hm
    exact exists_resolve_of_resolveMember hreturn
  · obtain ⟨a, -, hdescribe⟩ :=
      exists_of_mem_mapM_ok hparameters (OrderedMap.mem_of_mem_entries_ofList hp)
    exact exists_resolve_of_describeParameter hdescribe hdecl

end Scope

/-- The features that `extractAll` collects are those of `done` and those that the given analyzers
extract. -/
theorem Analyzer.exists_extract_of_foldlM {analyzers : List Analyzer} {context : AnalysisContext}
    {done features : OrderedMap String Json}
    (h : analyzers.foldlM (fun features a => (a.extract context).map (features.insert a.name))
      done = .ok features) {e : String × Json} (he : e ∈ features.entries) :
    e ∈ done.entries ∨ ∃ a ∈ analyzers, a.extract context = .ok e.2 := by
  induction analyzers generalizing done with
  | nil =>
    cases h
    exact .inl he
  | cons a analyzers ih =>
    rw [List.foldlM_cons] at h
    obtain ⟨next, hnext, hrest⟩ := bind_eq_ok_iff.1 h
    obtain ⟨feature, hextract, rfl⟩ := map_eq_ok_iff.1 hnext
    -- An entry that was there before, or is stored now, or will be later.
    rcases ih hrest with hdone | ⟨b, hb, hfeature⟩
    · rcases OrderedMap.mem_of_mem_store hdone with rfl | hdone
      · exact .inr ⟨a, List.mem_cons_self, hextract⟩
      · exact .inl hdone
    · exact .inr ⟨b, List.mem_cons_of_mem _ hb, hfeature⟩

namespace ClassDescriptor

variable {c : ClassDeclaration} {r : TypeRegistry} {d : ClassDescriptor}

/-- `from_declaration` finds the imports, the properties and the virtual methods of a descriptor one
after the other, all in one scope, and so does `ofDeclaration`. -/
theorem ofDeclaration_eq_ok_iff : ofDeclaration c r = .ok d ↔ ∃ imports properties methods,
    ImportTable.ofStatements c.name c.imports = .ok imports ∧
    c.properties.mapM (Scope.describeProperty ⟨c.name, Lexeme.namespaceOf c.name, imports, r⟩) =
      .ok properties ∧
    Scope.describeMethods ⟨c.name, Lexeme.namespaceOf c.name, imports, r⟩ ∅
      c.annotations.methods = .ok methods ∧
    { name := c.name, inNamespace := Lexeme.namespaceOf c.name, imports := imports
      annotations := c.annotations
      properties := OrderedMap.ofList (properties.map fun p => (p.name, p))
      methods := methods, features := ∅ } = d := by
  unfold ofDeclaration
  simp only [bind_eq_ok_iff, pure, Except.pure, Except.ok.injEq, exists_and_left]

/-- `build` adds to a descriptor of `ofDeclaration` the features that `extractAll` collects. -/
theorem build_eq_ok_iff {analyzers : List Analyzer} : build c r analyzers = .ok d ↔
    ∃ bare features, ofDeclaration c r = .ok bare ∧
      Analyzer.extractAll analyzers ⟨bare, c, r⟩ = .ok features ∧
      { bare with features := features } = d := by
  unfold build
  simp only [bind_eq_ok_iff, pure, Except.pure, Except.ok.injEq, exists_and_left]

/-- Every declaration of a descriptor by `ofDeclaration` is what a text stands for in the class. -/
theorem exists_resolve_of_ofDeclaration (h : ofDeclaration c r = .ok d)
    {declaration : TypeDeclaration} (hd : d.Declares declaration) :
    ∃ text, (d.scope r).resolve text = .ok declaration := by
  obtain ⟨imports, properties, methods, -, hproperties, hmethods, rfl⟩ :=
    ofDeclaration_eq_ok_iff.1 h
  have hmethod : ∀ m ∈ methods.entries, ∃ a ∈ c.annotations.methods,
      Scope.describeMethod ⟨c.name, Lexeme.namespaceOf c.name, imports, r⟩ a = .ok m.2 := by
    intro m hm
    obtain ⟨a, ha, -, hdescribe⟩ :=
      exists_of_mem_forall₂ (Scope.forall₂_of_describeMethods hmethods) hm
    exact ⟨a, ha, hdescribe⟩
  -- Each of the three places where a declaration stands has its lemma above.
  cases hd with
  | @property p hp hdecl =>
    obtain ⟨q, hq, hqp⟩ := List.mem_map.1 (OrderedMap.mem_of_mem_entries_ofList hp)
    obtain rfl : (q.name, q) = p := hqp
    obtain ⟨a, -, hdescribe⟩ := exists_of_mem_mapM_ok hproperties hq
    exact Scope.exists_resolve_of_describeProperty hdescribe hdecl
  | @parameter m hm p hp hdecl =>
    obtain ⟨a, -, hdescribe⟩ := hmethod m hm
    exact Scope.exists_resolve_of_describeMethod hdescribe (.inr ⟨p, hp, hdecl⟩)
  | @returnType m hm hdecl =>
    obtain ⟨a, -, hdescribe⟩ := hmethod m hm
    exact Scope.exists_resolve_of_describeMethod hdescribe (.inl hdecl)

/-- Every declaration of a descriptor by `build` is what a text stands for in the class. -/
theorem exists_resolve_of_build {analyzers : List Analyzer} (h : build c r analyzers = .ok d)
    {declaration : TypeDeclaration} (hd : d.Declares declaration) :
    ∃ text, (d.scope r).resolve text = .ok declaration := by
  obtain ⟨bare, features, hbare, -, rfl⟩ := build_eq_ok_iff.1 h
  -- The features do not change what is declared.
  have hdeclares : bare.Declares declaration := by
    cases hd with
    | property hp hdecl => exact .property hp hdecl
    | parameter hm hp hdecl => exact .parameter hm hp hdecl
    | returnType hm hdecl => exact .returnType hm hdecl
  exact exists_resolve_of_ofDeclaration hbare hdeclares

/-- Every feature of a descriptor by `build` is what one of `analyzers` extracts. -/
theorem exists_extract_of_build {analyzers : List Analyzer} (h : build c r analyzers = .ok d)
    {e : String × Json} (he : e ∈ d.features.entries) :
    ∃ a ∈ analyzers, ∃ context, a.extract context = .ok e.2 := by
  obtain ⟨bare, features, -, hfeatures, rfl⟩ := build_eq_ok_iff.1 h
  rcases Analyzer.exists_extract_of_foldlM hfeatures he with he | ⟨a, ha, hextract⟩
  · exact absurd he List.not_mem_nil
  · exact ⟨a, ha, ⟨bare, c, r⟩, hextract⟩

end ClassDescriptor

end DocTypes

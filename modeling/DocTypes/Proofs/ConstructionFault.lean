import DocTypes.Proofs.ImportTable
import DocTypes.Proofs.ObjectProperties

/-!
# Why a descriptor is not built

Whether a class declaration is at fault, and with which error, depends on the declaration only.
`items` lists all that `from_declaration` looks at, in order: the import statements, the properties,
and for each virtual method its name, its parameters and its return type. `Fault` says when one of
these is at fault. Building fails with the first fault, whatever types are known, and succeeds if
there is none (`build_eq_error_iff_firstFault`).

Each function that a descriptor is built with `Reports` the faults of its part of `items`, and these
are put together as the functions are.
-/

namespace DocTypes

namespace ClassDeclaration

/-- A part of a declaration that can be at fault by itself. Import statements and virtual methods
come with those in front of them, `earlier`. -/
inductive Item
  | statement (earlier : List String) (text : String)
  | property (p : PropertyDeclaration)
  | method (earlier : List MethodAnnotation) (m : MethodAnnotation)
  | parameter (method : String) (a : String × ParameterAnnotation)
  | returnType (m : MethodAnnotation)

/-- What is looked at in a virtual method: its name, with the methods in `m.1` in front of it, its
parameters and its return type. -/
def methodItems (m : List MethodAnnotation × MethodAnnotation) : List Item :=
  .method m.1 m.2 :: (m.2.parameters.entries.map (.parameter m.2.name) ++ [.returnType m.2])

/-- What is looked at in the declaration `c`, in order. -/
def items (c : ClassDeclaration) : List Item :=
  (withEarlier [] c.imports).map (fun s => .statement s.1 s.2) ++
    (c.properties.map .property ++ (withEarlier [] c.annotations.methods).flatMap methodItems)

/-- A part of the declaration of a class is at fault. A property with several types is so before its
types are read, as `build_property` counts them first, and a parameter with a default value before
its type is, as `build_virtual_method` looks for it first. -/
inductive Fault (className : String) : Item → ConstructionError → Prop
  | statement {earlier : List String} {text : String} {e : ConstructionError} :
      ImportTable.StatementFault className earlier text e →
      Fault className (.statement earlier text) e
  | manyTypes {p : PropertyDeclaration} : 1 < p.annotations.vars.length →
      Fault className (.property p) (.multipleTypes className p.name p.annotations.vars.length)
  | propertyType {p : PropertyDeclaration} {raw : String} {cause : ParseError} :
      p.annotations.vars = [raw] → TypeExpr.parse raw = .error cause →
      Fault className (.property p) (.invalidDeclaration className (.property p.name) cause)
  | repeatedMethod {earlier : List MethodAnnotation} {m : MethodAnnotation} :
      m.name ∈ earlier.map (·.name) →
      Fault className (.method earlier m) (.duplicateMethod className m.name)
  | defaultValue {method : String} {a : String × ParameterAnnotation} : a.2.hasDefault = true →
      Fault className (.parameter method a) (.defaultValue className method a.1)
  | parameterType {method raw : String} {a : String × ParameterAnnotation} {cause : ParseError} :
      a.2.hasDefault = false → a.2.type = some raw → TypeExpr.parse raw = .error cause →
      Fault className (.parameter method a)
        (.invalidDeclaration className (.parameter method a.1) cause)
  | returnType {m : MethodAnnotation} {raw : String} {cause : ParseError} :
      m.returnType = some raw → TypeExpr.parse raw = .error cause →
      Fault className (.returnType m) (.invalidDeclaration className (.returnType m.name) cause)

end ClassDeclaration

open ClassDeclaration (Item Fault methodItems)

namespace Scope

variable {s : Scope} {e : ConstructionError}

/-- A text that `resolve` cannot read is one that `TypeExpr.parse` cannot read, whatever the scope
`s` is. -/
theorem resolve_eq_error_iff {raw : String} {cause : ParseError} :
    s.resolve raw = .error cause ↔ TypeExpr.parse raw = .error cause := by
  unfold resolve
  cases TypeExpr.parse raw <;> simp [Except.map]

/-- `resolveMember` fails at a member if `TypeExpr.parse` cannot read the text of its type. -/
theorem resolveMember_eq_error_iff {member : Member} {raw : Option String} :
    s.resolveMember member raw = .error e ↔ ∃ text cause, raw = some text ∧
      TypeExpr.parse text = .error cause ∧ .invalidDeclaration s.className member cause = e := by
  cases raw with
  | none => simp [resolveMember]
  | some text =>
    simp only [resolveMember, ← resolve_eq_error_iff (s := s)]
    cases hresolve : s.resolve text <;> simp [hresolve]

/-- A property that `describeProperty` does not describe is at fault. -/
theorem describeProperty_eq_error_iff {p : PropertyDeclaration} :
    s.describeProperty p = .error e ↔ Fault s.className (.property p) e := by
  unfold describeProperty
  simp only
  split
  · next hmany =>
    constructor
    · intro h
      cases h
      exact .manyTypes hmany
    · intro h
      cases h with
      | manyTypes => rfl
      | propertyType hvars => simp [hvars] at hmany
  · next hone =>
    simp only [bind_eq_error_iff, resolveMember_eq_error_iff, pure, Except.pure, reduceCtorEq,
      and_false, exists_false, or_false]
    constructor
    · rintro ⟨raw, cause, hraw, hparse, rfl⟩
      -- There is no second type here, so the first one is all.
      refine .propertyType ?_ hparse
      obtain ⟨rest, hvars⟩ := List.head?_eq_some_iff.1 hraw
      rw [hvars, List.length_cons] at hone
      rw [hvars, List.eq_nil_of_length_eq_zero (by omega : rest.length = 0)]
    · intro h
      cases h with
      | manyTypes hmany => exact absurd hmany hone
      | propertyType hvars hparse => exact ⟨_, _, by rw [hvars]; rfl, hparse, rfl⟩

/-- A parameter that `describeParameter` does not describe is at fault. -/
theorem describeParameter_eq_error_iff {method : String} {a : String × ParameterAnnotation} :
    s.describeParameter method a = .error e ↔ Fault s.className (.parameter method a) e := by
  unfold describeParameter
  split
  · next hdefault =>
    constructor
    · intro h
      cases h
      exact .defaultValue hdefault
    · intro h
      cases h with
      | defaultValue => rfl
      | parameterType hnone => cases hnone.symm.trans hdefault
  · next hdefault =>
    simp only [bind_eq_error_iff, resolveMember_eq_error_iff, pure, Except.pure, reduceCtorEq,
      and_false, exists_false, or_false]
    constructor
    · rintro ⟨raw, cause, hraw, hparse, rfl⟩
      exact .parameterType (by simpa using hdefault) hraw hparse
    · intro h
      cases h with
      | defaultValue h => exact absurd h hdefault
      | parameterType _ hraw hparse => exact ⟨_, _, hraw, hparse, rfl⟩

/-- `describeMethod` describes a virtual method unless a parameter or its return type is at
fault. -/
theorem reports_describeMethod (m : MethodAnnotation) :
    Reports (Fault s.className) (s.describeMethod m)
      (m.parameters.entries.map (.parameter m.name) ++ [.returnType m]) := by
  unfold describeMethod
  rw [List.map_eq_flatMap]
  refine (Reports.mapM fun a _ => .single fun e => describeParameter_eq_error_iff).bind
    fun parameters _ => Reports.bind_ok (.single fun e => ?_) fun type _ => ⟨_, rfl⟩
  rw [resolveMember_eq_error_iff]
  constructor
  · rintro ⟨raw, cause, hraw, hparse, rfl⟩
    exact .returnType hraw hparse
  · intro h
    cases h with
    | returnType hraw hparse => exact ⟨_, _, hraw, hparse, rfl⟩

/-- Behind the virtual methods of `earlier`, whose names are those in `done`, `describeMethods`
describes further ones up to the first fault. -/
theorem reports_describeMethods {earlier rest : List MethodAnnotation}
    {done : OrderedMap String MethodDescriptor}
    (hdone : ∀ name, done.contains name = true ↔ name ∈ earlier.map (·.name)) :
    Reports (Fault s.className) (s.describeMethods done rest)
      ((withEarlier earlier rest).flatMap methodItems) := by
  -- By induction on the methods that are left: one that is described joins those in front of the
  -- rest.
  induction rest generalizing earlier done with
  | nil => exact .ok rfl
  | cons m rest ih =>
    rw [describeMethods, withEarlier, List.flatMap_cons, methodItems, List.cons_append]
    refine .guard (fun e => ?_) fun hnew => (reports_describeMethod m).bind fun method _ => ih ?_
    · rw [hdone]
      constructor
      · intro h
        cases h with
        | repeatedMethod hname => exact ⟨hname, rfl⟩
      · rintro ⟨hname, rfl⟩
        exact .repeatedMethod hname
    · intro name
      rw [OrderedMap.contains, OrderedMap.get?_insert, List.map_append, List.mem_append, ← hdone]
      split
      · next hname => simp [hname]
      · next hname => simp [OrderedMap.contains, hname]

end Scope

namespace ClassDescriptor

variable {c : ClassDeclaration} {r : TypeRegistry} {d : ClassDescriptor}

/-- `ofDeclaration` fails with the first fault of `c.items`. -/
theorem reports_ofDeclaration (c : ClassDeclaration) (r : TypeRegistry) :
    Reports (Fault c.name) (ofDeclaration c r) c.items := by
  unfold ofDeclaration ClassDeclaration.items
  refine Reports.bind ?_ fun imports _ => Reports.bind ?_ fun properties _ =>
    Reports.bind_ok (Scope.reports_describeMethods ?_) fun methods _ => ⟨_, rfl⟩
  · refine (ImportTable.reports_ofStatements c.name c.imports).map fun i e => ?_
    exact ⟨.statement, fun | .statement h => h⟩
  · rw [List.map_eq_flatMap]
    exact Reports.mapM fun p _ => .single fun e => Scope.describeProperty_eq_error_iff
  · simp [OrderedMap.contains]

end ClassDescriptor

/-! ## Object properties -/

namespace ClassDescriptor

variable {c : ClassDeclaration} {r : TypeRegistry} {d : ClassDescriptor}

/-- From every descriptor by `ofDeclaration` the analyzer `objectProperties` can extract a
feature. -/
theorem exists_extract_objectProperties (h : ofDeclaration c r = .ok d) :
    ∃ feature, Analyzer.objectProperties.extract ⟨d, c, r⟩ = .ok feature := by
  obtain ⟨entries, hentries⟩ := exists_mapM_objectMember? h c
  exact ⟨_, by simp only [Analyzer.objectProperties, hentries]; rfl⟩

/-- So analyzers of `objectProperties` leave nothing more to fail, by `extractAll`. -/
theorem exists_extractAll (h : ofDeclaration c r = .ok d) {analyzers : List Analyzer}
    (hanalyzers : ∀ a ∈ analyzers, a = .objectProperties) :
    ∃ features, Analyzer.extractAll analyzers ⟨d, c, r⟩ = .ok features := by
  unfold Analyzer.extractAll
  -- The features grow with each analyzer, so they are left free.
  generalize (∅ : OrderedMap String Json) = done
  induction analyzers generalizing done with
  | nil => exact ⟨done, rfl⟩
  | cons a analyzers ih =>
    obtain rfl : a = .objectProperties := hanalyzers a List.mem_cons_self
    obtain ⟨feature, hfeature⟩ := exists_extract_objectProperties h
    rw [List.foldlM_cons, hfeature]
    exact ih (fun b hb => hanalyzers b (List.mem_cons_of_mem _ hb)) _

/-- With such analyzers `build` fails with the first fault of `c.items`. -/
theorem reports_build {analyzers : List Analyzer}
    (hanalyzers : ∀ a ∈ analyzers, a = .objectProperties) (c : ClassDeclaration)
    (r : TypeRegistry) : Reports (Fault c.name) (build c r analyzers) c.items := by
  refine (reports_ofDeclaration c r).bind_ok fun bare hbare => ?_
  obtain ⟨features, hfeatures⟩ := exists_extractAll hbare hanalyzers
  exact ⟨_, by rw [hfeatures]; rfl⟩

/-- Without analyzers, or with those of `objectProperties`, `build` fails with the error of the
first part of the declaration that is at fault, and succeeds if none is. So whether it succeeds, and
how it fails, is the same for all registries. -/
theorem build_eq_error_iff_firstFault {analyzers : List Analyzer}
    (hanalyzers : ∀ a ∈ analyzers, a = .objectProperties) (c : ClassDeclaration) :
    (∀ r e, build c r analyzers = .error e ↔ FirstFault (Fault c.name) c.items e) ∧
    (∀ r, (∃ d, build c r analyzers = .ok d) ↔ Faultless (Fault c.name) c.items) ∧
    ∀ r r', ((∃ d, build c r analyzers = .ok d) ↔ ∃ d, build c r' analyzers = .ok d) ∧
      ∀ e e', build c r analyzers = .error e → build c r' analyzers = .error e' → e = e' := by
  have hreports := reports_build hanalyzers c
  refine ⟨hreports, fun r => (hreports r).exists_ok_iff, fun r r' => ⟨?_, ?_⟩⟩
  · rw [(hreports r).exists_ok_iff, (hreports r').exists_ok_iff]
  · intro e e' he he'
    have hsame : build c r' analyzers = .error e := (hreports r' e).2 ((hreports r e).1 he)
    cases hsame.symm.trans he'
    rfl

/-- A class with three faults: a property without a type behind the bar, one with two types, and a
virtual method whose parameter has a default value. -/
def wrongOrder : ClassDeclaration where
  name := "Shop\\Order"
  imports := ["Money\\Price"]
  properties := [.ofTypes "note" ["string"], .ofTypes "total" ["Price|"],
    .ofTypes "item" ["int", "string"]]
  annotations := [.method
    { name := "add", parameters := OrderedMap.ofList [("item", ⟨none, true⟩)] }]

/-- The first fault of `wrongOrder` is reported, whatever types are known. -/
theorem build_eq_error_iff_firstFault_order :
    (∀ a ∈ [Analyzer.objectProperties], a = .objectProperties) ∧
    FirstFault (Fault "Shop\\Order") wrongOrder.items (.invalidDeclaration "Shop\\Order"
      (.property "total") (.emptyMember "Price|" ⟨6, 6⟩)) ∧
    ∀ r, build wrongOrder r [.objectProperties] = .error (.invalidDeclaration "Shop\\Order"
      (.property "total") (.emptyMember "Price|" ⟨6, 6⟩)) := by
  have hanalyzers : ∀ a ∈ [Analyzer.objectProperties], a = .objectProperties := by simp
  obtain ⟨herror, -, -⟩ := build_eq_error_iff_firstFault hanalyzers wrongOrder
  have hfirst := (herror ∅ _).1 (by rfl)
  exact ⟨hanalyzers, hfirst, fun r => (herror r _).2 hfirst⟩

end ClassDescriptor

end DocTypes

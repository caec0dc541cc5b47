import DocTypes.Proofs.Building
import DocTypes.Validation

/-!
# The types of members

A descriptor keeps the types of its members resolved. `validate_property`, `validate_parameter` and
`validate_return` check a value against such a type, and `validate` against a text that is resolved
in the class at the time of the check; both come to the same, if the text is the one that the member
was declared with. The main statement is `validate_members_of_build`.

Both ways resolve in one scope, that of the descriptor: `Members` says what a built descriptor holds
in terms of its own `scope`.
-/

namespace DocTypes

/-- A virtual method that `describeMethods` has stored is found under its name. -/
theorem Scope.get?_of_describeMethods {s : Scope} {methods : OrderedMap String MethodDescriptor}
    {annotations : List MethodAnnotation} (h : s.describeMethods ∅ annotations = .ok methods)
    {a : MethodAnnotation} (ha : a ∈ annotations) :
    ∃ m, s.describeMethod a = .ok m ∧ methods.get? a.name = some m := by
  obtain ⟨e, he, hname, hdescribe⟩ := exists_of_mem_forall₂ (forall₂_of_describeMethods h).flip ha
  exact ⟨e.2, hdescribe, OrderedMap.get?_eq_some_iff.2 (hname ▸ he)⟩

/-- A parameter that `describeParameter` has read is found under its name. -/
theorem Scope.get?_of_mapM_describeParameter {s : Scope} {m : MethodAnnotation}
    {parameters : List (String × Option TypeDeclaration)}
    (h : m.parameters.entries.mapM (s.describeParameter m.name) = .ok parameters)
    {a : String × ParameterAnnotation} (ha : a ∈ m.parameters.entries) :
    ∃ type, s.resolveMember (.parameter m.name a.1) a.2.type = .ok type ∧
      (OrderedMap.ofList parameters).get? a.1 = some type := by
  obtain ⟨p, hp, hdescribe⟩ := exists_of_mem_forall₂ (mapM_eq_ok_iff.1 h).flip ha
  obtain ⟨-, type, htype, rfl⟩ := describeParameter_eq_ok_iff.1 hdescribe
  refine ⟨type, htype, ?_⟩
  rwa [OrderedMap.get?_eq_some_iff, entries_ofList_of_mapM_describeParameter h]

namespace ClassDescriptor

open Validation

variable {c : ClassDeclaration} {r : TypeRegistry} {d : ClassDescriptor}
  {analyzers : List Analyzer} {properties : List PropertyDescriptor}

/-- The members of `d` are those of the declaration `c`, described in the descriptor's own
`scope`. -/
structure Members (c : ClassDeclaration) (r : TypeRegistry) (d : ClassDescriptor)
    (properties : List PropertyDescriptor) : Prop where
  describeProperties : c.properties.mapM (d.scope r).describeProperty = .ok properties
  properties_eq : d.properties = OrderedMap.ofList (properties.map fun p => (p.name, p))
  describeMethods : (d.scope r).describeMethods ∅ c.annotations.methods = .ok d.methods

/-- A descriptor of `ofDeclaration`, without features, has the `Members` of its declaration. -/
theorem exists_members_of_ofDeclaration (h : ofDeclaration c r = .ok d) :
    ∃ properties, Members c r d properties := by
  obtain ⟨imports, properties, methods, -, hproperties, hmethods, rfl⟩ :=
    ofDeclaration_eq_ok_iff.1 h
  exact ⟨properties, hproperties, rfl, hmethods⟩

/-- A descriptor of `build` has the `Members` of its declaration, since features change none. -/
theorem exists_members_of_build (h : build c r analyzers = .ok d) :
    ∃ properties, Members c r d properties := by
  obtain ⟨bare, features, hbare, -, rfl⟩ := build_eq_ok_iff.1 h
  obtain ⟨properties, hmembers⟩ := exists_members_of_ofDeclaration hbare
  exact ⟨properties, hmembers.describeProperties, hmembers.properties_eq, hmembers.describeMethods⟩

/-- Every property is kept under its own name and belongs to the class: `describeProperty` writes
both into it. -/
theorem Members.name_property (h : Members c r d properties) {e : String × PropertyDescriptor}
    (he : e ∈ d.properties.entries) : e.2.name = e.1 ∧ e.2.className = d.name := by
  rw [h.properties_eq] at he
  -- An entry of the map was stored by `properties_eq`, and its property was described by
  -- `describeProperties`.
  obtain ⟨p, hp, rfl⟩ := List.mem_map.1 (OrderedMap.mem_of_mem_entries_ofList he)
  obtain ⟨a, -, hdescribe⟩ := exists_of_mem_mapM_ok h.describeProperties hp
  obtain ⟨-, type, -, rfl⟩ := Scope.describeProperty_eq_ok_iff.1 hdescribe
  exact ⟨rfl, rfl⟩

/-- The names of the properties are the `keys` that they are kept under. -/
theorem Members.map_name_values (h : Members c r d properties) :
    d.properties.values.map (·.name) = d.properties.keys := by
  rw [OrderedMap.values, OrderedMap.keys, List.map_map]
  exact List.map_congr_left fun e he => (h.name_property he).1

/-- Every virtual method is kept under its own name and belongs to the class, as `describeMethod`
writes it. -/
theorem Members.name_method (h : Members c r d properties) {e : String × MethodDescriptor}
    (he : e ∈ d.methods.entries) : e.2.name = e.1 ∧ e.2.className = d.name := by
  obtain ⟨a, -, hname, hdescribe⟩ :=
    exists_of_mem_forall₂ (Scope.forall₂_of_describeMethods h.describeMethods) he
  obtain ⟨parameters, type, -, -, hm⟩ := Scope.describeMethod_eq_ok_iff.1 hdescribe
  rw [← hm, hname]
  exact ⟨rfl, rfl⟩

/-- Of the properties of one name, the last one is found (`hlast`): `ofList` lets it replace the
others. -/
theorem Members.get?_property (h : Members c r d properties)
    {before after : List PropertyDeclaration} {p : PropertyDeclaration}
    (hsplit : c.properties = before ++ p :: after) (hlast : ∀ q ∈ after, q.name ≠ p.name) :
    ∃ q, (d.scope r).describeProperty p = .ok q ∧ d.properties.get? p.name = some q := by
  obtain ⟨lower, q, upper, rfl, hq, -, hupper⟩ :=
    exists_of_mapM_append_cons (hsplit ▸ h.describeProperties)
  refine ⟨q, hq, ?_⟩
  obtain ⟨-, type, -, rfl⟩ := Scope.describeProperty_eq_ok_iff.1 hq
  rw [h.properties_eq, List.map_append, List.map_cons]
  apply OrderedMap.get?_ofList_of_last
  -- A property behind it would have been declared behind it.
  intro hmem
  rw [List.map_map, List.mem_map] at hmem
  obtain ⟨q', hq', hname⟩ := hmem
  obtain ⟨a, ha, hdescribe⟩ := exists_of_mem_mapM_ok hupper hq'
  obtain ⟨-, type', -, rfl⟩ := Scope.describeProperty_eq_ok_iff.1 hdescribe
  exact hlast a ha hname

/-- The type that `resolveMember` gives a member is what its text stands for in the class. -/
theorem resolve?_of_resolveMember {member : Member} {raw : Option String}
    {type : Option TypeDeclaration} (h : (d.scope r).resolveMember member raw = .ok type) :
    d.resolve? r raw = .ok type := by
  unfold Scope.resolveMember at h
  split at h
  · cases h
    rfl
  · next text =>
    split at h
    · cases h
    · next declaration hdeclaration =>
      cases h
      rw [resolve?, hdeclaration]
      rfl

/-- `validateRaw` at a text is `validate` at its type, where the type is that of a member. -/
theorem validateRaw_of_resolveMember {member : Member} {raw : Option String}
    {type : Option TypeDeclaration} (h : (d.scope r).resolveMember member raw = .ok type)
    (context : ObjectContext) (v : Value) :
    d.validateRaw r context raw v = validate r context type v := by
  rw [validateRaw, resolve?_of_resolveMember h]

/-! ## Checking members -/

/-- The last property of a name has one type at most, and `validateProperty` checks against the text
of it. -/
theorem Members.validateProperty_eq (h : Members c r d properties)
    {before after : List PropertyDeclaration} {p : PropertyDeclaration}
    (hsplit : c.properties = before ++ p :: after) (hlast : ∀ q ∈ after, q.name ≠ p.name) :
    ∃ raw : Option String, p.annotations.vars = raw.toList ∧ ∀ context v,
      d.validateProperty r context p.name v = d.validateRaw r context raw v := by
  obtain ⟨q, hq, hget⟩ := h.get?_property hsplit hlast
  -- More than one type would have been an error of `describeProperty`.
  have hvars := Scope.vars_eq_of_describeProperty hq
  obtain ⟨-, type, htype, rfl⟩ := Scope.describeProperty_eq_ok_iff.1 hq
  refine ⟨p.annotations.vars.head?, hvars, fun context v => ?_⟩
  rw [validateRaw_of_resolveMember htype, validateProperty, hget]

/-- `getMethod` finds a virtual method as `describeMethod` describes it. -/
theorem Members.getMethod_eq (h : Members c r d properties) {m : MethodAnnotation}
    (hm : m ∈ c.annotations.methods) :
    ∃ method, (d.scope r).describeMethod m = .ok method ∧ d.getMethod m.name = .ok method := by
  obtain ⟨method, hdescribe, hget⟩ := Scope.get?_of_describeMethods h.describeMethods hm
  refine ⟨method, hdescribe, ?_⟩
  rw [getMethod, hget]

/-- `validateParameter` checks a parameter against the text of its type. -/
theorem Members.validateParameter_eq (h : Members c r d properties) {m : MethodAnnotation}
    (hm : m ∈ c.annotations.methods) {a : String × ParameterAnnotation}
    (ha : a ∈ m.parameters.entries) (context : ObjectContext) (v : Value) :
    d.validateParameter r context m.name a.1 v = d.validateRaw r context a.2.type v := by
  obtain ⟨method, hdescribe, hget⟩ := h.getMethod_eq hm
  obtain ⟨parameters, type, hparameters, -, rfl⟩ := Scope.describeMethod_eq_ok_iff.1 hdescribe
  obtain ⟨type, htype, hfound⟩ := Scope.get?_of_mapM_describeParameter hparameters ha
  rw [validateRaw_of_resolveMember htype, validateParameter, hget]
  simp only [bind, Except.bind, hfound]

/-- `validateReturn` checks what a virtual method returns against the text of its return type. -/
theorem Members.validateReturn_eq (h : Members c r d properties) {m : MethodAnnotation}
    (hm : m ∈ c.annotations.methods) (context : ObjectContext) (v : Value) :
    d.validateReturn r context m.name v = d.validateRaw r context m.returnType v := by
  obtain ⟨method, hdescribe, hget⟩ := h.getMethod_eq hm
  obtain ⟨parameters, type, -, htype, rfl⟩ := Scope.describeMethod_eq_ok_iff.1 hdescribe
  rw [validateRaw_of_resolveMember htype, validateReturn, hget]
  rfl

/-- In a descriptor of `build` every property and every virtual method is kept under its own name
and belongs to the class. A property whose name is declared once has one type at most, and
`validateProperty` checks against it as `validateRaw` does against its text. So do
`validateParameter` for the parameters of every virtual method and `validateReturn` for what it
returns. -/
theorem validate_members_of_build (h : build c r analyzers = .ok d) :
    (∀ e ∈ d.properties.entries, e.2.name = e.1 ∧ e.2.className = d.name) ∧
    (∀ e ∈ d.methods.entries, e.2.name = e.1 ∧ e.2.className = d.name) ∧
    (∀ p ∈ c.properties, (c.properties.map (·.name)).count p.name = 1 →
      ∃ raw : Option String, p.annotations.vars = raw.toList ∧ ∀ context v,
        d.validateProperty r context p.name v = d.validateRaw r context raw v) ∧
    ∀ m ∈ c.annotations.methods,
      (∀ a ∈ m.parameters.entries, ∀ context v,
        d.validateParameter r context m.name a.1 v = d.validateRaw r context a.2.type v) ∧
      ∀ context v,
        d.validateReturn r context m.name v = d.validateRaw r context m.returnType v := by
  obtain ⟨properties, hmembers⟩ := exists_members_of_build h
  refine ⟨fun e he => hmembers.name_property he, fun e he => hmembers.name_method he, ?_, ?_⟩
  · intro p hp honce
    obtain ⟨before, after, hsplit⟩ := List.append_of_mem hp
    refine hmembers.validateProperty_eq hsplit ?_
    intro q hq hname
    -- The name would have been counted twice.
    have hpos : 0 < (after.map (·.name)).count p.name :=
      List.count_pos_iff.2 (hname ▸ List.mem_map_of_mem hq)
    rw [hsplit, List.map_append, List.map_cons, List.count_append, List.count_cons_self] at honce
    omega
  · intro m hm
    exact ⟨fun a ha => hmembers.validateParameter_eq hm ha, hmembers.validateReturn_eq hm⟩

/-- A class whose members have types from the `imports` and from the namespace. -/
def order : ClassDeclaration where
  name := "Shop\\Order"
  imports := ["Money\\Price as Amount"]
  properties := [.ofTypes "total" ["Amount|null"], .ofTypes "note" []]
  annotations := [.method {
    name := "add"
    parameters := OrderedMap.ofList [("item", ⟨some "Item[]", false⟩), ("count", ⟨none, false⟩)]
    returnType := some "self" }]

/-- What is known of the types of `order`. -/
def orderTypes : TypeRegistry where
  definitions := [⟨"Shop\\Order", .class, []⟩, ⟨"Shop\\Item", .class, []⟩]
  nodup_names := by decide

/-- A property with a type and one without, a parameter with a type and one without, and a return
type. An array of items is what the parameter `item` is for: `Item` is found in the namespace. -/
theorem validate_members_of_build_order : ∃ d, build order orderTypes [] = .ok d ∧
    (∀ context v, d.validateProperty orderTypes context "total" v =
      d.validateRaw orderTypes context (some "Amount|null") v) ∧
    (∀ context v, d.validateProperty orderTypes context "note" v =
      d.validateRaw orderTypes context none v) ∧
    (∀ context v, d.validateParameter orderTypes context "add" "item" v =
      d.validateRaw orderTypes context (some "Item[]") v) ∧
    (∀ context v, d.validateParameter orderTypes context "add" "count" v =
      d.validateRaw orderTypes context none v) ∧
    (∀ context v, d.validateReturn orderTypes context "add" v =
      d.validateRaw orderTypes context (some "self") v) ∧
    d.validateParameter orderTypes (.static "Shop\\Order") "add" "item"
      (.array [(.index 0, .object 0 "Shop\\Item" [])]) = .ok true := by
  obtain ⟨d, hbuild, hraw⟩ : ∃ d, build order orderTypes [] = .ok d ∧
      d.validateRaw orderTypes (.static "Shop\\Order") (some "Item[]")
        (.array [(.index 0, .object 0 "Shop\\Item" [])]) = .ok true := ⟨_, by rfl, by rfl⟩
  obtain ⟨-, -, hproperties, hmethods⟩ := validate_members_of_build hbuild
  obtain ⟨hparameters, hreturn⟩ := hmethods _ List.mem_cons_self
  have hitem := hparameters ("item", ⟨some "Item[]", false⟩) (by decide)
  have hcount := hparameters ("count", ⟨none, false⟩) (by decide)
  refine ⟨d, hbuild, ?_, ?_, hitem, hcount, hreturn, (hitem _ _).trans hraw⟩
  · obtain ⟨raw, hvars, htotal⟩ := hproperties (.ofTypes "total" ["Amount|null"]) (by decide)
      (by decide)
    obtain rfl : some "Amount|null" = raw := by cases raw <;> cases hvars; rfl
    exact htotal
  · obtain ⟨raw, hvars, hnote⟩ := hproperties (.ofTypes "note" []) (by decide) (by decide)
    obtain rfl : none = raw := by cases raw <;> cases hvars; rfl
    exact hnote

end ClassDescriptor

end DocTypes

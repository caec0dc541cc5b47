import DocTypes.Proofs.MemberTypes

/-!
# Object properties

A term denotes a class if it is `self`, `$this`, or the name of a known class (`DenotesClass`). What
a text stands for is flat: no array has arrays for its elements. So a term for which
`is_object_type` holds is one that denotes a class, or the array of one (`IsFlat.isObjectType_iff`),
and a property can be listed with a class and with whether it comes in an array.

Every property of a descriptor has such a type or none, so the analyzer `objectProperties` never
fails, and lists exactly those that hold objects (`extract_objectProperties_eq_ok`).
-/

namespace DocTypes

/-! ## Terms that denote classes -/

namespace TypeTerm

variable {own : String} {r : TypeRegistry} {t : TypeTerm} {name : String}

/-- The class whose objects a term denotes in the class `own`. An `arrayOf` denotes none. -/
inductive DenotesClass (own : String) (r : TypeRegistry) : TypeTerm → String → Prop
  | selfRef : DenotesClass own r .selfRef own
  | thisRef : DenotesClass own r .thisRef own
  | classRef {name : String} : r.isClass name = true → DenotesClass own r (.classRef name) name

/-- Whether a term is an `arrayOf`. -/
def isArray : TypeTerm → Bool
  | arrayOf _ => true
  | _ => false

/-- The elements of an `arrayOf` are no arrays. -/
def IsFlat : TypeTerm → Prop
  | arrayOf element => element.isArray = false
  | _ => True

/-- A term that is no array is `IsFlat`. -/
theorem IsFlat.of_isArray_eq_false (h : t.isArray = false) : t.IsFlat := by
  cases t with
  | arrayOf element => cases h
  | _ => trivial

/-- A term that `DenotesClass` is no array. -/
theorem DenotesClass.isArray_eq_false (h : t.DenotesClass own r name) : t.isArray = false := by
  cases h with
  | selfRef => rfl
  | thisRef => rfl
  | classRef => rfl

/-- At a term that is no array, `isObjectType` holds if it `DenotesClass`. -/
theorem isObjectType_iff_of_isArray_eq_false (own : String) (h : t.isArray = false) :
    t.isObjectType r = true ↔ ∃ name, t.DenotesClass own r name := by
  cases t with
  | selfRef => exact ⟨fun _ => ⟨own, .selfRef⟩, fun _ => rfl⟩
  | thisRef => exact ⟨fun _ => ⟨own, .thisRef⟩, fun _ => rfl⟩
  | classRef name => exact ⟨fun hclass => ⟨name, .classRef hclass⟩, fun | ⟨_, .classRef h⟩ => h⟩
  | arrayOf element => cases h
  | primitive kind => exact ⟨nofun, nofun⟩
  | unhandled word => exact ⟨nofun, nofun⟩

/-- At a flat term, `isObjectType` holds if it denotes a class or is the `arrayOf` a term that
does. -/
theorem IsFlat.isObjectType_iff (own : String) (h : t.IsFlat) :
    t.isObjectType r = true ↔ ∃ (element : TypeTerm) (name : String) (isArray : Bool),
      element.DenotesClass own r name ∧ t = if isArray then .arrayOf element else element := by
  constructor
  · intro hobject
    cases t with
    | arrayOf element =>
      obtain ⟨name, hname⟩ := (isObjectType_iff_of_isArray_eq_false own h).1 hobject
      exact ⟨element, name, true, hname, rfl⟩
    | _ =>
      obtain ⟨name, hname⟩ := (isObjectType_iff_of_isArray_eq_false own rfl).1 hobject
      exact ⟨_, name, false, hname, rfl⟩
  · rintro ⟨element, name, isArray, hname, rfl⟩
    have helement : element.isObjectType r = true :=
      (isObjectType_iff_of_isArray_eq_false own hname.isArray_eq_false).2 ⟨name, hname⟩
    cases isArray with
    | true => exact helement
    | false => exact helement

end TypeTerm

/-- The declaration that `singleTerm?` finds a term in is the one that has only this term. -/
theorem TypeDeclaration.eq_single_of_singleTerm? {declaration : TypeDeclaration} {t : TypeTerm}
    (h : declaration.singleTerm? = some t) : declaration = .single t := by
  obtain ⟨terms, hne⟩ := declaration
  obtain rfl : terms = [t] := singleTerm?_eq_some_iff.1 h
  rfl

namespace Scope

variable {s : Scope} {t : TypeTerm} {name raw : String} {declaration : TypeDeclaration}

/-- `classOf` answers the class that a term denotes, and fails at all other terms. -/
theorem classOf_eq_ok_iff :
    s.classOf t = .ok name ↔ t.DenotesClass s.className s.registry name := by
  cases t with
  | selfRef => exact ⟨fun h => by cases h; exact .selfRef, fun | .selfRef => rfl⟩
  | thisRef => exact ⟨fun h => by cases h; exact .thisRef, fun | .thisRef => rfl⟩
  | classRef word =>
    constructor
    · intro h
      rw [classOf] at h
      split at h
      · next hclass =>
        cases h
        exact .classRef hclass
      · cases h
    · intro h
      cases h with
      | classRef hclass => exact if_pos hclass
  | arrayOf element => exact ⟨nofun, nofun⟩
  | primitive kind => exact ⟨nofun, nofun⟩
  | unhandled word => exact ⟨nofun, nofun⟩

/-- `resolveName` gives no array: the suffix is not part of a name. -/
theorem isArray_resolveName (n : TypeExpr.Name) : (s.resolveName n).isArray = false := by
  unfold resolveName
  split <;> rfl

/-- What `resolve` makes of a text is flat, since `resolveTerm` puts one `arrayOf` around a name at
most. -/
theorem isFlat_of_resolve (h : s.resolve raw = .ok declaration) :
    ∀ term ∈ declaration.terms, term.IsFlat := by
  obtain ⟨e, -, rfl⟩ := map_eq_ok_iff.1 h
  intro term hterm
  -- Every term is `resolveTerm` of a member, and its name is no array.
  obtain ⟨member, -, rfl⟩ := List.mem_map.1 hterm
  have hname : (s.resolveName member.name).isArray = false := isArray_resolveName member.name
  unfold resolveTerm
  split
  · exact hname
  · exact .of_isArray_eq_false hname

end Scope

/-! ## The entries of properties -/

/-- The property `p` holds objects of the class `name`, one or an array of them. -/
def PropertyDescriptor.HoldsObjects (p : PropertyDescriptor) (own : String) (r : TypeRegistry)
    (name : String) (isArray : Bool) : Prop :=
  ∃ t : TypeTerm, t.DenotesClass own r name ∧
    p.declaration = some (.single (if isArray then .arrayOf t else t))

namespace Analyzer

variable {context : AnalysisContext} {p : PropertyDescriptor} {member : String × Json}

/-- What is listed for a property that `HoldsObjects`. -/
def objectEntry (p : PropertyDescriptor) (name : String) (isArray : Bool) : String × Json :=
  (p.name, .object [("class", .string name), ("is_array", .bool isArray)])

/-- `objectMember?` lists a property that `HoldsObjects`. -/
theorem objectMember?_of_holdsObjects {name : String} {isArray : Bool}
    (h : p.HoldsObjects context.descriptor.name context.registry name isArray) :
    objectMember? context p = .ok (some (objectEntry p name isArray)) := by
  obtain ⟨t, ht, hdeclaration⟩ := h
  have hclass : (context.descriptor.scope context.registry).classOf t = .ok name :=
    Scope.classOf_eq_ok_iff.2 ht
  have hobject : t.isObjectType context.registry = true :=
    (TypeTerm.isObjectType_iff_of_isArray_eq_false _ ht.isArray_eq_false).2 ⟨name, ht⟩
  unfold objectMember?
  simp only [hdeclaration]
  -- An array is asked for the class of its element, any other term for its own.
  cases isArray with
  | true =>
    have harray : (TypeTerm.arrayOf t).isObjectType context.registry = true := hobject
    simp only [if_true, TypeDeclaration.singleTerm?, TypeDeclaration.single, harray, hclass]
    rfl
  | false =>
    simp only [Bool.false_eq_true, if_false, TypeDeclaration.singleTerm?, TypeDeclaration.single,
      hobject, if_true]
    cases t with
    | arrayOf => cases hclass
    | _ =>
      simp only [hclass]
      rfl

/-- `objectMember?` lists exactly the properties that hold objects, each with its `objectEntry`. -/
theorem objectMember?_eq_ok_some_iff : objectMember? context p = .ok (some member) ↔
    ∃ name isArray, p.HoldsObjects context.descriptor.name context.registry name isArray ∧
      objectEntry p name isArray = member := by
  constructor
  · intro h
    unfold objectMember? at h
    split at h
    · cases h
    · next declaration hdeclaration =>
      split at h
      · cases h
      · next term hterm =>
        obtain rfl : declaration = .single term := TypeDeclaration.eq_single_of_singleTerm? hterm
        split at h
        · simp only at h
          split at h
          · next name hclass =>
            cases h
            have hdenotes := Scope.classOf_eq_ok_iff.1 hclass
            cases term with
            | arrayOf element => exact ⟨name, true, ⟨element, hdenotes, hdeclaration⟩, rfl⟩
            | _ => exact ⟨name, false, ⟨_, hdenotes, hdeclaration⟩, rfl⟩
          · cases h
        · cases h
  · rintro ⟨name, isArray, hholds, rfl⟩
    exact objectMember?_of_holdsObjects hholds

/-- `objectMember?` does not fail at a property with a flat type (`h`). -/
theorem exists_objectMember?_eq_ok
    (h : ∀ declaration, p.declaration = some declaration → ∀ t ∈ declaration.terms, t.IsFlat) :
    ∃ entry, objectMember? context p = .ok entry := by
  -- `objectMember?` fails only where `classOf` does at a term that passed `isObjectType`, which a
  -- flat term rules out.
  by_cases hholds : ∃ name isArray,
      p.HoldsObjects context.descriptor.name context.registry name isArray
  · obtain ⟨name, isArray, hholds⟩ := hholds
    exact ⟨_, objectMember?_of_holdsObjects hholds⟩
  · refine ⟨none, ?_⟩
    unfold objectMember?
    split
    · rfl
    · next declaration hdeclaration =>
      split
      · rfl
      · next term hterm =>
        obtain rfl : declaration = .single term := TypeDeclaration.eq_single_of_singleTerm? hterm
        have hflat : term.IsFlat := h _ hdeclaration term (List.mem_singleton_self term)
        refine if_neg fun hobject => hholds ?_
        obtain ⟨element, name, isArray, hdenotes, rfl⟩ :=
          (hflat.isObjectType_iff context.descriptor.name).1 hobject
        exact ⟨name, isArray, element, hdenotes, hdeclaration⟩

/-- The entries of some properties are the `objectEntry` of each that `HoldsObjects`. -/
theorem mem_filterMap_objectMember?_iff {properties : List PropertyDescriptor}
    {entries : List (Option (String × Json))}
    (h : properties.mapM (objectMember? context) = .ok entries) :
    member ∈ entries.filterMap id ↔ ∃ p ∈ properties, ∃ name isArray,
      p.HoldsObjects context.descriptor.name context.registry name isArray ∧
        objectEntry p name isArray = member := by
  simp only [← objectMember?_eq_ok_some_iff]
  rw [List.mem_filterMap]
  constructor
  · rintro ⟨entry, hentry, hsome⟩
    obtain rfl : entry = some member := hsome
    exact exists_of_mem_mapM_ok h hentry
  · rintro ⟨p, hp, hmember⟩
    obtain ⟨before, after, rfl⟩ := List.append_of_mem hp
    obtain ⟨lower, entry, upper, rfl, hentry, -, -⟩ := exists_of_mapM_append_cons h
    obtain rfl : some member = entry := Except.ok.inj (hmember.symm.trans hentry)
    exact ⟨_, List.mem_append_right _ List.mem_cons_self, rfl⟩

/-- The entries stand in the order of `properties`, under their names. -/
theorem sublist_filterMap_objectMember? {properties : List PropertyDescriptor}
    {entries : List (Option (String × Json))}
    (h : properties.mapM (objectMember? context) = .ok entries) :
    ((entries.filterMap id).map Prod.fst).Sublist (properties.map (·.name)) := by
  -- Property by property: each gives its entry or is left out.
  rw [mapM_eq_ok_iff] at h
  induction h with
  | nil => exact .slnil
  | @cons p entry properties entries hentry _ ih =>
    cases entry with
    | none => exact ih.cons p.name
    | some member =>
      obtain ⟨name, isArray, -, rfl⟩ := objectMember?_eq_ok_some_iff.1 hentry
      exact ih.cons_cons p.name

end Analyzer

/-! ## The feature of a class -/

namespace ClassDescriptor

variable {c : ClassDeclaration} {r : TypeRegistry} {d : ClassDescriptor}

/-- The types of the properties of `ofDeclaration` are flat, by `isFlat_of_resolve`. -/
theorem isFlat_of_ofDeclaration (h : ofDeclaration c r = .ok d) {p : PropertyDescriptor}
    (hp : p ∈ d.properties.values) {declaration : TypeDeclaration}
    (hdeclaration : p.declaration = some declaration) : ∀ t ∈ declaration.terms, t.IsFlat := by
  obtain ⟨e, he, rfl⟩ := List.mem_map.1 hp
  obtain ⟨text, hresolve⟩ := exists_resolve_of_ofDeclaration h (.property he hdeclaration)
  exact Scope.isFlat_of_resolve hresolve

/-- `objectMember?` fails at no property of a descriptor. -/
theorem exists_mapM_objectMember? (h : ofDeclaration c r = .ok d) (declared : ClassDeclaration) :
    ∃ entries, d.properties.values.mapM (Analyzer.objectMember? ⟨d, declared, r⟩) = .ok entries :=
  exists_mapM_eq_ok fun _ hp =>
    Analyzer.exists_objectMember?_eq_ok fun _ => isFlat_of_ofDeclaration h hp

/-- The analyzer `objectProperties` extracts its feature from every descriptor of `ofDeclaration`,
which is as it is before there are features. The entries stand in the order of the properties. There
is one for each property whose type is a single term, `self`, `$this` or the name of a known class,
or the array of one; it gives the class and whether it is an array. There are no other entries. -/
theorem extract_objectProperties_eq_ok (h : ofDeclaration c r = .ok d)
    (declared : ClassDeclaration) :
    ∃ members, Analyzer.objectProperties.extract ⟨d, declared, r⟩ = .ok (.object members) ∧
      (members.map Prod.fst).Sublist d.properties.keys ∧
      ∀ name feature, (name, feature) ∈ members ↔ ∃ p className isArray,
        (name, p) ∈ d.properties.entries ∧ p.HoldsObjects d.name r className isArray ∧
          feature = .object [("class", .string className), ("is_array", .bool isArray)] := by
  obtain ⟨properties, hmembers⟩ := exists_members_of_ofDeclaration h
  obtain ⟨entries, hentries⟩ := exists_mapM_objectMember? h declared
  have hkeys : ((entries.filterMap id).map Prod.fst).Sublist d.properties.keys := by
    rw [← hmembers.map_name_values]
    exact Analyzer.sublist_filterMap_objectMember? hentries
  -- No two properties have one name, so the entries are stored as they come.
  have hstored : (OrderedMap.ofList (entries.filterMap id)).entries = entries.filterMap id :=
    OrderedMap.entries_ofList_of_nodup (hkeys.nodup d.properties.nodup_keys)
  refine ⟨entries.filterMap id, ?_, hkeys, fun name feature => ?_⟩
  · rw [Analyzer.objectProperties, ← hstored]
    simp only [hentries]
    rfl
  · rw [Analyzer.mem_filterMap_objectMember?_iff hentries]
    constructor
    · rintro ⟨p, hp, className, isArray, hholds, hentry⟩
      obtain ⟨⟨key, _⟩, he, rfl⟩ := List.mem_map.1 hp
      obtain ⟨rfl, rfl⟩ := Prod.mk.inj hentry
      refine ⟨_, className, isArray, ?_, hholds, rfl⟩
      rwa [(hmembers.name_property he).1]
    · rintro ⟨p, className, isArray, he, hholds, rfl⟩
      refine ⟨p, List.mem_map_of_mem he, className, isArray, hholds, ?_⟩
      rw [Analyzer.objectEntry, (hmembers.name_property he).1]

/-- A class with properties that hold objects of a class, of itself and of an interface (`clock`),
one with a union and one without a type. -/
def shelf : ClassDeclaration where
  name := "Shop\\Shelf"
  imports := ["Time\\Clock"]
  properties := [.ofTypes "items" ["Item[]"], .ofTypes "clock" ["Clock"], .ofTypes "next" ["self"],
    .ofTypes "first" ["Item|null"], .ofTypes "note" []]

/-- What is known of the types of `shelf`. -/
def shelfTypes : TypeRegistry where
  definitions := [⟨"Shop\\Shelf", .class, []⟩, ⟨"Shop\\Item", .class, []⟩,
    ⟨"Time\\Clock", .interface, []⟩]
  nodup_names := by decide

/-- The array of a class and `self` are listed, and the interface of `clock` is not. -/
theorem extract_objectProperties_shelf : ∃ d members, ofDeclaration shelf shelfTypes = .ok d ∧
    Analyzer.objectProperties.extract ⟨d, shelf, shelfTypes⟩ = .ok (.object members) ∧
    ("items", .object [("class", .string "Shop\\Item"), ("is_array", .bool true)]) ∈ members ∧
    ("next", .object [("class", .string "Shop\\Shelf"), ("is_array", .bool false)]) ∈ members ∧
    ∀ feature, ("clock", feature) ∉ members := by
  obtain ⟨d, items, next, clock, hbuild, hname, hitems, hnext, hclock, hitem, hself, hinterface⟩ :
      ∃ d items next clock, ofDeclaration shelf shelfTypes = .ok d ∧ d.name = "Shop\\Shelf" ∧
        d.properties.get? "items" = some items ∧ d.properties.get? "next" = some next ∧
        d.properties.get? "clock" = some clock ∧
        items.declaration = some (.single (.arrayOf (.classRef "Shop\\Item"))) ∧
        next.declaration = some (.single .selfRef) ∧
        clock.declaration = some (.single (.classRef "Time\\Clock")) :=
    ⟨_, _, _, _, by rfl, by rfl, by rfl, by rfl, by rfl, by rfl, by rfl, by rfl⟩
  obtain ⟨members, hextract, -, hmem⟩ := extract_objectProperties_eq_ok hbuild shelf
  refine ⟨d, members, hbuild, hextract, ?_, ?_, fun feature hlisted => ?_⟩
  · exact (hmem _ _).2 ⟨items, _, true, OrderedMap.get?_eq_some_iff.1 hitems,
      ⟨.classRef "Shop\\Item", .classRef (by decide), hitem⟩, rfl⟩
  · exact (hmem _ _).2 ⟨next, _, false, OrderedMap.get?_eq_some_iff.1 hnext,
      ⟨.selfRef, hname ▸ .selfRef, hself⟩, rfl⟩
  · obtain ⟨p, className, isArray, hp, ⟨t, ht, hdeclaration⟩, -⟩ := (hmem _ _).1 hlisted
    obtain rfl : clock = p :=
      Option.some.inj (hclock.symm.trans (OrderedMap.get?_eq_some_iff.2 hp))
    have hterm : TypeTerm.classRef "Time\\Clock" = if isArray then .arrayOf t else t := by
      simpa [TypeDeclaration.single] using hinterface.symm.trans hdeclaration
    cases isArray with
    | true => cases hterm
    | false =>
      obtain rfl : TypeTerm.classRef "Time\\Clock" = t := hterm
      cases ht with
      | classRef hclass => exact absurd hclass (by decide)

end ClassDescriptor

end DocTypes

import Mathlib.Data.List.Induction
import Mathlib.Data.List.Perm.Subperm
import DocTypes.Proofs.MemberTypes

/-!
# Declared and described members

Every `method` annotation of a class has a descriptor of its own, in order, with all its parameters:
a name that comes again would have been an error. Properties are only kept by name, as
`from_declaration` stores them with `insert`. A property that is declared again takes the place of
the earlier one, so there is a descriptor for each name, which records the last declaration of that
name, and one for each declaration if the names are distinct. If they are not, fewer properties are
described than are declared, and no error says so. The main statement is
`ofDeclaration_records_members`.
-/

namespace DocTypes

/-! ## The keys of a list of entries -/

namespace OrderedMap

variable {κ β : Type} [DecidableEq κ]

/-- `ofList` keeps the keys of a list of entries once, each in its first place. -/
theorem keys_ofList (l : List (κ × β)) : (ofList l).keys = (l.map Prod.fst).eraseDups := by
  -- Entries are stored from the front, so the last one decides on its key.
  induction l using List.reverseRecOn with
  | nil => rfl
  | append_singleton l e ih =>
    have hstore : ofList (l ++ [e]) = (ofList l).insert e.1 e.2 := List.foldl_append
    rw [hstore, keys_insert, ih, List.map_append, List.eraseDups_append]
    simp only [List.mem_eraseDups, List.map_cons, List.map_nil, List.removeAll]
    by_cases hmem : e.1 ∈ l.map Prod.fst
    · simp [hmem]
    · simp [hmem, List.eraseDups_cons]

/-- `ofList` loses no entry if and only if the keys are distinct. -/
theorem size_ofList_eq_length_iff {l : List (κ × β)} :
    (ofList l).size = l.length ↔ (l.map Prod.fst).Nodup := by
  constructor
  · intro hsize
    -- No key is stored that was not given, so as many keys as entries are all of them.
    have hsubperm : (ofList l).keys.Subperm (l.map Prod.fst) :=
      List.Nodup.subperm (ofList l).nodup_keys fun k hk => by
        obtain ⟨e, he, rfl⟩ := List.mem_map.1 hk
        exact List.mem_map_of_mem (mem_of_mem_entries_ofList he)
    have hlength : (l.map Prod.fst).length ≤ (ofList l).keys.length := by
      rw [keys, List.length_map, List.length_map]
      exact Nat.le_of_eq hsize.symm
    exact (hsubperm.perm_of_length_le hlength).nodup (ofList l).nodup_keys
  · intro hkeys
    rw [size, entries_ofList_of_nodup hkeys]

end OrderedMap

namespace ClassDescriptor

variable {c : ClassDeclaration} {r : TypeRegistry} {d : ClassDescriptor}

/-! ## Records -/

/-- The descriptor `q` says of a property what `p` declares: its annotations, and what the text of
its one type stands for in the class. -/
structure RecordsProperty (d : ClassDescriptor) (r : TypeRegistry) (p : PropertyDeclaration)
    (q : PropertyDescriptor) : Prop where
  className_eq : q.className = d.name
  name_eq : q.name = p.name
  annotations_eq : q.annotations = p.annotations
  exists_type : ∃ raw : Option String, p.annotations.vars = raw.toList ∧
    d.resolve? r raw = .ok q.declaration

/-- The descriptor `q` says of a virtual method what its annotation `m` says: every parameter, in
order, with what the text of its type stands for in the class, and likewise what is returned. -/
structure RecordsMethod (d : ClassDescriptor) (r : TypeRegistry) (m : MethodAnnotation)
    (q : MethodDescriptor) : Prop where
  className_eq : q.className = d.name
  name_eq : q.name = m.name
  isStatic_eq : q.isStatic = m.isStatic
  parameters : List.Forall₂ (fun a e => e.1 = a.1 ∧ a.2.hasDefault = false ∧
    d.resolve? r a.2.type = .ok e.2) m.parameters.entries q.parameters.entries
  returnType : d.resolve? r m.returnType = .ok q.returnType

/-- A property that `describeProperty` describes is recorded. -/
theorem recordsProperty_of_describeProperty {p : PropertyDeclaration} {q : PropertyDescriptor}
    (h : (d.scope r).describeProperty p = .ok q) : d.RecordsProperty r p q := by
  have hvars := Scope.vars_eq_of_describeProperty h
  obtain ⟨-, type, htype, rfl⟩ := Scope.describeProperty_eq_ok_iff.1 h
  exact ⟨rfl, rfl, rfl, _, hvars, resolve?_of_resolveMember htype⟩

/-- A virtual method that `describeMethod` describes is recorded. -/
theorem recordsMethod_of_describeMethod {m : MethodAnnotation} {q : MethodDescriptor}
    (h : (d.scope r).describeMethod m = .ok q) : d.RecordsMethod r m q := by
  obtain ⟨parameters, type, hparameters, htype, rfl⟩ := Scope.describeMethod_eq_ok_iff.1 h
  refine ⟨rfl, rfl, rfl, ?_, resolve?_of_resolveMember htype⟩
  rw [Scope.entries_ofList_of_mapM_describeParameter hparameters]
  refine (mapM_eq_ok_iff.1 hparameters).imp fun a e hdescribe => ?_
  obtain ⟨hdefault, type, htype, rfl⟩ := Scope.describeParameter_eq_ok_iff.1 hdescribe
  exact ⟨rfl, hdefault, resolve?_of_resolveMember htype⟩

/-! ## What is described of a declaration -/

/-- The `properties` that are described have the names of those that are `declared`. -/
theorem map_name_of_mapM_describeProperty {s : Scope} {declared : List PropertyDeclaration}
    {properties : List PropertyDescriptor}
    (h : declared.mapM s.describeProperty = .ok properties) :
    properties.map (·.name) = declared.map (·.name) := by
  rw [mapM_eq_ok_iff] at h
  -- Property by property: a descriptor has the name of what it describes.
  induction h with
  | nil => rfl
  | cons hdescribe _ ih =>
    obtain ⟨-, type, -, rfl⟩ := Scope.describeProperty_eq_ok_iff.1 hdescribe
    rw [List.map_cons, List.map_cons, ih]

/-- A descriptor by `ofDeclaration` has a property for each declared name, in the order in which the
names come first, and it records the last declaration of that name (`RecordsProperty`). If the names
are distinct then every declared property is recorded, in order. That as many properties are
described as are declared is true of distinct names only. Every virtual method is recorded, in order
(`RecordsMethod`). -/
theorem ofDeclaration_records_members (h : ofDeclaration c r = .ok d) :
    d.properties.keys = (c.properties.map (·.name)).eraseDups ∧
    (∀ before p after, c.properties = before ++ p :: after → (∀ q ∈ after, q.name ≠ p.name) →
      ∃ q, d.properties.get? p.name = some q ∧ d.RecordsProperty r p q) ∧
    ((c.properties.map (·.name)).Nodup →
      List.Forall₂ (fun p e => e.1 = p.name ∧ d.RecordsProperty r p e.2) c.properties
        d.properties.entries) ∧
    (d.properties.size = c.properties.length ↔ (c.properties.map (·.name)).Nodup) ∧
    List.Forall₂ (fun m e => e.1 = m.name ∧ d.RecordsMethod r m e.2) c.annotations.methods
      d.methods.entries := by
  obtain ⟨properties, hmembers⟩ := exists_members_of_ofDeclaration h
  have hnames := map_name_of_mapM_describeProperty hmembers.describeProperties
  have hkeys : (properties.map fun p => (p.name, p)).map Prod.fst = c.properties.map (·.name) := by
    rw [← hnames, List.map_map]
    rfl
  have hlength : (properties.map fun p => (p.name, p)).length = c.properties.length := by
    simpa using congrArg List.length hkeys
  -- All parts are read off `Members`: what is stored under the names, and what is described.
  refine ⟨?_, ?_, ?_, ?_, ?_⟩
  · rw [hmembers.properties_eq, OrderedMap.keys_ofList, hkeys]
  · intro before p after hsplit hlast
    obtain ⟨q, hdescribe, hget⟩ := hmembers.get?_property hsplit hlast
    exact ⟨q, hget, recordsProperty_of_describeProperty hdescribe⟩
  · intro hnodup
    rw [hmembers.properties_eq, OrderedMap.entries_ofList_of_nodup (hkeys ▸ hnodup),
      List.forall₂_map_right_iff]
    refine (mapM_eq_ok_iff.1 hmembers.describeProperties).imp fun p q hdescribe => ?_
    have hrecords := recordsProperty_of_describeProperty hdescribe
    exact ⟨hrecords.name_eq, hrecords⟩
  · rw [hmembers.properties_eq, ← hlength, OrderedMap.size_ofList_eq_length_iff, hkeys]
  · refine (Scope.forall₂_of_describeMethods hmembers.describeMethods).imp fun m e he => ?_
    exact ⟨he.1, recordsMethod_of_describeMethod he.2⟩

/-- The names are distinct in the class `order`, so both properties are recorded; and so is the
virtual method. -/
theorem ofDeclaration_records_members_order : ∃ d, ofDeclaration order orderTypes = .ok d ∧
    d.properties.keys = ["total", "note"] ∧
    (∃ q, d.properties.get? "note" = some q ∧
      d.RecordsProperty orderTypes (.ofTypes "note" []) q) ∧
    List.Forall₂ (fun p e => e.1 = p.name ∧ d.RecordsProperty orderTypes p e.2) order.properties
      d.properties.entries ∧
    d.properties.size = 2 ∧
    List.Forall₂ (fun m e => e.1 = m.name ∧ d.RecordsMethod orderTypes m e.2)
      order.annotations.methods d.methods.entries := by
  obtain ⟨d, hbuild⟩ : ∃ d, ofDeclaration order orderTypes = .ok d := ⟨_, by rfl⟩
  have hnodup : (order.properties.map (·.name)).Nodup := by decide
  obtain ⟨hkeys, hlast, hall, hsize, hmethods⟩ := ofDeclaration_records_members hbuild
  refine ⟨d, hbuild, ?_, ?_, hall hnodup, hsize.2 hnodup, hmethods⟩
  · rw [hkeys]
    decide
  · exact hlast [.ofTypes "total" ["Amount|null"]] (.ofTypes "note" []) [] rfl nofun

/-- A class that declares a property twice, with different types. -/
def redeclared : ClassDeclaration where
  name := "A"
  properties := [.ofTypes "p" ["int"], .ofTypes "p" ["string"]]

/-- What is known is the class `redeclared` itself. -/
def redeclaredTypes : TypeRegistry where
  definitions := [⟨"A", .class, []⟩]
  nodup_names := by decide

/-- Of the two declarations in `redeclared` the first one is recorded nowhere, and there is no
error. -/
theorem exists_ofDeclaration_forgets_property :
    ∃ d, ofDeclaration redeclared redeclaredTypes = .ok d ∧ d.properties.size = 1 ∧
      redeclared.properties.length = 2 ∧ PropertyDeclaration.ofTypes "p" ["int"] ∈
        redeclared.properties ∧
      ∀ e ∈ d.properties.entries,
        ¬d.RecordsProperty redeclaredTypes (.ofTypes "p" ["int"]) e.2 := by
  obtain ⟨d, q, hbuild, hentries, hannotations⟩ : ∃ d q,
      ofDeclaration redeclared redeclaredTypes = .ok d ∧ d.properties.entries = [("p", q)] ∧
        q.annotations = [.var "string"] := ⟨_, _, by rfl, by rfl, by rfl⟩
  refine ⟨d, hbuild, congrArg List.length hentries, rfl, List.mem_cons_self, ?_⟩
  intro e he hrecords
  rw [hentries] at he
  obtain rfl : e = ("p", q) := List.mem_singleton.1 he
  exact absurd (hannotations.symm.trans hrecords.annotations_eq) (by decide)

end ClassDescriptor

end DocTypes

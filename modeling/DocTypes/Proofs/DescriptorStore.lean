import DocTypes.Proofs.Building
import DocTypes.Proofs.JsonRecord
import DocTypes.Proofs.JsonTree

/-!
# Descriptors are stored without loss

A descriptor that was made by `build`, or read by `from_json` from a text without doubles, is read
again from both of its texts, and equal (`ofText?_render`). The main step is that it is `Storable`:
its types and its features are not nested deeper than the containers around them leave room for, and
its features hold no doubles and no key twice. Types and features are all that can be nested without
a bound; what is around them has a fixed depth.
-/

namespace DocTypes

open Json (Storable depthLimit)

/-! ### What is written is storable -/

namespace ClassDescriptor

open TypeDeclaration (optionToJson)

/-- The types and the features of `d` are storable where they stand in it, at the levels that its
records have. -/
structure Storable (d : ClassDescriptor) : Prop where
  properties : ∀ e ∈ d.properties.entries, Json.Storable 3 (optionToJson e.2.declaration)
  parameters : ∀ e ∈ d.methods.entries, ∀ p ∈ e.2.parameters.entries,
    Json.Storable 4 (optionToJson p.2)
  returnTypes : ∀ e ∈ d.methods.entries, Json.Storable 3 (optionToJson e.2.returnType)
  features : ∀ e ∈ d.features.entries, Json.Storable 2 e.2

/-- The value `d.toJson` is storable, if the types and features of `d` are. -/
theorem Storable.toJson {d : ClassDescriptor} (h : d.Storable) : Json.Storable 0 d.toJson := by
  apply Json.storable_record (by decide) (by simp)
  -- The parts in the order of the fields. Below each map of records stands one more record.
  refine ⟨.string d.name, .string d.inNamespace, ?_, d.annotations.storable_toJson (by decide), ?_,
    ?_, ?_⟩
  · exact OrderedMap.storable_mapValues (by decide) fun e _ => .string e.2
  · apply OrderedMap.storable_mapValues (by decide)
    intro e he
    apply Json.storable_record (by decide) (by simp)
    exact ⟨.string e.2.className, .string e.2.name, e.2.annotations.storable_toJson (by decide),
      h.properties e he⟩
  · apply OrderedMap.storable_mapValues (by decide)
    intro e he
    apply Json.storable_record (by decide) (by simp)
    exact ⟨.string e.2.className, .string e.2.name,
      OrderedMap.storable_mapValues (by decide) (h.parameters e he), h.returnTypes e he,
      .bool e.2.isStatic⟩
  · exact .object (by decide) h.features d.features.nodup_keys

end ClassDescriptor

/-! ### What is read is storable -/

namespace TypeTerm

/-- A term that `toJson` writes with a value is storable one level above the value. -/
theorem storable_tagged {kind : Kind} {value : Json} {level : Nat} (hlevel : level < depthLimit)
    (hvalue : Storable (level + 1) value) : Storable level (toJson.tagged kind value) :=
  Json.storable_record hlevel (by simp [kindField, valueField]) ⟨.string kind.keyword, hvalue⟩

/-- A term that `toJson` writes without a value is storable in any container. -/
theorem storable_bare {kind : Kind} {level : Nat} (hlevel : level < depthLimit) :
    Storable level (.object [(kindField, .string kind.keyword)]) :=
  Json.storable_record hlevel (by simp) (.string kind.keyword)

/-- A term that `ofKind?` reads is storable one level above its element. -/
theorem storable_of_ofKind? {kind : Kind} {value : Option Json.Node} {readAhead : Bool}
    {element : Unit → Option TypeTerm} {t : TypeTerm} {level : Nat}
    (h : ofKind? kind value readAhead element = some t) (hlevel : level < depthLimit)
    (helement : ∀ e, element () = some e → Storable (level + 1) e.toJson) :
    Storable level t.toJson := by
  unfold ofKind? at h
  -- One case for each kind, in the order of `ofKind?`.
  split at h
  · simp only [Option.bind_eq_bind, Option.bind_eq_some_iff, Option.pure_def,
      Option.some.injEq] at h
    obtain ⟨_, _, _, _, kind, _, rfl⟩ := h
    exact storable_tagged hlevel (.string _)
  · simp only [Option.bind_eq_bind, Option.bind_eq_some_iff, Option.pure_def,
      Option.some.injEq] at h
    obtain ⟨_, _, name, _, rfl⟩ := h
    exact storable_tagged hlevel (.string _)
  · split at h
    · cases h
      exact storable_bare hlevel
    · cases h
  · split at h
    · cases h
      exact storable_bare hlevel
    · cases h
  · obtain ⟨e, he, rfl⟩ := Option.map_eq_some_iff.1 h
    exact storable_tagged hlevel (helement e he)
  · simp only [Option.bind_eq_bind, Option.bind_eq_some_iff, Option.pure_def,
      Option.some.injEq] at h
    obtain ⟨_, _, word, _, rfl⟩ := h
    exact storable_tagged hlevel (.string _)

/-- The element that `elementOf?` finds is one of the members, read as a term. -/
theorem exists_ofNode?_of_elementOf? {members : List (String × Json.Node)} {readAhead : Bool}
    {t : TypeTerm} (h : elementOf? members readAhead = some t) :
    ∃ m ∈ members, ofNode? m.2 readAhead = some t := by
  induction members with
  | nil => cases h
  | cons m members ih =>
    rw [elementOf?] at h
    split at h
    · exact ⟨m, List.mem_cons_self, h⟩
    · obtain ⟨n, hn, hread⟩ := ih h
      exact ⟨n, List.mem_cons_of_mem _ hn, hread⟩

/-- A term that `ofNode?` reads is storable where it was read. -/
theorem storable_of_ofNode? {node : Json.Node} {readAhead : Bool} {t : TypeTerm} {level : Nat}
    (h : node.Storable level) (ht : ofNode? node readAhead = some t) :
    Storable level t.toJson := by
  -- By induction on the node as one that is storable, so that the elements of an array are terms of
  -- its parts.
  induction h generalizing readAhead t with
  | @object level members hlevel _ ih =>
    rw [ofNode?] at ht
    simp only at ht
    split at ht
    · cases ht
    · obtain ⟨kindNode, -, ht⟩ := Option.bind_eq_some_iff.1 ht
      obtain ⟨kind, -, ht⟩ := Option.bind_eq_some_iff.1 ht
      split at ht
      · cases ht
      · apply storable_of_ofKind? ht hlevel
        intro e he
        obtain ⟨m, hm, hread⟩ := exists_ofNode?_of_elementOf? he
        exact ih m hm hread
  | @array level items hlevel _ ih =>
    -- The kind and the value may also be given as two items.
    rw [ofNode?.eq_def] at ht
    split at ht
    · contradiction
    · next kindNode value heq =>
      cases heq
      obtain ⟨kind, -, ht⟩ := Option.bind_eq_some_iff.1 ht
      apply storable_of_ofKind? ht hlevel
      intro e he
      exact ih value (by simp) he
    · cases ht
  | _ => cases ht

end TypeTerm

namespace TypeDeclaration

variable {level : Nat} {node : Json.Node}

/-- `ofNode?` reads a declaration from an array of its terms. -/
theorem ofNode?_eq_some_iff {declaration : TypeDeclaration} :
    ofNode? node = some declaration ↔ ∃ items, node = .array items ∧
      items.mapM (fun item => TypeTerm.ofNode? item false) = some declaration.terms := by
  unfold ofNode?
  rw [Option.bind_eq_some_iff]
  constructor
  · rintro ⟨terms, hterms, hdeclaration⟩
    unfold ofTerms? at hdeclaration
    split at hdeclaration
    · cases hdeclaration
    · cases hdeclaration
      cases node with
      | array items => exact ⟨items, rfl, hterms⟩
      | _ => cases hterms
  · rintro ⟨items, rfl, hterms⟩
    exact ⟨_, hterms, dif_neg declaration.terms_ne_nil⟩

/-- A declaration that `ofNode?` reads is storable where it was read. -/
theorem storable_of_ofNode? {d : TypeDeclaration} (h : node.Storable level)
    (hd : ofNode? node = some d) : Storable level d.toJson := by
  obtain ⟨items, rfl, hterms⟩ := ofNode?_eq_some_iff.1 hd
  cases h with
  | array hlevel hitems =>
    refine storable_toJson hlevel fun t ht => ?_
    obtain ⟨n, hn, hterm⟩ := exists_of_mem_mapM hterms ht
    exact TypeTerm.storable_of_ofNode? (hitems n hn) hterm

/-- A declaration that may be missing, as `nullable?` reads it, is storable where it was read. -/
theorem storable_of_nullable? {o : Option TypeDeclaration} (h : node.Storable level)
    (ho : Json.Node.nullable? ofNode? node = some o) : Storable level (optionToJson o) := by
  cases o with
  | none => exact .null
  | some d => exact storable_of_ofNode? h (Json.read_of_nullable? ho)

/-- A declaration that `optional?` reads from a field of a record is storable one level below it. -/
theorem storable_of_optional? {names : List String} {r : Json.Record} {name : String}
    {o : Option TypeDeclaration} (h : node.Storable level)
    (hr : Json.Record.ofNode? names node = some r) (ho : r.optional? name ofNode? = some o) :
    Storable (level + 1) (optionToJson o) := by
  unfold Json.Record.optional? at ho
  split at ho
  · next field hfield =>
    exact storable_of_nullable? (Json.Record.storable_of_lookup h hr hfield) ho
  · split at ho
    · cases ho
      exact .null
    · cases ho

end TypeDeclaration

namespace ClassDescriptor

open TypeDeclaration (optionToJson)

/-- The type of a property that `PropertyDescriptor.ofNode?` reads is storable one level below
it. -/
theorem storable_of_property {node : Json.Node} {p : PropertyDescriptor} {level : Nat}
    (h : node.Storable level) (hp : PropertyDescriptor.ofNode? node = some p) :
    Json.Storable (level + 1) (optionToJson p.declaration) := by
  simp only [PropertyDescriptor.ofNode?, Option.bind_eq_bind, Option.bind_eq_some_iff,
    Option.pure_def, Option.some.injEq] at hp
  obtain ⟨r, hr, _, _, _, _, _, _, declaration, hdeclaration, rfl⟩ := hp
  exact TypeDeclaration.storable_of_optional? h hr hdeclaration

/-- The types of a virtual method that `MethodDescriptor.ofNode?` reads are storable below it, those
of the parameters by one more level. -/
theorem storable_of_method {node : Json.Node} {m : MethodDescriptor} {level : Nat}
    (h : node.Storable level) (hm : MethodDescriptor.ofNode? node = some m) :
    (∀ p ∈ m.parameters.entries, Json.Storable (level + 2) (optionToJson p.2)) ∧
      Json.Storable (level + 1) (optionToJson m.returnType) := by
  simp only [MethodDescriptor.ofNode?, Option.bind_eq_bind, Option.bind_eq_some_iff,
    Option.pure_def, Option.some.injEq] at hm
  obtain ⟨r, hr, _, _, _, _, parameters, hparameters, returnType, hreturn, _, _, rfl⟩ := hm
  refine ⟨fun p hp => ?_, TypeDeclaration.storable_of_optional? h hr hreturn⟩
  obtain ⟨n, hn, hread⟩ := Json.Record.exists_read_of_required? h hr hparameters p hp
  exact TypeDeclaration.storable_of_nullable? hn hread

/-- A descriptor that `ofNode?` reads is `Storable`. -/
theorem storable_of_ofNode? {node : Json.Node} {d : ClassDescriptor} (h : node.Storable 0)
    (hd : ofNode? node = some d) : d.Storable := by
  simp only [ofNode?, Option.bind_eq_bind, Option.bind_eq_some_iff, Option.pure_def,
    Option.some.injEq] at hd
  obtain ⟨r, hr, _, _, _, _, _, _, _, _, properties, hproperties, methods, hmethods, features,
    hfeatures, rfl⟩ := hd
  have hmethod : ∀ e ∈ methods.entries,
      (∀ p ∈ e.2.parameters.entries, Json.Storable 4 (optionToJson p.2)) ∧
        Json.Storable 3 (optionToJson e.2.returnType) := by
    intro e he
    obtain ⟨n, hn, hread⟩ := Json.Record.exists_read_of_defaulted? h hr hmethods e he
    exact storable_of_method hn hread
  refine ⟨?_, fun e he => (hmethod e he).1, fun e he => (hmethod e he).2, ?_⟩
  · intro e he
    obtain ⟨n, hn, hread⟩ := Json.Record.exists_read_of_defaulted? h hr hproperties e he
    exact storable_of_property hn hread
  · intro e he
    obtain ⟨n, hn, hread⟩ := Json.Record.exists_read_of_defaulted? h hr hfeatures e he
    exact Json.storable_of_json? hn hread

end ClassDescriptor

/-! ### What is built is storable -/

namespace Scope

variable {s : Scope} {level : Nat}

/-- What `resolveName` gives for a name is storable in any container. -/
theorem storable_resolveName (name : TypeExpr.Name) (hlevel : level < depthLimit) :
    Storable level (s.resolveName name).toJson := by
  unfold resolveName
  split
  · exact TypeTerm.storable_tagged hlevel (.string _)
  · exact TypeTerm.storable_bare hlevel
  · exact TypeTerm.storable_bare hlevel
  · exact TypeTerm.storable_tagged hlevel (.string _)
  · exact TypeTerm.storable_tagged hlevel (.string _)
  · exact TypeTerm.storable_tagged hlevel (.string _)

/-- What `resolveTerm` gives for a term is storable where it has two levels. -/
theorem storable_resolveTerm (t : TypeExpr.Term) (hlevel : level + 1 < depthLimit) :
    Storable level (s.resolveTerm t).toJson := by
  unfold resolveTerm
  split
  · exact TypeTerm.storable_tagged (by omega) (storable_resolveName t.name hlevel)
  · exact storable_resolveName t.name (by omega)

/-- What `resolve` gives for a text is storable where it has three levels. -/
theorem storable_of_resolve {text : String} {d : TypeDeclaration} (h : s.resolve text = .ok d)
    (hlevel : level + 2 < depthLimit) : Storable level d.toJson := by
  unfold resolve at h
  cases hparse : TypeExpr.parse text with
  | error e =>
    rw [hparse] at h
    cases h
  | ok e =>
    rw [hparse] at h
    cases h
    apply TypeDeclaration.storable_toJson (by omega)
    intro term hterm
    obtain ⟨t, -, rfl⟩ := List.mem_map.1 hterm
    exact storable_resolveTerm t hlevel

end Scope

namespace Analyzer

/-- The analyzers that come with the library or that its users are shown, `failing` among them. -/
inductive IsStandard : Analyzer → Prop
  | objectProperties : IsStandard .objectProperties
  | tagCount (tag : String) : IsStandard (.tagCount tag)
  | failing (message : String) : IsStandard (.failing message)

/-- The entry that `objectMember?` makes for a property that holds objects has two parts of its
own. -/
theorem storable_of_objectMember? {context : AnalysisContext} {p : PropertyDescriptor}
    {m : String × Json} (h : objectMember? context p = .ok (some m)) {level : Nat}
    (hlevel : level < depthLimit) : Storable level m.2 := by
  unfold objectMember? at h
  split at h
  · cases h
  · split at h
    · cases h
    · split at h
      · simp only at h
        split at h
        · cases h
          exact Json.storable_record hlevel (by simp) ⟨.string _, .bool _⟩
        · cases h
      · cases h

/-- A feature that a standard analyzer extracts, by `h`, is storable where it has two levels. -/
theorem IsStandard.storable {a : Analyzer} (ha : a.IsStandard) {context : AnalysisContext}
    {feature : Json} (h : a.extract context = .ok feature) {level : Nat}
    (hlevel : level + 1 < depthLimit) : Storable level feature := by
  cases ha with
  | objectProperties =>
    obtain ⟨entries, hentries, hok⟩ := bind_eq_ok_iff.1 h
    cases hok
    refine .object (by omega) ?_ (OrderedMap.ofList (entries.filterMap id)).nodup_keys
    intro m hm
    obtain ⟨o, ho, hsome⟩ := List.mem_filterMap.1 (OrderedMap.mem_of_mem_entries_ofList hm)
    obtain rfl : o = some m := hsome
    obtain ⟨p, -, hmember⟩ := exists_of_mem_mapM_ok hentries ho
    exact storable_of_objectMember? hmember hlevel
  | tagCount tag =>
    -- The count has 64 bits.
    cases h
    have hlt := (UInt64.ofNat (context.descriptor.annotations.byTag tag).length).toNat_lt
    exact .number ⟨by omega, by omega⟩
  | failing message => cases h

end Analyzer

namespace ClassDescriptor

open TypeDeclaration (optionToJson)

variable {d : ClassDescriptor}

/-- The declarations of a descriptor that `build` makes are storable where they have three
levels. -/
theorem storable_of_declares {c : ClassDeclaration} {r : TypeRegistry} {analyzers : List Analyzer}
    (h : build c r analyzers = .ok d) {o : Option TypeDeclaration}
    (ho : ∀ declaration, o = some declaration → d.Declares declaration) {level : Nat}
    (hlevel : level + 2 < depthLimit) : Json.Storable level (optionToJson o) := by
  cases o with
  | none => exact .null
  | some declaration =>
    obtain ⟨text, hresolve⟩ := exists_resolve_of_build h (ho declaration rfl)
    exact Scope.storable_of_resolve hresolve hlevel

/-- A descriptor that `build` makes with standard analyzers (`hstandard`) is `Storable`. -/
theorem storable_of_build {c : ClassDeclaration} {r : TypeRegistry} {analyzers : List Analyzer}
    (hstandard : ∀ a ∈ analyzers, a.IsStandard) (h : build c r analyzers = .ok d) :
    d.Storable where
  properties := by
    intro e he
    exact storable_of_declares h (fun _ hdecl => .property he hdecl) (by decide)
  parameters := by
    intro e he p hp
    exact storable_of_declares h (fun _ hdecl => .parameter he hp hdecl) (by decide)
  returnTypes := by
    intro e he
    exact storable_of_declares h (fun _ hdecl => .returnType he hdecl) (by decide)
  features := by
    intro e he
    obtain ⟨a, ha, context, hextract⟩ := exists_extract_of_build h he
    exact (hstandard a ha).storable hextract (by decide)

/-! ### The store -/

/-- A `Storable` descriptor is read again by `ofText?` from both of its texts. -/
theorem Storable.ofText?_eq_some (h : d.Storable) :
    ofText? d.render = some d ∧ ofText? d.renderPretty = some d := by
  have hread : ofNode? (Json.toNode d.toJson) = some d :=
    ofNode?_toNode fun e he => Json.json?_toNode (h.features e he)
  constructor
  · rw [ofText?, render, Json.render, Json.ofText?_write .compact h.toJson]
    exact hread
  · rw [ofText?, renderPretty, Json.renderPretty, Json.ofText?_write .pretty h.toJson]
    exact hread

/-- A descriptor that was made by `build` with standard analyzers, or read by `ofText?` from a text
without doubles (`hfree`). -/
inductive IsObtained (d : ClassDescriptor) : Prop
  | built {c : ClassDeclaration} {r : TypeRegistry} {analyzers : List Analyzer}
      (hstandard : ∀ a ∈ analyzers, a.IsStandard) (h : build c r analyzers = .ok d)
  | read {text : String} (hfree : Json.isFloatFree text = true) (h : ofText? text = some d)

/-- A descriptor that was built or read is `Storable`. -/
theorem IsObtained.storable (h : d.IsObtained) : d.Storable := by
  cases h with
  | built hstandard h => exact storable_of_build hstandard h
  | read hfree h =>
    obtain ⟨node, hnode, hread⟩ := Option.bind_eq_some_iff.1 h
    exact storable_of_ofNode? (Json.storable_of_ofText? hfree hnode) hread

/-- A descriptor that was built or read is read again by `ofText?`, with all its parts in order,
from the text in one line that `render` gives and from the text in lines of `renderPretty`. The
texts of what is read are the same. -/
theorem ofText?_render (h : d.IsObtained) :
    ofText? d.render = some d ∧ ofText? d.renderPretty = some d ∧
      (ofText? d.render).map (fun e => (e.render, e.renderPretty)) =
        some (d.render, d.renderPretty) ∧
      (ofText? d.renderPretty).map (fun e => (e.render, e.renderPretty)) =
        some (d.render, d.renderPretty) := by
  obtain ⟨hline, hlines⟩ := h.storable.ofText?_eq_some
  refine ⟨hline, hlines, ?_, ?_⟩
  · rw [hline, Option.map_some]
  · rw [hlines, Option.map_some]

/-- A class with a property that holds arrays of its own objects. -/
def nodeClass : ClassDeclaration where
  name := "Tree\\Node"
  annotations := [.tag "author" "A \"quoted\" name\n"]
  properties := [⟨"children", [.var "self[]"]⟩]

/-- The descriptor of `nodeClass`. -/
def nodeDescriptor : ClassDescriptor where
  name := "Tree\\Node"
  inNamespace := "Tree"
  imports := ∅
  annotations := [.tag "author" "A \"quoted\" name\n"]
  properties := ⟨[("children", ⟨"Tree\\Node", "children", [.var "self[]"],
    some (.single (.arrayOf .selfRef))⟩)], by simp⟩
  methods := ∅
  features := ⟨[("object_properties", .object [("children",
    .object [("class", .string "Tree\\Node"), ("is_array", .bool true)])]),
    ("tag_count", .ofInt 1)], by simp⟩

/-- The `nodeDescriptor` is built, and read again from what it is written as. -/
theorem ofText?_render_node :
    build nodeClass ∅ [.objectProperties, .tagCount "author"] = .ok nodeDescriptor ∧
      ofText? nodeDescriptor.render = some nodeDescriptor ∧
      ofText? nodeDescriptor.renderPretty = some nodeDescriptor := by
  have hbuild : build nodeClass ∅ [.objectProperties, .tagCount "author"] = .ok nodeDescriptor := by
    rfl
  have hstandard : ∀ a ∈ [Analyzer.objectProperties, .tagCount "author"], a.IsStandard := by
    intro a ha
    rcases List.mem_cons.1 ha with rfl | ha
    · exact .objectProperties
    · rw [List.mem_singleton.1 ha]
      exact .tagCount "author"
  obtain ⟨hline, hlines, -, -⟩ := ofText?_render (IsObtained.built hstandard hbuild)
  exact ⟨hbuild, hline, hlines⟩

end ClassDescriptor

end DocTypes

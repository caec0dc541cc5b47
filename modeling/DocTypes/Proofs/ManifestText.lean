import DocTypes.MetadataFactory
import DocTypes.Proofs.JsonRecord
import DocTypes.Proofs.ManifestRegistry

/-!
# Reading manifests that were written

`partsToJson` writes a manifest with all its parts, also those that could be left out, as an object
of its types and classes. Every `TypeDefinition` and every `ClassDeclaration` is read back from the
tree of its own object (`ofNode?_toNode`), whatever its texts are, and none is nested deep
(`storable_toJson`). So the text of a manifest is read as the parts that it was written from, and
reading it comes to the same as `ofParts` of these parts, the error for a repeated class included
(`ofText_write`). The main statement is `ofText_partsToJson`.
-/

namespace DocTypes

open Json (Storable depthLimit toNode)

/-! ## Definitions -/

/-- `ofKeyword?` reads the `keyword` of a kind of type as the kind. -/
theorem TypeKind.ofKeyword?_keyword (kind : TypeKind) : ofKeyword? kind.keyword = some kind := by
  cases kind <;> rfl

namespace TypeDefinition

/-- `ofNode?` reads a definition back from what `toJson` wrote. -/
theorem ofNode?_toNode (d : TypeDefinition) : ofNode? (toNode d.toJson) = some d := by
  rw [toJson, ofNode?, Json.Record.ofNode?_toNode (by simp)]
  simp only [Json.Record.required?, Json.Record.defaulted?, List.map_cons, List.map_nil,
    List.lookup_cons, String.reduceBEq, Option.bind_eq_bind, Option.bind_some,
    Json.list?_strings]
  simp [toNode, Json.Node.string?, Json.Node.keyword?, TypeKind.ofKeyword?_keyword]

/-- A definition is `Storable` where it has two levels. -/
theorem storable_toJson (d : TypeDefinition) {level : Nat} (hlevel : level + 1 < depthLimit) :
    Storable level d.toJson := by
  apply Json.storable_record (by omega) (by simp)
  exact ⟨.string d.name, .string d.kind.keyword,
    Json.storable_map hlevel fun parent _ => .string parent⟩

end TypeDefinition

/-! ## Declarations -/

namespace PropertyDeclaration

/-- `ofNode?` reads a declared property back from what `toJson` wrote. -/
theorem ofNode?_toNode (p : PropertyDeclaration) : ofNode? (toNode p.toJson) = some p := by
  rw [toJson, ofNode?, Json.Record.ofNode?_toNode (by simp)]
  simp only [Json.Record.required?, Json.Record.defaulted?, List.map_cons, List.map_nil,
    List.lookup_cons, String.reduceBEq, Option.bind_eq_bind, Option.bind_some,
    Annotations.ofNode?_toNode]
  simp

/-- A declared property is `Storable` where it has six levels, five of them for its
`annotations`. -/
theorem storable_toJson (p : PropertyDeclaration) {level : Nat}
    (hlevel : level + 5 < depthLimit) : Storable level p.toJson := by
  apply Json.storable_record (by omega) (by simp)
  exact ⟨.string p.name, p.annotations.storable_toJson (by omega)⟩

end PropertyDeclaration

namespace ClassDeclaration

/-- `ofNode?` reads a declared class back from what `toJson` wrote. -/
theorem ofNode?_toNode (c : ClassDeclaration) : ofNode? (toNode c.toJson) = some c := by
  -- The only member of the record that is a list of objects; its items are read back by the lemma
  -- above.
  have hproperties : Json.Node.list? PropertyDeclaration.ofNode?
      (toNode (.array (c.properties.map PropertyDeclaration.toJson))) = some c.properties :=
    Json.list?_toNode fun p _ => PropertyDeclaration.ofNode?_toNode p
  rw [toJson, ofNode?, Json.Record.ofNode?_toNode (by simp)]
  simp only [Json.Record.required?, Json.Record.defaulted?, List.map_cons, List.map_nil,
    List.lookup_cons, String.reduceBEq, Option.bind_eq_bind, Option.bind_some,
    Json.list?_strings, Annotations.ofNode?_toNode, hproperties]
  simp

/-- A declared class is `Storable` where it has eight levels: its `properties` are an array of
objects of six. -/
theorem storable_toJson (c : ClassDeclaration) {level : Nat} (hlevel : level + 7 < depthLimit) :
    Storable level c.toJson := by
  apply Json.storable_record (by omega) (by simp)
  refine ⟨.string c.name, ?_, c.annotations.storable_toJson (by omega), ?_⟩
  · exact Json.storable_map (by omega) fun statement _ => .string statement
  · exact Json.storable_map (by omega) fun p _ => p.storable_toJson (by omega)

end ClassDeclaration

/-! ## Manifests -/

namespace Manifest

/-- A manifest is `Storable` from the top, with ten levels of `depthLimit`. -/
theorem storable_partsToJson (types : List TypeDefinition) (classes : List ClassDeclaration) :
    Storable 0 (partsToJson types classes) := by
  apply Json.storable_record (by decide) (by simp)
  refine ⟨?_, ?_⟩
  · exact Json.storable_map (by decide) fun d _ => d.storable_toJson (by decide)
  · exact Json.storable_map (by decide) fun c _ => c.storable_toJson (by decide)

/-- In any `layout`, `parts?` reads the parts of a manifest that was written. -/
theorem parts?_write (layout : Json.Formatter) (types : List TypeDefinition)
    (classes : List ClassDeclaration) :
    parts? (String.ofList (Json.write layout 0 (partsToJson types classes))) =
      some (types, classes) := by
  have htypes : Json.Node.list? TypeDefinition.ofNode?
      (toNode (.array (types.map TypeDefinition.toJson))) = some types :=
    Json.list?_toNode fun d _ => d.ofNode?_toNode
  have hclasses : Json.Node.list? ClassDeclaration.ofNode?
      (toNode (.array (classes.map ClassDeclaration.toJson))) = some classes :=
    Json.list?_toNode fun c _ => c.ofNode?_toNode
  -- The layout is gone with the text: what is read is the tree of the manifest.
  rw [parts?, Json.ofText?_write layout (storable_partsToJson types classes), partsToJson]
  simp only [Option.bind_eq_bind, Option.bind_some]
  rw [Json.Record.ofNode?_toNode (by simp)]
  simp only [Json.Record.defaulted?, List.map_cons, List.map_nil, List.lookup_cons,
    String.reduceBEq, Option.bind_some, htypes, hclasses]
  rfl

/-- `ofText` at what `partsToJson` wrote comes to the same as `ofParts` of the parts. -/
theorem ofText_write (layout : Json.Formatter) (types : List TypeDefinition)
    (classes : List ClassDeclaration) :
    ofText (String.ofList (Json.write layout 0 (partsToJson types classes))) =
      (ofParts types classes).mapError .registry := by
  rw [ofText, parts?_write]

/-- A manifest of classes with distinct names (`h`) that is written, in any `layout`, is read by
`ofText` with the same types and with every declaration under its name, in the order of the list. It
has the `registry`, or the fault, of the manifest that these types and classes make. -/
theorem ofText_partsToJson (types : List TypeDefinition) {classes : List ClassDeclaration}
    (h : (classes.map (·.name)).Nodup) (layout : Json.Formatter) :
    ∃ read, ofText (String.ofList (Json.write layout 0 (partsToJson types classes))) = .ok read ∧
      read.types = types ∧ read.classes.keys = classes.map (·.name) ∧
      (∀ c ∈ classes, read.classes.get? c.name = some c) ∧
      (∀ name, name ∉ classes.map (·.name) → read.classes.get? name = none) ∧
      ∃ made, ofParts types classes = .ok made ∧ read.registry = made.registry := by
  obtain ⟨m, hm⟩ := exists_ofParts types h
  have htypes : m.types = types := (ofParts_eq_ok_iff.1 hm).2.1
  have hkeys : m.classes.keys = classes.map (·.name) := keys_of_ofParts hm
  refine ⟨m, ?_, htypes, hkeys, fun c hc => get?_of_ofParts hm hc, fun name hname => ?_, m, hm, rfl⟩
  · rw [ofText_write, hm]
    rfl
  · rw [OrderedMap.get?_eq_none_iff, hkeys]
    exact hname

/-- A class with annotations of every shape, `tag` and `method`, and texts that need an escape. -/
def letterClass : ClassDeclaration where
  name := "Post\\Letter"
  imports := ["Post\\Stamp as Mark"]
  annotations := [.tag "since" "\"1\"\n\x07", .method {
    name := "send"
    parameters := OrderedMap.ofList [("to", ⟨some "string|null", true⟩), ("\t", ⟨none, false⟩)]
    isStatic := true }]
  properties := [⟨"stamp", [.var "Mark", .var "§"]⟩, ⟨"", []⟩]

/-- What is known when the interface `Post` is listed and the class is not. -/
def letterTypes : TypeRegistry :=
  ⟨[⟨"Post", .interface, []⟩, ⟨"Post\\Letter", .class, []⟩], by decide⟩

/-- The class is found again after it was written in one line by `render`, and so after
`renderPretty`. -/
theorem ofText_partsToJson_letter :
    ([letterClass, { name := "" }].map (·.name)).Nodup ∧
    (∃ m, ofText (partsToJson [⟨"Post", .interface, []⟩] [letterClass, { name := "" }]).render =
        .ok m ∧
      m.classes.keys = ["Post\\Letter", ""] ∧
      m.classes.get? "Post\\Letter" = some letterClass ∧ m.classes.get? "Post" = none) ∧
    ∃ m, ofText (partsToJson [⟨"Post", .interface, []⟩] [letterClass]).renderPretty = .ok m ∧
      m.registry = .ok letterTypes := by
  have hboth : ([letterClass, { name := "" }].map (·.name)).Nodup := by decide
  have hone : ([letterClass].map (·.name)).Nodup := by decide
  refine ⟨hboth, ?_, ?_⟩
  · obtain ⟨m, hm, -, hkeys, hfound, hnew, -⟩ :=
      ofText_partsToJson [⟨"Post", .interface, []⟩] hboth .compact
    exact ⟨m, hm, hkeys, hfound _ List.mem_cons_self, hnew "Post" (by decide)⟩
  · obtain ⟨m, hm, -, -, -, -, made, hmade, hregistry⟩ :=
      ofText_partsToJson [⟨"Post", .interface, []⟩] hone .pretty
    refine ⟨m, hm, hregistry.trans ?_⟩
    have hparts : ofParts [⟨"Post", .interface, []⟩] [letterClass] =
        .ok ⟨[⟨"Post", .interface, []⟩], ⟨[("Post\\Letter", letterClass)], by decide⟩⟩ := by rfl
    obtain rfl := Except.ok.inj (hmade.symm.trans hparts)
    have hbuild : TypeRegistry.build letterTypes.definitions = .ok letterTypes := by cbv
    exact hbuild

end Manifest

end DocTypes

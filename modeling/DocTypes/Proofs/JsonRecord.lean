import DocTypes.Descriptor.Json
import DocTypes.Proofs.JsonText
import Mathlib.Data.List.Nodup

/-!
# Reading records that were written

Every type of the library that `toJson` writes in JSON is read back by its `ofNode?` from the tree
of what was written. What a reader of a field takes back, the readers of lists, maps and fields that
may be empty take back (`list?_toNode`, `map?_toNode`, `nullable?_toNode`), and records follow field
by field.
-/

namespace DocTypes

namespace Json

open Node (list? map? nullable? string? bool?)

variable {α : Type} {read : Node → Option α} {write : α → Json}

/-- A text that was written is read back by `string?`. -/
@[simp] theorem string?_toNode (s : String) : string? (toNode (.string s)) = some s := by
  rw [toNode, string?]

/-- A truth value that was written is read back by `bool?`. -/
@[simp] theorem bool?_toNode (b : Bool) : bool? (toNode (.bool b)) = some b := by
  rw [toNode, bool?]

/-- A list that was written is read back by `list?`, if `read` takes back what `write` does to its
items. -/
theorem list?_toNode {l : List α} (h : ∀ a ∈ l, read (toNode (write a)) = some a) :
    list? read (toNode (.array (l.map write))) = some l := by
  rw [toNode, list?, List.map_map]
  exact mapM_map_eq_some h

/-- A list of texts that was written is read back by `list?`. -/
theorem list?_strings (texts : List String) :
    list? string? (toNode (.array (texts.map .string))) = some texts :=
  list?_toNode fun s _ => string?_toNode s

/-- A map that was written is read back by `map?`, in order, if `read` takes back what `write` does
to its values. -/
theorem map?_toNode {m : OrderedMap String α}
    (h : ∀ e ∈ m.entries, read (toNode (write e.2)) = some e.2) :
    map? read (toNode (.object (m.mapValues write).entries)) = some m := by
  have hentries : (m.entries.map fun e => (e.1, toNode (write e.2))).mapM
      (fun e => (read e.2).map fun v => (e.1, v)) = some m.entries := by
    apply mapM_map_eq_some
    intro e he
    rw [h e he]
    rfl
  rw [toNode, OrderedMap.mapValues, map?, List.map_map]
  -- With the trees of the values in place, `map?` maps `read` over the entries.
  show Option.map OrderedMap.ofList ((m.entries.map fun e => (e.1, toNode (write e.2))).mapM
    fun e => (read e.2).map fun v => (e.1, v)) = some m
  rw [hentries, Option.map_some, OrderedMap.ofList_entries]

/-- What may be empty is read back by `nullable?`, if it is not written like nothing (`hnull`). -/
theorem nullable?_toNode {o : Option α} (h : ∀ a, read (toNode (write a)) = some a)
    (hnull : ∀ a, toNode (write a) ≠ .null) :
    nullable? read (toNode (o.elim .null write)) = some o := by
  cases o with
  | none => rw [Option.elim_none, toNode, nullable?]
  | some a =>
    rw [Option.elim_some, nullable?, h a, Option.map_some]
    exact hnull a

/-- A text that may be missing, as `ofOptionString` writes it, is read back. -/
theorem nullable?_ofOptionString (o : Option String) :
    nullable? string? (toNode (ofOptionString o)) = some o := by
  apply nullable?_toNode string?_toNode
  intro s h
  rw [toNode] at h
  cases h

/-- Among distinct keys (`h`) no field is given twice by `hasRepeated`. -/
theorem Record.hasRepeated_eq_false {names : List String} {members : List (String × Node)}
    (h : (members.map Prod.fst).Nodup) : Record.hasRepeated names members = false := by
  unfold Record.hasRepeated
  rw [List.any_eq_false]
  intro name _
  have hcount : (members.filter (·.1 == name)).length = (members.map Prod.fst).count name := by
    rw [← List.countP_eq_length_filter, List.count, List.countP_map]
    rfl
  have hle : (members.map Prod.fst).count name ≤ 1 := List.nodup_iff_count_le_one.1 h name
  rw [hcount, decide_eq_true_eq]
  omega

/-- A record that was written with distinct keys is found by `Record.ofNode?` with its fields. -/
theorem Record.ofNode?_toNode {names : List String} {members : List (String × Json)}
    (h : (members.map Prod.fst).Nodup) :
    Record.ofNode? names (toNode (.object members)) =
      some ⟨members.map fun m => (m.1, toNode m.2), true⟩ := by
  have hkeys : ((members.map fun m => (m.1, toNode m.2)).map Prod.fst).Nodup := by
    rwa [List.map_map]
  rw [toNode, Record.ofNode?, hasRepeated_eq_false hkeys]
  rfl

end Json

namespace TypeTerm

open Json (toNode)

/-- A term that `toJson` writes with a value is read by its kind, with `ofKind?`. -/
theorem ofNode?_tagged (kind : Kind) (value : Json) :
    ofNode? (toNode (toJson.tagged kind value)) false =
      ofKind? kind (some (toNode value)) false fun _ => ofNode? (toNode value) false := by
  rw [toJson.tagged, toNode]
  simp [ofNode?, Json.Record.hasRepeated, kindField, valueField, valueIsFirst, Kind.ofMember?,
    toNode, Json.Node.keyword?, Kind.ofKeyword?_keyword, elementOf?, List.lookup_cons]

/-- A term that `toJson` writes without a value is read by its kind, with `ofKind?`. -/
theorem ofNode?_bare (kind : Kind) :
    ofNode? (toNode (.object [(kindField, .string kind.keyword)])) false =
      ofKind? kind none false fun _ => none := by
  rw [toNode]
  simp [ofNode?, Json.Record.hasRepeated, kindField, valueField, valueIsFirst, Kind.ofMember?,
    toNode, Json.Node.keyword?, Kind.ofKeyword?_keyword, elementOf?, List.lookup_cons]

/-- A term that `toJson` wrote is read back by `ofNode?`. -/
theorem ofNode?_toNode (t : TypeTerm) : ofNode? (toNode t.toJson) false = some t := by
  induction t with
  | primitive kind =>
    rw [toJson, ofNode?_tagged, toNode]
    simp [ofKind?, Json.Node.keyword?, PrimitiveKind.ofKeyword?_keyword]
  | classRef name =>
    rw [toJson, ofNode?_tagged, toNode]
    rfl
  | selfRef =>
    rw [toJson, ofNode?_bare]
    rfl
  | thisRef =>
    rw [toJson, ofNode?_bare]
    rfl
  | arrayOf element ih =>
    rw [toJson, ofNode?_tagged, ofKind?, ih]
    rfl
  | unhandled word =>
    rw [toJson, ofNode?_tagged, toNode]
    rfl

end TypeTerm

namespace TypeDeclaration

open Json (toNode)

/-- A declaration that `toJson` wrote is read back by `ofNode?`. -/
theorem ofNode?_toNode (d : TypeDeclaration) : ofNode? (toNode d.toJson) = some d := by
  rw [toJson, ofNode?, Json.list?_toNode fun t _ => TypeTerm.ofNode?_toNode t, Option.bind_some,
    ofTerms?, dif_neg d.terms_ne_nil]

/-- A declaration that may be missing, as `optionToJson` writes it, is read back. -/
theorem nullable?_optionToJson (d : Option TypeDeclaration) :
    Json.Node.nullable? ofNode? (toNode (optionToJson d)) = some d := by
  apply Json.nullable?_toNode ofNode?_toNode
  intro d h
  rw [toJson, toNode] at h
  cases h

end TypeDeclaration

namespace ParameterAnnotation

open Json (toNode)

/-- A parameter that `toJson` wrote is read back by `ofNode?`. -/
theorem ofNode?_toNode (p : ParameterAnnotation) : ofNode? (toNode p.toJson) = some p := by
  rw [toJson, ofNode?, Json.Record.ofNode?_toNode (by simp)]
  simp [Json.Record.defaulted?, List.lookup_cons, Json.nullable?_ofOptionString]

end ParameterAnnotation

namespace MethodAnnotation

open Json (toNode)

/-- A virtual method that `toJson` wrote is read back by `ofNode?`. -/
theorem ofNode?_toNode (m : MethodAnnotation) : ofNode? (toNode m.toJson) = some m := by
  have hparameters : Json.Node.map? ParameterAnnotation.ofNode?
      (toNode (.object (m.parameters.mapValues ParameterAnnotation.toJson).entries)) =
        some m.parameters :=
    Json.map?_toNode fun e _ => ParameterAnnotation.ofNode?_toNode e.2
  rw [toJson, ofNode?, Json.Record.ofNode?_toNode (by simp)]
  simp only [Json.Record.required?, Json.Record.defaulted?, List.map_cons, List.map_nil,
    List.lookup_cons, String.reduceBEq, Option.bind_eq_bind, Option.bind_some, hparameters,
    Json.nullable?_ofOptionString]
  simp

end MethodAnnotation

namespace Annotation

open Json (toNode)

/-- An annotation that `toJson` wrote is read back by `ofNode?`. -/
theorem ofNode?_toNode (a : Annotation) : ofNode? (toNode a.toJson) = some a := by
  cases a with
  | var type =>
    rw [toJson, toNode, List.map_cons, List.map_nil, ofNode?, Json.Record.ofNode?_toNode (by simp)]
    simp [Json.Record.required?]
  | method m =>
    rw [toJson, toNode, List.map_cons, List.map_nil, ofNode?, MethodAnnotation.ofNode?_toNode]
    rfl
  | tag name arguments =>
    rw [toJson, toNode, List.map_cons, List.map_nil, ofNode?, Json.Record.ofNode?_toNode (by simp)]
    simp [Json.Record.required?, Json.Record.defaulted?, List.lookup_cons]

end Annotation

/-- Annotations that `toJson` wrote are read back by `ofNode?`. -/
theorem Annotations.ofNode?_toNode (a : Annotations) :
    Annotations.ofNode? (Json.toNode a.toJson) = some a := by
  rw [Annotations.toJson, Annotations.ofNode?]
  exact Json.list?_toNode fun b _ => Annotation.ofNode?_toNode b

namespace PropertyDescriptor

open Json (toNode)

/-- A property that `toJson` wrote is read back by `ofNode?`. -/
theorem ofNode?_toNode (p : PropertyDescriptor) : ofNode? (toNode p.toJson) = some p := by
  rw [toJson, ofNode?, Json.Record.ofNode?_toNode (by simp)]
  simp only [Json.Record.required?, Json.Record.defaulted?, Json.Record.optional?, List.map_cons,
    List.map_nil, List.lookup_cons, String.reduceBEq, Option.bind_eq_bind, Option.bind_some,
    Annotations.ofNode?_toNode, TypeDeclaration.nullable?_optionToJson]
  simp

end PropertyDescriptor

namespace MethodDescriptor

open Json (toNode)

/-- A virtual method that `toJson` wrote is read back by `ofNode?`. -/
theorem ofNode?_toNode (m : MethodDescriptor) : ofNode? (toNode m.toJson) = some m := by
  have hparameters : Json.Node.map? (Json.Node.nullable? TypeDeclaration.ofNode?)
      (toNode (.object (m.parameters.mapValues TypeDeclaration.optionToJson).entries)) =
        some m.parameters :=
    Json.map?_toNode fun e _ => TypeDeclaration.nullable?_optionToJson e.2
  rw [toJson, ofNode?, Json.Record.ofNode?_toNode (by simp)]
  simp only [Json.Record.required?, Json.Record.optional?, List.map_cons,
    List.map_nil, List.lookup_cons, String.reduceBEq, Option.bind_eq_bind, Option.bind_some,
    hparameters, TypeDeclaration.nullable?_optionToJson]
  simp

end MethodDescriptor

namespace ClassDescriptor

open Json (toNode)

/-- A descriptor that `toJson` wrote is read back by `ofNode?`, if its features are (`h`). -/
theorem ofNode?_toNode {d : ClassDescriptor}
    (h : ∀ e ∈ d.features.entries, Json.Node.json? (toNode e.2) = some e.2) :
    ofNode? (toNode d.toJson) = some d := by
  have himports : Json.Node.map? Json.Node.string? (toNode (ImportTable.toJson d.imports)) =
      some d.imports :=
    Json.map?_toNode fun e _ => Json.string?_toNode e.2
  have hproperties : Json.Node.map? PropertyDescriptor.ofNode?
      (toNode (.object (d.properties.mapValues PropertyDescriptor.toJson).entries)) =
        some d.properties :=
    Json.map?_toNode fun e _ => PropertyDescriptor.ofNode?_toNode e.2
  have hmethods : Json.Node.map? MethodDescriptor.ofNode?
      (toNode (.object (d.methods.mapValues MethodDescriptor.toJson).entries)) = some d.methods :=
    Json.map?_toNode fun e _ => MethodDescriptor.ofNode?_toNode e.2
  have hfeatures : Json.Node.map? Json.Node.json? (toNode (.object d.features.entries)) =
      some d.features := by
    have hmap : Json.Node.map? Json.Node.json?
        (toNode (.object (d.features.mapValues id).entries)) = some d.features :=
      Json.map?_toNode h
    rwa [OrderedMap.mapValues_id] at hmap
  -- Each field is now found by its name, and read back as above.
  rw [toJson, ofNode?, Json.Record.ofNode?_toNode (by simp)]
  simp only [Json.Record.required?, Json.Record.defaulted?, List.map_cons, List.map_nil,
    List.lookup_cons, String.reduceBEq, Option.bind_eq_bind, Option.bind_some, himports,
    Annotations.ofNode?_toNode, hproperties, hmethods, hfeatures]
  simp

end ClassDescriptor

/-! ### Where records are storable -/

open Json (Storable depthLimit)

/-- A text that may be missing, as `ofOptionString` writes it, is `Storable`. -/
theorem Json.storable_ofOptionString (level : Nat) (o : Option String) :
    Storable level (.ofOptionString o) := by
  cases o with
  | none => exact .null
  | some s => exact .string s

/-- A list is `Storable` one level above its items. -/
theorem Json.storable_map {α : Type} {write : α → Json} {l : List α} {level : Nat}
    (hlevel : level < depthLimit) (h : ∀ a ∈ l, Storable (level + 1) (write a)) :
    Storable level (.array (l.map write)) := by
  refine .array hlevel ?_
  intro j hj
  obtain ⟨a, ha, rfl⟩ := List.mem_map.1 hj
  exact h a ha

/-- A map is `Storable` one level above its values. -/
theorem OrderedMap.storable_mapValues {α : Type} {write : α → Json} {m : OrderedMap String α}
    {level : Nat} (hlevel : level < depthLimit)
    (h : ∀ e ∈ m.entries, Storable (level + 1) (write e.2)) :
    Storable level (.object (m.mapValues write).entries) := by
  refine .object hlevel ?_ (m.mapValues write).nodup_keys
  intro e he
  obtain ⟨d, hd, rfl⟩ := List.mem_map.1 he
  exact h d hd

/-- A record with distinct keys (`hkeys`) is `Storable` one level above its fields. -/
theorem Json.storable_record {members : List (String × Json)} {level : Nat}
    (hlevel : level < depthLimit) (hkeys : (members.map Prod.fst).Nodup)
    (h : members.Forall fun m => Storable (level + 1) m.2) : Storable level (.object members) :=
  .object hlevel (List.forall_iff_forall_mem.1 h) hkeys

/-- A declaration is `Storable` one level above its terms. -/
theorem TypeDeclaration.storable_toJson {d : TypeDeclaration} {level : Nat}
    (hlevel : level < depthLimit) (h : ∀ t ∈ d.terms, Storable (level + 1) t.toJson) :
    Storable level d.toJson := Json.storable_map hlevel h

/-- A parameter is `Storable` where it has two levels. -/
theorem ParameterAnnotation.storable_toJson (p : ParameterAnnotation) {level : Nat}
    (hlevel : level < depthLimit) : Storable level p.toJson := by
  apply Json.storable_record hlevel (by simp)
  exact ⟨Json.storable_ofOptionString _ p.type, .bool p.hasDefault⟩

/-- A virtual method is `Storable` where it has three levels. -/
theorem MethodAnnotation.storable_toJson (m : MethodAnnotation) {level : Nat}
    (hlevel : level + 2 < depthLimit) : Storable level m.toJson := by
  apply Json.storable_record (by omega) (by simp)
  refine ⟨.string m.name, ?_, Json.storable_ofOptionString _ m.returnType, .bool m.isStatic⟩
  exact OrderedMap.storable_mapValues (by omega) fun e _ => e.2.storable_toJson hlevel

/-- An annotation is `Storable` where it has four levels. -/
theorem Annotation.storable_toJson (a : Annotation) {level : Nat}
    (hlevel : level + 3 < depthLimit) : Storable level a.toJson := by
  cases a with
  | var type =>
    apply Json.storable_record (by omega) (by simp)
    exact Json.storable_record (by omega) (by simp) (.string type)
  | method m =>
    apply Json.storable_record (by omega) (by simp)
    exact m.storable_toJson (by omega)
  | tag name arguments =>
    apply Json.storable_record (by omega) (by simp)
    exact Json.storable_record (by omega) (by simp) ⟨.string name, .string arguments⟩

/-- Annotations are `Storable` where they have five levels. -/
theorem Annotations.storable_toJson (a : Annotations) {level : Nat}
    (hlevel : level + 4 < depthLimit) : Storable level a.toJson :=
  Json.storable_map (by omega) fun b _ => b.storable_toJson (by omega)

end DocTypes

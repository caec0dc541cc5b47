import DocTypes.Proofs.Hierarchy

/-!
# Single inheritance

A hierarchy follows one way up: from each type to the first class among its parents, which is all
that `hierarchy_for_class` asks for. So it has no class that lies behind a second class, or behind
an interface (`mixed`). Where no type has two classes among its parents and interfaces have none,
parent classes lead to all classes above a type (`SingleInheritance.transGen_parentClass_iff`), and
a hierarchy has all of them that are declared (`mem_hierarchy_iff`).
-/

namespace DocTypes

open Relation (TransGen)

namespace TypeRegistry

variable {r : TypeRegistry} {child parent name target : String}

/-- In `r` there is one class at most among the parents of a class, and none among those of an
interface. -/
structure SingleInheritance (r : TypeRegistry) : Prop where
  unique : ∀ d ∈ r.definitions, ∀ p ∈ d.parents, ∀ q ∈ d.parents,
    r.isClass p = true → r.isClass q = true → p = q
  kind_eq : ∀ d ∈ r.definitions, ∀ p ∈ d.parents, r.isClass p = true → d.kind = .class

/-- A type that is defined with the kind `class` is one by `isClass`. -/
theorem isClass_of_mem {d : TypeDefinition} (hd : d ∈ r.definitions) (hkind : d.kind = .class) :
    r.isClass d.name = true := by
  have hget : r.get? d.name = some d := get?_eq_some_iff.2 ⟨hd, rfl⟩
  simp [isClass, kind?, hget, hkind]

/-- A `ParentClass` is a class. -/
theorem ParentClass.isClass (h : r.ParentClass child parent) : r.isClass parent = true :=
  List.find?_some (p := r.isClass) h

/-- What `ParentClass` leads to is a class, since the last step does. -/
theorem isClass_of_transGen_parentClass (h : TransGen r.ParentClass name target) :
    r.isClass target = true := by
  obtain ⟨child, -, hlast⟩ := Relation.TransGen.tail'_iff.1 h
  exact hlast.isClass

/-- Under `SingleInheritance` the parent class is the only class among the parents. -/
theorem SingleInheritance.parentClass_of_extends (hs : r.SingleInheritance)
    (h : Extends r.definitions child parent) (hclass : r.isClass parent = true) :
    r.ParentClass child parent := by
  obtain ⟨d, hd, rfl, hparent⟩ := h
  have hget : r.get? d.name = some d := get?_eq_some_iff.2 ⟨hd, rfl⟩
  have hparents : r.parents d.name = d.parents := by
    simp [parents, hget]
  obtain ⟨found, hfound⟩ : ∃ found, r.parentClass? d.name = some found := by
    rw [← Option.isSome_iff_exists, parentClass?, hparents, List.find?_isSome]
    exact ⟨parent, hparent, hclass⟩
  have hmem : found ∈ d.parents := hparents ▸ List.mem_of_find?_eq_some hfound
  -- The parent that `parentClass?` finds is a class among the parents, as `parent` is.
  obtain rfl : found = parent :=
    hs.unique d hd found hmem parent hparent (ParentClass.isClass hfound) hclass
  exact hfound

/-- Under `SingleInheritance` the steps of `ParentClass` lead to all classes above a type. -/
theorem SingleInheritance.transGen_parentClass_iff (hs : r.SingleInheritance) :
    TransGen r.ParentClass name target ↔
      TransGen (Extends r.definitions) name target ∧ r.isClass target = true := by
  constructor
  · intro h
    exact ⟨transGen_extends_of_parentClass h, isClass_of_transGen_parentClass h⟩
  · rintro ⟨h, hclass⟩
    induction h with
    | single hextends => exact .single (hs.parentClass_of_extends hextends hclass)
    | @tail child target _ hextends ih =>
      -- Whoever extends a class is a class, so all types on the way are.
      have hchild : r.isClass child = true := by
        obtain ⟨d, hd, rfl, hparent⟩ := hextends
        exact isClass_of_mem hd (hs.kind_eq d hd target hparent hclass)
      exact .tail (ih hchild) (hs.parentClass_of_extends hextends hclass)

end TypeRegistry

namespace MetadataFactory

variable {f : MetadataFactory} {className target : String} {definitions types : List TypeDefinition}
  {classes : List ClassDeclaration}

/-- The class `target` is declared, and an ancestor of `className`. -/
structure IsAncestorClass (f : MetadataFactory) (className target : String) : Prop where
  ancestor : target ∈ f.registry.ancestors className
  isClass : f.registry.isClass target = true
  declared : f.source.contains target = true

/-- What is `InLineage` is the class itself or one of its ancestors. -/
theorem InLineage.eq_or_isAncestorClass
    (hr : TypeRegistry.build definitions = .ok f.registry) (h : f.InLineage className target) :
    target = className ∨ f.IsAncestorClass className target := by
  rcases Relation.reflTransGen_iff_eq_or_transGen.1 h.above with rfl | hreach
  · exact .inl rfl
  · exact .inr ⟨TypeRegistry.mem_ancestors_of_parentClass hr hreach,
      TypeRegistry.isClass_of_transGen_parentClass hreach, h.declared⟩

/-- Under `SingleInheritance` every declared ancestor is `InLineage`. -/
theorem IsAncestorClass.inLineage (hr : TypeRegistry.build definitions = .ok f.registry)
    (hs : f.registry.SingleInheritance) (h : f.IsAncestorClass className target) :
    f.InLineage className target := by
  have hextends : TransGen (Extends f.registry.definitions) className target :=
    (TypeRegistry.definitions_of_build hr).symm ▸
      (TypeRegistry.mem_ancestors_of_build hr).1 h.ancestor
  exact ⟨(hs.transGen_parentClass_iff.2 ⟨hextends, h.isClass⟩).to_reflTransGen, h.declared⟩

/-- Take a factory for the classes of a manifest, with a registry that was built. What `hierarchy`
answers for a class are the declared classes on the way up through parent classes. They are the
class itself and some of its declared ancestors, and under `SingleInheritance` all of them. -/
theorem mem_hierarchy_iff
    (hsource : Manifest.ofParts types classes = .ok ⟨types, f.source⟩)
    (hr : TypeRegistry.build definitions = .ok f.registry) {history : List Request}
    {answer : List SharedDescriptor}
    (h : (f.hierarchy className (f.cacheAfter history)).1 = .ok answer) :
    (∀ n, n ∈ answer.map (·.descriptor.name) ↔ f.InLineage className n) ∧
    (∀ n ∈ answer.map (·.descriptor.name), n = className ∨ f.IsAncestorClass className n) ∧
    (f.registry.SingleInheritance → ∀ n, n ∈ answer.map (·.descriptor.name) ↔
      n = className ∨ f.IsAncestorClass className n) := by
  have hmem : ∀ n, n ∈ answer.map (·.descriptor.name) ↔ f.InLineage className n := by
    intro n
    rw [(f.valid_cacheAfter history).map_name_hierarchy hsource h]
    exact mem_lineage_iff hr
  have hsome : ∀ n ∈ answer.map (·.descriptor.name),
      n = className ∨ f.IsAncestorClass className n := fun n hn =>
    ((hmem n).1 hn).eq_or_isAncestorClass hr
  -- Only the last part needs single inheritance: an ancestor may lie off the way up without it.
  refine ⟨hmem, hsome, fun hs n => ⟨hsome n, ?_⟩⟩
  rintro (rfl | hancestor)
  · exact (hmem n).2 ⟨.refl, declared_of_hierarchy h⟩
  · exact (hmem n).2 (hancestor.inLineage hr hs)

/-- Among the classes of `stock` there is single inheritance, and a hierarchy goes up to the
root. -/
theorem mem_hierarchy_iff_stock :
    Manifest.ofParts [] stockClasses = .ok ⟨[], stock.source⟩ ∧
    TypeRegistry.build stockTypes.definitions = .ok stock.registry ∧
    stock.registry.SingleInheritance ∧
    ∃ answer, (stock.hierarchy "Book" (stock.cacheAfter [])).1 = .ok answer ∧
      stock.IsAncestorClass "Book" "Item" ∧ "Item" ∈ answer.map (·.descriptor.name) := by
  have hsource : Manifest.ofParts [] stockClasses = .ok ⟨[], stock.source⟩ := by rfl
  have hregistry : TypeRegistry.build stockTypes.definitions = .ok stockTypes := by cbv
  have hsingle : stock.registry.SingleInheritance := ⟨by decide, by decide⟩
  have hancestor : stock.IsAncestorClass "Book" "Item" := by
    refine ⟨(TypeRegistry.mem_ancestors_of_build hregistry).2 ?_, by decide, by decide⟩
    exact .head (b := "Paper") ⟨⟨"Book", .class, ["Paper"]⟩, by decide, rfl, by decide⟩
      (.single ⟨⟨"Paper", .class, ["Item"]⟩, by decide, rfl, by decide⟩)
  obtain ⟨answer, h⟩ : ∃ answer,
      (stock.hierarchy "Book" (stock.cacheAfter [])).1 = .ok answer := ⟨_, by rfl⟩
  obtain ⟨-, -, hall⟩ := mem_hierarchy_iff hsource hregistry h
  exact ⟨hsource, hregistry, hsingle, answer, h, hancestor,
    (hall hsingle "Item").2 (.inr hancestor)⟩

/-- A class with two parents that are classes. -/
def mixedTypes : TypeRegistry where
  definitions := [
    { name := "A", kind := .class },
    { name := "B", kind := .class },
    { name := "Child", kind := .class, parents := ["A", "B"] }]
  nodup_names := by decide

/-- A factory for the class `Child` and for its second parent, `B`. -/
def mixed : MetadataFactory where
  source := OrderedMap.ofList [("B", { name := "B" }), ("Child", { name := "Child" })]
  registry := mixedTypes
  analyzers := []

/-- The declared class `B` is an ancestor, but the hierarchy goes up through `A`, the other one. -/
theorem exists_isAncestorClass_notMem_hierarchy :
    Manifest.ofParts [] [{ name := "B" }, { name := "Child" }] = .ok ⟨[], mixed.source⟩ ∧
    TypeRegistry.build mixedTypes.definitions = .ok mixed.registry ∧
    ∃ answer, (mixed.hierarchy "Child" (mixed.cacheAfter [])).1 = .ok answer ∧
      mixed.IsAncestorClass "Child" "B" ∧ "B" ∉ answer.map (·.descriptor.name) := by
  have hregistry : TypeRegistry.build mixedTypes.definitions = .ok mixedTypes := by cbv
  have hancestor : mixed.IsAncestorClass "Child" "B" := by
    refine ⟨(TypeRegistry.mem_ancestors_of_build hregistry).2 ?_, by decide, by decide⟩
    exact .single ⟨⟨"Child", .class, ["A", "B"]⟩, by decide, rfl, by decide⟩
  obtain ⟨answer, h, hnames⟩ : ∃ answer,
      (mixed.hierarchy "Child" (mixed.cacheAfter [])).1 = .ok answer ∧
      answer.map (·.descriptor.name) = ["Child"] := ⟨_, by rfl, by rfl⟩
  refine ⟨by rfl, hregistry, answer, h, hancestor, ?_⟩
  rw [hnames]
  decide

end MetadataFactory

end DocTypes

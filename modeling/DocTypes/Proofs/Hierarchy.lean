import DocTypes.Proofs.CacheRuns
import DocTypes.Proofs.FirstFault

/-!
# The hierarchy of a class

A request by `hierarchy_for_class` goes up from the class through parent classes, keeps those that
are declared, and asks for the descriptor of each, the root first. In a registry that was built the
way up ends, and every step leads to a proper supertype, so the classes of an answer are in the
order of subtyping (`Valid.isHierarchy_of_hierarchy`). As the classes are asked for from the root
on, a request that fails does so with the error of the root-most class that cannot be built
(`firstFault_lineage_iff`). The main statement is `hierarchy_outcome`.
-/

namespace DocTypes

open Relation (ReflTransGen TransGen)

/-- Without definitions, `build` gives the empty registry. -/
theorem TypeRegistry.build_nil : build [] = .ok ∅ := by
  cbv

namespace MetadataFactory

variable {f : MetadataFactory} {cache : DescriptorCache} {className : String} {first : Nat}
  {e : MetadataError} {answer : List SharedDescriptor}

/-! ## The classes that are asked for -/

/-- The declared classes in the `parentChain` of a class, the root first. A hierarchy is asked for
from the front. -/
def lineage (f : MetadataFactory) (className : String) : List String :=
  (f.registry.parentChain className).reverse.filter f.source.contains

/-- The class `target` is `className` or lies above it, by way of `ParentClass`, and is declared. -/
structure InLineage (f : MetadataFactory) (className target : String) : Prop where
  above : ReflTransGen f.registry.ParentClass className target
  declared : f.source.contains target = true

section Built

variable {definitions : List TypeDefinition}
  (hr : TypeRegistry.build definitions = .ok f.registry)
include hr

/-- In `lineage` stand the classes that are `InLineage`. -/
theorem mem_lineage_iff {target : String} :
    target ∈ f.lineage className ↔ f.InLineage className target := by
  unfold lineage
  rw [List.mem_filter, List.mem_reverse, (TypeRegistry.isChain_parentChain hr).mem_iff]
  exact ⟨fun h => ⟨h.1, h.2⟩, fun h => ⟨h.above, h.declared⟩⟩

/-- No class stands twice in `lineage`. -/
theorem nodup_lineage : (f.lineage className).Nodup :=
  (List.nodup_reverse.2 (TypeRegistry.isChain_parentChain hr |>.nodup hr)).filter _

/-- In `lineage` each class is a subtype of those in front of it. -/
theorem pairwise_lineage : (f.lineage className).Pairwise
    fun upper lower => f.registry.isSubtype lower upper = true := by
  have hchain : (f.registry.parentChain className).Pairwise
      fun lower upper => f.registry.isSubtype lower upper = true := by
    refine (TypeRegistry.isChain_parentChain hr).pairwise.imp fun hreach => ?_
    have hancestor := TypeRegistry.mem_ancestors_of_parentClass hr hreach
    simp [TypeRegistry.isSubtype, hancestor]
  exact (List.pairwise_reverse.2 hchain).filter _

/-- A declared class (`hdeclared`) is the last one of its own `lineage`. -/
theorem getLast?_lineage (hdeclared : f.source.contains className = true) :
    (f.lineage className).getLast? = some className := by
  obtain ⟨above, habove⟩ : ∃ above, f.registry.parentChain className = className :: above :=
    List.head?_eq_some_iff.1 (TypeRegistry.isChain_parentChain hr).head?_eq
  have hlineage : f.lineage className = above.reverse.filter f.source.contains ++ [className] := by
    rw [lineage, habove, List.reverse_cons, List.filter_append, List.filter_singleton,
      hdeclared]
    rfl
  rw [hlineage, List.getLast?_concat]

end Built

/-! ## What is answered -/

/-- What `metadataAll` answers for several classes is what `f.build` makes for them, up to the first
failure. -/
theorem Valid.map_metadataAll {classNames : List String} (hv : f.Valid first cache) :
    (f.metadataAll classNames cache).1.map (List.map SharedDescriptor.descriptor) =
      classNames.mapM f.build := by
  -- The cache grows with each class, so it is left free.
  induction classNames generalizing cache with
  | nil => rfl
  | cons className rest ih =>
    have hclass : (f.metadata className cache).1.map SharedDescriptor.descriptor =
        f.build className := hv.map_metadata
    have hrest := ih (hv.of_stores (f.stores_metadata className cache))
    -- The rest is answered with the cache behind the first class, which is valid too.
    rw [List.mapM_cons, ← hclass, ← hrest]
    cases hanswer : (f.metadata className cache).1 with
    | error e =>
      rw [metadataAll_cons_of_error hanswer]
      rfl
    | ok s =>
      rw [metadataAll_cons_of_ok hanswer]
      cases (f.metadataAll rest (f.metadata className cache).2).1 <;> rfl

/-- What `hierarchy` answers for a declared class is what `f.build` makes for its `lineage`. -/
theorem Valid.map_hierarchy (hv : f.Valid first cache)
    (hdeclared : f.source.contains className = true) :
    (f.hierarchy className cache).1.map (List.map SharedDescriptor.descriptor) =
      (f.lineage className).mapM f.build := by
  rw [hierarchy, if_pos hdeclared]
  exact hv.map_metadataAll

/-- `hierarchy` answers declared classes only. -/
theorem declared_of_hierarchy (h : (f.hierarchy className cache).1 = .ok answer) :
    f.source.contains className = true := by
  unfold hierarchy at h
  split at h
  · assumption
  · cases h

/-- The descriptors of an answer are what `f.build` makes for the `lineage`. -/
theorem Valid.forall₂_build (hv : f.Valid first cache)
    (h : (f.hierarchy className cache).1 = .ok answer) :
    List.Forall₂ (fun n s => f.build n = .ok s.descriptor) (f.lineage className) answer := by
  have hmap := hv.map_hierarchy (declared_of_hierarchy h)
  rw [h] at hmap
  have hbuilds := mapM_eq_ok_iff.1 hmap.symm
  rwa [List.forall₂_map_right_iff] at hbuilds

/-- The names of an answer are the `lineage`. -/
theorem Valid.map_name_hierarchy {types : List TypeDefinition} {classes : List ClassDeclaration}
    (hsource : Manifest.ofParts types classes = .ok ⟨types, f.source⟩) (hv : f.Valid first cache)
    (h : (f.hierarchy className cache).1 = .ok answer) :
    answer.map (·.descriptor.name) = f.lineage className := by
  have hnames : List.Forall₂ (fun n s => n = s.descriptor.name) (f.lineage className) answer :=
    (hv.forall₂_build h).imp fun n s hbuild => (name_of_build hsource hbuild).symm
  exact (List.forall₂_eq_eq_eq ▸ List.forall₂_map_right_iff.2 hnames : _ = _).symm

/-- An answer for the hierarchy of `className`: the class and declared classes above it, no two of
one name, each a subtype of those in front of it, and each with the descriptor that a request for
the class itself is answered with, at whatever time. -/
structure IsHierarchy (f : MetadataFactory) (className : String) (answer : List SharedDescriptor) :
    Prop where
  nodup : (answer.map (·.descriptor.name)).Nodup
  declared : ∀ s ∈ answer, f.source.contains s.descriptor.name = true
  last : answer.getLast?.map (·.descriptor.name) = some className
  subtypes : answer.Pairwise fun upper lower =>
    f.registry.isSubtype lower.descriptor.name upper.descriptor.name = true
  answered : ∀ s ∈ answer, ∀ history,
    (f.metadata s.descriptor.name (f.cacheAfter history)).1.map SharedDescriptor.descriptor =
      .ok s.descriptor

/-- What `hierarchy` answers `IsHierarchy`: in a registry that was built (`hr`) this is what is
known of `lineage`. -/
theorem Valid.isHierarchy_of_hierarchy {definitions types : List TypeDefinition}
    {classes : List ClassDeclaration}
    (hsource : Manifest.ofParts types classes = .ok ⟨types, f.source⟩)
    (hr : TypeRegistry.build definitions = .ok f.registry) (hv : f.Valid first cache)
    (h : (f.hierarchy className cache).1 = .ok answer) : f.IsHierarchy className answer := by
  have hdeclared : f.source.contains className = true := declared_of_hierarchy h
  have hnames : answer.map (·.descriptor.name) = f.lineage className :=
    hv.map_name_hierarchy hsource h
  have hmem : ∀ s ∈ answer, s.descriptor.name ∈ f.lineage className := fun s hs =>
    hnames ▸ List.mem_map_of_mem hs
  -- The names are the lineage, so each field is a fact about the lineage; the last one rests on the
  -- cache.
  refine ⟨?_, ?_, ?_, ?_, ?_⟩
  · rw [hnames]
    exact nodup_lineage hr
  · intro s hs
    exact ((mem_lineage_iff hr).1 (hmem s hs)).declared
  · rw [← List.getLast?_map, hnames]
    exact getLast?_lineage hr hdeclared
  · rw [← List.pairwise_map (f := fun s : SharedDescriptor => s.descriptor.name)
      (R := fun upper lower => f.registry.isSubtype lower upper = true), hnames]
    exact pairwise_lineage hr
  · intro s hs history
    obtain ⟨n, -, hbuild⟩ := exists_of_mem_forall₂ (hv.forall₂_build h) hs
    rw [(f.valid_cacheAfter history).map_metadata, name_of_build hsource hbuild]
    exact hbuild

/-! ## Why there is no answer -/

/-- The root-most class of a lineage that cannot be built is `target`, by the error `e`: the classes
above it can be built. -/
structure RootmostFault (f : MetadataFactory) (className target : String) (e : MetadataError) :
    Prop where
  inLineage : f.InLineage className target
  fails : f.build target = .error e
  builds : ∀ n, TransGen f.registry.ParentClass target n → f.source.contains n = true → f.Builds n

/-- A class that is not `Builds` has an error of `f.build`. -/
theorem not_builds_iff : ¬f.Builds className ↔ ∃ e, f.build className = .error e := by
  unfold Builds
  cases f.build className <;> simp

/-- `Builds` holds of a class without an error of `f.build`. -/
theorem builds_iff_forall_ne_error : f.Builds className ↔ ∀ e, ¬f.build className = .error e := by
  rw [← not_exists, ← not_builds_iff, not_not]

/-- The `FirstFault` in a `lineage` is the root-most one. -/
theorem firstFault_lineage_iff {definitions : List TypeDefinition}
    (hr : TypeRegistry.build definitions = .ok f.registry) :
    FirstFault (fun n e => f.build n = .error e) (f.lineage className) e ↔
      ∃ n, f.RootmostFault className n e := by
  have hchain : f.registry.IsChain className (f.registry.parentChain className) :=
    TypeRegistry.isChain_parentChain hr
  -- What stands in front of a class in the lineage is all that is declared above it.
  have hsplit (n : String) := hchain.exists_split_iff (p := f.source.contains) (Q := f.Builds)
    (n := n)
  constructor
  · rintro ⟨before, n, after, hlineage, hbefore, hfails⟩
    have hbuilds : ∀ m ∈ before, f.Builds m := fun m hm =>
      builds_iff_forall_ne_error.2 (hbefore m hm)
    obtain ⟨hreach, hdeclared, habove⟩ := (hsplit n).1 ⟨before, after, hlineage, hbuilds⟩
    exact ⟨n, ⟨hreach, hdeclared⟩, hfails, habove⟩
  · rintro ⟨n, hn⟩
    obtain ⟨before, after, hlineage, hbuilds⟩ :=
      (hsplit n).2 ⟨hn.inLineage.above, hn.inLineage.declared, hn.builds⟩
    exact ⟨before, n, after, hlineage, fun m hm => builds_iff_forall_ne_error.1 (hbuilds m hm),
      hn.fails⟩

/-- `hierarchy` checks a declared class (`hdeclared`) class by class, from the root on: it `Reports`
the faults of its `lineage`. -/
theorem Valid.reports_hierarchy (hv : f.Valid first cache)
    (hdeclared : f.source.contains className = true) :
    Reports (fun n e => f.build n = .error e) (f.hierarchy className cache).1
      (f.lineage className) := by
  have hbuilds : Reports (fun n e => f.build n = .error e) ((f.lineage className).mapM f.build)
      ((f.lineage className).flatMap fun n => [n]) :=
    .mapM fun n _ => .single fun e => Iff.rfl
  rw [List.flatMap_singleton', ← hv.map_hierarchy hdeclared] at hbuilds
  intro e
  rw [← hbuilds e, map_eq_error_iff]

/-- `hierarchy` does not find an undeclared class (`h`). -/
theorem hierarchy_of_undeclared (h : f.source.contains className = false) :
    (f.hierarchy className cache).1 = .error (.classNotFound className) := by
  rw [hierarchy, if_neg (by simp [h])]

/-- Take a factory for the classes of a manifest, with a registry that was built or the empty one,
and let it serve any requests. Going up from a class through `ParentClass` ends, and the chain that
a request for its hierarchy goes through is all of the way. If there is an answer, it `IsHierarchy`.
There is none exactly if the class is not declared or a class of its lineage cannot be built, and
the error is then the one of the root-most such class (`RootmostFault`). -/
theorem hierarchy_outcome {types : List TypeDefinition} {classes : List ClassDeclaration}
    (hsource : Manifest.ofParts types classes = .ok ⟨types, f.source⟩)
    (hregistry : f.registry = ∅ ∨
      ∃ definitions, TypeRegistry.build definitions = .ok f.registry)
    (className : String) (history : List Request) :
    Acc (fun up down => f.registry.ParentClass down up) className ∧
    f.registry.IsChain className (f.registry.parentChain className) ∧
    (∀ answer, (f.hierarchy className (f.cacheAfter history)).1 = .ok answer →
      f.IsHierarchy className answer) ∧
    ((∃ e, (f.hierarchy className (f.cacheAfter history)).1 = .error e) ↔
      f.source.contains className = false ∨ ∃ n, f.InLineage className n ∧ ¬f.Builds n) ∧
    ∀ e, (f.hierarchy className (f.cacheAfter history)).1 = .error e ↔
      f.source.contains className = false ∧ e = .classNotFound className ∨
      f.source.contains className = true ∧ ∃ n, f.RootmostFault className n e := by
  obtain ⟨definitions, hr⟩ : ∃ definitions, TypeRegistry.build definitions = .ok f.registry := by
    rcases hregistry with hempty | hbuilt
    · exact ⟨[], hempty ▸ TypeRegistry.build_nil⟩
    · exact hbuilt
  have hv : f.Valid 0 (f.cacheAfter history) := f.valid_cacheAfter history
  have hchain : f.registry.IsChain className (f.registry.parentChain className) :=
    TypeRegistry.isChain_parentChain hr
  refine ⟨hchain.acc, hchain, fun answer h => hv.isHierarchy_of_hierarchy hsource hr h, ?_⟩
  -- An undeclared class fails at once. For a declared one the faults of its lineage decide.
  cases hdeclared : f.source.contains className with
  | false =>
    rw [hierarchy_of_undeclared hdeclared]
    simp [eq_comm]
  | true =>
    have hreports := hv.reports_hierarchy hdeclared
    refine ⟨?_, fun e => ?_⟩
    · rw [hreports.exists_error_iff]
      simp only [mem_lineage_iff hr, not_builds_iff, Bool.true_eq_false, false_or]
    · simp only [hreports e, firstFault_lineage_iff hr, Bool.true_eq_false, false_and, true_and,
        false_or]

/-- A class, one that extends it by way of a class that is not declared, and two at fault, one of
which extends the other. -/
def stockClasses : List ClassDeclaration := [
  { name := "Book" },
  { name := "Worn", imports := ["9"] },
  { name := "Lost", imports := ["Not An Import"] },
  { name := "Item" }]

/-- What is known of `stockClasses` as types. -/
def stockTypes : TypeRegistry where
  definitions := [
    { name := "Item", kind := .class },
    { name := "Paper", kind := .class, parents := ["Item"] },
    { name := "Book", kind := .class, parents := ["Paper"] },
    { name := "Lost", kind := .class, parents := ["Item"] },
    { name := "Worn", kind := .class, parents := ["Lost"] }]
  nodup_names := by decide

/-- A factory for `stockClasses`. -/
def stock : MetadataFactory where
  source := OrderedMap.ofList (stockClasses.map fun c => (c.name, c))
  registry := stockTypes
  analyzers := []

/-- In `stock` the class that is not declared is left out, and of the two classes at fault the upper
one is reported. -/
theorem hierarchy_outcome_stock :
    Manifest.ofParts [] stockClasses = .ok ⟨[], stock.source⟩ ∧
    (stock.registry = ∅ ∨ ∃ definitions, TypeRegistry.build definitions = .ok stock.registry) ∧
    (∃ answer, (stock.hierarchy "Book" (stock.cacheAfter [])).1 = .ok answer ∧
      answer.map (·.descriptor.name) = ["Item", "Book"] ∧ stock.IsHierarchy "Book" answer) ∧
    ∃ n e, (stock.hierarchy "Worn" (stock.cacheAfter [.hierarchy "Book"])).1 = .error e ∧
      stock.build "Lost" = .error e ∧ stock.RootmostFault "Worn" n e := by
  have hsource : Manifest.ofParts [] stockClasses = .ok ⟨[], stock.source⟩ := by rfl
  have hregistry : TypeRegistry.build stockTypes.definitions = .ok stockTypes := by cbv
  have hbuilt : stock.registry = ∅ ∨
      ∃ definitions, TypeRegistry.build definitions = .ok stock.registry := .inr ⟨_, hregistry⟩
  obtain ⟨-, -, hanswer, -, -⟩ := hierarchy_outcome hsource hbuilt "Book" []
  obtain ⟨-, -, -, -, herror⟩ := hierarchy_outcome hsource hbuilt "Worn" [.hierarchy "Book"]
  refine ⟨hsource, hbuilt, ?_, ?_⟩
  · obtain ⟨answer, h, hnames⟩ : ∃ answer,
        (stock.hierarchy "Book" (stock.cacheAfter [])).1 = .ok answer ∧
        answer.map (·.descriptor.name) = ["Item", "Book"] := ⟨_, by rfl, by rfl⟩
    exact ⟨answer, h, hnames, hanswer answer h⟩
  · obtain ⟨e, hlost, h⟩ : ∃ e, stock.build "Lost" = .error e ∧
        (stock.hierarchy "Worn" (stock.cacheAfter [.hierarchy "Book"])).1 = .error e :=
      ⟨_, by rfl, by rfl⟩
    rcases (herror e).1 h with ⟨hundeclared, -⟩ | ⟨-, n, hn⟩
    · exact absurd hundeclared (by decide)
    · exact ⟨n, e, h, hlost, hn⟩

end MetadataFactory

end DocTypes

import DocTypes.Manifest
import DocTypes.Proofs.BuildOutcome
import DocTypes.Proofs.MapM

/-!
# The registry of a manifest

A manifest is made of the types that it lists and the classes that it declares, and both go into its
registry: `definitions` has the listed types, then each declared class that is not listed. These are
classes without parents, so they bring no steps of the parent relation (`extends_definitions_iff`),
and a parent of a listed type may be one of them. Hence `registry` succeeds if and only if the
listed types are distinct and without cycles and their parents are listed or declared, and a
manifest that declares more classes has a registry if one that declares fewer has. The main
statement is `registry_outcome`.
-/

namespace DocTypes.Manifest

open Relation (TransGen)
open TypeRegistry (NamesDistinct ParentsKnown)

variable {types : List TypeDefinition} {classes more : List ClassDeclaration} {m : Manifest}
  {r : TypeRegistry} {name child parent : String}

/-! ## The declared classes -/

/-- `index` succeeds if no two of the classes, and none of them and one of `source`, have one name.
They come behind `source`, in order. -/
theorem index_eq_ok_iff {source index : ClassSource} :
    Manifest.index source classes = .ok index ↔
      (classes.map (·.name)).Nodup ∧ (∀ c ∈ classes, c.name ∉ source.keys) ∧
        index.entries = source.entries ++ classes.map fun c => (c.name, c) := by
  -- `index` stores one class at a time, so `source` grows along the list.
  induction classes generalizing source with
  | nil =>
    simp only [Manifest.index, Except.ok.injEq, List.map_nil, List.nodup_nil, List.not_mem_nil,
      IsEmpty.forall_iff, implies_true, List.append_nil, true_and]
    exact ⟨fun h => h ▸ rfl, fun h => OrderedMap.ext h.symm⟩
  | cons c rest ih =>
    rw [Manifest.index]
    split
    · next hknown =>
      have hkey : c.name ∈ source.keys := by
        by_contra hnot
        rw [OrderedMap.contains, OrderedMap.get?_eq_none_iff.2 hnot] at hknown
        cases hknown
      simp only [reduceCtorEq, false_iff]
      rintro ⟨-, hnew, -⟩
      exact hnew c List.mem_cons_self hkey
    · next hknown =>
      have hkey : c.name ∉ source.keys := by
        rw [← OrderedMap.get?_eq_none_iff]
        simpa [OrderedMap.contains] using hknown
      have hentries : (source.insert c.name c).entries = source.entries ++ [(c.name, c)] :=
        OrderedMap.store_of_notMem hkey
      have hkeys : (source.insert c.name c).keys = source.keys ++ [c.name] := by
        rw [OrderedMap.keys_insert, if_neg hkey]
      rw [ih, hentries, hkeys]
      simp only [List.map_cons, List.nodup_cons, List.mem_map, List.mem_append, List.mem_singleton,
        not_or, List.append_assoc, List.singleton_append, List.forall_mem_cons, not_exists, not_and]
      constructor
      · rintro ⟨hnodup, hnew, hindex⟩
        exact ⟨⟨fun d hd => (hnew d hd).2, hnodup⟩, ⟨hkey, fun d hd => (hnew d hd).1⟩, hindex⟩
      · rintro ⟨⟨hne, hnodup⟩, ⟨-, hnew⟩, hindex⟩
        exact ⟨hnodup, fun d hd => ⟨hnew d hd, hne d hd⟩, hindex⟩

/-- `ofParts` succeeds if no two classes have one name. The manifest keeps `types` and `classes` in
order. -/
theorem ofParts_eq_ok_iff : ofParts types classes = .ok m ↔
    (classes.map (·.name)).Nodup ∧ m.types = types ∧
      m.classes.entries = classes.map fun c => (c.name, c) := by
  rw [ofParts, map_eq_ok_iff]
  constructor
  · rintro ⟨index, hindex, rfl⟩
    obtain ⟨hnodup, -, hentries⟩ := index_eq_ok_iff.1 hindex
    exact ⟨hnodup, rfl, hentries⟩
  · rintro ⟨hnodup, rfl, hentries⟩
    exact ⟨m.classes, index_eq_ok_iff.2 ⟨hnodup, fun _ _ => List.not_mem_nil, hentries⟩, rfl⟩

/-- `ofParts` makes a manifest of classes with distinct names. -/
theorem exists_ofParts (types : List TypeDefinition) (h : (classes.map (·.name)).Nodup) :
    ∃ m, ofParts types classes = .ok m := by
  have hkeys : ((classes.map fun c => (c.name, c)).map Prod.fst).Nodup := by rwa [List.map_map]
  exact ⟨⟨types, ⟨_, hkeys⟩⟩, ofParts_eq_ok_iff.2 ⟨h, rfl, rfl⟩⟩

/-- The classes of a manifest of `ofParts` are found in the order in which they were declared. -/
theorem keys_of_ofParts (h : ofParts types classes = .ok m) :
    m.classes.keys = classes.map (·.name) := by
  rw [OrderedMap.keys, (ofParts_eq_ok_iff.1 h).2.2, List.map_map]
  rfl

/-- `get?` finds every declaration under the name of its class. -/
theorem get?_of_ofParts (h : ofParts types classes = .ok m) {c : ClassDeclaration}
    (hc : c ∈ classes) : m.classes.get? c.name = some c := by
  rw [OrderedMap.get?_eq_some_iff, (ofParts_eq_ok_iff.1 h).2.2]
  exact List.mem_map.2 ⟨c, hc, rfl⟩

/-- What `get?` finds under a name is the declaration of the class of that name. -/
theorem name_of_ofParts (h : ofParts types classes = .ok m) {c : ClassDeclaration}
    (hc : m.classes.get? name = some c) : c.name = name := by
  rw [OrderedMap.get?_eq_some_iff, (ofParts_eq_ok_iff.1 h).2.2] at hc
  obtain ⟨d, -, hd⟩ := List.mem_map.1 hc
  obtain ⟨rfl, rfl⟩ := Prod.mk.inj hd
  rfl

/-! ## The definitions -/

/-- In `definitions` the listed types come first, then the classes that are not listed. -/
theorem map_name_definitions : m.definitions.map (·.name) =
    m.types.map (·.name) ++ m.classes.keys.filter (· ∉ m.types.map (·.name)) := by
  rw [definitions, List.map_append, List.map_map]
  exact congrArg _ (List.map_id _)

/-- A name in `definitions` is listed or declared. -/
theorem mem_map_name_definitions : name ∈ m.definitions.map (·.name) ↔
    name ∈ m.types.map (·.name) ∨ name ∈ m.classes.keys := by
  rw [map_name_definitions, List.mem_append, List.mem_filter, decide_eq_true_eq]
  tauto

/-- A member of `definitions` is listed, or it is that of a declared class, which has no parents. -/
theorem mem_definitions {d : TypeDefinition} : d ∈ m.definitions ↔
    d ∈ m.types ∨ d.name ∈ m.classes.keys ∧ d.name ∉ m.types.map (·.name) ∧
      d = ⟨d.name, .class, []⟩ := by
  rw [definitions, List.mem_append, List.mem_map]
  refine or_congr_right ⟨?_, ?_⟩
  · rintro ⟨n, hn, rfl⟩
    rw [List.mem_filter, decide_eq_true_eq] at hn
    exact ⟨hn.1, hn.2, rfl⟩
  · rintro ⟨hkey, hnew, hd⟩
    exact ⟨d.name, List.mem_filter.2 ⟨hkey, by simpa using hnew⟩, hd.symm⟩

/-- `NamesDistinct` is left to the listed types, since declared classes repeat no name. -/
theorem namesDistinct_definitions_iff : NamesDistinct m.definitions ↔ NamesDistinct m.types := by
  rw [NamesDistinct, NamesDistinct, map_name_definitions, List.nodup_append]
  refine ⟨And.left, fun h => ⟨h, m.classes.nodup_keys.filter _, ?_⟩⟩
  rintro a ha b hb rfl
  have hnew : a ∉ m.types.map (·.name) := by simpa using (List.mem_filter.1 hb).2
  exact hnew ha

/-- `Extends` is left to the listed types, since declared classes extend nothing. -/
theorem extends_definitions_iff : Extends m.definitions child parent ↔
    Extends m.types child parent := by
  constructor
  · rintro ⟨d, hd, rfl, hparent⟩
    rcases mem_definitions.1 hd with hlisted | ⟨-, -, hbare⟩
    · exact ⟨d, hlisted, rfl, hparent⟩
    · rw [hbare] at hparent
      exact absurd hparent List.not_mem_nil
  · rintro ⟨d, hd, rfl, hparent⟩
    exact ⟨d, mem_definitions.2 (.inl hd), rfl, hparent⟩

/-- `ParentsKnown` holds throughout if the parents of listed types are listed or declared. -/
theorem parentsKnown_definitions_iff :
    (∀ d ∈ m.definitions, ParentsKnown m.definitions d) ↔
      ∀ d ∈ m.types, ∀ p ∈ d.parents, p ∈ m.types.map (·.name) ∨ p ∈ m.classes.keys := by
  constructor
  · intro h d hd p hp
    exact mem_map_name_definitions.1 (h d (mem_definitions.2 (.inl hd)) p hp)
  · intro h d hd p hp
    rcases mem_definitions.1 hd with hlisted | ⟨-, -, hbare⟩
    · exact mem_map_name_definitions.2 (h d hlisted p hp)
    · rw [hbare] at hp
      exact absurd hp List.not_mem_nil

/-! ## The registry -/

/-- `registry` succeeds if and only if the listed types are distinct and without cycles, and their
parents are listed or declared: `exists_build_eq_ok_iff` at `definitions`. -/
theorem exists_registry_iff : (∃ r, m.registry = .ok r) ↔
    NamesDistinct m.types ∧
      (∀ d ∈ m.types, ∀ p ∈ d.parents, p ∈ m.types.map (·.name) ∨ p ∈ m.classes.keys) ∧
      ¬∃ name, TransGen (Extends m.types) name name := by
  have hextends : Extends m.definitions = Extends m.types := by
    funext a b
    exact propext extends_definitions_iff
  rw [registry, TypeRegistry.exists_build_eq_ok_iff, namesDistinct_definitions_iff,
    parentsKnown_definitions_iff, hextends]

/-- `get?` of the registry `r` finds the `definitions` of the manifest. -/
theorem mem_definitions_of_registry (h : m.registry = .ok r) {d : TypeDefinition} :
    r.get? d.name = some d ↔ d ∈ m.definitions := by
  rw [TypeRegistry.get?_eq_some_iff, TypeRegistry.definitions_of_build h]
  exact and_iff_left rfl

/-- The registry of a manifest contains every class that it declares. -/
theorem contains_of_declared (h : m.registry = .ok r) {c : ClassDeclaration}
    (hc : m.classes.get? name = some c) : r.contains name = true := by
  have hkey : name ∈ m.classes.keys := List.mem_map_of_mem (OrderedMap.get?_eq_some_iff.1 hc)
  rw [TypeRegistry.contains_iff_mem_names, TypeRegistry.names,
    TypeRegistry.definitions_of_build h, mem_map_name_definitions]
  exact .inr hkey

/-- Take any `types` and `classes`, no two classes of one name. `ofParts` makes a manifest of them.
Its `registry` can be built if and only if no two types have one name, every parent of a type is the
name of a type or of a class, and no type can be reached from itself; so it can still be built when
`more` classes are declared. If it is built, it has the names of the types in order, then those of
the other classes. Each type is registered as it is listed, each other class as a class without
parents, and hence every class that is declared is registered. -/
theorem registry_outcome (types : List TypeDefinition) (hclasses : (classes.map (·.name)).Nodup) :
    ∃ m, ofParts types classes = .ok m ∧
      ((∃ r, m.registry = .ok r) ↔ NamesDistinct types ∧
        (∀ d ∈ types, ∀ p ∈ d.parents, p ∈ types.map (·.name) ∨ p ∈ classes.map (·.name)) ∧
        ¬∃ name, TransGen (Extends types) name name) ∧
      ((∃ r, m.registry = .ok r) → ∀ more : List ClassDeclaration, (more.map (·.name)).Nodup →
        classes.map (·.name) ⊆ more.map (·.name) →
        ∃ m', ofParts types more = .ok m' ∧ ∃ r, m'.registry = .ok r) ∧
      ∀ r, m.registry = .ok r →
        r.names = types.map (·.name) ++
          (classes.map (·.name)).filter (· ∉ types.map (·.name)) ∧
        (∀ d ∈ types, r.get? d.name = some d) ∧
        (∀ c ∈ classes, c.name ∉ types.map (·.name) →
          r.get? c.name = some ⟨c.name, .class, []⟩) ∧
        ∀ className, (m.classes.get? className).isSome → r.contains className = true := by
  -- What makes a registry of a manifest of the types, in terms of the names of the classes.
  have hiff : ∀ {cs : List ClassDeclaration} {m}, ofParts types cs = .ok m →
      ((∃ r, m.registry = .ok r) ↔ NamesDistinct types ∧
        (∀ d ∈ types, ∀ p ∈ d.parents, p ∈ types.map (·.name) ∨ p ∈ cs.map (·.name)) ∧
        ¬∃ name, TransGen (Extends types) name name) := by
    intro cs m hm
    rw [exists_registry_iff, keys_of_ofParts hm, (ofParts_eq_ok_iff.1 hm).2.1]
  obtain ⟨m, hm⟩ := exists_ofParts types hclasses
  have htypes : m.types = types := (ofParts_eq_ok_iff.1 hm).2.1
  have hkeys : m.classes.keys = classes.map (·.name) := keys_of_ofParts hm
  refine ⟨m, hm, hiff hm, ?_, ?_⟩
  -- More declared classes leave the listed types as they are; only the names that a parent may have
  -- become more, by `hsubset`.
  · intro hbuilt more hmore hsubset
    obtain ⟨m', hm'⟩ := exists_ofParts types hmore
    obtain ⟨hnames, hparents, hacyclic⟩ := (hiff hm).1 hbuilt
    refine ⟨m', hm', (hiff hm').2 ⟨hnames, fun d hd p hp => ?_, hacyclic⟩⟩
    exact (hparents d hd p hp).imp_right fun hdeclared => hsubset hdeclared
  · intro r hr
    have hnames : r.names = types.map (·.name) ++
        (classes.map (·.name)).filter (· ∉ types.map (·.name)) := by
      rw [TypeRegistry.names, TypeRegistry.definitions_of_build hr, map_name_definitions, htypes,
        hkeys]
    refine ⟨hnames, fun d hd => ?_, fun c hc hnew => ?_, fun className hdeclared => ?_⟩
    · exact (mem_definitions_of_registry hr).2 (mem_definitions.2 (.inl (htypes ▸ hd)))
    · have hkey : c.name ∈ m.classes.keys := hkeys ▸ List.mem_map_of_mem hc
      exact (mem_definitions_of_registry (d := ⟨c.name, .class, []⟩) hr).2
        (mem_definitions.2 (.inr ⟨hkey, htypes ▸ hnew, rfl⟩))
    · obtain ⟨c, hc⟩ := Option.isSome_iff_exists.1 hdeclared
      exact contains_of_declared hr hc

/-- The class `Ferry` with a parent `Vessel` that is only declared, and an interface. -/
def ferryTypes : List TypeDefinition :=
  [⟨"Ferry", .class, ["Vessel", "Bookable"]⟩, ⟨"Bookable", .interface, []⟩]

/-- What a manifest of `ferryTypes` knows if it declares both classes. -/
def ferryRegistry : TypeRegistry where
  definitions := [⟨"Ferry", .class, ["Vessel", "Bookable"]⟩, ⟨"Bookable", .interface, []⟩,
    ⟨"Vessel", .class, []⟩]
  nodup_names := by decide

/-- The class `Vessel`, which is only declared, comes last, and without it there is no registry. -/
theorem registry_outcome_ferry :
    (([{ name := "Vessel" }, { name := "Ferry" }] : List ClassDeclaration).map (·.name)).Nodup ∧
    (∃ m, ofParts ferryTypes [{ name := "Vessel" }, { name := "Ferry" }] = .ok m ∧
      m.registry = .ok ferryRegistry ∧ ferryRegistry.names = ["Ferry", "Bookable", "Vessel"] ∧
      ferryRegistry.get? "Ferry" = some ⟨"Ferry", .class, ["Vessel", "Bookable"]⟩ ∧
      ferryRegistry.get? "Vessel" = some ⟨"Vessel", .class, []⟩) ∧
    ∃ m, ofParts ferryTypes [{ name := "Ferry" }] = .ok m ∧ ¬∃ r, m.registry = .ok r := by
  have hboth : (([{ name := "Vessel" }, { name := "Ferry" }] : List ClassDeclaration).map
      (·.name)).Nodup := by decide
  have hone : (([{ name := "Ferry" }] : List ClassDeclaration).map (·.name)).Nodup := by decide
  refine ⟨hboth, ?_, ?_⟩
  · obtain ⟨m, hm, -, -, hcontent⟩ := registry_outcome ferryTypes hboth
    have hparts : ofParts ferryTypes [{ name := "Vessel" }, { name := "Ferry" }] =
        .ok ⟨ferryTypes, ⟨[("Vessel", { name := "Vessel" }), ("Ferry", { name := "Ferry" })],
          by decide⟩⟩ := by rfl
    obtain rfl := Except.ok.inj (hm.symm.trans hparts)
    have hbuild : TypeRegistry.build ferryRegistry.definitions = .ok ferryRegistry := by cbv
    obtain ⟨hnames, hlisted, hdeclared, -⟩ := hcontent ferryRegistry hbuild
    exact ⟨_, hm, hbuild, hnames, hlisted _ List.mem_cons_self,
      hdeclared _ List.mem_cons_self (by decide)⟩
  · obtain ⟨m, hm, hiff, -, -⟩ := registry_outcome ferryTypes hone
    refine ⟨m, hm, fun hr => ?_⟩
    obtain ⟨-, hparents, -⟩ := hiff.1 hr
    exact absurd (hparents _ List.mem_cons_self "Vessel" (by decide)) (by decide)

end DocTypes.Manifest

import DocTypes.Proofs.Traversal
import DocTypes.Registry.Build
import Mathlib.Data.List.Nodup

/-!
# Subtyping in a registry that was built

The definitions of a registry declare who extends whom directly (`Extends`). In a registry that was
made of them by `build`, the `ancestors` of a type are what can be reached by one or more steps of
this relation, and `isSubtype` is its reflexive closure, a partial order on all names
(`isSubtype_of_build`).

Two of the checks that `build` makes carry this. No parent is unknown, so that every step leads to a
registered type (`mem_names_of_build`). No child stands behind its parent in the order of finishing,
so that every step leads further along in this order (`idxOf_lt_of_build`), and no type can be
reached from itself (`irrefl_of_build`).
-/

namespace DocTypes

/-- The type `child` is defined with `parent` among its `parents`. -/
def Extends (definitions : List TypeDefinition) (child parent : String) : Prop :=
  ∃ d ∈ definitions, d.name = child ∧ parent ∈ d.parents

namespace TypeRegistry

open Relation (TransGen ReflTransGen)

variable {definitions : List TypeDefinition} {r : TypeRegistry} {child parent name : String}

/-- `get?` finds under a name the definition of this name, since the names are distinct
(`nodup_names`). -/
theorem get?_eq_some_iff {d : TypeDefinition} :
    r.get? name = some d ↔ d ∈ r.definitions ∧ d.name = name := by
  constructor
  · intro h
    exact ⟨List.mem_of_find?_eq_some h, by simpa using List.find?_some h⟩
  · rintro ⟨hd, rfl⟩
    obtain ⟨e, he⟩ : ∃ e, r.get? d.name = some e :=
      Option.isSome_iff_exists.1 (List.find?_isSome.2 ⟨d, hd, by simp⟩)
    have hmem : e ∈ r.definitions := List.mem_of_find?_eq_some he
    have hname : e.name = d.name := by simpa using List.find?_some he
    rw [he, List.inj_on_of_nodup_map r.nodup_names hmem hd hname]

/-- The `parents` of a type in `r` are those that it is declared with. -/
theorem mem_parents_iff : parent ∈ r.parents name ↔ Extends r.definitions name parent := by
  unfold parents Extends
  cases hg : r.get? name with
  | none =>
    have hnone : ∀ d ∈ r.definitions, d.name ≠ name := by
      simpa [get?] using hg
    simp only [Option.map_none, Option.getD_none, List.not_mem_nil, false_iff]
    rintro ⟨d, hd, hdn, -⟩
    exact hnone d hd hdn
  | some d =>
    obtain ⟨hd, hdn⟩ := get?_eq_some_iff.1 hg
    simp only [Option.map_some, Option.getD_some]
    constructor
    · intro hp
      exact ⟨d, hd, hdn, hp⟩
    · rintro ⟨e, he, hen, hp⟩
      rwa [List.inj_on_of_nodup_map r.nodup_names hd he (hdn.trans hen.symm)]

/-- Whoever `Extends` a type is registered. -/
theorem mem_names_of_extends (h : Extends r.definitions child parent) : child ∈ r.names := by
  obtain ⟨d, hd, rfl, -⟩ := h
  exact List.mem_map_of_mem hd

/-- If `firstUnknownParent?` finds nothing, whoever is extended is the name of a definition. -/
theorem mem_of_firstUnknownParent?_eq_none (h : firstUnknownParent? definitions = none)
    (hp : Extends definitions child parent) : parent ∈ definitions.map (·.name) := by
  obtain ⟨d, hd, -, hmem⟩ := hp
  have hfind : d.parents.find? (· ∉ definitions.map (·.name)) = none := by
    simpa using List.findSome?_eq_none_iff.1 h d hd
  simpa using List.find?_eq_none.1 hfind parent hmem

/-- If `misplacedChild?` finds nothing, every child of a type has been placed with the type or
before it, in `placed` or in `before`. -/
theorem mem_take_of_misplacedChild?_eq_none {placed before after : List String}
    (h : misplacedChild? definitions placed (before ++ name :: after) = none)
    (hp : Extends definitions child name) : child ∈ placed ∨ child ∈ before ∨ child = name := by
  -- By induction on the types before `name`: each of them joins the placed ones when its turn
  -- comes.
  induction before generalizing placed with
  | nil =>
    obtain ⟨d, hd, rfl, hmem⟩ := hp
    rw [List.nil_append, misplacedChild?] at h
    split at h
    · cases h
    · next hu =>
      -- A type may extend itself here, since it is placed before its children are looked at.
      have hplaced : ¬d.name = name → d.name ∈ placed := by
        have hfind := List.find?_eq_none.1 (Option.map_eq_none_iff.1 hu) d hd
        simpa [hmem] using hfind
      by_cases hne : d.name = name
      · exact .inr (.inr hne)
      · exact .inl (hplaced hne)
  | cons first before ih =>
    rw [List.cons_append, misplacedChild?] at h
    split at h
    · cases h
    · rcases ih h with hc | hc | hc
      · rcases List.mem_cons.1 hc with rfl | hc
        · exact .inr (.inl List.mem_cons_self)
        · exact .inl hc
      · exact .inr (.inl (List.mem_cons_of_mem _ hc))
      · exact .inr (.inr hc)

/-- If `misplacedChild?` finds nothing in `order`, a child that is not the type itself precedes
it. -/
theorem idxOf_lt_of_misplacedChild?_eq_none {order : List String}
    (h : misplacedChild? definitions [] order = none) (hmem : name ∈ order)
    (hp : Extends definitions child name) (hne : child ≠ name) :
    order.idxOf child < order.idxOf name := by
  -- The types placed before the first occurrence of `name`.
  obtain ⟨before, after, hsplit, hnot⟩ : ∃ before after, order = before ++ name :: after ∧
      name ∉ before := List.eq_append_cons_of_mem hmem
  subst hsplit
  have hchild : child ∈ before := by
    simpa [hne] using mem_take_of_misplacedChild?_eq_none h hp
  calc (before ++ name :: after).idxOf child = before.idxOf child :=
        List.idxOf_append_of_mem hchild
    _ < before.length := List.idxOf_lt_length_of_mem hchild
    _ ≤ (before ++ name :: after).idxOf name := by
        rw [List.idxOf_append_of_notMem hnot]
        exact Nat.le_add_right _ _

/-- In names that are pairwise distinct, and not in `seen`, `firstRepeated?` finds nothing. -/
theorem firstRepeated?_eq_none_of_nodup {seen names : List String} (hnodup : names.Nodup)
    (hseen : ∀ n ∈ names, n ∉ seen) : firstRepeated? seen names = none := by
  fun_induction firstRepeated? seen names with
  | case1 => rfl
  | case2 seen n rest hn => exact absurd hn (hseen n List.mem_cons_self)
  | case3 seen n rest hn ih =>
    obtain ⟨hnr, hrest⟩ := List.nodup_cons.1 hnodup
    apply ih hrest
    intro m hm
    have hne : m ≠ n := by
      rintro rfl
      exact hnr hm
    simp [hne, hseen m (List.mem_cons_of_mem _ hm)]

/-- So `firstRepeated?` finds nothing in definitions with distinct names (`hnames`). -/
theorem firstRepeated?_names_eq_none (hnames : (definitions.map (·.name)).Nodup) :
    firstRepeated? [] (definitions.map (·.name)) = none :=
  firstRepeated?_eq_none_of_nodup hnames fun _ _ => List.not_mem_nil

/-- The registry `r` is built if `firstUnknownParent?` finds nothing in its definitions and
`cyclicType?` finds no type on a cycle. -/
theorem build_eq_ok_iff : build definitions = .ok r ↔
    r.definitions = definitions ∧ firstUnknownParent? definitions = none ∧
      r.cyclicType? = none := by
  unfold build
  constructor
  · intro h
    split at h
    · cases h
    · split at h
      · cases h
      · next hu =>
        simp only at h
        split at h
        · cases h
        · next hc =>
          cases h
          exact ⟨rfl, hu, hc⟩
  · rintro ⟨rfl, hu, hc⟩
    split
    · next name hr => cases hr.symm.trans (firstRepeated?_names_eq_none r.nodup_names)
    · simp only [hu, hc]

/-- In a traversal by `visit` of all types, every registered type is finished. -/
theorem mem_finished_of_mem_names (hn : name ∈ r.names) :
    name ∈ (Traversal.visit r.names r.parents r.names).finished := by
  rw [Traversal.mem_finished_visit, Traversal.mem_discovered_visit]
  exact .of_start hn hn

/-- If `cyclicType?` finds nothing (`hc`), no type is its own direct parent. -/
theorem ne_of_cyclicType?_eq_none (hc : r.cyclicType? = none)
    (hp : Extends r.definitions child parent) : child ≠ parent := by
  rintro rfl
  have hdiscovered : child ∈ (Traversal.visit r.names r.parents r.names).discovered :=
    Traversal.mem_finished_visit.1 (mem_finished_of_mem_names (mem_names_of_extends hp))
  unfold cyclicType? at hc
  simp only at hc
  split at hc
  · cases hc
  · next hself =>
    have hno := List.find?_eq_none.1 hself child (List.mem_reverse.2 hdiscovered)
    exact hno (by simpa using mem_parents_iff.2 hp)

/-- If `cyclicType?` finds nothing, no type is misplaced in the order of finishing. -/
theorem misplacedChild?_of_cyclicType?_eq_none (hc : r.cyclicType? = none) :
    misplacedChild? r.definitions [] (Traversal.visit r.names r.parents r.names).finished =
      none := by
  unfold cyclicType? at hc
  simp only at hc
  split at hc
  · cases hc
  · exact hc

section Built

variable (h : build definitions = .ok r)
include h

/-- A registry has the `definitions` that it was built from. -/
theorem definitions_of_build : r.definitions = definitions :=
  (build_eq_ok_iff.1 h).1

/-- Whoever is extended is registered, as `firstUnknownParent?` has found nothing. -/
theorem mem_names_of_build (hp : Extends definitions child parent) : parent ∈ r.names := by
  obtain ⟨rfl, hu, -⟩ := build_eq_ok_iff.1 h
  exact mem_of_firstUnknownParent?_eq_none hu hp

/-- The graph that `ancestors` searches, with the edges `Traversal.Edge`, is the declared
relation. -/
theorem edge_iff_of_build :
    Traversal.Edge r.names r.parents child parent ↔ Extends definitions child parent := by
  unfold Traversal.Edge
  rw [mem_parents_iff, definitions_of_build h]
  exact and_iff_left_of_imp (mem_names_of_build h)

/-- A child precedes its parents in `finished`, where the latest stands first. -/
theorem idxOf_lt_of_build (hp : Extends definitions child parent) :
    (Traversal.visit r.names r.parents r.names).finished.idxOf child <
      (Traversal.visit r.names r.parents r.names).finished.idxOf parent := by
  have hparent := mem_finished_of_mem_names (mem_names_of_build h hp)
  obtain ⟨rfl, -, hc⟩ := build_eq_ok_iff.1 h
  exact idxOf_lt_of_misplacedChild?_eq_none (misplacedChild?_of_cyclicType?_eq_none hc) hparent hp
    (ne_of_cyclicType?_eq_none hc hp)

/-- No type can be reached from itself by steps of `Extends`. -/
theorem irrefl_of_build : ¬TransGen (Extends definitions) name name := by
  intro hcycle
  -- Along a cycle the position in the order of finishing would be less than itself.
  have hlt := hcycle.lift (r := Extends definitions) (p := (· < ·))
    (fun n => (Traversal.visit r.names r.parents r.names).finished.idxOf n)
    fun _ _ hp => idxOf_lt_of_build h hp
  rw [Relation.transGen_eq_self] at hlt
  exact Nat.lt_irrefl _ hlt

/-- The `ancestors` of a type are what can be reached by one or more steps to a direct parent. -/
theorem mem_ancestors_of_build :
    parent ∈ r.ancestors name ↔ TransGen (Extends definitions) name parent := by
  have hedge : Traversal.Edge r.names r.parents = Extends definitions := by
    funext a b
    exact propext (edge_iff_of_build h)
  unfold ancestors
  rw [List.mem_filter, Traversal.mem_discovered_visit]
  unfold Traversal.Reachable
  rw [hedge]
  constructor
  · rintro ⟨⟨s, hs, -, hreach⟩, hne⟩
    -- The only start is `name`, which is left out, so one step is made at least.
    rw [List.mem_singleton.1 hs] at hreach
    rcases Relation.reflTransGen_iff_eq_or_transGen.1 hreach with rfl | htrans
    · simp at hne
    · exact htrans
  · intro htrans
    obtain ⟨b, hfirst, -⟩ := Relation.TransGen.head'_iff.1 htrans
    have hname : name ∈ r.names := by
      rw [← definitions_of_build h] at hfirst
      exact mem_names_of_extends hfirst
    -- Leaving out `name` loses nothing, since a registry with a cycle is not built.
    have hne : parent ≠ name := by
      rintro rfl
      exact irrefl_of_build h htrans
    exact ⟨⟨name, List.mem_singleton_self name, hname, htrans.to_reflTransGen⟩, by simpa using hne⟩

/-- Every member of `ancestors` is registered. -/
theorem contains_of_mem_ancestors (ha : parent ∈ r.ancestors name) : r.contains parent := by
  obtain ⟨b, -, hlast⟩ := Relation.TransGen.tail'_iff.1 ((mem_ancestors_of_build h).1 ha)
  exact contains_iff_mem_names.2 (mem_names_of_build h hlast)

/-- `isSubtype` puts a type below itself and below what can be reached from it. -/
theorem isSubtype_iff_of_build : r.isSubtype child parent = true ↔
    child = parent ∨ TransGen (Extends definitions) child parent := by
  unfold isSubtype
  rw [Bool.or_eq_true, beq_iff_eq, List.contains_iff_mem, mem_ancestors_of_build h]

/-- `isSubtype` puts a type below what can be reached from it by any number of steps of
`Extends`. -/
theorem isSubtype_iff_reflTransGen_of_build : r.isSubtype child parent = true ↔
    ReflTransGen (Extends definitions) child parent := by
  rw [isSubtype_iff_of_build h, Relation.reflTransGen_iff_eq_or_transGen, eq_comm]

/-- In a registry that was built, the `ancestors` of a name are, each once, the names that can be
reached from it by one or more steps of the declared relation `Extends`. They are registered, and
the name itself is not among them. Subtyping by `isSubtype` is the reflexive closure of this,
whether the names are registered or not, and hence a partial order. -/
theorem isSubtype_of_build :
    (∀ n m, m ∈ r.ancestors n ↔ TransGen (Extends definitions) n m) ∧
    (∀ n, (r.ancestors n).Nodup ∧ ∀ m ∈ r.ancestors n, r.contains m = true ∧ m ≠ n) ∧
    (∀ c a, r.isSubtype c a = true ↔ c = a ∨ TransGen (Extends definitions) c a) ∧
    (∀ c, r.isSubtype c c = true) ∧
    (∀ a b c, r.isSubtype a b = true → r.isSubtype b c = true → r.isSubtype a c = true) ∧
    (∀ a b, r.isSubtype a b = true → r.isSubtype b a = true → a = b) := by
  refine ⟨fun n m => mem_ancestors_of_build h, ?_, fun c a => isSubtype_iff_of_build h, ?_, ?_, ?_⟩
  · intro n
    refine ⟨Traversal.nodup_discovered_visit.filter _, ?_⟩
    intro m hm
    refine ⟨contains_of_mem_ancestors h hm, ?_⟩
    rintro rfl
    exact irrefl_of_build h ((mem_ancestors_of_build h).1 hm)
  · intro c
    exact (isSubtype_iff_of_build h).2 (.inl rfl)
  · intro a b c hab hbc
    rw [isSubtype_iff_of_build h] at hab hbc ⊢
    rcases hab with rfl | hab
    · exact hbc
    · rcases hbc with rfl | hbc
      · exact .inr hab
      · exact .inr (hab.trans hbc)
  · intro a b hab hba
    rw [isSubtype_iff_of_build h] at hab hba
    rcases hab with rfl | hab
    · rfl
    · rcases hba with rfl | hba
      · rfl
      · exact absurd (hab.trans hba) (irrefl_of_build h)

end Built

/-- A class that implements one interface twice and another one, both with one parent. -/
def diamond : TypeRegistry where
  definitions := [
    { name := "List", kind := .class, parents := ["Countable", "Walkable", "Countable"] },
    { name := "Countable", kind := .interface, parents := ["Any"] },
    { name := "Walkable", kind := .interface, parents := ["Any"] },
    { name := "Any", kind := .interface }]
  nodup_names := by decide

/-- The `diamond` is built, its top is reached from its bottom, and not the other way around; an
unknown name is a subtype of itself only. -/
theorem isSubtype_diamond :
    build diamond.definitions = .ok diamond ∧
    TransGen (Extends diamond.definitions) "List" "Any" ∧
    ¬TransGen (Extends diamond.definitions) "Any" "List" ∧
    diamond.isSubtype "Nothing" "Nothing" = true ∧ diamond.isSubtype "Nothing" "Any" = false := by
  have hbuild : build diamond.definitions = .ok diamond := by cbv
  obtain ⟨hancestors, -, -, hrefl, -, -⟩ := isSubtype_of_build hbuild
  have hup : "Any" ∈ diamond.ancestors "List" := by
    have hlist : diamond.ancestors "List" = ["Walkable", "Any", "Countable"] := by cbv
    rw [hlist]
    decide
  have hdown : "List" ∉ diamond.ancestors "Any" := by
    have hnil : diamond.ancestors "Any" = [] := by cbv
    rw [hnil]
    exact List.not_mem_nil
  refine ⟨hbuild, (hancestors _ _).1 hup, ?_, hrefl "Nothing", by cbv⟩
  intro htrans
  exact hdown ((hancestors _ _).2 htrans)

end TypeRegistry

end DocTypes

import DocTypes.Proofs.FinishOrder
import DocTypes.Proofs.Subtyping
import Mathlib.Data.List.Perm.Subperm

/-!
# Chains of parent classes

From a type one goes up to its parent class, as `parent_class` gives it, to the parent class of that
one, and so on to a class without one. `IsChain` says that a list is this way, and
`isChain_parentChain` that the chain of a registry that was built is complete: every step goes on in
the order of finishing, so the way is no longer than the registry.

What stands in a chain is what can be reached through parent classes (`IsChain.mem_iff`), and what
stands behind a type in it is what can be reached from that type (`IsChain.mem_above_iff`). So a
chain goes from each type to its ancestors and passes through no type twice (`IsChain.pairwise`,
`IsChain.nodup`), and read from its root on it has in front of a type what lies above it
(`IsChain.exists_split_iff`).
-/

namespace DocTypes.TypeRegistry

open Relation (ReflTransGen TransGen)

variable {definitions : List TypeDefinition} {r : TypeRegistry}
  {child parent other name : String} {chain : List String}

/-- The type that `child` names has the parent class `parent`, by `parentClass?`. -/
def ParentClass (r : TypeRegistry) (child parent : String) : Prop :=
  r.parentClass? child = some parent

/-- The way up from a type through `ParentClass`, to a type without one. -/
inductive IsChain (r : TypeRegistry) : String → List String → Prop
  | last {name : String} : r.parentClass? name = none → IsChain r name [name]
  | step {name parent : String} {chain : List String} : r.ParentClass name parent →
      IsChain r parent chain → IsChain r name (name :: chain)

/-- A parent class is one of the direct parents, so the child `Extends` it. -/
theorem ParentClass.extends (h : r.ParentClass child parent) :
    Extends r.definitions child parent :=
  mem_parents_iff.1 (List.mem_of_find?_eq_some h)

/-- There is one parent class only, the one that `parentClass?` finds first. -/
theorem ParentClass.unique (h : r.ParentClass child parent) (hother : r.ParentClass child other) :
    parent = other :=
  Option.some.inj (h.symm.trans hother)

/-- What can be reached through `ParentClass` can be reached through `Extends`. -/
theorem transGen_extends_of_parentClass (h : TransGen r.ParentClass child parent) :
    TransGen (Extends r.definitions) child parent :=
  Relation.TransGen.mono (fun _ _ => ParentClass.extends) child parent h

/-- The types of a chain are those that can be reached through `ParentClass` by any number of
steps. -/
theorem IsChain.mem_iff (h : r.IsChain name chain) {n : String} :
    n ∈ chain ↔ ReflTransGen r.ParentClass name n := by
  induction h with
  | @last name hnone =>
    rw [List.mem_singleton]
    constructor
    · rintro rfl
      exact .refl
    · intro hreach
      rcases hreach.cases_head with heq | ⟨parent, hparent, -⟩
      · exact heq.symm
      · cases hnone.symm.trans hparent
  | @step name parent chain hparent _ ih =>
    rw [List.mem_cons, ih]
    constructor
    · rintro (rfl | hreach)
      · exact .refl
      · exact .head hparent hreach
    · intro hreach
      -- The first step up is to `parent`, as there is no other.
      rcases hreach.cases_head with heq | ⟨other, hother, hrest⟩
      · exact .inl heq.symm
      · obtain rfl : parent = other := hparent.unique hother
        exact .inr hrest

/-- From a type `n` in a chain on, the rest of the chain is that of `n`. -/
theorem IsChain.of_append {below above : List String} {n : String}
    (h : r.IsChain name (below ++ n :: above)) : r.IsChain n (n :: above) := by
  induction below generalizing name with
  | nil =>
    obtain ⟨rfl⟩ : n = name := by cases h <;> rfl
    exact h
  | cons first below ih =>
    generalize hchain : first :: below ++ n :: above = chain at h
    cases h with
    | last _ => simp at hchain
    | step _ hrest =>
      obtain ⟨-, rfl⟩ := List.cons.inj hchain
      exact ih hrest

/-- Behind a type `n` in a chain stand, in `above`, those that can be reached from it by one or more
steps. -/
theorem IsChain.mem_above_iff {below above : List String} {n m : String}
    (h : r.IsChain name (below ++ n :: above)) : m ∈ above ↔ TransGen r.ParentClass n m := by
  rw [Relation.TransGen.head'_iff]
  have hrest := h.of_append
  generalize hchain : n :: above = rest at hrest
  cases hrest with
  | last hnone =>
    obtain ⟨-, rfl⟩ := List.cons.inj hchain
    simp [ParentClass, hnone]
  | @step _ parent _ hparent hrest =>
    obtain ⟨-, rfl⟩ := List.cons.inj hchain
    rw [hrest.mem_iff]
    constructor
    · intro hreach
      exact ⟨parent, hparent, hreach⟩
    · rintro ⟨other, hother, hreach⟩
      obtain rfl : parent = other := hparent.unique hother
      exact hreach

/-- Every type of a chain reaches through `ParentClass` all that stand behind it. -/
theorem IsChain.pairwise (h : r.IsChain name chain) : chain.Pairwise (TransGen r.ParentClass) := by
  induction h with
  | last _ => exact List.pairwise_singleton ..
  | step hparent hrest ih =>
    refine List.pairwise_cons.2 ⟨?_, ih⟩
    intro m hm
    exact .head' hparent (hrest.mem_iff.1 hm)

/-- A chain begins with the type `name` that it goes up from. -/
theorem IsChain.head?_eq (h : r.IsChain name chain) : chain.head? = some name := by
  cases h <;> rfl

/-- Where there is a chain, going up from `name` comes to an end. -/
theorem IsChain.acc (h : r.IsChain name chain) :
    Acc (fun up down => r.ParentClass down up) name := by
  induction h with
  | @last name hnone =>
    refine ⟨name, fun parent hparent => ?_⟩
    cases hnone.symm.trans hparent
  | @step name parent _ hparent _ ih =>
    refine ⟨name, fun other hother => ?_⟩
    obtain rfl : parent = other := hparent.unique hother
    exact ih

/-- From the root of a chain on, among the types with `p`, those in front of a type `n` are the ones
above it, so all of them have `Q` if those above do. -/
theorem IsChain.exists_split_iff {p : String → Bool} {Q : String → Prop} {n : String}
    (h : r.IsChain name chain) :
    (∃ before after, chain.reverse.filter p = before ++ n :: after ∧ ∀ m ∈ before, Q m) ↔
      ReflTransGen r.ParentClass name n ∧ p n = true ∧
        ∀ m, TransGen r.ParentClass n m → p m = true → Q m := by
  constructor
  · rintro ⟨before, after, hsplit, hall⟩
    obtain ⟨upper, lower, hreverse, rfl, hlower⟩ := List.filter_eq_append_iff.1 hsplit
    obtain ⟨skipped, below, rfl, hskipped, hn, -⟩ := List.filter_eq_cons_iff.1 hlower
    obtain rfl : chain = below.reverse ++ n :: (skipped.reverse ++ upper.reverse) := by
      rw [← List.reverse_inj, hreverse]
      simp
    refine ⟨h.mem_iff.1 (by simp), hn, ?_⟩
    intro m hm hp
    -- Above `n` stand the types in front of it and some without `p`.
    have hmem := h.mem_above_iff.2 hm
    rw [List.mem_append, List.mem_reverse, List.mem_reverse] at hmem
    rcases hmem with hm | hm
    · exact absurd hp (hskipped m hm)
    · exact hall m (List.mem_filter.2 ⟨hm, hp⟩)
  · rintro ⟨hreach, hn, hall⟩
    obtain ⟨below, above, rfl⟩ := List.append_of_mem (h.mem_iff.2 hreach)
    refine ⟨above.reverse.filter p, below.reverse.filter p, ?_, ?_⟩
    · simp [List.filter_append, hn]
    · intro m hm
      obtain ⟨hm, hp⟩ := List.mem_filter.1 hm
      exact hall m (h.mem_above_iff.1 (List.mem_reverse.1 hm)) hp

/-- No type is behind `r.size` others in the order of finishing, since it has each type once. -/
theorem idxOf_finished_lt_size (hn : name ∈ r.names) :
    (Traversal.visit r.names r.parents r.names).finished.idxOf name < r.size := by
  have hsubset : (Traversal.visit r.names r.parents r.names).finished ⊆ r.names := fun n hn =>
    Traversal.consistent_visit.subset_nodes n (Traversal.mem_finished_visit.1 hn)
  calc (Traversal.visit r.names r.parents r.names).finished.idxOf name
      < (Traversal.visit r.names r.parents r.names).finished.length :=
        List.idxOf_lt_length_of_mem (mem_finished_of_mem_names hn)
    _ ≤ r.names.length :=
        (List.subperm_of_subset Traversal.nodup_finished_visit hsubset).length_le
    _ = r.size := List.length_map ..

section Built

variable (h : build definitions = .ok r)
include h

/-- `chainUp` makes a complete chain in enough steps: the further on a type is in the order of
finishing, the fewer steps are enough. -/
theorem isChain_chainUp {steps : Nat}
    (hsteps : r.size ≤
      steps + (Traversal.visit r.names r.parents r.names).finished.idxOf name + 1) :
    r.IsChain name (r.chainUp steps name) := by
  have hdefinitions : r.definitions = definitions := definitions_of_build h
  -- A parent class is further on than its child, and not at the end.
  have hnext : ∀ child parent, r.ParentClass child parent →
      (Traversal.visit r.names r.parents r.names).finished.idxOf child <
        (Traversal.visit r.names r.parents r.names).finished.idxOf parent ∧
      (Traversal.visit r.names r.parents r.names).finished.idxOf parent < r.size := by
    intro child parent hp
    have hextends : Extends definitions child parent := hdefinitions ▸ hp.extends
    exact ⟨idxOf_lt_of_build h hextends, idxOf_finished_lt_size (mem_names_of_build h hextends)⟩
  -- By induction on the steps: with none left, `name` would stand at the end of the order, and its
  -- parent class behind it.
  induction steps generalizing name with
  | zero =>
    cases hparent : r.parentClass? name with
    | none => exact .last hparent
    | some parent =>
      obtain ⟨hlt, hsize⟩ := hnext name parent hparent
      omega
  | succ steps ih =>
    rw [chainUp]
    cases hparent : r.parentClass? name with
    | none => exact .last hparent
    | some parent =>
      obtain ⟨hlt, -⟩ := hnext name parent hparent
      exact .step hparent (ih (by omega))

/-- `parentChain` makes a step for each type of the registry, so the chain is complete. -/
theorem isChain_parentChain : r.IsChain name (r.parentChain name) :=
  isChain_chainUp h (by omega)

/-- What can be reached through `ParentClass` is in `ancestors`. -/
theorem mem_ancestors_of_parentClass (hreach : TransGen r.ParentClass child parent) :
    parent ∈ r.ancestors child := by
  have hextends := transGen_extends_of_parentClass hreach
  rw [definitions_of_build h] at hextends
  exact (mem_ancestors_of_build h).2 hextends

/-- A chain passes through no type twice, by `irrefl_of_build`. -/
theorem IsChain.nodup (hchain : r.IsChain name chain) : chain.Nodup := by
  refine hchain.pairwise.imp fun {lower upper} hreach => ?_
  have hancestor : upper ∈ r.ancestors lower := mem_ancestors_of_parentClass h hreach
  rintro rfl
  exact irrefl_of_build h ((mem_ancestors_of_build h).1 hancestor)

end Built

end DocTypes.TypeRegistry

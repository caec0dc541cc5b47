import DocTypes.Proofs.BuildOutcome
import DocTypes.Proofs.StackSearch

/-!
# The type that a cycle is reported for

A cycle can be found by two passes over the types, and `toposort` finds it so. The first is a
depth-first search from each type to its parents, with a stack of names, and it ends early at a type
that is its own parent (`Traversal.searchFrom`). The second pass takes the types in the order
opposite to the one of finishing, and makes from each of them a search over the edges backwards,
from a type to its children. The types reached by now are not reached again, so without a cycle each
of these searches reaches its start only; the second type that one of them reaches is reported.

`twoPassCycle?` is this algorithm. It reports the type that `build` reports when a registry is built
(`cyclicType?_eq_twoPassCycle?`), and this type lies on a cycle (`build_inheritanceCycle`): it does
not merely lead to one, or hang below one.
-/

namespace DocTypes.TypeRegistry

open Relation (TransGen)

variable {definitions : List TypeDefinition} {r : TypeRegistry} {name : String}

/-! ## The second pass -/

/-- The children of the type `name`, once for each time that they name it as a parent. -/
def childEdges (definitions : List TypeDefinition) (name : String) : List String :=
  definitions.flatMap fun d => (d.parents.filter (· = name)).map fun _ => d.name

/-- Takes names off a stack up to the first one that is not in `reached`, and puts its `childEdges`
that are not in `reached` in its place. -/
def advance (definitions : List TypeDefinition) (reached : List String) :
    List String → Option (String × List String)
  | [] => none
  | name :: stack =>
    if name ∈ reached then advance definitions reached stack
    else some (name, (childEdges definitions name).filter (· ∉ name :: reached) ++ stack)

/-- The second pass: searches over the edges backwards from each name in turn, and ends with the
second name that one of the searches reaches. Two steps by `advance` are enough for that. -/
def secondReached? (definitions : List TypeDefinition) (reached : List String) :
    List String → Option String
  | [] => none
  | name :: order =>
    match advance definitions reached [name] with
    | none => secondReached? definitions reached order
    | some (first, stack) =>
      match advance definitions (first :: reached) stack with
      | none => secondReached? definitions (first :: reached) order
      | some (second, _) => some second

/-- The type that the two passes report: the one where `searchFrom` gives up, and otherwise the one
that `secondReached?` finds in the order of finishing. -/
def twoPassCycle? (r : TypeRegistry) : Option String :=
  match Traversal.searchFrom r.names r.parents r.names {} with
  | .error name => some name
  | .ok visited => secondReached? r.definitions [] visited.finished

/-! ## What the two passes report -/

/-- The edges to `name` from one `child` lead to it if it is not in `reached`. -/
theorem find?_edges (reached parents : List String) (child : String) :
    ((parents.filter (· = name)).map fun _ => child).find? (· ∉ reached) =
      if name ∈ parents ∧ child ∉ reached then some child else none := by
  split
  · next h =>
    have hmem : name ∈ parents.filter (· = name) := List.mem_filter.2 ⟨h.1, decide_eq_true rfl⟩
    obtain ⟨p, ps, hps⟩ := List.exists_cons_of_ne_nil (List.ne_nil_of_mem hmem)
    rw [hps, List.map_cons]
    exact List.find?_cons_of_pos (decide_eq_true h.2)
  · next h =>
    rw [List.find?_eq_none]
    intro n hn
    obtain ⟨p, hp, rfl⟩ := List.mem_map.1 hn
    obtain ⟨hparent, hname⟩ := List.mem_filter.1 hp
    obtain rfl : p = name := of_decide_eq_true hname
    exact fun hnew => h ⟨hparent, of_decide_eq_true hnew⟩

/-- In `childEdges` the first child that is not in `reached` is `unplacedChild?`, the first in
definition order. -/
theorem find?_childEdges (reached : List String) :
    (childEdges definitions name).find? (· ∉ reached) =
      unplacedChild? definitions reached name := by
  unfold childEdges unplacedChild?
  -- Along the definitions: each one gives its own edges, which come in front of those of the rest.
  induction definitions with
  | nil => rfl
  | cons d definitions ih =>
    rw [List.flatMap_cons, List.find?_append, ih, find?_edges, List.find?_cons]
    by_cases h : name ∈ d.parents ∧ d.name ∉ reached
    · rw [if_pos h, decide_eq_true h]
      rfl
    · rw [if_neg h, decide_eq_false h]
      rfl

/-- `advance` takes the top of the stack next, if no name on the stack has been reached (`h`). -/
theorem advance_eq_head? {reached stack : List String} (h : ∀ n ∈ stack, n ∉ reached) :
    (advance definitions reached stack).map Prod.fst = stack.head? := by
  cases stack with
  | nil => rfl
  | cons n stack => simp [advance, h n List.mem_cons_self]

/-- The second pass finds the `misplacedChild?`. By `hnodup` and `hnew` each search starts at a name
that is new, and the second name that it reaches is a child of its start. -/
theorem secondReached?_eq_misplacedChild? {reached order : List String} (hnodup : order.Nodup)
    (hnew : ∀ n ∈ order, n ∉ reached) :
    secondReached? definitions reached order = misplacedChild? definitions reached order := by
  induction order generalizing reached with
  | nil => rfl
  | cons name order ih =>
    obtain ⟨hname, hnodup⟩ := List.nodup_cons.1 hnodup
    have hrest : ∀ n ∈ order, n ∉ name :: reached := by
      intro n hn hmem
      rcases List.mem_cons.1 hmem with rfl | hmem
      · exact hname hn
      · exact hnew n (List.mem_cons_of_mem name hn) hmem
    have hfirst : advance definitions reached [name] =
        some (name, (childEdges definitions name).filter (· ∉ name :: reached)) := by
      rw [advance, if_neg (hnew name List.mem_cons_self), List.append_nil]
    -- Behind its start the search takes the first edge that leads to a new name.
    have hsecond : (advance definitions (name :: reached)
        ((childEdges definitions name).filter (· ∉ name :: reached))).map Prod.fst =
        unplacedChild? definitions (name :: reached) name := by
      rw [advance_eq_head? (by simp), List.head?_filter, find?_childEdges]
    rw [secondReached?, misplacedChild?, hfirst, ← hsecond]
    dsimp only
    -- If the search goes no further than its start, the next one follows.
    cases advance definitions (name :: reached)
        ((childEdges definitions name).filter (· ∉ name :: reached)) with
    | none => exact ih hnodup hrest
    | some found => rfl

/-- If all parents are defined (`hknown`), then `cyclicType?` is the type that the two passes
report. For the first pass this is `searchFrom_nodes`. -/
theorem cyclicType?_eq_twoPassCycle? (hknown : firstUnknownParent? r.definitions = none) :
    r.cyclicType? = r.twoPassCycle? := by
  have hnodes : ∀ child parent, parent ∈ r.parents child → parent ∈ r.names := fun _ _ hp =>
    mem_of_firstUnknownParent?_eq_none hknown (mem_parents_iff.1 hp)
  rw [twoPassCycle?, Traversal.searchFrom_nodes hnodes, cyclicType?, Traversal.outcome]
  -- Both give a type that is its own parent, if there is one, and then make the second pass.
  cases (Traversal.visit r.names r.parents r.names).discovered.reverse.find?
      fun name => name ∈ r.parents name with
  | some name => rfl
  | none => exact (secondReached?_eq_misplacedChild? Traversal.nodup_finished_visit (by simp)).symm

/-- A cycle is reported by `build` for the name that `cyclicType?` gives, if no name is repeated and
all parents are defined. -/
theorem build_eq_inheritanceCycle_iff : build definitions = .error (.inheritanceCycle name) ↔
    ∃ r : TypeRegistry, r.definitions = definitions ∧ firstUnknownParent? definitions = none ∧
      r.cyclicType? = some name := by
  constructor
  · intro h
    unfold build at h
    split at h
    · cases h
    · next hrepeated =>
      split at h
      · cases h
      · next hknown =>
        simp only at h
        split at h
        · next found hfound =>
          cases h
          exact ⟨_, rfl, hknown, hfound⟩
        · cases h
  · rintro ⟨r, rfl, hknown, hfound⟩
    exact build_of_cyclicType? hknown hfound

/-- A type that `build` reports a cycle for can be reached from itself by one or more steps to a
direct parent. It is the type that the two passes of `toposort` report. -/
theorem build_inheritanceCycle (h : build definitions = .error (.inheritanceCycle name)) :
    TransGen (Extends definitions) name name ∧
      ∃ r : TypeRegistry, r.definitions = definitions ∧ r.twoPassCycle? = some name := by
  obtain ⟨r, rfl, hknown, hfound⟩ := build_eq_inheritanceCycle_iff.1 h
  refine ⟨transGen_of_cyclicType?_eq_some hknown hfound, r, rfl, ?_⟩
  rw [← cyclicType?_eq_twoPassCycle? hknown, hfound]

/-- A type that leads to a cycle of three, with a repeated edge, and a type above the cycle: what is
reported is on the cycle. -/
theorem build_inheritanceCycle_three :
    let definitions : List TypeDefinition := [
      { name := "Leaf", kind := .class, parents := ["A"] },
      { name := "A", kind := .class, parents := ["Top", "B", "B"] },
      { name := "B", kind := .interface, parents := ["C"] },
      { name := "C", kind := .interface, parents := ["Top", "A"] },
      { name := "Top", kind := .interface }]
    build definitions = .error (.inheritanceCycle "C") ∧
      TransGen (Extends definitions) "C" "C" := by
  intro definitions
  have hbuild : build definitions = .error (.inheritanceCycle "C") := by cbv
  exact ⟨hbuild, (build_inheritanceCycle hbuild).1⟩

end DocTypes.TypeRegistry

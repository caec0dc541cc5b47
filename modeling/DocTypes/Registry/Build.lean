import DocTypes.Registry.Basic

/-!
# Building a registry

`build` makes a registry of definitions if no name is defined twice, every parent is defined, before
or after, and no type is among its own ancestors. The faults are looked for in this order, by
`firstRepeated?`, `firstUnknownParent?` and `cyclicType?`.

Cycles are found by `visit`, a depth-first traversal of the types in order of definition. A type
that is its own parent is reported first. Otherwise the types are taken in the order opposite to the
one in which they were finished. If there is no cycle, every child of a type stands before it in
this order; the first type with a child that does not is reported through this child
(`misplacedChild?`), and the two lie on a cycle. This is what `toposort` makes of the same graph
(`cyclicType?_eq_twoPassCycle?`).
-/

namespace DocTypes

/-- The first name of the list that is met a second time, if those in `seen` have been met so far.
`add` sets these names apart, and `build` reports the first of them. -/
def firstRepeated? (seen : List String) : List String → Option String
  | [] => none
  | name :: rest => if name ∈ seen then some name else firstRepeated? (name :: seen) rest

/-- If `firstRepeated?` finds none, the names are pairwise distinct, and none of them is in
`seen`. -/
theorem nodup_of_firstRepeated?_eq_none {seen names : List String}
    (h : firstRepeated? seen names = none) : names.Nodup ∧ ∀ name ∈ names, name ∉ seen := by
  fun_induction firstRepeated? seen names with
  | case1 => simp
  | case2 => simp at h
  | case3 seen name rest hn ih =>
    -- The rest was searched with `name` among the names met so far, so `name` is not in it.
    obtain ⟨hd, hs⟩ := ih h
    refine ⟨List.nodup_cons.2 ⟨fun hm => by simpa using hs name hm, hd⟩, ?_⟩
    simp only [List.mem_cons, forall_eq_or_imp]
    exact ⟨hn, fun n hm => fun hc => hs n hm (List.mem_cons_of_mem _ hc)⟩

namespace TypeRegistry

/-- The first type with a parent that none of the `definitions` defines, and its first such
parent. -/
def firstUnknownParent? (definitions : List TypeDefinition) : Option (String × String) :=
  let names := definitions.map (·.name)
  definitions.findSome? fun d => (d.parents.find? (· ∉ names)).map fun parent => (d.name, parent)

/-- The first defined child of the type `name` that is not among the types `placed` so far. -/
def unplacedChild? (definitions : List TypeDefinition) (placed : List String) (name : String) :
    Option String :=
  (definitions.find? fun d => name ∈ d.parents ∧ d.name ∉ placed).map (·.name)

/-- The first child that stands behind its parent, if types are placed in the order of the list,
behind those in `placed`. A type counts as placed when its own children are looked at. -/
def misplacedChild? (definitions : List TypeDefinition) (placed : List String) :
    List String → Option String
  | [] => none
  | name :: rest =>
    match unplacedChild? definitions (name :: placed) name with
    | some child => some child
    | none => misplacedChild? definitions (name :: placed) rest

/-- A type on a cycle of `parents`, if there is one: the first type discovered that is its own
parent, or else the `misplacedChild?` of the order in which the types were finished, latest
first. -/
def cyclicType? (r : TypeRegistry) : Option String :=
  let visited := Traversal.visit r.names r.parents r.names
  match visited.discovered.reverse.find? fun name => name ∈ r.parents name with
  | some name => some name
  | none => misplacedChild? r.definitions [] visited.finished

/-- The registry of the given definitions, or the `RegistryError` of the first check that fails. -/
def build (definitions : List TypeDefinition) : Except RegistryError TypeRegistry :=
  match h : firstRepeated? [] (definitions.map (·.name)) with
  | some name => .error (.duplicateType name)
  | none =>
    match firstUnknownParent? definitions with
    | some (name, parent) => .error (.unknownParent name parent)
    | none =>
      let r : TypeRegistry := ⟨definitions, (nodup_of_firstRepeated?_eq_none h).1⟩
      match r.cyclicType? with
      | some name => .error (.inheritanceCycle name)
      | none => .ok r

end TypeRegistry

end DocTypes

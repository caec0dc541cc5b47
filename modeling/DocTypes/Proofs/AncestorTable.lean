import DocTypes.Registry.Basic
import Mathlib.Data.List.Basic

/-!
# The ancestor table of a registry

The supertypes of every type may be put into a table once and for all when a registry is built, by a
search with a bare stack of nodes from each of them. `is_subtype` and `ancestors` then look names up
in it. `sweep` is this search and `ancestorTable` this table. `TypeRegistry.ancestors` makes a
traversal instead whenever it is asked, and `ancestors_eq_lookup` and `isSubtype_eq_lookup` say that
the answers are the same.

`sweep_eq` is the reason. A traversal by `run` also remembers which nodes are still to be finished.
If these tasks are left out, and the nodes that have been discovered by now may be left out too, the
tasks are the stack of the sweep (`Waiting`), and both discover the same nodes in the same order.
-/

namespace DocTypes

namespace Traversal

universe u

variable {α : Type u} {nodes successors stack discovered : List α} {next : α → List α}
  {tasks : List (Task α)} {v : Visited α}

/-- Takes nodes off a stack until it is empty, and gives what has been discovered then, latest
first. A node that is new is discovered, and those of its successors that are new are put on the
stack. Any other node is passed over. -/
def sweep [DecidableEq α] (nodes : List α) (next : α → List α) : List α → List α → List α
  | [], discovered => discovered
  | n :: rest, discovered =>
    if n ∈ nodes ∧ n ∉ discovered then
      sweep nodes next ((next n).filter (· ∉ n :: discovered) ++ rest) (n :: discovered)
    else sweep nodes next rest discovered
termination_by stack discovered => ((undiscovered nodes ⟨discovered, []⟩).length, stack.length)
decreasing_by
  -- Either a node is discovered, and fewer are left, or the stack gets shorter.
  · next h =>
    have hlt := length_undiscovered_lt (v := ⟨discovered, []⟩) h.1 h.2
    exact Prod.Lex.left _ _ hlt
  · exact Prod.Lex.right _ (by simp)

/-- The stack of a sweep holds the nodes that `tasks` are to enter, except for some that are in
`discovered` already. -/
inductive Waiting (discovered : List α) : List (Task α) → List α → Prop
  | nil : Waiting discovered [] []
  | finish {n : α} {tasks : List (Task α)} {stack : List α} : Waiting discovered tasks stack →
      Waiting discovered (.finish n :: tasks) stack
  | enter {n : α} {tasks : List (Task α)} {stack : List α} : Waiting discovered tasks stack →
      Waiting discovered (.enter n :: tasks) (n :: stack)
  | passed {n : α} {tasks : List (Task α)} {stack : List α} : n ∈ discovered →
      Waiting discovered tasks stack → Waiting discovered (.enter n :: tasks) stack

/-- The same nodes are waiting when `n` has been discovered as well. -/
theorem Waiting.cons (h : Waiting discovered tasks stack) (n : α) :
    Waiting (n :: discovered) tasks stack := by
  induction h with
  | nil => exact .nil
  | finish _ ih => exact .finish ih
  | enter _ ih => exact .enter ih
  | passed hn _ ih => exact .passed (List.mem_cons_of_mem n hn) ih

variable [DecidableEq α]

/-- With the tasks to enter `successors`, those that are not in `discovered` are waiting. -/
theorem Waiting.push (h : Waiting discovered tasks stack) :
    Waiting discovered (successors.map .enter ++ tasks)
      (successors.filter (· ∉ discovered) ++ stack) := by
  induction successors with
  | nil => exact h
  | cons n successors ih =>
    rw [List.map_cons, List.cons_append]
    by_cases hn : n ∈ discovered
    · rw [List.filter_cons_of_neg (by simpa using hn)]
      exact .passed hn ih
    · rw [List.filter_cons_of_pos (by simpa using hn), List.cons_append]
      exact .enter ih

/-- A sweep discovers what `run` does with the tasks that its stack stands for, in the same
order. -/
theorem sweep_eq (h : Waiting v.discovered tasks stack) :
    sweep nodes next stack v.discovered = (run nodes next tasks v).discovered := by
  -- By induction on the run of the tasks, where `Waiting` gives the top of the stack in each case.
  fun_induction run nodes next tasks v generalizing stack with
  | case1 v =>
    cases h
    rw [sweep]
  | case2 n rest v ih =>
    cases h with
    | finish h => exact ih h
  | case3 n rest v hn ih =>
    cases h with
    | enter h =>
      rw [sweep, if_pos hn]
      exact ih (h.cons n).finish.push
    | passed hold => exact absurd hold hn.2
  | case4 n rest v hn ih =>
    cases h with
    | enter h =>
      rw [sweep, if_neg hn]
      exact ih h
    | passed _ h => exact ih h

/-- A sweep from one node discovers what `visit` does. -/
theorem sweep_singleton (n : α) :
    sweep nodes next [n] [] = (visit nodes next [n]).discovered := by
  have hstart : Waiting (⟨[], []⟩ : Visited α).discovered [.enter n] [n] := .enter .nil
  exact sweep_eq hstart

end Traversal

namespace TypeRegistry

variable {r : TypeRegistry} {name : String}

/-- What is kept for each registered type: the types that a `sweep` from it discovers, without the
type itself. -/
def ancestorTable (r : TypeRegistry) : List (String × List String) :=
  r.names.map fun name =>
    (name, (Traversal.sweep r.names r.parents [name] []).filter (· != name))

/-- The table has an entry for every registered type, with its `ancestors`. -/
theorem lookup_ancestorTable_of_mem (h : name ∈ r.names) :
    r.ancestorTable.lookup name = some (r.ancestors name) := by
  rw [ancestorTable, List.lookup_graph _ h, Traversal.sweep_singleton]
  rfl

/-- The table has no entry for a name that is not registered (`h`). -/
theorem lookup_ancestorTable_of_notMem (h : name ∉ r.names) :
    r.ancestorTable.lookup name = none := by
  rw [List.lookup_eq_none_iff]
  intro entry hentry
  obtain ⟨registered, hmem, rfl⟩ := List.mem_map.1 hentry
  have hne : name ≠ registered := by
    rintro rfl
    exact h hmem
  simpa using hne

/-- A name that is not registered has no ancestors, since no traversal starts from it. -/
theorem ancestors_of_notMem (h : name ∉ r.names) : r.ancestors name = [] := by
  have hnone : (Traversal.visit r.names r.parents [name]).discovered = [] := by
    rw [← Traversal.sweep_singleton, Traversal.sweep, if_neg (fun hnew => h hnew.1),
      Traversal.sweep]
  rw [ancestors, hnone, List.filter_nil]

/-- `ancestors` gives what stands in the table, and nothing where there is no entry. -/
theorem ancestors_eq_lookup (r : TypeRegistry) (name : String) :
    r.ancestors name = (r.ancestorTable.lookup name).getD [] := by
  by_cases h : name ∈ r.names
  · rw [lookup_ancestorTable_of_mem h, Option.getD_some]
  · rw [lookup_ancestorTable_of_notMem h, Option.getD_none, ancestors_of_notMem h]

/-- `isSubtype` is `is_subtype`: the two names are the same, or the child has an entry in the table
and the ancestor is in it. -/
theorem isSubtype_eq_lookup (r : TypeRegistry) (child ancestor : String) :
    r.isSubtype child ancestor =
      (child == ancestor || (r.ancestorTable.lookup child).any (·.contains ancestor)) := by
  rw [isSubtype, ancestors_eq_lookup]
  cases r.ancestorTable.lookup child <;> rfl

end TypeRegistry

end DocTypes

/-!
# Depth-first traversal

A traversal of a finite directed graph that is given by its `nodes` and the successors of each, by
`next`. A node is entered once, then its successors in order with all that can be reached from them,
and then it is finished. `Visited` keeps both orders, latest first.

`run` works on a list of tasks. Entering a new node leaves one node fewer in `undiscovered`, and
every other step leaves one task fewer, so it ends.
-/

namespace DocTypes.Traversal

universe u

variable {α : Type u} [DecidableEq α]

/-- A step that is still to be made: to enter the node `n`, or to finish it. -/
inductive Task (α : Type u)
  | enter (n : α)
  | finish (n : α)

/-- What a traversal has seen, in the order of entering (`discovered`) and of finishing
(`finished`), latest first. -/
structure Visited (α : Type u) where
  discovered : List α := []
  finished : List α := []

/-- The `nodes` that are still to be discovered by a traversal that has seen `v`. -/
def undiscovered (nodes : List α) (v : Visited α) : List α :=
  nodes.filter fun n => n ∉ v.discovered

/-- Discovering `n` leaves fewer nodes in `undiscovered`, if it is a node and new to `v`. -/
theorem length_undiscovered_lt {nodes : List α} {n : α} {v : Visited α} (hn : n ∈ nodes)
    (hv : n ∉ v.discovered) :
    (undiscovered nodes { v with discovered := n :: v.discovered }).length <
      (undiscovered nodes v).length := by
  have : undiscovered nodes { v with discovered := n :: v.discovered } =
      (undiscovered nodes v).filter (· ≠ n) := by
    simp [undiscovered, List.filter_filter]
  -- What is still to be discovered then is what was before, without `n`, which was in it.
  rw [this, List.length_filter_lt_length_iff_exists]
  exact ⟨n, by simp [undiscovered, hn, hv], by simp⟩

/-- Makes the given steps, one after the other. What is not in `nodes` is passed over, and so is
what is in `discovered` already. -/
def run (nodes : List α) (next : α → List α) : List (Task α) → Visited α → Visited α
  | [], v => v
  | .finish n :: rest, v => run nodes next rest { v with finished := n :: v.finished }
  | .enter n :: rest, v =>
    if h : n ∈ nodes ∧ n ∉ v.discovered then
      run nodes next ((next n).map .enter ++ .finish n :: rest)
        { v with discovered := n :: v.discovered }
    else run nodes next rest v
termination_by tasks v => ((undiscovered nodes v).length, tasks.length)
decreasing_by
  · exact Prod.Lex.right _ (by simp)
  · exact Prod.Lex.left _ _ (length_undiscovered_lt h.1 h.2)
  · exact Prod.Lex.right _ (by simp)

/-- The traversal from the given `starts`, one after the other, with nothing seen before. -/
def visit (nodes : List α) (next : α → List α) (starts : List α) : Visited α :=
  run nodes next (starts.map .enter) {}

end DocTypes.Traversal

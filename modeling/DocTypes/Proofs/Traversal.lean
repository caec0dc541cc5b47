import DocTypes.Registry.Traversal
import Mathlib.Logic.Relation

/-!
# What a depth-first traversal reaches

The nodes and their successors make a directed graph, whose edges are `Edge`. A traversal by `visit`
discovers the nodes that can be reached in this graph from its starts, each once
(`mem_discovered_visit`, `nodup_discovered_visit`), and it finishes the same nodes
(`mem_finished_visit`).

The three facts are read off one invariant, `Consistent`, at the end of the traversal, when no tasks
are left. Every kind of step keeps the invariant (`Consistent.skip`, `Consistent.discover`,
`Consistent.finish`), and so does the run (`Consistent.run`).
-/

namespace DocTypes.Traversal

universe u

variable {α : Type u} {nodes starts : List α} {next : α → List α}

/-- The edges of the graph, from a node `a` to those of the nodes in `next a` that are in
`nodes`. -/
def Edge (nodes : List α) (next : α → List α) (a b : α) : Prop := b ∈ next a ∧ b ∈ nodes

/-- The node `n` can be reached by `Edge` from one of the `starts` that is in `nodes`. -/
def Reachable (nodes : List α) (next : α → List α) (starts : List α) (n : α) : Prop :=
  ∃ s ∈ starts, s ∈ nodes ∧ Relation.ReflTransGen (Edge nodes next) s n

/-- A start `s` that is a node is `Reachable`, by no edge at all. -/
theorem Reachable.of_start {s : α} (hs : s ∈ starts) (hn : s ∈ nodes) :
    Reachable nodes next starts s :=
  ⟨s, hs, hn, .refl⟩

/-- Behind an edge from a node that is `Reachable` stands a node that is. -/
theorem Reachable.tail {a b : α} (ha : Reachable nodes next starts a) (hab : Edge nodes next a b) :
    Reachable nodes next starts b := by
  obtain ⟨s, hs, hn, hsa⟩ := ha
  exact ⟨s, hs, hn, hsa.tail hab⟩

/-- The invariant of a traversal from `starts`: what it has seen so far, as `v` says, while `tasks`
are still to be done. -/
structure Consistent (nodes : List α) (next : α → List α) (starts : List α)
    (tasks : List (Task α)) (v : Visited α) : Prop where
  /-- No node has been discovered twice. -/
  nodup : v.discovered.Nodup
  /-- A node that has been discovered, or that a task is to enter, is `Reachable`. -/
  reachable : ∀ n ∈ nodes, n ∈ v.discovered ∨ .enter n ∈ tasks → Reachable nodes next starts n
  /-- Only members of `nodes` have been discovered. -/
  subset_nodes : ∀ n ∈ v.discovered, n ∈ nodes
  /-- The node behind an edge from a discovered node has been discovered, or a task is to enter
  it. -/
  closed : ∀ a ∈ v.discovered, ∀ b, Edge nodes next a b → b ∈ v.discovered ∨ .enter b ∈ tasks
  /-- The `starts` that are nodes have been discovered, or a task is to enter them. -/
  starts_covered : ∀ s ∈ starts, s ∈ nodes → s ∈ v.discovered ∨ .enter s ∈ tasks
  /-- The discovered nodes are those in `v.finished` and those that a task is to finish. -/
  finishes : ∀ n, n ∈ v.discovered ↔ n ∈ v.finished ∨ .finish n ∈ tasks

namespace Consistent

variable {tasks rest : List (Task α)} {v : Visited α} {n : α}

/-- At the beginning nothing has been seen, and the tasks are to enter the `starts`. -/
theorem init : Consistent nodes next starts (starts.map .enter) {} where
  nodup := List.nodup_nil
  reachable := by
    intro n hn h
    simp only [List.not_mem_nil, List.mem_map, Task.enter.injEq, exists_eq_right, false_or] at h
    exact .of_start h hn
  subset_nodes := by simp
  closed := by simp
  starts_covered := by
    intro s hs _
    exact .inr (List.mem_map_of_mem hs)
  finishes := by simp

/-- The task to enter `n` may be passed over if `n` has been discovered, or if it is no node. -/
theorem skip (h : Consistent nodes next starts (.enter n :: rest) v)
    (hn : ¬(n ∈ nodes ∧ n ∉ v.discovered)) : Consistent nodes next starts rest v := by
  -- No node is lost with the step: if it was the only one to enter `n`, then `n` is discovered.
  have hkeep : ∀ b ∈ nodes, b ∈ v.discovered ∨ .enter b ∈ Task.enter n :: rest →
      b ∈ v.discovered ∨ .enter b ∈ rest := by
    intro b hb hbn
    by_cases hd : b ∈ v.discovered
    · exact .inl hd
    · have hne : b ≠ n := by
        rintro rfl
        exact hn ⟨hb, hd⟩
      simpa [hd, hne] using hbn
  exact {
    nodup := h.nodup
    reachable := fun b hb hbn => h.reachable b hb (hbn.imp id (List.mem_cons_of_mem _))
    subset_nodes := h.subset_nodes
    closed := fun a ha b hab => hkeep b hab.2 (h.closed a ha b hab)
    starts_covered := fun s hs hsn => hkeep s hsn (h.starts_covered s hs hsn)
    finishes := by simpa using h.finishes }

/-- The node `n` may be discovered if it is new (`hd`); the tasks are then to enter `next n`, and to
finish `n` behind these. -/
theorem discover (h : Consistent nodes next starts (.enter n :: rest) v) (hn : n ∈ nodes)
    (hd : n ∉ v.discovered) :
    Consistent nodes next starts ((next n).map .enter ++ .finish n :: rest)
      { v with discovered := n :: v.discovered } := by
  have hr : Reachable nodes next starts n := h.reachable n hn (by simp)
  -- What was discovered or to be entered before still is, the node itself included.
  have hkeep : ∀ b, b ∈ v.discovered ∨ .enter b ∈ Task.enter n :: rest →
      b ∈ n :: v.discovered ∨ .enter b ∈ (next n).map .enter ++ Task.finish n :: rest := by
    intro b hb
    rcases hb with hb | hb
    · exact .inl (List.mem_cons_of_mem _ hb)
    · rcases List.mem_cons.1 hb with hb | hb
      · cases hb
        exact .inl List.mem_cons_self
      · exact .inr (by simp [hb])
  refine ⟨List.nodup_cons.2 ⟨hd, h.nodup⟩, ?_, ?_, ?_, ?_, ?_⟩
  · intro b hb hbn
    -- Only the successors of `n` are new among the nodes to be entered.
    simp only [List.mem_cons, List.mem_append, List.mem_map, Task.enter.injEq, exists_eq_right,
      reduceCtorEq, false_or] at hbn
    rcases hbn with (rfl | hb') | hb' | hb'
    · exact hr
    · exact h.reachable b hb (.inl hb')
    · exact hr.tail ⟨hb', hb⟩
    · exact h.reachable b hb (.inr (List.mem_cons_of_mem _ hb'))
  · intro b hb
    rcases List.mem_cons.1 hb with rfl | hb
    · exact hn
    · exact h.subset_nodes b hb
  · intro a ha b hab
    rcases List.mem_cons.1 ha with rfl | ha
    · exact .inr (by simp [hab.1])
    · exact hkeep b (h.closed a ha b hab)
  · intro s hs hsn
    exact hkeep s (h.starts_covered s hs hsn)
  · intro b
    -- `n` joins the discovered nodes and the nodes to be finished at once.
    have hb := h.finishes b
    simp only [List.mem_cons, reduceCtorEq, false_or] at hb
    simp only [List.mem_cons, List.mem_append, List.mem_map, Task.finish.injEq, reduceCtorEq,
      and_false, exists_false, false_or, hb]
    exact or_left_comm

/-- The task to finish `n` may be done. -/
theorem finish (h : Consistent nodes next starts (.finish n :: rest) v) :
    Consistent nodes next starts rest { v with finished := n :: v.finished } where
  nodup := h.nodup
  reachable := fun b hb hbn => h.reachable b hb (hbn.imp id (List.mem_cons_of_mem _))
  subset_nodes := h.subset_nodes
  closed := by simpa using h.closed
  starts_covered := by simpa using h.starts_covered
  finishes := by
    intro b
    rw [h.finishes b]
    simp only [List.mem_cons, Task.finish.injEq]
    rw [or_assoc, or_left_comm]

/-- The invariant holds through `Traversal.run`, to its end, where no task is left. -/
theorem run [DecidableEq α] (h : Consistent nodes next starts tasks v) :
    Consistent nodes next starts [] (run nodes next tasks v) := by
  -- Each kind of step has its lemma, and the cases of `run` are the kinds of steps.
  fun_induction Traversal.run nodes next tasks v with
  | case1 v => exact h
  | case2 n rest v ih => exact ih h.finish
  | case3 n rest v hn ih => exact ih (h.discover hn.1 hn.2)
  | case4 n rest v hn ih => exact ih (h.skip hn)

end Consistent

variable [DecidableEq α] {n : α}

/-- The invariant holds at the end of `visit`, with no task left, so its parts say what has been
seen. -/
theorem consistent_visit : Consistent nodes next starts [] (visit nodes next starts) :=
  Consistent.init.run

/-- `visit` discovers no node twice. -/
theorem nodup_discovered_visit : (visit nodes next starts).discovered.Nodup :=
  consistent_visit.nodup

/-- `visit` discovers the nodes that are `Reachable` from the starts. -/
theorem mem_discovered_visit :
    n ∈ (visit nodes next starts).discovered ↔ Reachable nodes next starts n := by
  have hv : Consistent nodes next starts [] (visit nodes next starts) := consistent_visit
  constructor
  · intro hn
    exact hv.reachable n (hv.subset_nodes n hn) (.inl hn)
  · rintro ⟨s, hs, hsn, hsr⟩
    -- From the start on, every edge leads to a discovered node.
    induction hsr with
    | refl => simpa using hv.starts_covered s hs hsn
    | tail _ hab ih => simpa using hv.closed _ ih _ hab

/-- `visit` finishes the nodes that it discovers. -/
theorem mem_finished_visit :
    n ∈ (visit nodes next starts).finished ↔ n ∈ (visit nodes next starts).discovered := by
  have hv : Consistent nodes next starts [] (visit nodes next starts) := consistent_visit
  rw [hv.finishes n]
  simp

end DocTypes.Traversal

import DocTypes.Proofs.Traversal

/-!
# The order of finishing

A traversal by `visit` finishes a node after all that it enters from there. So the successors of a
node have been finished before it, unless an edge goes back to a node that is still open; then the
edge lies on a cycle. `mem_or_reaches_of_finished` says so of a whole traversal: a successor stands
among those finished earlier, or the node can be reached from it again.

The tasks are a stack. `Ordered` says what stands in it above the end of a node: only what can be
reached from the node, and every successor that is neither finished nor on the way down to the node.
It is kept by each kind of step, as `Consistent` is, and by `run`.
-/

namespace DocTypes.Traversal

open Relation (ReflTransGen)

universe u

variable {α : Type u} {nodes starts : List α} {next : α → List α}

namespace Task

/-- The node that a task is about, to enter it or to finish it. -/
def node : Task α → α
  | enter n => n
  | finish n => n

/-- The node that a task finishes: `enter` finishes none. -/
def finished? : Task α → Option α
  | enter _ => none
  | finish n => some n

end Task

/-- The invariant `Consistent`, and with it the order in which nodes have been finished, as
`v.finished` gives it, latest first. -/
structure Ordered (nodes : List α) (next : α → List α) (starts : List α)
    (tasks : List (Task α)) (v : Visited α) : Prop
    extends Consistent nodes next starts tasks v where
  /-- Every discovered node is finished once, now in `v.finished` or later by one of `tasks`. -/
  perm : v.discovered.Perm (v.finished ++ tasks.filterMap Task.finished?)
  /-- What is to be done before `n` is finished is about nodes that can be reached from `n`. -/
  above : tasks.Pairwise fun t u => ∀ n, u = .finish n → t.node ∈ nodes →
    ReflTransGen (Edge nodes next) n t.node
  /-- A successor `b` of a node that is to be finished has been finished or comes `before`, or the
  node can be reached from `b` again. -/
  successors : ∀ before n after, tasks = before ++ .finish n :: after → ∀ b, Edge nodes next n b →
    b ∈ v.finished ∨ (∃ t ∈ before, t.node = b) ∨ ReflTransGen (Edge nodes next) b n
  /-- The same of the nodes that have been finished, where `earlier` are those finished before
  `n`. -/
  order : ∀ later n earlier, v.finished = later ++ n :: earlier → ∀ b, Edge nodes next n b →
    b ∈ earlier ∨ ReflTransGen (Edge nodes next) b n

namespace Ordered

variable {tasks rest : List (Task α)} {v : Visited α} {n : α}

/-- A node that a task is to finish has been discovered, so it is in `nodes`. -/
theorem mem_nodes_of_finish (h : Ordered nodes next starts tasks v) (hn : .finish n ∈ tasks) :
    n ∈ nodes :=
  h.subset_nodes n ((h.finishes n).2 (.inr hn))

/-- A node that a task is to finish is not in `v.finished` yet, by `perm`. -/
theorem notMem_finished (h : Ordered nodes next starts (.finish n :: tasks) v) :
    n ∉ v.finished := by
  have hnodup : (v.finished ++ (Task.finish n :: tasks).filterMap Task.finished?).Nodup :=
    h.perm.nodup_iff.1 h.nodup
  intro hn
  exact (List.nodup_append.1 hnodup).2.2 n hn n (by simp [Task.finished?]) rfl

/-- At the beginning no task is to finish a node. -/
theorem init : Ordered nodes next starts (starts.map .enter) {} where
  toConsistent := .init
  perm := by
    have hnone : (starts.map Task.enter).filterMap Task.finished? = [] := by
      simp [List.filterMap_map, Function.comp_def, Task.finished?]
    rw [hnone]
    exact List.Perm.nil
  above := by
    rw [List.pairwise_map]
    exact List.pairwise_of_forall fun _ _ _ h => by cases h
  successors := by
    intro before n after hsplit
    have hmem : Task.finish n ∈ starts.map .enter := by simp [hsplit]
    simp at hmem
  order := by simp

/-- A discovered node `b` has been finished, or will be by a task in `before`, or leads to `m`. -/
theorem cases_of_discovered {before after : List (Task α)} {m b : α}
    (h : Ordered nodes next starts (before ++ .finish m :: after) v) (hb : b ∈ v.discovered) :
    b ∈ v.finished ∨ .finish b ∈ before ∨ ReflTransGen (Edge nodes next) b m := by
  rcases (h.finishes b).1 hb with hf | hopen
  · exact .inl hf
  · rcases List.mem_append.1 hopen with hbefore | hopen
    · exact .inr (.inl hbefore)
    · rcases List.mem_cons.1 hopen with heq | hafter
      · cases heq
        exact .inr (.inr .refl)
      · -- `b` stands below `m`, so `m` was entered on the way from `b`.
        have hm : m ∈ nodes := h.mem_nodes_of_finish (by simp)
        have habove := List.pairwise_cons.1 (List.pairwise_append.1 h.above).2.1
        exact .inr (.inr (habove.1 _ hafter b rfl hm))

/-- The task to enter `n` may be passed over if `n` has been discovered, or if it is no node, as in
`Consistent.skip`. -/
theorem skip (h : Ordered nodes next starts (.enter n :: rest) v)
    (hn : ¬(n ∈ nodes ∧ n ∉ v.discovered)) : Ordered nodes next starts rest v where
  toConsistent := h.toConsistent.skip hn
  perm := h.perm
  above := (List.pairwise_cons.1 h.above).2
  successors := by
    intro before m after hsplit b hb
    subst hsplit
    rw [← List.cons_append] at h
    rcases h.successors (.enter n :: before) m after rfl b hb with hf | ⟨t, ht, htb⟩ | hr
    · exact .inl hf
    · rcases List.mem_cons.1 ht with rfl | ht
      · -- `b` is the node that is passed over.
        obtain rfl : n = b := htb
        have hd : n ∈ v.discovered :=
          Classical.byContradiction fun hnd => hn ⟨hb.2, hnd⟩
        rcases h.cases_of_discovered hd with hf | hbefore | hr
        · exact .inl hf
        · exact .inr (.inl ⟨.finish n, by simpa using hbefore, rfl⟩)
        · exact .inr (.inr hr)
      · exact .inr (.inl ⟨t, ht, htb⟩)
    · exact .inr (.inr hr)
  order := h.order

/-- The node `n` may be discovered if it is new, when the tasks are to enter `next n` before `n` is
finished, as in `Consistent.discover`. -/
theorem discover (h : Ordered nodes next starts (.enter n :: rest) v) (hn : n ∈ nodes)
    (hd : n ∉ v.discovered) :
    Ordered nodes next starts ((next n).map .enter ++ .finish n :: rest)
      { v with discovered := n :: v.discovered } where
  toConsistent := h.toConsistent.discover hn hd
  perm := by
    have hnone : ((next n).map Task.enter).filterMap Task.finished? = [] := by
      simp [List.filterMap_map, Function.comp_def, Task.finished?]
    rw [List.filterMap_append, hnone, List.nil_append]
    exact (h.perm.cons n).trans List.perm_middle.symm
  above := by
    obtain ⟨hfirst, hrest⟩ := List.pairwise_cons.1 h.above
    -- All that stands below `n` leads to it.
    have hbelow : ∀ m, Task.finish m ∈ Task.finish n :: rest →
        ReflTransGen (Edge nodes next) m n := by
      intro m hm
      rcases List.mem_cons.1 hm with heq | hm
      · cases heq
        exact .refl
      · exact hfirst _ hm m rfl hn
    refine List.pairwise_append.2 ⟨?_, List.pairwise_cons.2 ⟨?_, hrest⟩, ?_⟩
    · rw [List.pairwise_map]
      exact List.pairwise_of_forall fun _ _ _ heq => by cases heq
    · rintro u hu m rfl -
      exact hbelow m (List.mem_cons_of_mem _ hu)
    · rintro t ht u hu m rfl hnode
      obtain ⟨b, hb, rfl⟩ := List.mem_map.1 ht
      exact (hbelow m hu).tail ⟨hb, hnode⟩
  successors := by
    intro before m after hsplit b hb
    -- The task to finish `m` stands behind the new ones, and then it is that of `n` or an old one,
    -- or it stands among them.
    rcases List.append_eq_append_iff.1 hsplit with ⟨upper, rfl, hlower⟩ | ⟨lower, hupper, hlower⟩
    · rcases List.cons_eq_append_iff.1 hlower with ⟨rfl, hm⟩ | ⟨upper', rfl, hrest⟩
      · -- The successors of `n` itself come first.
        obtain ⟨heq, -⟩ := List.cons.inj hm
        cases heq
        exact .inr (.inl ⟨.enter b, by simpa using hb.1, rfl⟩)
      · subst hrest
        rcases h.successors (.enter n :: upper') m after rfl b hb with hf | ⟨t, ht, htb⟩ | hr
        · exact .inl hf
        · rcases List.mem_cons.1 ht with rfl | ht
          · exact .inr (.inl ⟨.finish n, by simp, htb⟩)
          · exact .inr (.inl ⟨t, by simp [ht], htb⟩)
        · exact .inr (.inr hr)
    · -- Among the successors that are entered none is finished.
      cases lower with
      | nil =>
        obtain ⟨heq, -⟩ := List.cons.inj hlower
        cases heq
        rw [List.append_nil] at hupper
        exact .inr (.inl ⟨.enter b, hupper ▸ List.mem_map_of_mem hb.1, rfl⟩)
      | cons t lower =>
        obtain ⟨rfl, -⟩ := List.cons.inj hlower
        have hmem : Task.finish m ∈ (next n).map .enter := by simp [hupper]
        simp at hmem
  order := h.order

/-- The task to finish `n` may be done, as in `Consistent.finish`. -/
theorem finish (h : Ordered nodes next starts (.finish n :: rest) v) :
    Ordered nodes next starts rest { v with finished := n :: v.finished } where
  toConsistent := h.toConsistent.finish
  perm := h.perm.trans List.perm_middle
  above := (List.pairwise_cons.1 h.above).2
  successors := by
    intro before m after hsplit b hb
    subst hsplit
    rcases h.successors (.finish n :: before) m after rfl b hb with hf | ⟨t, ht, htb⟩ | hr
    · exact .inl (List.mem_cons_of_mem _ hf)
    · rcases List.mem_cons.1 ht with rfl | ht
      · obtain rfl : n = b := htb
        exact .inl List.mem_cons_self
      · exact .inr (.inl ⟨t, ht, htb⟩)
    · exact .inr (.inr hr)
  order := by
    intro later m earlier hsplit b hb
    rcases List.cons_eq_append_iff.1 hsplit with ⟨rfl, hm⟩ | ⟨later', rfl, hrest⟩
    · -- Nothing stands above the node that is finished now.
      obtain ⟨rfl, rfl⟩ := List.cons.inj hm
      simpa using h.successors [] m rest rfl b hb
    · exact h.order later' m earlier hrest b hb

/-- The order is kept through the `run` of the first tasks, when those of `later` are still to be
done. -/
theorem run [DecidableEq α] {later : List (Task α)}
    (h : Ordered nodes next starts (tasks ++ later) v) :
    Ordered nodes next starts later (run nodes next tasks v) := by
  fun_induction Traversal.run nodes next tasks v with
  | case1 v => exact h
  | case2 n rest v ih => exact ih h.finish
  | case3 n rest v hn ih =>
    refine ih ?_
    rw [List.append_assoc]
    exact h.discover hn.1 hn.2
  | case4 n rest v hn ih => exact ih (h.skip hn)

end Ordered

variable [DecidableEq α] {n b : α} {later earlier : List α}

/-- The order at the end of `visit`, where no task is left. -/
theorem ordered_visit : Ordered nodes next starts [] (visit nodes next starts) := by
  refine Ordered.run ?_
  rw [List.append_nil]
  exact Ordered.init

/-- `visit` finishes no node twice. -/
theorem nodup_finished_visit : (visit nodes next starts).finished.Nodup := by
  have hv : Ordered nodes next starts [] (visit nodes next starts) := ordered_visit
  have hperm : (visit nodes next starts).discovered.Perm (visit nodes next starts).finished := by
    simpa using hv.perm
  exact hperm.nodup_iff.1 hv.nodup

/-- A successor `b` of `n` is in `earlier`, among the nodes finished before `n`, or `n` can be
reached from `b` again. -/
theorem mem_or_reaches_of_finished
    (hsplit : (visit nodes next starts).finished = later ++ n :: earlier)
    (hb : Edge nodes next n b) : b ∈ earlier ∨ ReflTransGen (Edge nodes next) b n :=
  ordered_visit.order later n earlier hsplit b hb

end DocTypes.Traversal

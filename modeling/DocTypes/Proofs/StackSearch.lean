import DocTypes.Proofs.FinishOrder

/-!
# Depth-first search with a stack of nodes

A traversal by `run` keeps a list of tasks, and a task says whether its node is to be entered or to
be finished. The same search can be made with a bare stack of nodes, as `toposort` makes it: a node
that is met for the first time stays on the stack below its new successors, and is finished when it
is met again. Such a stack may hold a node several times. `search` is this algorithm. It goes over
one stack and gives up at a node that is its own successor; `searchFrom` repeats it from every node
that is still new.

`searchFrom_eq` says that the outcome is that of the traversal. `Stacked` relates the two stacks
while they run. What has been discovered by now may be missing among the nodes, and a node that
stands there to be entered has not been opened below that place. So when it is met after it has been
discovered, it is finished already, and nothing happens.
-/

namespace DocTypes.Traversal

universe u

variable {α : Type u} {nodes starts : List α} {next : α → List α}

/-! ## The two stacks -/

/-- A bare stack of nodes that stands for a list of tasks when `discovered` has been discovered. A
node that a task is to enter may be missing if it is in `discovered`, and stands there only where no
task below is to finish it. -/
inductive Stacked (nodes discovered : List α) : List (Task α) → List α → Prop
  | nil : Stacked nodes discovered [] []
  | finish {n : α} {tasks : List (Task α)} {stack : List α} : Stacked nodes discovered tasks stack →
      Stacked nodes discovered (.finish n :: tasks) (n :: stack)
  | enter {n : α} {tasks : List (Task α)} {stack : List α} : n ∈ nodes → .finish n ∉ tasks →
      Stacked nodes discovered tasks stack →
      Stacked nodes discovered (.enter n :: tasks) (n :: stack)
  | passed {n : α} {tasks : List (Task α)} {stack : List α} : n ∈ discovered →
      Stacked nodes discovered tasks stack → Stacked nodes discovered (.enter n :: tasks) stack

/-- The stack stands for the same tasks when `n` has been discovered as well. -/
theorem Stacked.cons {discovered stack : List α} {tasks : List (Task α)}
    (h : Stacked nodes discovered tasks stack) (n : α) :
    Stacked nodes (n :: discovered) tasks stack := by
  induction h with
  | nil => exact .nil
  | finish _ ih => exact .finish ih
  | enter hn hnew _ ih => exact .enter hn hnew ih
  | passed hn _ ih => exact .passed (List.mem_cons_of_mem n hn) ih

variable [DecidableEq α]

/-- The new ones of `successors`, put on a stack, stand for the tasks to enter all of them. Only
what has been discovered is open, by `hopen`. -/
theorem Stacked.push {discovered stack successors : List α} {tasks : List (Task α)}
    (h : Stacked nodes discovered tasks stack)
    (hnodes : ∀ n ∈ successors, n ∈ nodes) (hopen : ∀ n, .finish n ∈ tasks → n ∈ discovered) :
    Stacked nodes discovered (successors.map .enter ++ tasks)
      (successors.filter (· ∉ discovered) ++ stack) := by
  induction successors with
  | nil => exact h
  | cons n successors ih =>
    have hrest := ih fun m hm => hnodes m (List.mem_cons_of_mem n hm)
    rw [List.map_cons, List.cons_append]
    by_cases hn : n ∈ discovered
    · rw [List.filter_cons_of_neg (by simpa using hn)]
      exact .passed hn hrest
    · rw [List.filter_cons_of_pos (by simpa using hn), List.cons_append]
      refine .enter (hnodes n List.mem_cons_self) ?_ hrest
      -- What is open has been discovered.
      intro hmem
      rcases List.mem_append.1 hmem with hmem | hmem
      · simp at hmem
      · exact hn (hopen n hmem)

/-! ## The algorithm -/

/-- Looks at the top of a stack of nodes until the stack is empty, as the first pass of `toposort`
does. A new node is discovered, and its new successors are put on top of it. Any other node is taken
off, and finished unless it has been. The search ends at once with a node that is its own
successor. -/
def search (nodes : List α) (next : α → List α) : List α → Visited α → Except α (Visited α)
  | [], v => .ok v
  | n :: rest, v =>
    if n ∈ nodes ∧ n ∉ v.discovered then
      if n ∈ next n then .error n
      else
        search nodes next ((next n).filter (· ∉ n :: v.discovered) ++ n :: rest)
          { v with discovered := n :: v.discovered }
    else if n ∈ v.finished then search nodes next rest v
    else search nodes next rest { v with finished := n :: v.finished }
termination_by stack v => ((undiscovered nodes v).length, stack.length)
decreasing_by
  -- Either a node is discovered, and fewer are left, or the stack gets shorter.
  · next h _ => exact Prod.Lex.left _ _ (length_undiscovered_lt h.1 h.2)
  · exact Prod.Lex.right _ (by simp)
  · exact Prod.Lex.right _ (by simp)

/-- A `search` from each of the nodes in `pending` that is still new when its turn comes. -/
def searchFrom (nodes : List α) (next : α → List α) (pending : List α) (v : Visited α) :
    Except α (Visited α) :=
  pending.foldlM (fun v n => if n ∈ v.discovered then .ok v else search nodes next [n] v) v

/-- What a search comes to that has seen all that `v` says: the first node discovered that is its
own successor, if there is one. The latest stands first in `discovered`, so it is reversed. -/
def outcome (next : α → List α) (v : Visited α) : Except α (Visited α) :=
  match v.discovered.reverse.find? fun n => n ∈ next n with
  | some n => .error n
  | none => .ok v

/-! ## Running on -/

variable {tasks later : List (Task α)} {stack : List α} {v : Visited α} {n : α}

/-- The tasks of `run` may be done in two parts, those of `tasks` and then those of `later`. -/
theorem run_append : run nodes next (tasks ++ later) v =
    run nodes next later (run nodes next tasks v) := by
  fun_induction run nodes next tasks v with
  | case1 v => rfl
  | case2 n rest v ih => rw [List.cons_append, run, ih]
  | case3 n rest v hn ih =>
    rw [List.cons_append, run, dif_pos hn, ← ih, List.append_assoc, List.cons_append]
  | case4 n rest v hn ih => rw [List.cons_append, run, dif_neg hn, ih]

/-- Whatever `run` discovers is added in front, and what has been discovered stays so. -/
theorem suffix_discovered_run : v.discovered <:+ (run nodes next tasks v).discovered := by
  fun_induction run nodes next tasks v with
  | case1 v => exact List.suffix_rfl
  | case2 n rest v ih => exact ih
  | case3 n rest v hn ih => exact (List.suffix_cons n v.discovered).trans ih
  | case4 n rest v hn ih => exact ih

/-- The `outcome` is a success if no node that has been discovered is its own successor. -/
theorem outcome_eq_ok_iff {w : Visited α} :
    outcome next v = .ok w ↔ w = v ∧ ∀ n ∈ v.discovered, n ∉ next n := by
  unfold outcome
  split
  · next n hn =>
    have hmem : n ∈ v.discovered := List.mem_reverse.1 (List.mem_of_find?_eq_some hn)
    have hself : n ∈ next n := by simpa using List.find?_some hn
    refine ⟨nofun, ?_⟩
    rintro ⟨-, hno⟩
    exact absurd hself (hno n hmem)
  · next hno =>
    have hall : ∀ n ∈ v.discovered, n ∉ next n := by simpa using hno
    rw [Except.ok.injEq, eq_comm]
    exact (and_iff_left hall).symm

/-- A node that ends a search ends it however `run` would go on, as the traversal does not stop
there. -/
theorem outcome_run_of_error (h : outcome next v = .error n) :
    outcome next (run nodes next tasks v) = .error n := by
  have hsuffix : v.discovered <:+ (run nodes next tasks v).discovered := suffix_discovered_run
  -- What `run` adds was discovered later, and the first of all counts.
  obtain ⟨more, hmore⟩ := hsuffix
  have hfound : (v.discovered.reverse.find? fun n => n ∈ next n) = some n := by
    unfold outcome at h
    split at h
    · next m hm => rw [hm, Except.error.inj h]
    · cases h
  unfold outcome
  rw [← hmore, List.reverse_append, List.find?_append, hfound]
  rfl

/-- The first node that is its own successor, `n` by `hn` and `hloop`, ends the search. -/
theorem outcome_of_mem_next (hloop : ∀ m ∈ v.discovered, m ∉ next m) (hn : n ∈ next n) :
    outcome next { v with discovered := n :: v.discovered } = .error n := by
  have hbefore : (v.discovered.reverse.find? fun m => m ∈ next m) = none := by
    simpa using hloop
  unfold outcome
  simp only [List.reverse_cons]
  rw [List.find?_append, hbefore, List.find?_singleton, if_pos (by simpa using hn)]
  rfl

/-- A `search` goes as `run` does with the tasks that its stack stands for: it comes to the
`outcome` of what `run` has seen in the end. Further tasks `later` may follow, and none of them
finishes a node. -/
theorem search_eq (hnodes : ∀ a b, b ∈ next a → b ∈ nodes)
    (h : Ordered nodes next starts (tasks ++ later) v) (hlater : ∀ n, .finish n ∉ later)
    (hstack : Stacked nodes v.discovered tasks stack) (hloop : ∀ n ∈ v.discovered, n ∉ next n) :
    search nodes next stack v = outcome next (run nodes next tasks v) := by
  -- By induction on the run of the tasks. `Ordered` is kept by each step, as are `hstack` and
  -- `hloop`, so that in each case the stack makes the step of the tasks or none.
  fun_induction run nodes next tasks v generalizing stack with
  | case1 v =>
    cases hstack
    rw [search, outcome_eq_ok_iff.2 ⟨rfl, hloop⟩]
  | case2 n rest v ih =>
    cases hstack with
    | @finish _ _ stack hstack =>
      have hn : n ∈ v.discovered := (h.finishes n).2 (.inr List.mem_cons_self)
      have hopen : n ∉ v.finished := h.notMem_finished
      rw [search, if_neg (fun hnew => hnew.2 hn), if_neg hopen]
      exact ih h.finish hstack hloop
  | case3 n rest v hn ih =>
    cases hstack with
    -- A node that is new is not missing on the stack.
    | passed hold => exact absurd hold hn.2
    | @enter _ _ stack _ _ hstack =>
      rw [search, if_pos hn]
      by_cases hself : n ∈ next n
      · rw [if_pos hself, outcome_run_of_error (outcome_of_mem_next hloop hself)]
      · rw [if_neg hself]
        have hdiscover := h.discover hn.1 hn.2
        rw [List.append_assoc] at ih
        refine ih hdiscover ?_ ?_
        · have hopen : ∀ m, .finish m ∈ Task.finish n :: rest → m ∈ n :: v.discovered := by
            intro m hm
            refine (hdiscover.finishes m).2 (.inr (List.mem_append_right _ ?_))
            exact List.mem_append_left later hm
          exact (Stacked.finish (hstack.cons n)).push (hnodes n) hopen
        · intro m hm
          rcases List.mem_cons.1 hm with rfl | hm
          · exact hself
          · exact hloop m hm
  | case4 n rest v hn ih =>
    have hskip := h.skip hn
    cases hstack with
    | passed hold hstack => exact ih hskip hstack hloop
    | @enter _ _ stack hnode hclosed hstack =>
      have hold : n ∈ v.discovered := Classical.byContradiction fun hnew => hn ⟨hnode, hnew⟩
      -- The node is not open, so it has been finished.
      have hfinished : n ∈ v.finished := by
        refine ((hskip.finishes n).1 hold).resolve_right ?_
        intro hmem
        exact (List.mem_append.1 hmem).elim hclosed (hlater n)
      rw [search, if_neg hn, if_pos hfinished]
      exact ih hskip hstack hloop

/-- With `searchFrom` one search after the other comes to what one traversal of all nodes in
`pending` comes to. -/
theorem searchFrom_eq (hnodes : ∀ a b, b ∈ next a → b ∈ nodes) {pending : List α}
    (hpending : ∀ n ∈ pending, n ∈ nodes) (h : Ordered nodes next starts (pending.map .enter) v)
    (hloop : ∀ n ∈ v.discovered, n ∉ next n) :
    searchFrom nodes next pending v = outcome next (run nodes next (pending.map .enter) v) := by
  induction pending generalizing v with
  | nil =>
    rw [List.map_nil, run, outcome_eq_ok_iff.2 ⟨rfl, hloop⟩]
    rfl
  | cons n pending ih =>
    have hrest : ∀ m ∈ pending, m ∈ nodes := fun m hm => hpending m (List.mem_cons_of_mem n hm)
    have hlater : ∀ m, .finish m ∉ pending.map Task.enter := by simp
    have hone : Ordered nodes next starts (pending.map .enter) (run nodes next [.enter n] v) :=
      Ordered.run h
    have hsplit : run nodes next ((n :: pending).map .enter) v =
        run nodes next (pending.map .enter) (run nodes next [.enter n] v) := by
      rw [← run_append]
      rfl
    rw [hsplit, searchFrom, List.foldlM_cons]
    -- Where `n` is old, `searchFrom` leaves it out and `run` passes it over; where it is new,
    -- `search_eq` says that both make the same search.
    by_cases hn : n ∈ v.discovered
    · have hskip : run nodes next [.enter n] v = v := by
        rw [run, dif_neg (fun hnew => hnew.2 hn), run]
      rw [if_pos hn]
      rw [hskip] at hone ⊢
      exact ih hrest hone hloop
    · have hstack : Stacked nodes v.discovered [.enter n] [n] :=
        .enter (hpending n List.mem_cons_self) (by simp) .nil
      have hsearch : search nodes next [n] v = outcome next (run nodes next [.enter n] v) :=
        search_eq hnodes h hlater hstack hloop
      rw [if_neg hn, hsearch]
      cases hout : outcome next (run nodes next [.enter n] v) with
      | error m => exact (outcome_run_of_error hout).symm
      | ok w =>
        obtain ⟨rfl, hloop'⟩ := outcome_eq_ok_iff.1 hout
        exact ih hrest hone hloop'

/-- A search from all of `nodes` comes to what `visit` of all of them comes to. -/
theorem searchFrom_nodes (hnodes : ∀ a b, b ∈ next a → b ∈ nodes) :
    searchFrom nodes next nodes {} = outcome next (visit nodes next nodes) :=
  searchFrom_eq hnodes (fun _ hn => hn) Ordered.init (by simp)

end DocTypes.Traversal

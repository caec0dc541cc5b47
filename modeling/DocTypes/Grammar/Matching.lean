import DocTypes.Text.Lexeme

/-!
# Matching expressions from left to right

Parsing expressions are matched against the front of a text (`Expr.run`): an alternative that has
matched is not taken back, a repetition takes as much as it can, and an option that fails takes
nothing. A named rule leaves a node in the `Tree` of the match, unless it stands inside an atomic
rule.

If the text is not matched, the message tells where reading got furthest and what was tried there.
`Attempts` is this memory. `Attempts.track` is called when a rule fails: rules that fail at the same
place inside it give way to it, unless there is only one of them. A place in the text is given by
what is left of the text there.
-/

namespace DocTypes.Grammar

open Lexeme

universe u

variable {ρ : Type u}

/-- Which rules inside a rule leave nodes and are tracked (`RuleKind.isHidden`). -/
inductive RuleKind
  /-- The same as outside of it, as in a rule with plain braces. -/
  | normal
  /-- None, as in a rule with `@`. -/
  | atomic
  /-- All of them, and the rule itself in any case, as in a rule with `$`. -/
  | compound
deriving DecidableEq, Repr

/-- Whether the inside of a rule of this kind is atomic, given whether the outside is
(`isAtomic`). -/
def RuleKind.inside : RuleKind → Bool → Bool
  | normal, isAtomic => isAtomic
  | atomic, _ => true
  | compound, _ => false

/-- Whether a rule of this kind leaves no node and is not tracked, given whether the outside is
atomic (`isAtomic`). -/
def RuleKind.isHidden : RuleKind → Bool → Bool
  | compound, _ => false
  | _, isAtomic => isAtomic

/-- Parsing expressions over rules that are named by `ρ`; `Expr.run` gives their meaning. -/
inductive Expr (ρ : Type u)
  /-- A fixed `text`. -/
  | word (text : String)
  /-- One character that `accepts` is true of. -/
  | char (accepts : Char → Bool)
  /-- Nothing, at the end of the text only. -/
  | stop
  /-- The expression `second` behind the expression `first`. -/
  | seq (first second : Expr ρ)
  /-- The expression `second` if the expression `first` fails. -/
  | choice (first second : Expr ρ)
  /-- The expression `e`, or nothing if it fails. -/
  | optional (e : Expr ρ)
  /-- The expression `e` as often as it matches. -/
  | many (e : Expr ρ)
  /-- The rule `name` with its `body`. -/
  | rule (name : ρ) (kind : RuleKind) (body : Expr ρ)

/-- What a rule has matched: what was left of the text in front of it (`start`) and behind it
(`stop`), and the nodes of the rules inside it. -/
inductive Tree (ρ : Type u)
  | node (rule : ρ) (start stop : List Char) (children : List (Tree ρ))

namespace Tree

/-- The rule that has matched, as `as_rule` gives it. -/
def rule : Tree ρ → ρ
  | node rule _ _ _ => rule

/-- What was left of the text in front of the match, where `as_span` starts. -/
def start : Tree ρ → List Char
  | node _ start _ _ => start

/-- What is left of the text behind the match, where `as_span` ends. -/
def stop : Tree ρ → List Char
  | node _ _ stop _ => stop

/-- The nodes of the rules inside, as `into_inner` gives them. -/
def children : Tree ρ → List (Tree ρ)
  | node _ _ _ children => children

/-- The text that the rule has matched (`as_str`), the part of `start` in front of `stop`. -/
def text (t : Tree ρ) : List Char := t.start.take (t.start.length - t.stop.length)

/-- A node has the `rule` that it is made with. -/
@[simp]
theorem rule_node (rule : ρ) (start stop : List Char) (children : List (Tree ρ)) :
    (node rule start stop children).rule = rule := rfl

/-- A node has the `children` that it is made with. -/
@[simp]
theorem children_node (rule : ρ) (start stop : List Char) (children : List (Tree ρ)) :
    (node rule start stop children).children = children := rfl

end Tree

/-- What is `left` of the text behind a match, and the nodes of the match. -/
structure Match (ρ : Type u) where
  left : List Char
  trees : List (Tree ρ)

/-- The furthest place where rules have failed, by what was `left` there, and these `rules` in
order. -/
structure Attempts (ρ : Type u) where
  left : List Char
  rules : List ρ

namespace Attempts

/-- The number of rules that have failed at the place `left`, if it is the furthest one. -/
def countAt (a : Attempts ρ) (left : List Char) : Nat :=
  if a.left.length = left.length then a.rules.length else 0

/-- The attempts after the rule `name` has failed at the place `left`. They were `before` when the
rule was tried and are `a` now. -/
def track (before a : Attempts ρ) (name : ρ) (left : List Char) : Attempts ρ :=
  if a.countAt left = before.countAt left + 1 then a
  else if a.left.length = left.length then ⟨left, a.rules.take (before.countAt left) ++ [name]⟩
  else if left.length < a.left.length then ⟨left, [name]⟩
  else a

end Attempts

/-- A `Match`, if there is one, and the attempts so far. -/
abbrev Result (ρ : Type u) := Option (Match ρ) × Attempts ρ

/-- Takes the `step` as often as it matches. A step that takes nothing is the last one. -/
def iterate (step : List Char → Attempts ρ → Result ρ) (cs : List Char) (a : Attempts ρ) :
    Match ρ × Attempts ρ :=
  match step cs a with
  | (none, a) => (⟨cs, []⟩, a)
  | (some m, a) =>
    if m.left.length < cs.length then
      let rest := iterate step m.left a
      (⟨rest.1.left, m.trees ++ rest.1.trees⟩, rest.2)
    else (m, a)
termination_by cs.length

namespace Expr

/-- Matches an expression against the front of the text `cs`. The flag `isAtomic` tells whether it
stands inside an atomic rule, and `a` is what has been tried before. -/
def run : Expr ρ → Bool → List Char → Attempts ρ → Result ρ
  | word text, _, cs, a => ((afterWord? text cs).map (⟨·, []⟩), a)
  | char _, _, [], a => (none, a)
  | char accepts, _, c :: rest, a => (if accepts c then some ⟨rest, []⟩ else none, a)
  | stop, _, cs, a => (if cs = [] then some ⟨cs, []⟩ else none, a)
  | seq first second, isAtomic, cs, a =>
    match first.run isAtomic cs a with
    | (none, a) => (none, a)
    | (some m, a) =>
      let rest := second.run isAtomic m.left a
      (rest.1.map fun n => ⟨n.left, m.trees ++ n.trees⟩, rest.2)
  | choice first second, isAtomic, cs, a =>
    match first.run isAtomic cs a with
    | (none, a) => second.run isAtomic cs a
    | (some m, a) => (some m, a)
  | optional e, isAtomic, cs, a =>
    match e.run isAtomic cs a with
    | (none, a) => (some ⟨cs, []⟩, a)
    | (some m, a) => (some m, a)
  | many e, isAtomic, cs, a =>
    let all := iterate (e.run isAtomic) cs a
    (some all.1, all.2)
  | rule name kind body, isAtomic, cs, a =>
    match body.run (kind.inside isAtomic) cs a with
    | (none, a') => (none, if kind.isHidden isAtomic then a' else a.track a' name cs)
    | (some m, a') =>
      (some ⟨m.left, if kind.isHidden isAtomic then [] else [.node name cs m.left m.trees]⟩, a')

/-- A fixed `text` is taken as `afterWord?` takes it, and no rule is tracked. -/
@[simp]
theorem run_word (text : String) (isAtomic : Bool) (cs : List Char) (a : Attempts ρ) :
    (word text : Expr ρ).run isAtomic cs a = ((afterWord? text cs).map (⟨·, []⟩), a) := by
  rw [run]

/-- Matches the expression `e` against the front of a whole `text`. No rule has been tried
before. -/
def runText (e : Expr ρ) (text : String) : Result ρ :=
  e.run false text.toList ⟨text.toList, []⟩

end Expr

end DocTypes.Grammar

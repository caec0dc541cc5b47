import DocTypes.Grammar.Rule
import DocTypes.Proofs.NamePath

/-!
# Matching, one operator at a time

Each operator of `Expr` has a lemma for each way that its parts may go, so that no proof about a
grammar opens `Expr.run`. Inside an atomic rule an expression is nothing but a reader of texts:
`Reads` says so, and each operator keeps it. By it `identifier` and `namePath` take what the readers
`identifier?` and `path?` take (`reads_identifier`, `reads_namePath`).

For `Attempts.track` two cases matter. `ClearAt` says that no rule has failed at a place or behind
it; a rule that fails there is then the only one to be remembered (`track_of_clearAt`). And a rule
that fails in front of the furthest place is not remembered (`track_of_further`).
-/

namespace DocTypes.Grammar

open Lexeme

universe u

variable {ρ : Type u} {name : ρ} {cs left : List Char} {a a' before : Attempts ρ}

/-! ## Attempts -/

namespace Attempts

/-- In `a` no rule has failed at the place `left` or behind it. -/
def ClearAt (a : Attempts ρ) (left : List Char) : Prop :=
  a.countAt left = 0 ∧ left.length ≤ a.left.length

/-- `countAt` the place of all rules that have failed. -/
theorem countAt_mk (rules : List ρ) : countAt ⟨left, rules⟩ left = rules.length := if_pos rfl

/-- `ClearAt` the start of a text, where no rule has been tried. -/
theorem clearAt_start : ClearAt (⟨cs, []⟩ : Attempts ρ) cs := ⟨countAt_mk [], Nat.le_refl _⟩

/-- `ClearAt` a place behind the furthest one (`h`). -/
theorem clearAt_of_lt (h : left.length < a.left.length) : a.ClearAt left :=
  ⟨if_neg (by omega), by omega⟩

/-- What is `ClearAt` a place is clear behind it. -/
theorem ClearAt.of_le (h : a.ClearAt cs) (hle : left.length ≤ cs.length) : a.ClearAt left := by
  obtain ⟨hcount, hlength⟩ := h
  rcases Nat.lt_or_ge left.length a.left.length with hlt | hge
  · exact clearAt_of_lt hlt
  · -- Both places are the furthest one.
    have heq : left.length = cs.length := by omega
    rw [countAt, ← heq] at hcount
    exact ⟨hcount, by omega⟩

/-- `track` makes the place of the first rule that fails there the furthest one. -/
theorem track_of_clearAt (h : a.ClearAt left) : a.track a name left = ⟨left, [name]⟩ := by
  obtain ⟨hcount, hlength⟩ := h
  rw [track, hcount, if_neg (by omega)]
  split
  · rfl
  · rw [if_pos (by omega)]

/-- `track` adds a further rule that fails at the furthest place. -/
theorem track_mk (rules : List ρ) :
    track ⟨left, rules⟩ ⟨left, rules⟩ name left = ⟨left, rules ++ [name]⟩ := by
  rw [track, countAt_mk, if_neg (by omega), if_pos rfl, List.take_length]

/-- `track` puts a rule in place of several ones that have failed inside it at the same place
(`hrules`). -/
theorem track_of_length_ne_one (h : before.ClearAt left) {rules : List ρ}
    (hrules : rules.length ≠ 1) : before.track ⟨left, rules⟩ name left = ⟨left, [name]⟩ := by
  rw [track, countAt_mk, h.1, if_neg hrules, if_pos rfl]
  rfl

/-- `track` drops a rule if a single one, `inner`, has failed inside it at the same place. -/
theorem track_singleton (h : before.ClearAt left) (inner : ρ) :
    before.track ⟨left, [inner]⟩ name left = ⟨left, [inner]⟩ := by
  rw [track, countAt_mk, h.1]
  exact if_pos rfl

/-- After `track` the furthest place is the one where a rule has failed now, if it is not in front
of it. -/
theorem left_track_self (h : left.length ≤ a.left.length) : (a.track a name left).left = left := by
  rw [track, if_neg (by omega)]
  split
  · rfl
  · rw [if_pos (by omega)]

/-- `track` drops a rule if another one has failed further on (`h`). -/
theorem track_of_further (h : a.left.length < left.length) : before.track a name left = a := by
  have hcount : a.countAt left = 0 := if_neg (by omega)
  rw [track, hcount, if_neg (by omega), if_neg (by omega), if_neg (by omega)]

end Attempts

/-! ## Operators -/

namespace Expr

variable {e first second body : Expr ρ} {isAtomic : Bool} {m : Match ρ}

/-- In a `seq` the second expression goes on behind the match `m` of the first one. -/
theorem run_seq_of_some (h : first.run isAtomic cs a = (some m, a')) :
    (seq first second).run isAtomic cs a =
      ((second.run isAtomic m.left a').1.map fun n => ⟨n.left, m.trees ++ n.trees⟩,
        (second.run isAtomic m.left a').2) := by
  simp only [run, h]

/-- If the first expression leaves no node, the match of a `seq` is that of the second one. -/
theorem run_seq_of_leaf (h : first.run isAtomic cs a = (some ⟨left, []⟩, a')) :
    (seq first second).run isAtomic cs a = second.run isAtomic left a' := by
  rw [run_seq_of_some h]
  simp only [List.nil_append, Option.map_id']

/-- Without the first expression a `seq` has no match. -/
theorem run_seq_of_none (h : first.run isAtomic cs a = (none, a')) :
    (seq first second).run isAtomic cs a = (none, a') := by
  simp only [run, h]

/-- A `choice` does not try the second alternative if the first one matches. -/
theorem run_choice_of_some (h : first.run isAtomic cs a = (some m, a')) :
    (choice first second).run isAtomic cs a = (some m, a') := by
  simp only [run, h]

/-- A `choice` tries the second alternative if the first one fails. -/
theorem run_choice_of_none (h : first.run isAtomic cs a = (none, a')) :
    (choice first second).run isAtomic cs a = second.run isAtomic cs a' := by
  simp only [run, h]

/-- An `optional` matches what its expression matches. -/
theorem run_optional_of_some (h : e.run isAtomic cs a = (some m, a')) :
    (optional e).run isAtomic cs a = (some m, a') := by
  simp only [run, h]

/-- An `optional` takes nothing if its expression fails. -/
theorem run_optional_of_none (h : e.run isAtomic cs a = (none, a')) :
    (optional e).run isAtomic cs a = (some ⟨cs, []⟩, a') := by
  simp only [run, h]

/-- A `many` ends where its expression fails. -/
theorem run_many_of_none (h : e.run isAtomic cs a = (none, a')) :
    (many e).run isAtomic cs a = (some ⟨cs, []⟩, a') := by
  rw [run, iterate]
  simp only [h]

/-- A `many` goes on behind what its expression takes (`hlength`). -/
theorem run_many_of_some (h : e.run isAtomic cs a = (some m, a'))
    (hlength : m.left.length < cs.length) :
    (many e).run isAtomic cs a =
      (((many e).run isAtomic m.left a').1.map fun n => ⟨n.left, m.trees ++ n.trees⟩,
        ((many e).run isAtomic m.left a').2) := by
  rw [run, iterate]
  simp only [h, if_pos hlength]
  rfl

/-- A `rule` that matches leaves a node with the nodes of its body. -/
theorem run_rule_of_some (kind : RuleKind) (h : body.run (kind.inside false) cs a = (some m, a')) :
    (rule name kind body).run false cs a =
      (some ⟨m.left, [.node name cs m.left m.trees]⟩, a') := by
  rw [run, h]
  cases kind <;> rfl

/-- A `rule` that fails is tracked. -/
theorem run_rule_of_none (kind : RuleKind) (h : body.run (kind.inside false) cs a = (none, a')) :
    (rule name kind body).run false cs a = (none, a.track a' name cs) := by
  rw [run, h]
  cases kind <;> rfl

/-! ## Readers -/

/-- Inside an atomic rule the expression `e` takes what the reader `read` takes, and it leaves no
node and tracks no rule. -/
def Reads (e : Expr ρ) (read : List Char → Option (List Char)) : Prop :=
  ∀ cs a, e.run true cs a = ((read cs).map (⟨·, []⟩), a)

/-- Where the reader succeeds, an expression that `Reads` it matches. -/
theorem Reads.of_some {read : List Char → Option (List Char)} (h : e.Reads read)
    (hread : read cs = some left) : e.run true cs a = (some ⟨left, []⟩, a) := by
  rw [h, hread]
  rfl

/-- Where the reader fails, an expression that `Reads` it does. -/
theorem Reads.of_none {read : List Char → Option (List Char)} (h : e.Reads read)
    (hread : read cs = none) : e.run true cs a = (none, a) := by
  rw [h, hread]
  rfl

/-- A fixed `word` is read as `afterWord?` reads it. -/
theorem reads_word (text : String) : (word text : Expr ρ).Reads (afterWord? text) :=
  run_word text true

/-- A `seq` of two readers is one. -/
theorem Reads.seq {read read' : List Char → Option (List Char)} (h : first.Reads read)
    (h' : second.Reads read') : (seq first second).Reads fun cs => (read cs).bind read' := by
  intro cs a
  -- If `read` fails, the second reader is not asked.
  cases hread : read cs with
  | none =>
    rw [run_seq_of_none (h.of_none hread)]
    simp only [hread, Option.bind_none, Option.map_none]
  | some left =>
    rw [run_seq_of_some (h.of_some hread), h']
    simp only [hread, Option.bind_some, Option.map_map, List.nil_append, Function.comp_def]

/-- A `many` of characters takes all of them, also outside of an atomic rule. -/
theorem run_many_char (accepts : Char → Bool) (isAtomic : Bool) (cs : List Char) (a : Attempts ρ) :
    (many (char accepts)).run isAtomic cs a = (some ⟨cs.dropWhile accepts, []⟩, a) := by
  -- Along the text: `many` goes on as long as `accepts` does.
  induction cs with
  | nil =>
    have hnone : (char accepts).run isAtomic [] a = (none, a) := rfl
    rw [run_many_of_none hnone]
    rfl
  | cons c rest ih =>
    by_cases hc : accepts c = true
    · have hone : (char accepts).run isAtomic (c :: rest) a = (some ⟨rest, []⟩, a) := by
        rw [run, if_pos hc]
      rw [run_many_of_some hone (by simp), ih, List.dropWhile_cons_of_pos hc]
      rfl
    · have hnone : (char accepts).run isAtomic (c :: rest) a = (none, a) := by
        rw [run, if_neg hc]
      rw [run_many_of_none hnone, List.dropWhile_cons_of_neg hc]

/-- `padding` takes what `skipPadding` skips. -/
theorem run_padding (isAtomic : Bool) (cs : List Char) (a : Attempts Rule) :
    padding.run isAtomic cs a = (some ⟨skipPadding cs, []⟩, a) :=
  run_many_char isPadding isAtomic cs a

/-- An `atomic` rule is a reader inside another one. -/
theorem Reads.rule {read : List Char → Option (List Char)} (h : body.Reads read) :
    (rule name .atomic body).Reads read := by
  intro cs a
  have hbody : body.run (RuleKind.atomic.inside true) cs a = ((read cs).map (⟨·, []⟩), a) := h cs a
  rw [run, hbody]
  cases read cs <;> rfl

/-- An expression that stands by itself is the rule `name`: it takes what the reader `read` takes
and leaves a node without children, and it is tracked where the reader fails. -/
structure IsToken (e : Expr ρ) (name : ρ) (read : List Char → Option (List Char)) : Prop where
  run_of_some : ∀ {cs left a}, read cs = some left →
    e.run false cs a = (some ⟨left, [.node name cs left []]⟩, a)
  run_of_none : ∀ {cs a}, read cs = none → e.run false cs a = (none, a.track a name cs)

/-- An `atomic` rule whose body `Reads` is a token. -/
theorem Reads.isToken {read : List Char → Option (List Char)} (h : body.Reads read) (name : ρ) :
    (Expr.rule name .atomic body).IsToken name read where
  run_of_some hread := Expr.run_rule_of_some .atomic (h.of_some hread)
  run_of_none hread := Expr.run_rule_of_none .atomic (h.of_none hread)

end Expr

/-! ## Names -/

/-- What `identifier?` leaves of the text. -/
def afterIdentifier? (cs : List Char) : Option (List Char) := (identifier? cs).map Prod.snd

/-- What `path?` leaves of the text. -/
def afterPath? (cs : List Char) : Option (List Char) := (path? cs).map Prod.snd

/-- The body of `identifier` takes what `identifier?` takes. -/
theorem reads_identifier_body :
    (Expr.seq (.char isIdentifierStart) (.many (.char isIdentifierContinue)) : Expr Rule).Reads
      afterIdentifier? := by
  intro cs a
  cases cs with
  | nil => exact Expr.run_seq_of_none rfl
  | cons c rest =>
    by_cases hc : isIdentifierStart c = true
    · have hone : (Expr.char isIdentifierStart : Expr Rule).run true (c :: rest) a =
          (some ⟨rest, []⟩, a) := by rw [Expr.run, if_pos hc]
      rw [Expr.run_seq_of_some hone, Expr.run_many_char, afterIdentifier?, identifier?, if_pos hc]
      rfl
    · have hnone : (Expr.char isIdentifierStart : Expr Rule).run true (c :: rest) a =
          (none, a) := by rw [Expr.run, if_neg hc]
      rw [Expr.run_seq_of_none hnone, afterIdentifier?, identifier?, if_neg hc]
      rfl

/-- `identifier` takes what `identifier?` takes. -/
theorem reads_identifier : identifier.Reads afterIdentifier? := reads_identifier_body.rule

/-- A run of identifier characters does not end a name path, so `pathTail` leaves the same behind
it. -/
theorem snd_pathTail_dropWhile (cs : List Char) :
    (pathTail (cs.dropWhile isIdentifierContinue)).2 = (pathTail cs).2 := by
  induction cs with
  | nil => rfl
  | cons c rest ih =>
    by_cases hc : isIdentifierContinue c = true
    · rw [List.dropWhile_cons_of_pos hc, ih, pathTail_cons hc]
    · rw [List.dropWhile_cons_of_neg hc]

/-- What stands at the end of an identifier does not go on with it, by `head?_dropWhile_not`. -/
theorem head?_dropWhile_isIdentifierContinue (cs : List Char) :
    ∀ c ∈ (cs.dropWhile isIdentifierContinue).head?, isIdentifierContinue c = false := by
  intro c hc
  have hhead := List.head?_dropWhile_not isIdentifierContinue cs
  rw [Option.mem_def.1 hc] at hhead
  simpa using hhead

/-- A separator and an identifier that can be read (`h`) stand at the front of the text. -/
theorem exists_segment (h : (afterWord? "\\" cs).bind afterIdentifier? = some left) :
    ∃ c rest, cs = separator :: c :: rest ∧ isIdentifierStart c = true ∧
      left = rest.dropWhile isIdentifierContinue := by
  obtain ⟨behind, hword, hidentifier⟩ := Option.bind_eq_some_iff.1 h
  have hcs : cs = separator :: behind := afterWord?_eq_some_iff.1 hword
  cases behind with
  | nil => cases hidentifier
  | cons c rest =>
    rw [afterIdentifier?, identifier?] at hidentifier
    by_cases hc : isIdentifierStart c = true
    · rw [if_pos hc] at hidentifier
      exact ⟨c, rest, hcs, hc, (Option.some.inj hidentifier).symm⟩
    · rw [if_neg hc] at hidentifier
      cases hidentifier

/-- Where none can be read (`h`), a name path does not go on behind an identifier (`hstop`). -/
theorem continuesPath_of_no_segment (hstop : ∀ c ∈ cs.head?, isIdentifierContinue c = false)
    (h : (afterWord? "\\" cs).bind afterIdentifier? = none) : continuesPath cs = false := by
  match cs with
  | [] => rfl
  | [c] => exact hstop c rfl
  | c :: d :: rest =>
    rw [continuesPath, hstop c rfl, Bool.false_or, Bool.and_eq_false_imp]
    intro hc
    obtain rfl : c = separator := eq_of_beq hc
    -- The separator is there, so what fails is the identifier.
    have hidentifier : afterIdentifier? (d :: rest) = none := h
    by_contra hd
    rw [afterIdentifier?, identifier?, if_pos (by simpa using hd)] at hidentifier
    cases hidentifier

/-- Behind an identifier (`hstop`), a `many` of separators and identifiers takes what `pathTail`
takes. -/
theorem run_many_segment (cs : List Char)
    (hstop : ∀ c ∈ cs.head?, isIdentifierContinue c = false) (a : Attempts Rule) :
    (Expr.many (.seq (.word "\\") identifier)).run true cs a =
      (some ⟨(pathTail cs).2, []⟩, a) := by
  have hsegment := (Expr.reads_word "\\").seq reads_identifier
  -- Each round takes a separator and an identifier, and what is left is shorter.
  induction hn : cs.length using Nat.strong_induction_on generalizing cs with
  | _ n ih =>
    cases hread : (afterWord? "\\" cs).bind afterIdentifier? with
    | none =>
      have hleft : pathTail cs = ([], cs) :=
        IsTail.nil.pathTail_append (continuesPath_of_no_segment hstop hread)
      rw [Expr.run_many_of_none (hsegment.of_none hread), hleft]
    | some left =>
      obtain ⟨c, rest, rfl, hc, rfl⟩ := exists_segment hread
      have hshort : (rest.dropWhile isIdentifierContinue).length ≤ rest.length :=
        (List.dropWhile_sublist _).length_le
      rw [List.length_cons, List.length_cons] at hn
      rw [Expr.run_many_of_some (hsegment.of_some hread) (by simp; omega),
        ih _ (by omega) _ (head?_dropWhile_isIdentifierContinue rest) rfl,
        pathTail_separator hc, snd_pathTail_dropWhile]
      rfl

/-- The body of `namePath` takes what `path?` takes. -/
theorem reads_namePath_body :
    (Expr.seq identifier (.many (.seq (.word "\\") identifier))).Reads afterPath? := by
  intro cs a
  cases cs with
  | nil => exact Expr.run_seq_of_none (reads_identifier [] a)
  | cons c rest =>
    have hidentifier := reads_identifier (c :: rest) a
    rw [afterIdentifier?, identifier?] at hidentifier
    by_cases hc : isIdentifierStart c = true
    · rw [if_pos hc] at hidentifier
      rw [Expr.run_seq_of_some hidentifier, afterPath?, path?, if_pos hc,
        run_many_segment _ (head?_dropWhile_isIdentifierContinue rest), snd_pathTail_dropWhile]
      rfl
    · rw [if_neg hc] at hidentifier
      rw [Expr.run_seq_of_none hidentifier, afterPath?, path?, if_neg hc]
      rfl

/-- `namePath` takes what `path?` takes. -/
theorem isToken_namePath : namePath.IsToken .namePath afterPath? :=
  reads_namePath_body.isToken .namePath

/-- `identifier` by itself takes what `identifier?` takes. -/
theorem isToken_identifier : identifier.IsToken .identifier afterIdentifier? :=
  reads_identifier_body.isToken .identifier

/-- A fixed `word` in an atomic rule is a token. -/
theorem isToken_word (name : Rule) (text : String) :
    (Expr.rule name .atomic (.word text)).IsToken name (afterWord? text) :=
  (Expr.reads_word text).isToken name

/-! ## Nodes and the end of a text -/

/-- The `text` of a node is what stands between its two places. -/
theorem text_node (rule : ρ) (taken left : List Char) (children : List (Tree ρ)) :
    (Tree.node rule (taken ++ left) left children).text = taken := by
  have hlength : (taken ++ left).length - left.length = taken.length := by simp
  rw [Tree.text, Tree.start, Tree.stop, hlength, List.take_left]

/-- The end of the text is a match of `endOfInput`. -/
theorem run_endOfInput_nil (a : Attempts Rule) :
    endOfInput.run false [] a = (some ⟨[], [.node .endOfInput [] [] []]⟩, a) := rfl

/-- Elsewhere `endOfInput` fails. -/
theorem run_endOfInput_of_ne (h : cs ≠ []) (a : Attempts Rule) :
    endOfInput.run false cs a = (none, a.track a .endOfInput cs) := by
  have hbody : (Expr.stop : Expr Rule).run false cs a = (none, a) := by rw [Expr.run, if_neg h]
  exact Expr.run_rule_of_none .normal hbody

end DocTypes.Grammar

import DocTypes.Proofs.Matching
import DocTypes.Proofs.TermGrammar

/-!
# Terms as the grammar matches them

What `typeName` and `term` do at a place where no rule has failed yet. Where `readName?` reads a
name, `typeName` takes the same text and leaves one node, which stands for that name
(`run_typeName_of_some`). Where it reads none, `triedNames` says which rules have failed
(`run_typeName_of_none`). From this come the five ways that `term` may go: a name with the suffix or
without it, the suffix alone, a separator without a path, and none of these.
-/

namespace DocTypes.Grammar

open Lexeme TypeExpr

variable {cs left : List Char} {a : Attempts Rule} {name : Name}

/-! ## Names -/

/-- The rule `resourceClosed` takes the word `Keyword.closedResource`. -/
theorem isToken_resourceClosed :
    resourceClosed.IsToken .resourceClosed (afterWord? Keyword.closedResource) := isToken_word _ _

/-- The rule `thisMarker` takes the word of its name. -/
theorem isToken_thisMarker : thisMarker.IsToken .thisMarker (afterWord? TypeExpr.thisMarker) :=
  isToken_word _ _

/-- The rule `arraySuffix` takes the word of its name. -/
theorem isToken_arraySuffix : arraySuffix.IsToken .arraySuffix (afterWord? TypeExpr.arraySuffix) :=
  isToken_word _ _

/-- Behind a separator the rule `qualifiedName` takes what `path?` takes. -/
theorem run_qualifiedName_of_some {rest path : List Char} (h : path? rest = some (path, left)) :
    qualifiedName.run false ('\\' :: rest) a =
      (some ⟨left, [.node .qualifiedName ('\\' :: rest) left
        [.node .namePath rest left []]]⟩, a) := by
  have hread : afterPath? rest = some left := by rw [afterPath?, h]; rfl
  have hword : (Expr.word "\\" : Expr Rule).run false ('\\' :: rest) a = (some ⟨rest, []⟩, a) := rfl
  have hbody : (Expr.seq (.word "\\") namePath).run false ('\\' :: rest) a =
      (some ⟨left, [.node .namePath rest left []]⟩, a) := by
    rw [Expr.run_seq_of_leaf hword, isToken_namePath.run_of_some hread]
  exact Expr.run_rule_of_some .compound hbody

/-- If no path follows a separator (`h`), the rule that has failed is `namePath`, and not
`qualifiedName`. -/
theorem run_qualifiedName_of_none {rest : List Char} (ha : a.ClearAt rest) (h : path? rest = none) :
    qualifiedName.run false ('\\' :: rest) a = (none, ⟨rest, [.namePath]⟩) := by
  have hread : afterPath? rest = none := by rw [afterPath?, h]; rfl
  have hword : (Expr.word "\\" : Expr Rule).run false ('\\' :: rest) a = (some ⟨rest, []⟩, a) := rfl
  have hbody : (Expr.seq (.word "\\") namePath).run false ('\\' :: rest) a =
      (none, ⟨rest, [.namePath]⟩) := by
    rw [Expr.run_seq_of_leaf hword, isToken_namePath.run_of_none hread,
      Attempts.track_of_clearAt ha]
  have hfail : qualifiedName.run false ('\\' :: rest) a =
      (none, a.track ⟨rest, [.namePath]⟩ .qualifiedName ('\\' :: rest)) :=
    Expr.run_rule_of_none .compound hbody
  rw [hfail, Attempts.track_of_further (Nat.lt_succ_self rest.length)]

/-- Without a separator (`h`) the rule `qualifiedName` fails. -/
theorem run_qualifiedName_of_ne (h : ∀ rest, cs ≠ '\\' :: rest) :
    qualifiedName.run false cs a = (none, a.track a .qualifiedName cs) := by
  have hword : (Expr.word "\\" : Expr Rule).run false cs a = (none, a) := by
    have hread : afterWord? "\\" cs = none := by
      rw [Option.eq_none_iff_forall_ne_some]
      exact fun rest hrest => h rest (afterWord?_eq_some_iff.1 hrest)
    rw [Expr.run_word, hread]
    rfl
  exact Expr.run_rule_of_none .compound (Expr.run_seq_of_none hword)

/-- `readName?` takes at least one character. -/
theorem length_lt_of_readName? (h : readName? cs = some (name, left)) :
    left.length < cs.length := by
  obtain ⟨word, rfl, hword⟩ := isName_of_readName? h
  have hne : word ≠ [] := (exists_isName_iff.1 ⟨name, hword⟩).ends.1
  have hpos : 0 < word.length := List.length_pos_iff.2 hne
  rw [List.length_append]
  omega

/-- The rules `resourceClosed` and `thisMarker` have failed before a path is tried. -/
theorem run_typeName_of_none_of_none (ha : a.ClearAt cs)
    (hclosed : afterWord? Keyword.closedResource cs = none)
    (hthis : afterWord? TypeExpr.thisMarker cs = none) :
    typeName.run false cs a =
      (Expr.choice qualifiedName namePath).run false cs ⟨cs, [.resourceClosed, .thisMarker]⟩ := by
  have hfirst : resourceClosed.run false cs a = (none, ⟨cs, [.resourceClosed]⟩) := by
    rw [isToken_resourceClosed.run_of_none hclosed, Attempts.track_of_clearAt ha]
  have hsecond : thisMarker.run false cs ⟨cs, [.resourceClosed]⟩ =
      (none, ⟨cs, [.resourceClosed, .thisMarker]⟩) := by
    rw [isToken_thisMarker.run_of_none hthis, Attempts.track_mk]
    rfl
  rw [typeName, Expr.run_choice_of_none hfirst, Expr.run_choice_of_none hsecond]

/-- Where `readName?` reads a name, `typeName` leaves one node, which stands for that name. -/
theorem run_typeName_of_some (ha : a.ClearAt cs) (h : readName? cs = some (name, left)) :
    ∃ t a', typeName.run false cs a = (some ⟨left, [t]⟩, a') ∧ a'.ClearAt left ∧
      nameOf t = name ∧ t.rule ≠ .arraySuffix := by
  have hlength : left.length < cs.length := length_lt_of_readName? h
  have hclear (rules : List Rule) : Attempts.ClearAt ⟨cs, rules⟩ left :=
    Attempts.clearAt_of_lt hlength
  unfold readName? at h
  -- The alternatives in their order: each is tried where the ones before it have failed.
  cases hclosed : afterWord? Keyword.closedResource cs with
  | some rest =>
    rw [hclosed] at h
    obtain ⟨rfl, rfl⟩ := Prod.mk.inj (Option.some.inj h)
    refine ⟨_, _, Expr.run_choice_of_some (isToken_resourceClosed.run_of_some hclosed),
      ha.of_le (by omega), ?_, by simp⟩
    rw [afterWord?_eq_some_iff.1 hclosed, nameOf, text_node, Tree.rule, String.ofList_toList]
  | none =>
    cases hthis : afterWord? TypeExpr.thisMarker cs with
    | some rest =>
      simp only [hclosed, hthis] at h
      obtain ⟨rfl, rfl⟩ := Prod.mk.inj (Option.some.inj h)
      have hfirst : resourceClosed.run false cs a = (none, ⟨cs, [.resourceClosed]⟩) := by
        rw [isToken_resourceClosed.run_of_none hclosed, Attempts.track_of_clearAt ha]
      rw [typeName, Expr.run_choice_of_none hfirst]
      exact ⟨_, _, Expr.run_choice_of_some (isToken_thisMarker.run_of_some hthis), hclear _, rfl,
        by simp⟩
    | none =>
      rw [run_typeName_of_none_of_none ha hclosed hthis]
      simp only [hclosed, hthis] at h
      split at h
      · next rest =>
        obtain ⟨⟨path, left⟩, hpath, hname⟩ := Option.map_eq_some_iff.1 h
        obtain ⟨rfl, rfl⟩ := Prod.mk.inj hname
        refine ⟨_, _, Expr.run_choice_of_some (run_qualifiedName_of_some hpath), hclear _, ?_,
          by simp⟩
        have htext : '\\' :: rest = ('\\' :: path) ++ left :=
          congrArg ('\\' :: ·) (eq_append_of_path? hpath)
        rw [htext, nameOf, text_node]
        rfl
      · next hne =>
        obtain ⟨⟨path, left⟩, hpath, hname⟩ := Option.map_eq_some_iff.1 h
        obtain ⟨rfl, rfl⟩ := Prod.mk.inj hname
        have hread : afterPath? cs = some left := by rw [afterPath?, hpath]; rfl
        rw [Expr.run_choice_of_none (run_qualifiedName_of_ne fun rest => hne rest),
          isToken_namePath.run_of_some hread, Attempts.track_mk]
        refine ⟨_, _, rfl, hclear _, ?_, by simp⟩
        rw [eq_append_of_path? hpath, nameOf, text_node]
        rfl

/-- What has failed where `readName?` reads no name: `namePath` behind a separator, or else all four
forms of a name. -/
def triedNames : List Char → Attempts Rule
  | '\\' :: rest => ⟨rest, [.namePath]⟩
  | cs => ⟨cs, [.resourceClosed, .thisMarker, .qualifiedName, .namePath]⟩

/-- Where `readName?` reads no name, `typeName` fails with `triedNames`. -/
theorem run_typeName_of_none (ha : a.ClearAt cs) (h : readName? cs = none) :
    typeName.run false cs a = (none, triedNames cs) := by
  unfold readName? at h
  cases hclosed : afterWord? Keyword.closedResource cs with
  | some rest => simp [hclosed] at h
  | none =>
    cases hthis : afterWord? TypeExpr.thisMarker cs with
    | some rest => simp [hclosed, hthis] at h
    | none =>
      rw [run_typeName_of_none_of_none ha hclosed hthis]
      simp only [hclosed, hthis] at h
      split at h
      · next rest =>
        have hpath : path? rest = none := Option.map_eq_none_iff.1 h
        have hclear : Attempts.ClearAt ⟨'\\' :: rest, [Rule.resourceClosed, .thisMarker]⟩ rest :=
          Attempts.clearAt_of_lt (Nat.lt_succ_self rest.length)
        -- No path starts with a separator, but the place behind it is further on.
        have hread : afterPath? ('\\' :: rest) = none := rfl
        rw [Expr.run_choice_of_none (run_qualifiedName_of_none hclear hpath),
          isToken_namePath.run_of_none hread,
          Attempts.track_of_further (Nat.lt_succ_self rest.length)]
        rfl
      · next hne =>
        have hpath : path? cs = none := Option.map_eq_none_iff.1 h
        have hread : afterPath? cs = none := by rw [afterPath?, hpath]; rfl
        rw [Expr.run_choice_of_none (run_qualifiedName_of_ne fun rest => hne rest),
          isToken_namePath.run_of_none hread, Attempts.track_mk, Attempts.track_mk]
        unfold triedNames
        split
        · next rest => exact absurd rfl (hne rest)
        · rfl

/-! ## Terms -/

/-- A name (`hname`) with the suffix behind it (`hsuffix`) is a term. -/
theorem run_term_of_suffix {afterName : List Char} (ha : a.ClearAt cs)
    (hname : readName? cs = some (name, afterName))
    (hsuffix : afterWord? TypeExpr.arraySuffix afterName = some left) :
    ∃ t a', term.run false cs a = (some ⟨left, [.node .term cs left
        [t, .node .arraySuffix afterName left []]]⟩, a') ∧
      a'.ClearAt left ∧ nameOf t = name ∧ t.rule ≠ .arraySuffix := by
  obtain ⟨t, a', hrun, hclear, ht, hne⟩ := run_typeName_of_some ha hname
  have hlength : left.length ≤ afterName.length := by
    rw [afterWord?_eq_some_iff.1 hsuffix, List.length_append]
    omega
  have hbody : (Expr.seq typeName (.optional arraySuffix)).run false cs a =
      (some ⟨left, [t, .node .arraySuffix afterName left []]⟩, a') := by
    rw [Expr.run_seq_of_some hrun,
      Expr.run_optional_of_some (isToken_arraySuffix.run_of_some hsuffix)]
    rfl
  exact ⟨t, a', Expr.run_rule_of_some .compound (Expr.run_choice_of_some hbody),
    hclear.of_le hlength, ht, hne⟩

/-- A name (`hname`) without the suffix is a term. The rule `arraySuffix` has been tried behind
it. -/
theorem run_term_of_name (ha : a.ClearAt cs) (hname : readName? cs = some (name, left))
    (hsuffix : afterWord? TypeExpr.arraySuffix left = none) :
    ∃ t, term.run false cs a = (some ⟨left, [.node .term cs left [t]]⟩, ⟨left, [.arraySuffix]⟩) ∧
      nameOf t = name ∧ t.rule ≠ .arraySuffix := by
  obtain ⟨t, a', hrun, hclear, ht, hne⟩ := run_typeName_of_some ha hname
  have hfail : arraySuffix.run false left a' = (none, ⟨left, [.arraySuffix]⟩) := by
    rw [isToken_arraySuffix.run_of_none hsuffix, Attempts.track_of_clearAt hclear]
  have hbody : (Expr.seq typeName (.optional arraySuffix)).run false cs a =
      (some ⟨left, [t]⟩, ⟨left, [.arraySuffix]⟩) := by
    rw [Expr.run_seq_of_some hrun, Expr.run_optional_of_none hfail]
    rfl
  exact ⟨t, Expr.run_rule_of_some .compound (Expr.run_choice_of_some hbody), ht, hne⟩

/-- Without a name, what is left of `term` is the rule `arraySuffix`. -/
theorem run_suffixed_of_none (ha : a.ClearAt cs) (hname : readName? cs = none) :
    (Expr.choice (.seq typeName (.optional arraySuffix)) arraySuffix).run false cs a =
      arraySuffix.run false cs (triedNames cs) :=
  Expr.run_choice_of_none (Expr.run_seq_of_none (run_typeName_of_none ha hname))

/-- The suffix without a name is a `term` for the grammar; `parse_declaration` rejects it later. -/
theorem run_term_of_bareSuffix (ha : a.ClearAt cs) (hname : readName? cs = none)
    (hsuffix : afterWord? TypeExpr.arraySuffix cs = some left) :
    ∃ a', term.run false cs a =
        (some ⟨left, [.node .term cs left [.node .arraySuffix cs left []]]⟩, a') ∧
      a'.ClearAt left := by
  have hcs : cs = '[' :: ']' :: left := afterWord?_eq_some_iff.1 hsuffix
  have hclear : (triedNames cs).ClearAt left := by
    have hlength : left.length < ('[' :: ']' :: left).length := by
      rw [List.length_cons, List.length_cons]
      omega
    rw [hcs]
    exact Attempts.clearAt_of_lt hlength
  have hbody := run_suffixed_of_none ha hname
  rw [isToken_arraySuffix.run_of_some hsuffix] at hbody
  exact ⟨triedNames cs, Expr.run_rule_of_some .compound hbody, hclear⟩

/-- A separator without a path is no `term`, and `namePath` is what is missing. -/
theorem run_term_of_separator {rest : List Char} (ha : a.ClearAt ('\\' :: rest))
    (hname : readName? ('\\' :: rest) = none) :
    term.run false ('\\' :: rest) a = (none, ⟨rest, [.namePath]⟩) := by
  have hbody := run_suffixed_of_none ha hname
  rw [isToken_arraySuffix.run_of_none rfl,
    Attempts.track_of_further (Nat.lt_succ_self rest.length)] at hbody
  have hrun : term.run false ('\\' :: rest) a =
      (none, a.track ⟨rest, [.namePath]⟩ .term ('\\' :: rest)) :=
    Expr.run_rule_of_none .compound hbody
  rw [hrun, Attempts.track_of_further (Nat.lt_succ_self rest.length)]

/-- What starts neither a name nor the suffix is no term, and `term` is what is missing. -/
theorem run_term_of_none (ha : a.ClearAt cs) (hname : readName? cs = none)
    (hsuffix : afterWord? TypeExpr.arraySuffix cs = none) (hne : ∀ rest, cs ≠ '\\' :: rest) :
    term.run false cs a = (none, ⟨cs, [.term]⟩) := by
  have htried : triedNames cs =
      ⟨cs, [.resourceClosed, .thisMarker, .qualifiedName, .namePath]⟩ := by
    unfold triedNames
    split
    · next rest => exact absurd rfl (hne rest)
    · rfl
  have hbody := run_suffixed_of_none ha hname
  rw [isToken_arraySuffix.run_of_none hsuffix, htried, Attempts.track_mk] at hbody
  have hrun : term.run false cs a = (none, a.track ⟨cs, [.resourceClosed, .thisMarker,
      .qualifiedName, .namePath, .arraySuffix]⟩ .term cs) := Expr.run_rule_of_none .compound hbody
  -- Five rules have failed at the same place inside `term`, which is named for all of them.
  rwa [Attempts.track_of_length_ne_one ha (by decide)] at hrun

end DocTypes.Grammar

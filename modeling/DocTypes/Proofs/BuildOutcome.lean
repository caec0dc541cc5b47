import DocTypes.Proofs.FinishOrder
import DocTypes.Proofs.Subtyping

/-!
# What building a registry comes to

Definitions do not make a registry for one of three reasons, and `build` reports the first one that
applies: a repeated name, an undefined parent, or a cycle. `FirstRepeated` and `FirstUnknownParent`
say which name, and which parent, is the first of its kind.

That no cycle is missed is part of the theory of subtyping (`irrefl_of_build`). That there is no
false alarm rests on the order of finishing: a child that stands behind its parent in this order can
be reached from the parent, so the type that is reported lies on a cycle
(`transGen_of_cyclicType?_eq_some`). The main statement is `build_outcome`.
-/

namespace DocTypes.TypeRegistry

open Relation (TransGen ReflTransGen)

variable {definitions : List TypeDefinition} {r : TypeRegistry} {child parent name : String}

/-! ## Repeated names -/

/-- No two of `definitions` are of one name. -/
def NamesDistinct (definitions : List TypeDefinition) : Prop := (definitions.map (·.name)).Nodup

instance : Decidable (NamesDistinct definitions) :=
  inferInstanceAs (Decidable (definitions.map (·.name)).Nodup)

/-- The name `name` is the first that is given a second time: the names in front of this place,
`before`, are distinct, and it is one of them. -/
def FirstRepeated (definitions : List TypeDefinition) (name : String) : Prop :=
  ∃ before after, definitions.map (·.name) = before ++ name :: after ∧ before.Nodup ∧
    name ∈ before

/-- What `firstRepeated?` finds has been met before, and no name in front of it has. -/
theorem exists_split_of_firstRepeated? {seen names : List String}
    (h : firstRepeated? seen names = some name) :
    ∃ before after, names = before ++ name :: after ∧ before.Nodup ∧ (∀ n ∈ before, n ∉ seen) ∧
      (name ∈ before ∨ name ∈ seen) := by
  fun_induction firstRepeated? seen names with
  | case1 => cases h
  | case2 seen n rest hn =>
    obtain rfl : n = name := Option.some.inj h
    exact ⟨[], rest, rfl, List.nodup_nil, by simp, .inr hn⟩
  | case3 seen n rest hn ih =>
    obtain ⟨before, after, rfl, hnodup, hseen, hmem⟩ := ih h
    have hnew : n ∉ before := fun hb => hseen n hb List.mem_cons_self
    refine ⟨n :: before, after, rfl, List.nodup_cons.2 ⟨hnew, hnodup⟩, ?_, ?_⟩
    · intro m hm
      rcases List.mem_cons.1 hm with rfl | hm
      · exact hn
      · exact fun hs => hseen m hm (List.mem_cons_of_mem _ hs)
    -- The name repeats one in front of it, which may be `n`, or one in `seen`.
    · rcases hmem with hb | hs
      · exact .inl (List.mem_cons_of_mem _ hb)
      · rcases List.mem_cons.1 hs with rfl | hs
        · exact .inl List.mem_cons_self
        · exact .inr hs

/-- A name that `firstRepeated?` finds is reported first of all by `build`. -/
theorem build_of_firstRepeated? (h : firstRepeated? [] (definitions.map (·.name)) = some name) :
    build definitions = .error (.duplicateType name) := by
  unfold build
  split
  · next n hn =>
    obtain rfl : n = name := Option.some.inj (hn.symm.trans h)
    rfl
  · next hn => cases hn.symm.trans h

/-- If the names are not distinct (`h`), then `build` reports the one that is `FirstRepeated`. -/
theorem exists_firstRepeated (h : ¬NamesDistinct definitions) :
    ∃ name, FirstRepeated definitions name ∧ build definitions = .error (.duplicateType name) := by
  cases hf : firstRepeated? [] (definitions.map (·.name)) with
  | none => exact absurd (nodup_of_firstRepeated?_eq_none hf).1 h
  | some name =>
    obtain ⟨before, after, hsplit, hnodup, -, hmem⟩ := exists_split_of_firstRepeated? hf
    exact ⟨name, ⟨before, after, hsplit, hnodup, by simpa using hmem⟩, build_of_firstRepeated? hf⟩

/-! ## Undefined parents -/

/-- Every parent of `d` is the name of one of `definitions`, before or after. -/
def ParentsKnown (definitions : List TypeDefinition) (d : TypeDefinition) : Prop :=
  ∀ parent ∈ d.parents, parent ∈ definitions.map (·.name)

instance {d : TypeDefinition} : Decidable (ParentsKnown definitions d) :=
  inferInstanceAs (Decidable (∀ parent ∈ d.parents, parent ∈ definitions.map (·.name)))

/-- The first definition that is not `ParentsKnown` is that of `name`, and `parent` is the first of
its parents without a definition. -/
def FirstUnknownParent (definitions : List TypeDefinition) (name parent : String) : Prop :=
  ∃ before d after, definitions = before ++ d :: after ∧ d.name = name ∧
    (∀ e ∈ before, ParentsKnown definitions e) ∧
    ∃ known others, d.parents = known ++ parent :: others ∧
      (∀ p ∈ known, p ∈ definitions.map (·.name)) ∧ parent ∉ definitions.map (·.name)

/-- `firstUnknownParent?` finds nothing if and only if every definition is `ParentsKnown`. -/
theorem firstUnknownParent?_eq_none_iff :
    firstUnknownParent? definitions = none ↔ ∀ d ∈ definitions, ParentsKnown definitions d := by
  unfold firstUnknownParent? ParentsKnown
  simp only [List.findSome?_eq_none_iff, Option.map_eq_none_iff, List.find?_eq_none,
    decide_eq_true_eq, not_not]

/-- What `firstUnknownParent?` finds is the `FirstUnknownParent`. -/
theorem firstUnknownParent_of_eq_some (h : firstUnknownParent? definitions = some (name, parent)) :
    FirstUnknownParent definitions name parent := by
  obtain ⟨before, d, after, hsplit, hd, hbefore⟩ := List.findSome?_eq_some_iff.1 h
  obtain ⟨p, hp, heq⟩ := Option.map_eq_some_iff.1 hd
  obtain ⟨rfl, rfl⟩ := Prod.mk.inj heq
  obtain ⟨hunknown, known, others, hparents, hknown⟩ := List.find?_eq_some_iff_append.1 hp
  refine ⟨before, d, after, hsplit, rfl, ?_, known, others, hparents, ?_, by simpa using hunknown⟩
  · intro e he q hq
    have hnone := List.find?_eq_none.1 (Option.map_eq_none_iff.1 (hbefore e he)) q hq
    simpa using hnone
  · intro q hq
    simpa using hknown q hq

/-- A parent that `firstUnknownParent?` finds is reported by `build` if no name is repeated
(`hnames`). -/
theorem build_of_firstUnknownParent? (hnames : NamesDistinct definitions)
    (h : firstUnknownParent? definitions = some (name, parent)) :
    build definitions = .error (.unknownParent name parent) := by
  unfold build
  split
  · next n hr => cases hr.symm.trans (firstRepeated?_names_eq_none hnames)
  · rw [h]

/-- If no name is repeated and some definition is not `ParentsKnown`, then `build` reports the
`FirstUnknownParent`. -/
theorem exists_firstUnknownParent (hnames : NamesDistinct definitions)
    (h : ¬∀ d ∈ definitions, ParentsKnown definitions d) :
    ∃ name parent, FirstUnknownParent definitions name parent ∧
      build definitions = .error (.unknownParent name parent) := by
  cases hu : firstUnknownParent? definitions with
  | none => exact absurd (firstUnknownParent?_eq_none_iff.1 hu) h
  | some found =>
    obtain ⟨name, parent⟩ := found
    exact ⟨name, parent, firstUnknownParent_of_eq_some hu, build_of_firstUnknownParent? hnames hu⟩

/-! ## Cycles -/

/-- What `misplacedChild?` finds is a child that stands behind its parent in `order`, or is
missing. -/
theorem exists_split_of_misplacedChild? {placed order : List String}
    (h : misplacedChild? definitions placed order = some child) :
    ∃ before parent after, order = before ++ parent :: after ∧
      Extends definitions child parent ∧ child ∉ placed ∧ child ∉ before ∧ child ≠ parent := by
  fun_induction misplacedChild? definitions placed order with
  | case1 => cases h
  | case2 placed n rest c hc =>
    obtain rfl : c = child := Option.some.inj h
    obtain ⟨d, hd, rfl⟩ := Option.map_eq_some_iff.1 hc
    have hmem := List.mem_of_find?_eq_some hd
    obtain ⟨hparent, hplaced⟩ : n ∈ d.parents ∧ d.name ∉ n :: placed := by
      simpa using List.find?_some hd
    obtain ⟨hne, hplaced⟩ := not_or.1 (mt List.mem_cons.2 hplaced)
    exact ⟨[], n, rest, rfl, ⟨d, hmem, rfl, hparent⟩, hplaced, List.not_mem_nil, hne⟩
  | case3 placed n rest _ ih =>
    obtain ⟨before, parent, after, rfl, hextends, hplaced, hbefore, hne⟩ := ih h
    obtain ⟨hn, hplaced⟩ := not_or.1 (mt List.mem_cons.2 hplaced)
    refine ⟨n :: before, parent, after, rfl, hextends, hplaced, ?_, hne⟩
    exact fun hmem => (List.mem_cons.1 hmem).elim hn hbefore

/-- The edges that a traversal of the `parents` of `r` follows are declared. -/
theorem extends_of_edge (h : Traversal.Edge r.names r.parents child parent) :
    Extends r.definitions child parent :=
  mem_parents_iff.1 h.1

/-- A child that was finished before its parent, so that it is not in `before`, can be reached from
the parent. This is `Traversal.mem_or_reaches_of_finished` for the edge from the child to the
parent. -/
theorem reaches_of_finished {before after : List String} (hparent : parent ∈ r.names)
    (hextends : Extends r.definitions child parent)
    (hsplit : (Traversal.visit r.names r.parents r.names).finished = before ++ parent :: after)
    (hbefore : child ∉ before) (hne : child ≠ parent) :
    ReflTransGen (Extends r.definitions) parent child := by
  have hfinished : child ∈ before ++ parent :: after :=
    hsplit ▸ mem_finished_of_mem_names (mem_names_of_extends hextends)
  have hafter : child ∈ after := by simpa [hbefore, hne] using hfinished
  obtain ⟨between, rest, rfl⟩ := List.append_of_mem hafter
  have hedge : Traversal.Edge r.names r.parents child parent :=
    ⟨mem_parents_iff.2 hextends, hparent⟩
  have hsplit' : (Traversal.visit r.names r.parents r.names).finished =
      (before ++ parent :: between) ++ child :: rest := by
    simpa using hsplit
  rcases Traversal.mem_or_reaches_of_finished hsplit' hedge with hrest | hreach
  · -- The parent would have been finished twice.
    have hnodup : (before ++ parent :: (between ++ child :: rest)).Nodup :=
      hsplit ▸ Traversal.nodup_finished_visit
    have hnot := (List.nodup_cons.1 (List.nodup_append.1 hnodup).2.1).1
    exact absurd (by simp [hrest]) hnot
  · exact ReflTransGen.mono (fun _ _ => extends_of_edge) _ _ hreach

/-- If all parents are defined (`hknown`), then the type that `cyclicType?` finds lies on a
cycle. -/
theorem transGen_of_cyclicType?_eq_some (hknown : firstUnknownParent? r.definitions = none)
    (h : r.cyclicType? = some name) : TransGen (Extends r.definitions) name name := by
  unfold cyclicType? at h
  simp only at h
  split at h
  -- The type is its own parent, or it is a misplaced child, and its parent leads back to it.
  · next n hself =>
    obtain rfl : n = name := Option.some.inj h
    have hmem : n ∈ r.parents n := by simpa using List.find?_some hself
    exact .single (mem_parents_iff.1 hmem)
  · obtain ⟨before, parent, after, hsplit, hextends, -, hbefore, hne⟩ :=
      exists_split_of_misplacedChild? h
    have hparent : parent ∈ r.names := mem_of_firstUnknownParent?_eq_none hknown hextends
    exact .head' hextends (reaches_of_finished hparent hextends hsplit hbefore hne)

/-- A type that `cyclicType?` finds is reported by `build` if no name is repeated and all parents
are defined. -/
theorem build_of_cyclicType? (hknown : firstUnknownParent? r.definitions = none)
    (h : r.cyclicType? = some name) :
    build r.definitions = .error (.inheritanceCycle name) := by
  unfold build
  split
  · next n hr => cases hr.symm.trans (firstRepeated?_names_eq_none r.nodup_names)
  · simp only [hknown, h]

/-- `build` makes a registry if and only if the definitions are `NamesDistinct`, all are
`ParentsKnown` and there is no cycle. -/
theorem exists_build_eq_ok_iff : (∃ r, build definitions = .ok r) ↔
    NamesDistinct definitions ∧ (∀ d ∈ definitions, ParentsKnown definitions d) ∧
      ¬∃ name, TransGen (Extends definitions) name name := by
  constructor
  · rintro ⟨r, hbuild⟩
    obtain ⟨rfl, hknown, -⟩ := build_eq_ok_iff.1 hbuild
    refine ⟨r.nodup_names, firstUnknownParent?_eq_none_iff.1 hknown, ?_⟩
    rintro ⟨name, hcycle⟩
    exact irrefl_of_build hbuild hcycle
  · rintro ⟨hnames, hparents, hacyclic⟩
    set r : TypeRegistry := ⟨definitions, hnames⟩ with hr
    have hknown : firstUnknownParent? r.definitions = none :=
      firstUnknownParent?_eq_none_iff.2 hparents
    cases hc : r.cyclicType? with
    | none => exact ⟨r, build_eq_ok_iff.2 ⟨rfl, hknown, hc⟩⟩
    | some name => exact absurd ⟨name, transGen_of_cyclicType?_eq_some hknown hc⟩ hacyclic

/-- Building comes to this: if some name is given twice, `build` reports the first such name.
Otherwise, if some parent is undefined, it reports the first one of the first such definition.
Otherwise it reports a cycle if and only if there is one, and if there is none the registry is
built, with `definitions` as they were given. -/
theorem build_outcome (definitions : List TypeDefinition) :
    (¬NamesDistinct definitions → ∃ name, FirstRepeated definitions name ∧
      build definitions = .error (.duplicateType name)) ∧
    (NamesDistinct definitions → (¬∀ d ∈ definitions, ParentsKnown definitions d) →
      ∃ name parent, FirstUnknownParent definitions name parent ∧
        build definitions = .error (.unknownParent name parent)) ∧
    (NamesDistinct definitions → (∀ d ∈ definitions, ParentsKnown definitions d) →
      ((∃ name, build definitions = .error (.inheritanceCycle name)) ↔
        ∃ name, TransGen (Extends definitions) name name) ∧
      ((¬∃ name, TransGen (Extends definitions) name name) →
        ∃ r, build definitions = .ok r ∧ r.definitions = definitions)) := by
  refine ⟨exists_firstRepeated, exists_firstUnknownParent, fun hnames hparents => ?_⟩
  set r : TypeRegistry := ⟨definitions, hnames⟩ with hr
  have hknown : firstUnknownParent? r.definitions = none :=
    firstUnknownParent?_eq_none_iff.2 hparents
  cases hc : r.cyclicType? with
  | none =>
    have hbuild : build definitions = .ok r := build_eq_ok_iff.2 ⟨rfl, hknown, hc⟩
    refine ⟨⟨?_, ?_⟩, fun _ => ⟨r, hbuild, rfl⟩⟩
    · rintro ⟨name, he⟩
      cases hbuild.symm.trans he
    · rintro ⟨name, hcycle⟩
      exact absurd hcycle (irrefl_of_build hbuild)
  | some name =>
    have hcycle : TransGen (Extends definitions) name name :=
      transGen_of_cyclicType?_eq_some hknown hc
    have hbuild : build definitions = .error (.inheritanceCycle name) :=
      build_of_cyclicType? hknown hc
    exact ⟨⟨fun _ => ⟨name, hcycle⟩, fun _ => ⟨name, hbuild⟩⟩, fun hno => absurd ⟨name, hcycle⟩ hno⟩

/-- A repeated name beside an undefined parent, an undefined parent beside a cycle, a cycle of two
types, and a parent that is defined later. -/
theorem build_outcome_samples :
    (∃ name, build [⟨"A", .class, ["Missing"]⟩, ⟨"A", .interface, []⟩] =
      .error (.duplicateType name)) ∧
    (∃ name parent, build [⟨"A", .class, ["A"]⟩, ⟨"B", .class, ["A", "Missing"]⟩] =
      .error (.unknownParent name parent)) ∧
    (∃ name, build [⟨"A", .class, ["B"]⟩, ⟨"B", .class, ["A"]⟩] =
      .error (.inheritanceCycle name)) ∧
    ∃ r, build [⟨"A", .class, ["B"]⟩, ⟨"B", .class, []⟩] = .ok r := by
  refine ⟨?_, ?_, ?_, ?_⟩
  · obtain ⟨name, -, h⟩ := (build_outcome [⟨"A", .class, ["Missing"]⟩, ⟨"A", .interface, []⟩]).1
      (by decide)
    exact ⟨name, h⟩
  · obtain ⟨name, parent, -, h⟩ :=
      (build_outcome [⟨"A", .class, ["A"]⟩, ⟨"B", .class, ["A", "Missing"]⟩]).2.1
        (by decide) (by decide)
    exact ⟨name, parent, h⟩
  · have h := (build_outcome [⟨"A", .class, ["B"]⟩, ⟨"B", .class, ["A"]⟩]).2.2
      (by decide) (by decide)
    have hup : Extends [⟨"A", .class, ["B"]⟩, ⟨"B", .class, ["A"]⟩] "A" "B" :=
      ⟨_, List.mem_cons_self, rfl, by decide⟩
    have hdown : Extends [⟨"A", .class, ["B"]⟩, ⟨"B", .class, ["A"]⟩] "B" "A" :=
      ⟨_, List.mem_cons_of_mem _ List.mem_cons_self, rfl, by decide⟩
    exact h.1.2 ⟨"A", .head hup (.single hdown)⟩
  · have h := (build_outcome [⟨"A", .class, ["B"]⟩, ⟨"B", .class, []⟩]).2.2
      (by decide) (by decide)
    have hacyclic : ¬∃ name,
        TransGen (Extends [⟨"A", .class, ["B"]⟩, ⟨"B", .class, []⟩]) name name := by
      have hstep : ∀ a b, Extends [⟨"A", .class, ["B"]⟩, ⟨"B", .class, []⟩] a b →
          a = "A" ∧ b = "B" := by
        rintro a b ⟨d, hd, rfl, hb⟩
        simp only [List.mem_cons, List.not_mem_nil, or_false] at hd
        rcases hd with rfl | rfl
        · exact ⟨rfl, by simpa using hb⟩
        · simp at hb
      rintro ⟨name, hcycle⟩
      obtain ⟨b, hfirst, -⟩ := TransGen.head'_iff.1 hcycle
      obtain ⟨c, -, hlast⟩ := TransGen.tail'_iff.1 hcycle
      -- The only step leads away from `A`, and not back to it.
      have hne : "A" ≠ "B" := by decide
      exact hne ((hstep _ _ hfirst).1.symm.trans (hstep _ _ hlast).2)
    obtain ⟨r, hr, -⟩ := h.2 hacyclic
    exact ⟨r, hr⟩

end DocTypes.TypeRegistry

import DocTypes.Json.Record
import DocTypes.Proofs.JsonText

/-!
# What a text is read as

A text in which no number is a double is read by `Node.ofText?` as a tree whose parts are storable
at the level where they stand, or cannot be used at all (`storable_of_ofText?`). A value that is
read from a part of such a tree is storable at the same level (`storable_of_json?`), and what is
read from the items, the values or the fields of a part is read from parts below it.

The automaton keeps the invariant that what it holds is storable where it will be placed
(`Reading.Storable`): the innermost container of a stack holds parts one level below the others.
-/

namespace DocTypes.Json

/-- A part of a tree that has been read inside of `level` containers without a double. -/
inductive Node.Storable : Nat → Node → Prop
  | null {level : Nat} : Storable level .null
  | bool {level : Nat} (b : Bool) : Storable level (.bool b)
  | number {level : Nat} {n : JsonNumber} (hn : n.IsExact) : Storable level (.number n)
  | string {level : Nat} (s : String) : Storable level (.string s)
  | array {level : Nat} {items : List Node} (hlevel : level < depthLimit)
      (hitems : ∀ item ∈ items, Storable (level + 1) item) : Storable level (.array items)
  | object {level : Nat} {members : List (String × Node)} (hlevel : level < depthLimit)
      (hmembers : ∀ m ∈ members, Storable (level + 1) m.2) : Storable level (.object members)
  | unusable {level : Nat} : Storable level .unusable

/-! ### Tokens -/

/-- The token is a number that is read as a double, by `float`. -/
def Token.isFloat : Token → Bool
  | .number (some (.float _)) => true
  | _ => false

/-- Whether `isFloat` holds of no number of the text. -/
def isFloatFree (text : String) : Bool :=
  (tokens? text.toList).all fun ts => ts.all fun token => !token.isFloat

/-- The token is no number, or one that is read as it is written. -/
def Token.IsExact (token : Token) : Prop :=
  ∀ n, token = .number (some n) → n.IsExact

/-- A numeral that `numberOf?` reads, and not as a double (`hn`), fits 64 bits. -/
theorem isExact_of_numberOf? {numeral : Numeral} {n : JsonNumber} (h : numberOf? numeral = some n)
    (hn : ∀ x, n ≠ .float x) : n.IsExact := by
  unfold numberOf? at h
  simp only at h
  -- There are three ways to read a numeral: without a sign, with one, and as a double.
  split at h
  · next hpos =>
    cases h
    simp only [Bool.and_eq_true, decide_eq_true_eq] at hpos
    have hlt : Numeral.spelled 0 numeral.whole < 18446744073709551616 := hpos.2
    constructor <;> omega
  · split at h
    · next hneg =>
      cases h
      simp only [Bool.and_eq_true, decide_eq_true_eq] at hneg
      have hle := hneg.2
      constructor <;> omega
    · obtain ⟨x, -, rfl⟩ := Option.map_eq_some_iff.1 h
      exact absurd rfl (hn x)

/-- A token that `scanToken?` finds is exact if it is no double (`hx`). -/
theorem isExact_of_scanToken? {cs left : List Char} {token : Token}
    (h : scanToken? cs = some (token, left)) (hx : token.isFloat = false) : token.IsExact := by
  rintro n rfl
  unfold scanToken? at h
  split at h
  · cases h
  · split at h
    case h_7 =>
      obtain ⟨p, -, hp⟩ := Option.map_eq_some_iff.1 h
      cases hp
    case h_8 =>
      split at h
      · next found hfound =>
        -- No word stands for a number.
        obtain ⟨⟨word, t⟩, hmem, hmap⟩ := List.exists_of_findSome?_eq_some hfound
        obtain ⟨l, -, rfl⟩ := Option.map_eq_some_iff.1 hmap
        cases h
        simp [words] at hmem
      · obtain ⟨⟨numeral, l⟩, -, hp⟩ := Option.map_eq_some_iff.1 h
        simp only [Prod.mk.injEq, Token.number.injEq] at hp
        apply isExact_of_numberOf? hp.1
        rintro x rfl
        cases hx
    all_goals cases h

/-- The tokens that `tokens?` finds are exact if none is a double (`hx`). -/
theorem isExact_of_tokens? {cs : List Char} {ts : List Token} (h : tokens? cs = some ts)
    (hx : ∀ token ∈ ts, token.isFloat = false) : ∀ token ∈ ts, token.IsExact := by
  fun_induction tokens? cs generalizing ts with
  | case1 =>
    cases h
    simp
  | case2 c rest _ ih => exact ih h hx
  | case3 c rest _ hnone => cases h
  | case4 c rest _ token left hscan ih =>
    obtain ⟨further, hfurther, rfl⟩ := Option.map_eq_some_iff.1 h
    intro t ht
    rcases List.mem_cons.1 ht with rfl | ht
    · exact isExact_of_scanToken? hscan (hx t List.mem_cons_self)
    · exact ih hfurther (fun t hmem => hx t (List.mem_cons_of_mem _ hmem)) t ht

/-! ### The automaton -/

/-- What an open container holds is storable at its `level`. -/
def Frame.Storable (level : Nat) : Frame → Prop
  | .item done => ∀ node ∈ done, node.Storable level
  | .member done _ => ∀ m ∈ done, m.2.Storable level

/-- Every open container of a stack holds what is storable one level below the container. -/
def StorableStack : List Frame → Prop
  | [] => True
  | frame :: stack => frame.Storable (stack.length + 1) ∧ StorableStack stack

/-- All that the automaton holds is storable where it will be placed: the invariant of
`Reading.step`. -/
def Reading.Storable : Reading → Prop
  | .value stack | .firstItem stack | .firstKey stack => StorableStack stack
  | .key done stack | .colon done _ stack =>
    (∀ m ∈ done, m.2.Storable (stack.length + 1)) ∧ StorableStack stack
  | .after node stack => node.Storable stack.length ∧ StorableStack stack

/-- An array that `closeArray` closes is storable, if its items are. -/
theorem storable_closeArray {items : List Node} {stack : List Frame}
    (h : ∀ node ∈ items, node.Storable (stack.length + 1)) :
    (Node.closeArray items stack).Storable stack.length := by
  unfold Node.closeArray
  split
  · next hlevel => exact .array hlevel h
  · exact .unusable

/-- An object that `closeObject` closes is storable, if its members are. -/
theorem storable_closeObject {members : List (Option String × Node)} {stack : List Frame}
    (h : ∀ m ∈ members, m.2.Storable (stack.length + 1)) :
    (Node.closeObject members stack).Storable stack.length := by
  unfold Node.closeObject
  split
  · next named hnamed =>
    split
    · next hlevel =>
      refine .object hlevel fun m hm => ?_
      obtain ⟨⟨key, node⟩, hmem, hkey⟩ := exists_of_mem_mapM hnamed hm
      obtain ⟨k, -, rfl⟩ := Option.map_eq_some_iff.1 hkey
      exact h (key, node) hmem
    · exact .unusable
  · exact .unusable

/-- The first token of a value, by `startValue`, keeps what is held storable. -/
theorem Reading.Storable.startValue {stack : List Frame} {token : Token} {next : Reading}
    (h : StorableStack stack) (ht : token.IsExact)
    (hstep : Reading.startValue stack token = some next) : next.Storable := by
  unfold Reading.startValue at hstep
  split at hstep
  · cases hstep
    exact ⟨.null, h⟩
  · cases hstep
    exact ⟨.bool _, h⟩
  · next content =>
    cases hstep
    cases content with
    | none => exact ⟨.unusable, h⟩
    | some n => exact ⟨.number (ht n rfl), h⟩
  · next content =>
    cases hstep
    cases content with
    | none => exact ⟨.unusable, h⟩
    | some s => exact ⟨.string s, h⟩
  · cases hstep
    exact h
  · cases hstep
    exact h
  · cases hstep

/-- A member with a storable value (`hnode`) may join others. -/
theorem forall_member_cons {level : Nat} {key : Option String} {node : Node}
    {done : List (Option String × Node)} (hnode : node.Storable level)
    (h : ∀ m ∈ done, m.2.Storable level) : ∀ m ∈ (key, node) :: done, m.2.Storable level := by
  intro m hm
  rcases List.mem_cons.1 hm with rfl | hm
  · exact hnode
  · exact h m hm

/-- What follows a value, by `afterValue`, keeps what is held storable. -/
theorem Reading.Storable.afterValue {node : Node} {stack : List Frame} {token : Token}
    {next : Reading} (hnode : node.Storable stack.length) (h : StorableStack stack)
    (hstep : Reading.afterValue node stack token = some next) : next.Storable := by
  -- A comma or a closing bracket, in an array or in an object.
  unfold Reading.afterValue at hstep
  split at hstep
  · cases hstep
    exact ⟨List.forall_mem_cons.2 ⟨hnode, h.1⟩, h.2⟩
  · next done stack =>
    cases hstep
    have hitems : ∀ n ∈ node :: done, n.Storable (stack.length + 1) :=
      List.forall_mem_cons.2 ⟨hnode, h.1⟩
    exact ⟨storable_closeArray fun n hn => hitems n (List.mem_reverse.1 hn), h.2⟩
  · next done name stack =>
    cases hstep
    exact ⟨forall_member_cons hnode h.1, h.2⟩
  · next done name stack =>
    cases hstep
    have hmembers := @forall_member_cons _ name _ _ hnode h.1
    exact ⟨storable_closeObject fun m hm => hmembers m (List.mem_reverse.1 hm), h.2⟩
  · cases hstep

/-- `step` keeps what is held storable, whatever the token. -/
theorem Reading.Storable.step {reading next : Reading} {token : Token} (h : reading.Storable)
    (ht : token.IsExact) (hstep : reading.step token = some next) : next.Storable := by
  unfold Reading.step at hstep
  split at hstep
  · exact .startValue h ht hstep
  · cases hstep
    exact ⟨storable_closeArray (by simp), h⟩
  · next stack _ =>
    -- The token begins an item, so a container without items is opened.
    have hframe : StorableStack (.item [] :: stack) := ⟨by simp [Frame.Storable], h⟩
    exact .startValue hframe ht hstep
  · cases hstep
    exact ⟨storable_closeObject (by simp), h⟩
  · cases hstep
    exact ⟨by simp, h⟩
  · cases hstep
  · cases hstep
    exact h
  · cases hstep
  · cases hstep
    exact h
  · cases hstep
  · exact .afterValue h.1 h.2 hstep

/-- The invariant holds after every sequence of tokens that `step` takes. -/
theorem Reading.Storable.foldlM {ts : List Token} {reading next : Reading} (h : reading.Storable)
    (ht : ∀ token ∈ ts, token.IsExact) (hfold : ts.foldlM Reading.step reading = some next) :
    next.Storable := by
  induction ts generalizing reading with
  | nil =>
    cases hfold
    exact h
  | cons token ts ih =>
    rw [List.foldlM_cons, Option.bind_eq_bind, Option.bind_eq_some_iff] at hfold
    obtain ⟨middle, hstep, hrest⟩ := hfold
    exact ih (h.step (ht token List.mem_cons_self) hstep)
      (fun t hmem => ht t (List.mem_cons_of_mem _ hmem)) hrest

/-- The tree that `ofText?` reads from a text without doubles (`hfree`) is storable. -/
theorem storable_of_ofText? {text : String} {node : Node} (hfree : isFloatFree text = true)
    (h : Node.ofText? text = some node) : node.Storable 0 := by
  obtain ⟨ts, hts, hnode⟩ := Option.bind_eq_some_iff.1 h
  have hexact : ∀ token ∈ ts, token.IsExact := by
    apply isExact_of_tokens? hts
    simpa [isFloatFree, hts] using hfree
  unfold Node.ofTokens? at hnode
  split at hnode
  · next last hfold =>
    cases hnode
    have hinit : (Reading.value []).Storable := trivial
    exact (hinit.foldlM hexact hfold).1
  · cases hnode

/-! ### Values -/

/-- The value that `json?` finds for a storable tree is storable. -/
theorem storable_of_json? {level : Nat} {node : Node} {j : Json} (h : node.Storable level)
    (hj : node.json? = some j) : Storable level j := by
  induction h generalizing j with
  | null =>
    cases hj
    exact .null
  | bool b =>
    cases hj
    exact .bool b
  | number hn =>
    cases hj
    exact .number hn
  | string s =>
    cases hj
    exact .string s
  | array hlevel _ ih =>
    rw [Node.json?, Node.jsonItems?_eq_mapM] at hj
    obtain ⟨items, hitems, rfl⟩ := Option.map_eq_some_iff.1 hj
    refine .array hlevel fun item hitem => ?_
    obtain ⟨n, hn, hvalue⟩ := exists_of_mem_mapM hitems hitem
    exact ih n hn hvalue
  | object hlevel _ ih =>
    rw [Node.json?, Node.jsonMembers?_eq_mapM] at hj
    obtain ⟨members, hmembers, rfl⟩ := Option.map_eq_some_iff.1 hj
    -- Keys that are given twice are kept once in the value.
    refine .object hlevel (fun m hm => ?_) (OrderedMap.ofList members).nodup_keys
    obtain ⟨n, hn, hvalue⟩ := exists_of_mem_mapM hmembers (OrderedMap.mem_of_mem_entries_ofList hm)
    obtain ⟨value, hjson, rfl⟩ := Option.map_eq_some_iff.1 hvalue
    exact ih n hn hjson
  | unusable => cases hj

/-! ### Lists, maps and records -/

section Readers

variable {α : Type} {read : Node → Option α} {level : Nat} {node : Node}

/-- The values that `map?` reads are read from the members of an object. -/
theorem exists_member_of_map? {m : OrderedMap String α} (hm : Node.map? read node = some m) :
    ∃ members, node = .object members ∧
      ∀ e ∈ m.entries, ∃ n ∈ members, read n.2 = some e.2 := by
  cases node with
  | object members =>
    refine ⟨members, rfl, fun e he => ?_⟩
    obtain ⟨l, hl, rfl⟩ := Option.map_eq_some_iff.1 hm
    obtain ⟨n, hn, hread⟩ := exists_of_mem_mapM hl (OrderedMap.mem_of_mem_entries_ofList he)
    obtain ⟨a, ha, rfl⟩ := Option.map_eq_some_iff.1 hread
    exact ⟨n, hn, ha⟩
  | _ => cases hm

/-- The values that `map?` reads are read from parts one level below it. -/
theorem exists_read_of_map? {m : OrderedMap String α} (h : node.Storable level)
    (hm : Node.map? read node = some m) :
    ∀ e ∈ m.entries, ∃ n, Node.Storable (level + 1) n ∧ read n = some e.2 := by
  obtain ⟨members, rfl, hread⟩ := exists_member_of_map? hm
  cases h with
  | object _ hmembers =>
    intro e he
    obtain ⟨n, hn, hvalue⟩ := hread e he
    exact ⟨n.2, hmembers n hn, hvalue⟩

/-- A value that `nullable?` reads, and that is there, is read from the part itself. -/
theorem read_of_nullable? {a : α} (ha : Node.nullable? read node = some (some a)) :
    read node = some a := by
  unfold Node.nullable? at ha
  split at ha
  · cases ha
  · obtain ⟨b, hb, hab⟩ := Option.map_eq_some_iff.1 ha
    rwa [← Option.some.inj hab]

namespace Record

variable {names : List String} {r : Record} {name : String}

/-- The fields of a record are parts one level below it, whether `ofNode?` finds members or a
list. -/
theorem storable_of_lookup {field : Node} (h : node.Storable level)
    (hr : ofNode? names node = some r) (hfield : r.fields.lookup name = some field) :
    field.Storable (level + 1) := by
  obtain ⟨before, after, hfields, -⟩ := List.lookup_eq_some_iff.1 hfield
  have hmem : (name, field) ∈ r.fields := by
    rw [hfields]
    exact List.mem_append_right _ List.mem_cons_self
  unfold ofNode? at hr
  split at hr
  · split at hr
    · cases hr
    · cases hr
      cases h with
      | object _ hmembers => exact hmembers _ hmem
  · -- A record may be given as the list of its fields.
    split at hr
    · cases hr
      cases h with
      | array _ hitems => exact hitems field (List.of_mem_zip hmem).2
    · cases hr
  · cases hr

/-- The values of a map that `required?` finds are read from parts two levels below the record. -/
theorem exists_read_of_required? {m : OrderedMap String α} (h : node.Storable level)
    (hr : ofNode? names node = some r) (hm : r.required? name (Node.map? read) = some m) :
    ∀ e ∈ m.entries, ∃ n, Node.Storable (level + 2) n ∧ read n = some e.2 := by
  obtain ⟨field, hfield, hmap⟩ := Option.bind_eq_some_iff.1 hm
  exact exists_read_of_map? (storable_of_lookup h hr hfield) hmap

/-- The values of a map that `defaulted?` finds are read from parts two levels below the record. -/
theorem exists_read_of_defaulted? {m : OrderedMap String α} (h : node.Storable level)
    (hr : ofNode? names node = some r) (hm : r.defaulted? name ∅ (Node.map? read) = some m) :
    ∀ e ∈ m.entries, ∃ n, Node.Storable (level + 2) n ∧ read n = some e.2 := by
  unfold defaulted? at hm
  split at hm
  · next field hfield => exact exists_read_of_map? (storable_of_lookup h hr hfield) hm
  · cases hm
    intro e he
    exact absurd he List.not_mem_nil

/-- The values of a map that `defaulted?` finds are read from some parts, wherever they stand. -/
theorem exists_value_of_defaulted? {m : OrderedMap String α}
    (hm : r.defaulted? name ∅ (Node.map? read) = some m) :
    ∀ e ∈ m.entries, ∃ n, read n = some e.2 := by
  unfold defaulted? at hm
  split at hm
  · intro e he
    obtain ⟨members, -, hread⟩ := exists_member_of_map? hm
    obtain ⟨n, -, hvalue⟩ := hread e he
    exact ⟨n.2, hvalue⟩
  · cases hm
    intro e he
    exact absurd he List.not_mem_nil

end Record

end Readers

end DocTypes.Json

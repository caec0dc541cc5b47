import DocTypes.Json.Node
import DocTypes.Proofs.JsonScan
import DocTypes.Proofs.MapM

/-!
# Reading what was written

A value that `write` lays out, in one line or in lines, is read again as itself, if it is
`Storable`: its numbers are integers that fit 64 bits, no object has a key twice, and no container
is nested too deep (`ofText?_write`, `json?_toNode`).

The proof goes through the tokens. Whatever the layout, the text is scanned as the tokens of the
value (`spells_write`), and the automaton that builds the tree takes them as one step
(`reads_of_storable`). Both are inductions on the value, with the further items and members of a
container as a list induction inside.
-/

namespace DocTypes.Json

/-- A value that is read as it is written, inside of `level` containers. -/
inductive Storable : Nat → Json → Prop
  | null {level : Nat} : Storable level .null
  | bool {level : Nat} (b : Bool) : Storable level (.bool b)
  | number {level : Nat} {n : JsonNumber} (hn : n.IsExact) : Storable level (.number n)
  | string {level : Nat} (s : String) : Storable level (.string s)
  | array {level : Nat} {items : List Json} (hlevel : level < depthLimit)
      (hitems : ∀ item ∈ items, Storable (level + 1) item) : Storable level (.array items)
  | object {level : Nat} {members : List (String × Json)} (hlevel : level < depthLimit)
      (hmembers : ∀ m ∈ members, Storable (level + 1) m.2)
      (hkeys : (members.map Prod.fst).Nodup) : Storable level (.object members)

mutual

/-- The tokens of the text that `write` gives for a value. -/
def tokens : Json → List Token
  | .null => [.null]
  | .bool b => [.bool b]
  | .number n => [.number (some n)]
  | .string s => [.string (some s)]
  | .array [] => [.openArray, .closeArray]
  | .array (item :: rest) => .openArray :: tokens item ++ itemTokens rest ++ [.closeArray]
  | .object [] => [.openObject, .closeObject]
  | .object ((key, value) :: rest) =>
    .openObject :: .string (some key) :: .colon :: tokens value ++ memberTokens rest ++
      [.closeObject]

/-- The tokens of the further items of an array, as `writeItems` gives them. -/
def itemTokens : List Json → List Token
  | [] => []
  | item :: rest => .comma :: tokens item ++ itemTokens rest

/-- The tokens of the further members of an object, as `writeMembers` gives them. -/
def memberTokens : List (String × Json) → List Token
  | [] => []
  | (key, value) :: rest =>
    .comma :: .string (some key) :: .colon :: tokens value ++ memberTokens rest

end

/-- The tree that `Node.ofText?` reads from the text of a value. -/
def toNode : Json → Node
  | .null => .null
  | .bool b => .bool b
  | .number n => .number n
  | .string s => .string s
  | .array items => .array (items.map toNode)
  | .object members => .object (members.map fun m => (m.1, toNode m.2))
decreasing_by
  · decreasing_tactic
  · next hm =>
    have hlt : sizeOf m < sizeOf members := List.sizeOf_lt_of_mem hm
    have hvalue : sizeOf m.2 < sizeOf m := by
      obtain ⟨key, value⟩ := m
      simp only [Prod.mk.sizeOf_spec]
      omega
    simp only [object.sizeOf_spec]
    omega

/-! ### Tokens of a written value -/

/-- The punctuation marks of the language, with the tokens that `scanToken?` finds for them. -/
def punctuation : List (Char × Token) :=
  [('[', .openArray), (']', .closeArray), ('\x7b', .openObject), ('\x7d', .closeObject),
    (',', .comma), (':', .colon)]

/-- The tokens of a text that starts with a mark of `punctuation`. -/
theorem tokens?_mark_cons {c : Char} {cs : List Char} (token : Token)
    (h : (c, token) ∈ punctuation) : tokens? (c :: cs) = (tokens? cs).map (token :: ·) := by
  simp only [punctuation, List.mem_cons, Prod.mk.injEq, List.not_mem_nil, or_false] at h
  rcases h with ⟨rfl, rfl⟩ | ⟨rfl, rfl⟩ | ⟨rfl, rfl⟩ | ⟨rfl, rfl⟩ | ⟨rfl, rfl⟩ | ⟨rfl, rfl⟩
  all_goals exact tokens?_of_scanToken? rfl rfl

/-- The tokens of a text that starts with one of `words`. -/
theorem tokens?_word_append (word : String) {cs : List Char} {token : Token}
    (h : (word, token) ∈ words) :
    tokens? (word.toList ++ cs) = (tokens? cs).map (token :: ·) := by
  simp only [words, List.mem_cons, Prod.mk.injEq, List.not_mem_nil, or_false] at h
  rcases h with ⟨rfl, rfl⟩ | ⟨rfl, rfl⟩ | ⟨rfl, rfl⟩
  all_goals exact tokens?_of_scanToken? rfl rfl

/-- What `writeItems` puts behind an item continues no number. -/
theorem delimited_writeItems {f : Formatter} {level : Nat} {items : List Json} {rest : List Char}
    (hr : Delimited rest) : Delimited (writeItems f level items ++ rest) := by
  cases items with
  | nil => rwa [writeItems, List.nil_append]
  | cons item items =>
    rw [writeItems]
    exact delimited_cons (by decide)

/-- What `writeMembers` puts behind a member continues no number. -/
theorem delimited_writeMembers {f : Formatter} {level : Nat} {members : List (String × Json)}
    {rest : List Char} (hr : Delimited rest) :
    Delimited (writeMembers f level members ++ rest) := by
  cases members with
  | nil => rwa [writeMembers, List.nil_append]
  | cons m members =>
    rw [writeMembers]
    exact delimited_cons (by decide)

/-- The text is scanned as the tokens `ts`, whatever follows that continues no number. -/
def Spells (text : List Char) (ts : List Token) : Prop :=
  ∀ rest, Delimited rest → tokens? (text ++ rest) = (tokens? rest).map (ts ++ ·)

/-- What `writeItems` gives is scanned as its tokens, if every item is (`h`). -/
theorem spells_writeItems {f : Formatter} {level : Nat} {items : List Json}
    (h : ∀ item ∈ items, Spells (write f (level + 1) item) (tokens item)) :
    Spells (writeItems f level items) (itemTokens items) := by
  intro rest hr
  -- Each item stands behind a comma and a line break, and the items behind it are what follows.
  induction items with
  | nil => simp [writeItems, itemTokens]
  | cons item items ih =>
    have hnext : Delimited (writeItems f level items ++ rest) := delimited_writeItems hr
    have hitems := ih fun i hi => h i (List.mem_cons_of_mem _ hi)
    simp only [writeItems, itemTokens, List.cons_append, List.append_assoc]
    rw [tokens?_mark_cons .comma (by simp [punctuation]),
      tokens?_blanks_append (f.isBlank_of_mem_lineBreak _), h item List.mem_cons_self _ hnext,
      hitems]
    simp [Function.comp_def]

/-- A member is scanned as its key, the colon and the tokens of its value (`h`). -/
theorem tokens?_member_append {f : Formatter} {text rest : List Char} {ts : List Token}
    (h : Spells text ts) (key : String) (hr : Delimited rest) :
    tokens? (renderString key ++ ':' :: (f.afterColon ++ (text ++ rest))) =
      (tokens? rest).map (.string (some key) :: .colon :: ts ++ ·) := by
  rw [tokens?_renderString_append, tokens?_mark_cons .colon (by simp [punctuation]),
    tokens?_blanks_append f.isBlank_of_mem_afterColon, h rest hr]
  simp [Function.comp_def]

/-- What `writeMembers` gives is scanned as its tokens, if every value is (`h`). -/
theorem spells_writeMembers {f : Formatter} {level : Nat} {members : List (String × Json)}
    (h : ∀ m ∈ members, Spells (write f (level + 1) m.2) (tokens m.2)) :
    Spells (writeMembers f level members) (memberTokens members) := by
  intro rest hr
  induction members with
  | nil => simp [writeMembers, memberTokens]
  | cons m members ih =>
    have hnext : Delimited (writeMembers f level members ++ rest) := delimited_writeMembers hr
    have hmember := tokens?_member_append (f := f) (h m List.mem_cons_self) m.1 hnext
    have hmembers := ih fun i hi => h i (List.mem_cons_of_mem _ hi)
    simp only [writeMembers, memberTokens, List.cons_append, List.append_assoc]
    rw [tokens?_mark_cons .comma (by simp [punctuation]),
      tokens?_blanks_append (f.isBlank_of_mem_lineBreak _), hmember, hmembers]
    simp [Function.comp_def]

/-- A `lineBreak` before a closing bracket continues no number. -/
theorem delimited_lineBreak_append {f : Formatter} {level : Nat} {c : Char} {rest : List Char}
    (hc : c = ']' ∨ c = '\x7d') : Delimited (f.lineBreak level ++ c :: rest) := by
  apply Delimited.blanks_append _ (f.isBlank_of_mem_lineBreak level)
  rcases hc with rfl | rfl
  all_goals exact delimited_cons (by decide)

/-- What `write` gives for a value is scanned as its `tokens`, in any layout. -/
theorem spells_write {f : Formatter} {level depth : Nat} {j : Json} (h : Storable depth j) :
    Spells (write f level j) (tokens j) := by
  -- By induction on the value as a storable one, at every level: its parts stand one level deeper.
  induction h generalizing level with
  | null =>
    intro rest _
    exact tokens?_word_append "null" (by simp [words])
  | bool b =>
    intro rest _
    cases b with
    | false => exact tokens?_word_append "false" (by simp [words])
    | true => exact tokens?_word_append "true" (by simp [words])
  | @number _ n hn =>
    intro rest hr
    cases n with
    | int n => exact tokens?_renderInt_append hn hr
    | float x => exact hn.elim
  | string s =>
    intro rest _
    exact tokens?_renderString_append s rest
  | @array _ items _ _ ih =>
    intro rest _
    cases items with
    | nil =>
      simp only [write, tokens, List.cons_append, List.nil_append]
      rw [tokens?_mark_cons .openArray (by simp [punctuation]),
        tokens?_mark_cons .closeArray (by simp [punctuation])]
      simp [Function.comp_def]
    | cons item items =>
      -- Behind every item stands what ends a number: a comma, a line break or the bracket.
      have hclose : Delimited (f.lineBreak level ++ ']' :: rest) :=
        delimited_lineBreak_append (.inl rfl)
      have hnext : Delimited (writeItems f level items ++ (f.lineBreak level ++ ']' :: rest)) :=
        delimited_writeItems hclose
      have hitem : Spells (write f (level + 1) item) (tokens item) := ih item List.mem_cons_self
      have hitems : Spells (writeItems f level items) (itemTokens items) :=
        spells_writeItems fun i hi => ih i (List.mem_cons_of_mem _ hi)
      simp only [write, tokens, List.cons_append, List.append_assoc, List.nil_append]
      rw [tokens?_mark_cons .openArray (by simp [punctuation]),
        tokens?_blanks_append (f.isBlank_of_mem_lineBreak _), hitem _ hnext, hitems _ hclose,
        tokens?_blanks_append (f.isBlank_of_mem_lineBreak _),
        tokens?_mark_cons .closeArray (by simp [punctuation])]
      simp [Function.comp_def]
  | @object _ members _ _ _ ih =>
    intro rest _
    cases members with
    | nil =>
      simp only [write, tokens, List.cons_append, List.nil_append]
      rw [tokens?_mark_cons .openObject (by simp [punctuation]),
        tokens?_mark_cons .closeObject (by simp [punctuation])]
      simp [Function.comp_def]
    | cons m members =>
      have hclose : Delimited (f.lineBreak level ++ '\x7d' :: rest) :=
        delimited_lineBreak_append (.inr rfl)
      have hnext : Delimited (writeMembers f level members ++
          (f.lineBreak level ++ '\x7d' :: rest)) := delimited_writeMembers hclose
      have hvalue : Spells (write f (level + 1) m.2) (tokens m.2) := ih m List.mem_cons_self
      have hmember := tokens?_member_append (f := f) hvalue m.1 hnext
      have hmembers : Spells (writeMembers f level members) (memberTokens members) :=
        spells_writeMembers fun i hi => ih i (List.mem_cons_of_mem _ hi)
      simp only [write, tokens, List.cons_append, List.append_assoc, List.nil_append]
      rw [tokens?_mark_cons .openObject (by simp [punctuation]),
        tokens?_blanks_append (f.isBlank_of_mem_lineBreak _), hmember, hmembers _ hclose,
        tokens?_blanks_append (f.isBlank_of_mem_lineBreak _),
        tokens?_mark_cons .closeObject (by simp [punctuation])]
      simp [Function.comp_def]

/-! ### The tree of a written value -/

/-- The tokens of a value do not end an array, so `step` takes them as those of an item. -/
theorem foldlM_firstItem (j : Json) (ts : List Token) (stack : List Frame) :
    (tokens j ++ ts).foldlM Reading.step (.firstItem stack) =
      (tokens j ++ ts).foldlM Reading.step (.value (.item [] :: stack)) := by
  cases j with
  | array items => cases items <;> rfl
  | object members => cases members <;> rfl
  | _ => rfl

/-- The automaton of `step` takes the tokens of the value `j` as one step. -/
def Reads (j : Json) (stack : List Frame) : Prop :=
  (tokens j).foldlM Reading.step (.value stack) = some (.after (toNode j) stack)

/-- The automaton of `step` takes items, one at least, into the array that they belong to. -/
theorem exists_foldlM_items {item : Json} {items : List Json} {stack : List Frame}
    (h : ∀ i ∈ item :: items, ∀ done, Reads i (.item done :: stack)) (done : List Node) :
    ∃ last before, (tokens item ++ itemTokens items).foldlM Reading.step
        (.value (.item done :: stack)) = some (.after last (.item before :: stack)) ∧
      (last :: before).reverse = done.reverse ++ (item :: items).map toNode := by
  induction items generalizing item done with
  | nil =>
    refine ⟨toNode item, done, ?_, by simp⟩
    rw [itemTokens, List.append_nil]
    exact h item List.mem_cons_self done
  | cons next items ih =>
    obtain ⟨last, before, hfold, hnodes⟩ :=
      ih (fun i hi => h i (List.mem_cons_of_mem _ hi)) (toNode item :: done)
    refine ⟨last, before, ?_, by simpa using hnodes⟩
    have hitem : (tokens item).foldlM Reading.step (.value (.item done :: stack)) =
        some (.after (toNode item) (.item done :: stack)) := h item List.mem_cons_self done
    -- The comma leads back to the state in front of the next item.
    rw [List.foldlM_append, hitem, itemTokens, List.cons_append, Option.bind_eq_bind,
      Option.bind_some, List.foldlM_cons]
    exact hfold

/-- The automaton of `step` takes members, one at least, into the object that they belong to. The
first key has been read already. -/
theorem exists_foldlM_members {m : String × Json} {members : List (String × Json)}
    {stack : List Frame} (h : ∀ n ∈ m :: members, ∀ done key, Reads n.2 (.member done key :: stack))
    (done : List (Option String × Node)) :
    ∃ key last before, (.colon :: tokens m.2 ++ memberTokens members).foldlM Reading.step
        (.colon done (some m.1) stack) = some (.after last (.member before key :: stack)) ∧
      ((key, last) :: before).reverse =
        done.reverse ++ (m :: members).map fun n => (some n.1, toNode n.2) := by
  induction members generalizing m done with
  | nil =>
    refine ⟨some m.1, toNode m.2, done, ?_, by simp⟩
    rw [memberTokens, List.append_nil]
    exact h m List.mem_cons_self done (some m.1)
  | cons next members ih =>
    obtain ⟨key, last, before, hfold, hnodes⟩ :=
      ih (fun n hn => h n (List.mem_cons_of_mem _ hn)) ((some m.1, toNode m.2) :: done)
    refine ⟨key, last, before, ?_, by simpa using hnodes⟩
    have hvalue : (.colon :: tokens m.2).foldlM Reading.step (.colon done (some m.1) stack) =
        some (.after (toNode m.2) (.member done (some m.1) :: stack)) :=
      h m List.mem_cons_self done (some m.1)
    -- The comma and the next key lead back to the state in front of the next colon.
    rw [List.foldlM_append, hvalue, memberTokens, List.cons_append, List.cons_append,
      Option.bind_eq_bind, Option.bind_some, List.foldlM_cons]
    exact hfold

/-- `closeObject` makes an object of members whose keys all have a text. -/
theorem closeObject_map_some {members : List (String × Node)} {stack : List Frame}
    (hlimit : stack.length < depthLimit) :
    Node.closeObject (members.map fun m => (some m.1, m.2)) stack = .object members := by
  unfold Node.closeObject
  rw [mapM_map_eq_some]
  · simp [hlimit]
  · intro m _
    rfl

/-- The automaton takes the tokens of a `Storable` value to its tree. -/
theorem reads_of_storable {j : Json} {stack : List Frame} (h : Storable stack.length j) :
    Reads j stack := by
  -- The stack grows with the level on the way to the parts, so both vary in the induction.
  generalize hlevel : stack.length = level at h
  induction h generalizing stack with
  | null => simp [Reads, tokens, toNode, Reading.step, Reading.startValue]
  | bool b => simp [Reads, tokens, toNode, Reading.step, Reading.startValue]
  | number hn => simp [Reads, tokens, toNode, Reading.step, Reading.startValue]
  | string s => simp [Reads, tokens, toNode, Reading.step, Reading.startValue]
  | @array level items hlimit _ ih =>
    subst hlevel
    unfold Reads
    cases items with
    | nil => simp [tokens, toNode, Reading.step, Reading.startValue, Node.closeArray, hlimit]
    | cons item items =>
      have hitems : ∀ i ∈ item :: items, ∀ done, Reads i (.item done :: stack) :=
        fun i hi done => ih i hi rfl
      obtain ⟨last, before, hfold, hnodes⟩ := exists_foldlM_items hitems []
      -- The bracket, the items, and the bracket that closes what they left on the stack.
      rw [tokens, List.cons_append, List.cons_append, List.foldlM_cons]
      simp only [Reading.step, Reading.startValue, Option.bind_eq_bind, Option.bind_some]
      rw [List.append_assoc, foldlM_firstItem, ← List.append_assoc, List.foldlM_append, hfold]
      simp only [Option.bind_eq_bind, Option.bind_some, List.foldlM_cons, List.foldlM_nil,
        Reading.step, Reading.afterValue, hnodes]
      simp [Node.closeArray, toNode, hlimit]
  | @object level members hlimit _ _ ih =>
    subst hlevel
    unfold Reads
    cases members with
    | nil => simp [tokens, toNode, Reading.step, Reading.startValue, Node.closeObject, hlimit]
    | cons m members =>
      have hmembers : ∀ n ∈ m :: members, ∀ done key, Reads n.2 (.member done key :: stack) :=
        fun n hn done key => ih n hn rfl
      obtain ⟨key, last, before, hfold, hnodes⟩ := exists_foldlM_members hmembers []
      simp only [tokens, List.cons_append, List.foldlM_cons, Reading.step, Reading.startValue,
        Option.bind_eq_bind, Option.bind_some] at hfold ⊢
      rw [List.foldlM_append, hfold]
      simp only [Option.bind_eq_bind, Option.bind_some, List.foldlM_cons, List.foldlM_nil,
        Reading.step, Reading.afterValue, hnodes]
      -- All keys have a text, since they were written from one.
      rw [toNode, ← closeObject_map_some hlimit, List.map_map]
      rfl

/-! ### Reading a written value -/

namespace Node

/-- `jsonItems?` finds the values of items item by item. -/
theorem jsonItems?_eq_mapM (items : List Node) : jsonItems? items = items.mapM json? := by
  induction items with
  | nil => rfl
  | cons item items ih => rw [jsonItems?, ih, List.mapM_cons]

/-- `jsonMembers?` finds the values of members member by member. -/
theorem jsonMembers?_eq_mapM (members : List (String × Node)) :
    jsonMembers? members = members.mapM fun m => (json? m.2).map fun j => (m.1, j) := by
  induction members with
  | nil => rfl
  | cons m members ih =>
    rw [jsonMembers?, ih, List.mapM_cons]
    cases json? m.2 <;> rfl

end Node

/-- The tree of a `Storable` value has the value by `json?`. -/
theorem json?_toNode {level : Nat} {j : Json} (h : Storable level j) :
    Node.json? (toNode j) = some j := by
  induction h with
  | null => rw [toNode, Node.json?]
  | bool b => rw [toNode, Node.json?]
  | number hn => rw [toNode, Node.json?]
  | string s => rw [toNode, Node.json?]
  | array _ _ ih =>
    rw [toNode, Node.json?, Node.jsonItems?_eq_mapM, mapM_map_eq_some ih]
    rfl
  | @object level members _ _ hkeys ih =>
    have hmembers : (members.map fun m => (m.1, toNode m.2)).mapM
        (fun m => (Node.json? m.2).map fun j => (m.1, j)) = some members := by
      apply mapM_map_eq_some
      intro m hm
      rw [ih m hm]
      rfl
    rw [toNode, Node.json?, Node.jsonMembers?_eq_mapM, hmembers, Option.map_some,
      OrderedMap.entries_ofList_of_nodup hkeys]

/-- What `write` gives for a `Storable` value, in any layout, is read by `ofText?` as its tree. -/
theorem ofText?_write (f : Formatter) {j : Json} (h : Storable 0 j) :
    Node.ofText? (String.ofList (write f 0 j)) = some (toNode j) := by
  have htokens : tokens? (write f 0 j) = some (tokens j) := by
    have hspells : Spells (write f 0 j) (tokens j) := spells_write h
    have hend := hspells [] delimited_nil
    rw [List.append_nil] at hend
    rw [hend, tokens?]
    simp
  have hreads : Reads j [] := reads_of_storable h
  unfold Node.ofText?
  rw [String.toList_ofList, htokens, Option.bind_some, Node.ofTokens?, hreads]

end DocTypes.Json

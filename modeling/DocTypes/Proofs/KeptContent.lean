import DocTypes.OrderedMap
import DocTypes.Value.Json
import Mathlib.Data.List.Forall2
import Mathlib.Data.List.Nodup

/-!
# What a value keeps of its JSON

A JSON value is read into a runtime value by `Value.ofJson`. `Json.Yields` says how without counting
identities, and `yields_ofJson` that the conversion does it. Two runtime values have the
`SameContent` if they differ at most in the identities of instances.

The conversion forgets two things, at any depth: where among its siblings the member under
`classKey` stood that names the class of an instance, and whether an empty array was written as an
array or as an object. `Json.Interchangeable` allows for these and for nothing else, and the main
statement (`sameContent_ofJson_iff`) is that JSON values yield the same content exactly if they are
interchangeable.
-/

namespace DocTypes

universe u v w

variable {κ : Type u} {α : Type v} {β : Type w}

/-! ## Entries with the same keys -/

/-- The same keys in the same order, with values related by `R`. -/
inductive Entrywise (R : α → β → Prop) : List (κ × α) → List (κ × β) → Prop
  | nil : Entrywise R [] []
  | cons {k : κ} {a : α} {b : β} {ms : List (κ × α)} {ns : List (κ × β)} :
      R a b → Entrywise R ms ns → Entrywise R ((k, a) :: ms) ((k, b) :: ns)

namespace Entrywise

variable {R : α → β → Prop} {ms : List (κ × α)} {ns : List (κ × β)}

/-- `Entrywise` at two nonempty lists: the first entries are related, and the others are. -/
theorem cons_iff {m : κ × α} {n : κ × β} :
    Entrywise R (m :: ms) (n :: ns) ↔ m.1 = n.1 ∧ R m.2 n.2 ∧ Entrywise R ms ns := by
  obtain ⟨k, a⟩ := m
  obtain ⟨l, b⟩ := n
  constructor
  · intro h
    cases h with
    | cons hab hrest => exact ⟨rfl, hab, hrest⟩
  · rintro ⟨rfl, hab, hrest⟩
    exact .cons hab hrest

/-- An entry of `ms` is related to one of `ns` under the same key. -/
theorem exists_mem {k : κ} {a : α} (h : Entrywise R ms ns) (ha : (k, a) ∈ ms) :
    ∃ b, (k, b) ∈ ns ∧ R a b := by
  induction h with
  | nil => cases ha
  | @cons _ _ b _ _ hab _ ih =>
    rcases List.mem_cons.1 ha with heq | ha
    · cases heq
      exact ⟨b, List.mem_cons_self, hab⟩
    · obtain ⟨b, hb, hR⟩ := ih ha
      exact ⟨b, List.mem_cons_of_mem _ hb, hR⟩

/-- Read from the other side, the entries are related by `R` the other way round. -/
theorem flip (h : Entrywise R ms ns) : Entrywise (fun b a => R a b) ns ms := by
  induction h with
  | nil => exact .nil
  | cons hab _ ih => exact .cons hab ih

/-- The entries whose keys pass the test `p` are related. -/
theorem filter (p : κ → Bool) (h : Entrywise R ms ns) :
    Entrywise R (ms.filter fun m => p m.1) (ns.filter fun n => p n.1) := by
  induction h with
  | nil => exact .nil
  | @cons k _ _ _ _ hab _ ih =>
    by_cases hk : p k = true
    · simp only [List.filter_cons, hk]
      exact .cons hab ih
    · simp only [List.filter_cons, hk]
      exact ih

/-- Entries are related if they are after all keys have been changed by one injective `g`. -/
theorem map_iff {κ' : Type u} {g : κ → κ'} (hg : Function.Injective g) :
    Entrywise R (ms.map fun m => (g m.1, m.2)) (ns.map fun n => (g n.1, n.2)) ↔
      Entrywise R ms ns := by
  induction ms generalizing ns with
  | nil =>
    cases ns with
    | nil => exact ⟨fun _ => .nil, fun _ => .nil⟩
    | cons n ns => exact ⟨nofun, nofun⟩
  | cons m ms ih =>
    cases ns with
    | nil => exact ⟨nofun, nofun⟩
    | cons n ns => rw [List.map_cons, List.map_cons, cons_iff, cons_iff, hg.eq_iff, ih]

end Entrywise

/-! ## The same content, and JSON that may be exchanged -/

/-- Runtime values of the same kinds, with equal contents, the same keys, names and classes, all in
the same order. Which instances they hold is left out: the identities `i` and `j` need not agree. -/
inductive Value.SameContent : Value → Value → Prop
  | null : SameContent .null .null
  | bool (b : Bool) : SameContent (.bool b) (.bool b)
  | int (n : Int) : SameContent (.int n) (.int n)
  | float (x : Float) : SameContent (.float x) (.float x)
  | string (s : String) : SameContent (.string s) (.string s)
  | array {xs ys : List (ArrayKey × Value)} :
      Entrywise SameContent xs ys → SameContent (.array xs) (.array ys)
  | object {i j : Nat} {className : String} {ps qs : List (String × Value)} :
      Entrywise SameContent ps qs → SameContent (.object i className ps) (.object j className qs)

namespace Json

open Value (classKey)

/-- All numbers are integers that fit 64 bits with a sign, so `ofNumber` keeps them as they are, and
no object has a key twice. -/
inductive IsIntegral : Json → Prop
  | null : IsIntegral .null
  | bool (b : Bool) : IsIntegral (.bool b)
  | int {n : Int} (hlower : -9223372036854775808 ≤ n) (hupper : n ≤ 9223372036854775807) :
      IsIntegral (.number (.int n))
  | string (s : String) : IsIntegral (.string s)
  | array {items : List Json} (hitems : ∀ item ∈ items, IsIntegral item) :
      IsIntegral (.array items)
  | object {members : List (String × Json)} (hkeys : (members.map Prod.fst).Nodup)
      (hmembers : ∀ m ∈ members, IsIntegral m.2) : IsIntegral (.object members)

/-- JSON values that are the same but for two things at any depth: the place of a member under
`classKey` that names a class (`moved`), and an empty object in place of an empty array
(`emptyArray`, `emptyObject`). -/
inductive Interchangeable : Json → Json → Prop
  | null : Interchangeable .null .null
  | bool (b : Bool) : Interchangeable (.bool b) (.bool b)
  | number (n : JsonNumber) : Interchangeable (.number n) (.number n)
  | string (s : String) : Interchangeable (.string s) (.string s)
  | array {xs ys : List Json} :
      List.Forall₂ Interchangeable xs ys → Interchangeable (.array xs) (.array ys)
  | object {ms ns : List (String × Json)} :
      Entrywise Interchangeable ms ns → Interchangeable (.object ms) (.object ns)
  | moved {className : String} {before after before' after' : List (String × Json)} :
      Entrywise Interchangeable (before ++ after) (before' ++ after') →
      Interchangeable (.object (before ++ (classKey, .string className) :: after))
        (.object (before' ++ (classKey, .string className) :: after'))
  | emptyArray : Interchangeable (.array []) (.object [])
  | emptyObject : Interchangeable (.object []) (.array [])

/-- The runtime values that a JSON value may be read into, with any identities. An array gets keys
from `0` on (`numbered`). An object is an array with its names as keys (`map`), unless a text under
`classKey` names the class that it is an instance of, with the other members as properties
(`object`). -/
inductive Yields : Json → Value → Prop
  | null : Yields .null .null
  | bool (b : Bool) : Yields (.bool b) (.bool b)
  | int (n : Int) : Yields (.number (.int n)) (.int n)
  | string (s : String) : Yields (.string s) (.string s)
  | list {items : List Json} {values : List Value} :
      List.Forall₂ Yields items values → Yields (.array items) (.array (Value.numbered 0 values))
  | map {members : List (String × Json)} {values : List (String × Value)} :
      (∀ className, (classKey, .string className) ∉ members) → Entrywise Yields members values →
      Yields (.object members) (.array (values.map fun e => (.name e.1, e.2)))
  | object {members : List (String × Json)} {className : String} {identity : Nat}
      {properties : List (String × Value)} :
      (classKey, .string className) ∈ members →
      Entrywise Yields (members.filter (·.1 != classKey)) properties →
      Yields (.object members) (.object identity className properties)

variable {x y : Json} {className : String} {ms ns : List (String × Json)}

/-! ## Reading -/

/-- Only one value stands under a key, by `hkeys`. -/
theorem eq_of_mem_members {k : String} (hkeys : (ms.map Prod.fst).Nodup) (hx : (k, x) ∈ ms)
    (hy : (k, y) ∈ ms) : x = y :=
  congrArg Prod.snd (List.inj_on_of_nodup_map hkeys hx hy rfl)

/-- With distinct keys, `classOf?` finds the name of a class exactly if a member under `classKey`
gives it as a text. -/
theorem classOf?_eq_some_iff (hkeys : (ms.map Prod.fst).Nodup) :
    Value.classOf? ms = some className ↔ (classKey, .string className) ∈ ms := by
  have hlookup : ∀ j, ms.lookup classKey = some j ↔ (classKey, j) ∈ ms := fun _ =>
    OrderedMap.get?_eq_some_iff (m := ⟨ms, hkeys⟩)
  rw [← hlookup, Value.classOf?]
  split
  · next name hname => simp [hname]
  · next hno =>
    refine ⟨nofun, fun h => ?_⟩
    exact absurd h (hno className)

mutual

/-- `ofJson` reads a value into what it `Yields`, wherever the count `next` of identities begins. -/
theorem yields_ofJson : {x : Json} → x.IsIntegral → (next : Nat) →
    Yields x (Value.ofJson x next).1
  | .null, _, _ => .null
  | .bool b, _, _ => .bool b
  | .number (.int n), .int hlower hupper, _ => by
    have hfits : Value.fitsInt64 n = true := by simp [Value.fitsInt64, hlower, hupper]
    rw [Value.ofJson, Value.ofNumber, if_pos hfits]
    exact .int n
  | .string s, _, _ => .string s
  | .array items, .array hitems, next => .list (yields_ofItems items hitems next)
  | .object members, .object hkeys hmembers, next => by
    have hvalues := yields_ofMembers members hmembers (next + 1)
    cases hclass : Value.classOf? members with
    | some className =>
      simp only [Value.ofJson, hclass]
      exact .object ((classOf?_eq_some_iff hkeys).1 hclass) (hvalues.filter (· != classKey))
    | none =>
      simp only [Value.ofJson, hclass]
      refine .map (fun className hmem => ?_) hvalues
      rw [(classOf?_eq_some_iff hkeys).2 hmem] at hclass
      cases hclass

/-- `ofItems` reads the items of an array one after the other. -/
theorem yields_ofItems : (items : List Json) → (∀ item ∈ items, item.IsIntegral) → (next : Nat) →
    List.Forall₂ Yields items (Value.ofItems items next).1
  | [], _, _ => .nil
  | item :: rest, h, next =>
    .cons (yields_ofJson (h item List.mem_cons_self) next)
      (yields_ofItems rest (fun i hi => h i (List.mem_cons_of_mem _ hi)) _)

/-- `ofMembers` reads the members of an object one after the other, under their keys. -/
theorem yields_ofMembers : (members : List (String × Json)) → (∀ m ∈ members, m.2.IsIntegral) →
    (next : Nat) → Entrywise Yields members (Value.ofMembers members next).1
  | [], _, _ => .nil
  | (key, member) :: rest, h, next =>
    .cons (yields_ofJson (h (key, member) List.mem_cons_self) next)
      (yields_ofMembers rest (fun m hm => h m (List.mem_cons_of_mem _ hm)) _)

end

/-! ## Objects that may be exchanged -/

/-- Without a member that names a class (`hclass`), nothing in an object may change its place. -/
theorem interchangeable_object_iff (hclass : ∀ className, (classKey, .string className) ∉ ms) :
    Interchangeable (.object ms) (.object ns) ↔ Entrywise Interchangeable ms ns := by
  refine ⟨fun h => ?_, .object⟩
  generalize hx : Json.object ms = x at h
  generalize hy : Json.object ns = y at h
  cases h <;> cases hx <;> cases hy
  · assumption
  · exact absurd (List.mem_append_right _ List.mem_cons_self) (hclass _)

/-- The siblings of the member under `k` are the members under other keys. -/
theorem filter_append_cons {k : String} {before after : List (String × Json)}
    (hkeys : ((before ++ (k, x) :: after).map Prod.fst).Nodup) :
    (before ++ (k, x) :: after).filter (·.1 != k) = before ++ after := by
  rw [List.map_append, List.map_cons, List.nodup_append, List.nodup_cons] at hkeys
  obtain ⟨-, ⟨hafter, -⟩, hbefore⟩ := hkeys
  have hb : before.filter (·.1 != k) = before := List.filter_eq_self.2 fun m hm => by
    simpa using hbefore m.1 (List.mem_map_of_mem hm) k List.mem_cons_self
  have ha : after.filter (·.1 != k) = after := List.filter_eq_self.2 fun m hm => by
    have hmem : m.1 ∈ after.map Prod.fst := List.mem_map_of_mem hm
    have hne : m.1 ≠ k := fun h => hafter (h ▸ hmem)
    simpa using hne
  rw [List.filter_append, List.filter_cons_of_neg (by simp), hb, ha]

/-- Objects of which `ms` names a class may be exchanged if `ns` names the same class and the
siblings of the two members may be exchanged. Here `moved` and `object` come to the same. -/
theorem interchangeable_object_iff_of_mem (hms : (ms.map Prod.fst).Nodup)
    (hns : (ns.map Prod.fst).Nodup) (hclass : (classKey, .string className) ∈ ms) :
    Interchangeable (.object ms) (.object ns) ↔ (classKey, .string className) ∈ ns ∧
      Entrywise Interchangeable (ms.filter (·.1 != classKey)) (ns.filter (·.1 != classKey)) := by
  constructor
  · intro h
    generalize hx : Json.object ms = x at h
    generalize hy : Json.object ns = y at h
    cases h <;> cases hx <;> cases hy
    · next hmembers =>
      obtain ⟨j, hj, hname⟩ := hmembers.exists_mem hclass
      cases hname
      exact ⟨hj, hmembers.filter (· != classKey)⟩
    · next name before after before' after' hsiblings =>
      have hname := eq_of_mem_members hms hclass (List.mem_append_right _ List.mem_cons_self)
      cases hname
      rw [filter_append_cons hms, filter_append_cons hns]
      exact ⟨List.mem_append_right _ List.mem_cons_self, hsiblings⟩
  · rintro ⟨hclass', hsiblings⟩
    obtain ⟨before, after, rfl⟩ := List.append_of_mem hclass
    obtain ⟨before', after', rfl⟩ := List.append_of_mem hclass'
    rw [filter_append_cons hms, filter_append_cons hns] at hsiblings
    exact .moved hsiblings

/-! ## What is told apart -/

/-- What `x` and `y` yield has the `SameContent` exactly if they are `Interchangeable`. -/
def Faithful (x y : Json) : Prop :=
  ∀ v w, Yields x v → Yields y w → (v.SameContent w ↔ Interchangeable x y)

/-- If `Faithful` holds of all items, they have the same content one by one if they are
interchangeable one by one. -/
theorem forall₂_sameContent_iff {xs ys : List Json} {vs ws : List Value}
    (h : ∀ x ∈ xs, ∀ y ∈ ys, Faithful x y) (hvs : List.Forall₂ Yields xs vs)
    (hws : List.Forall₂ Yields ys ws) :
    List.Forall₂ Value.SameContent vs ws ↔ List.Forall₂ Interchangeable xs ys := by
  induction hvs generalizing ys ws with
  | nil => cases hws <;> simp
  | @cons x v xs vs hv _ ih =>
    cases hws with
    | nil => simp
    | @cons y w ys ws hw hws =>
      have hfirst : v.SameContent w ↔ Interchangeable x y :=
        h x List.mem_cons_self y List.mem_cons_self v w hv hw
      have hrest := ih (fun x hx y hy =>
        h x (List.mem_cons_of_mem _ hx) y (List.mem_cons_of_mem _ hy)) hws
      rw [List.forall₂_cons, List.forall₂_cons, hfirst, hrest]

/-- So do members under the same keys, `Entrywise`. -/
theorem entrywise_sameContent_iff {vs ws : List (String × Value)}
    (h : ∀ m ∈ ms, ∀ n ∈ ns, Faithful m.2 n.2) (hvs : Entrywise Yields ms vs)
    (hws : Entrywise Yields ns ws) :
    Entrywise Value.SameContent vs ws ↔ Entrywise Interchangeable ms ns := by
  induction hvs generalizing ns ws with
  | nil =>
    cases hws with
    | nil => exact ⟨fun _ => .nil, fun _ => .nil⟩
    | cons => exact ⟨nofun, nofun⟩
  | @cons k x v ms vs hv _ ih =>
    cases hws with
    | nil => exact ⟨nofun, nofun⟩
    | @cons l y w ns ws hw hws =>
      have hfirst : v.SameContent w ↔ Interchangeable x y :=
        h (k, x) List.mem_cons_self (l, y) List.mem_cons_self v w hv hw
      have hrest := ih (fun m hm n hn =>
        h m (List.mem_cons_of_mem _ hm) n (List.mem_cons_of_mem _ hn)) hws
      rw [Entrywise.cons_iff, Entrywise.cons_iff, hfirst, hrest]

/-- Lists that are `numbered` from the same `start` are the same if they are item by item. -/
theorem entrywise_numbered_iff {vs ws : List Value} (start : Nat) :
    Entrywise Value.SameContent (Value.numbered start vs) (Value.numbered start ws) ↔
      List.Forall₂ Value.SameContent vs ws := by
  induction vs generalizing ws start with
  | nil =>
    cases ws with
    | nil => exact ⟨fun _ => .nil, fun _ => .nil⟩
    | cons w ws => exact ⟨nofun, nofun⟩
  | cons v vs ih =>
    cases ws with
    | nil => exact ⟨nofun, nofun⟩
    | cons w ws =>
      rw [Value.numbered, Value.numbered, Entrywise.cons_iff, List.forall₂_cons, ih]
      simp

/-- Arrays have the `SameContent` if their entries have. -/
theorem sameContent_array_iff {es fs : List (ArrayKey × Value)} :
    (Value.array es).SameContent (.array fs) ↔ Entrywise Value.SameContent es fs := by
  refine ⟨fun h => ?_, .array⟩
  cases h with
  | array h => exact h

/-- Arrays are `Interchangeable` if their items are. -/
theorem interchangeable_array_iff {xs ys : List Json} :
    Interchangeable (.array xs) (.array ys) ↔ List.Forall₂ Interchangeable xs ys := by
  refine ⟨fun h => ?_, .array⟩
  cases h with
  | array h => exact h

/-- A list `xs` and an object `ns` without a class have the same content only if both are empty: the
keys of a list are numbers and those of an object are names. This is `emptyArray`. -/
theorem sameContent_list_map_iff {xs : List Json} {vs : List Value} {ws : List (String × Value)}
    (hvs : List.Forall₂ Yields xs vs) (hws : Entrywise Yields ns ws) :
    (Value.array (Value.numbered 0 vs)).SameContent (.array (ws.map fun e => (.name e.1, e.2))) ↔
      Interchangeable (.array xs) (.object ns) := by
  rw [sameContent_array_iff]
  cases hvs <;> cases hws
  · exact ⟨fun _ => .emptyArray, fun _ => .nil⟩
  all_goals exact ⟨nofun, nofun⟩

/-- An object is `Interchangeable` with an array only if both are empty. -/
theorem eq_nil_of_interchangeable {ys : List Json} (h : Interchangeable (.object ms) (.array ys)) :
    ms = [] ∧ ys = [] := by
  cases h
  exact ⟨rfl, rfl⟩

/-- An object `ms` without a class and a list `ys` have the same content only if both are empty.
This is `emptyObject`. -/
theorem sameContent_map_list_iff {ys : List Json} {vs : List (String × Value)} {ws : List Value}
    (hvs : Entrywise Yields ms vs) (hws : List.Forall₂ Yields ys ws) :
    (Value.array (vs.map fun e => (.name e.1, e.2))).SameContent (.array (Value.numbered 0 ws)) ↔
      Interchangeable (.object ms) (.array ys) := by
  rw [sameContent_array_iff]
  constructor
  · intro h
    cases hvs <;> cases hws <;> cases h
    exact .emptyObject
  · intro h
    obtain ⟨rfl, rfl⟩ := eq_nil_of_interchangeable h
    cases hvs
    cases hws
    exact .nil

/-- `Faithful` at two objects, if it holds of their members (`h`). -/
theorem faithful_object (hms : (ms.map Prod.fst).Nodup) (hns : (ns.map Prod.fst).Nodup)
    (h : ∀ m ∈ ms, ∀ n ∈ ns, Faithful m.2 n.2) : Faithful (.object ms) (.object ns) := by
  intro v w hv hw
  have hname : Function.Injective ArrayKey.name := fun _ _ => ArrayKey.name.inj
  -- Each side is a plain array or an instance, as `Yields` has it. Of the four pairs, the two mixed
  -- ones agree on neither side of the equivalence.
  cases hv with
  | map hclass hvs =>
    rw [interchangeable_object_iff hclass]
    cases hw with
    | map _ hws =>
      rw [sameContent_array_iff, Entrywise.map_iff hname, entrywise_sameContent_iff h hvs hws]
    | object hmem _ =>
      refine ⟨nofun, fun hmembers => ?_⟩
      -- The member that names the class would stand in the other object too.
      obtain ⟨x, hx, hstring⟩ := hmembers.flip.exists_mem hmem
      cases hstring
      exact absurd hx (hclass _)
  | @object _ name identity ps hmem hvs =>
    rw [interchangeable_object_iff_of_mem hms hns hmem]
    cases hw with
    | map hclass _ => exact ⟨nofun, fun hmembers => absurd hmembers.1 (hclass _)⟩
    | @object _ name' identity' qs hmem' hws =>
      have hsiblings : Entrywise Value.SameContent ps qs ↔ Entrywise Interchangeable
          (ms.filter (·.1 != classKey)) (ns.filter (·.1 != classKey)) :=
        entrywise_sameContent_iff (fun m hm n hn =>
          h m (List.mem_of_mem_filter hm) n (List.mem_of_mem_filter hn)) hvs hws
      rw [← hsiblings]
      constructor
      · intro hsame
        cases hsame with
        | object hproperties => exact ⟨hmem', hproperties⟩
      · rintro ⟨hmem, hproperties⟩
        obtain rfl : name = name' := Json.string.inj (eq_of_mem_members hns hmem hmem')
        exact .object hproperties

/-- `Faithful` holds of all values that satisfy `IsIntegral`. -/
theorem faithful_of_isIntegral (hx : x.IsIntegral) (hy : y.IsIntegral) : Faithful x y := by
  -- The induction is on `hx`, with `y` left free: inside an array or an object the values are
  -- compared across, and `ih` is used at items of `y`.
  induction hx generalizing y with
  | null | bool _ | int _ _ | string _ =>
    rintro v w ⟨⟩ hw
    constructor <;> rintro ⟨⟩ <;> cases hw <;> constructor
  | array _ ih =>
    intro v w hv hw
    cases hv with
    | list hvs =>
      cases hw with
      | list hws =>
        cases hy with
        | array hitems =>
          -- Both lists are numbered from `0`, so only the items count.
          rw [sameContent_array_iff, entrywise_numbered_iff, interchangeable_array_iff]
          exact forall₂_sameContent_iff (fun x hx y hy => ih x hx (hitems y hy)) hvs hws
      | map _ hws => exact sameContent_list_map_iff hvs hws
      | object hmem _ =>
        refine ⟨nofun, fun h => ?_⟩
        cases h
        cases hmem
      | _ => exact ⟨nofun, nofun⟩
  | @object ms hkeys _ ih =>
    cases hy with
    | object hkeys' hmembers =>
      exact faithful_object hkeys hkeys' fun m hm n hn => ih m hm (hmembers n hn)
    | array _ =>
      intro v w hv hw
      cases hw with
      | list hws =>
        cases hv with
        | map _ hvs => exact sameContent_map_list_iff hvs hws
        | object hmem _ =>
          refine ⟨nofun, fun h => ?_⟩
          obtain ⟨rfl, -⟩ := eq_nil_of_interchangeable h
          cases hmem
    | _ =>
      intro v w hv hw
      cases hw
      cases hv <;> exact ⟨nofun, nofun⟩

end Json

namespace Value

/-- Two JSON values without doubles, with integers of 64 bits and distinct keys in every object
(`hx`, `hy`), are read by `ofJson` into values of the same content, identities of instances apart,
exactly if they are the same up to the place of the members that name classes and to empty objects
in place of empty arrays, at any depth. -/
theorem sameContent_ofJson_iff {x y : Json} (hx : x.IsIntegral) (hy : y.IsIntegral)
    (next next' : Nat) :
    (ofJson x next).1.SameContent (ofJson y next').1 ↔ Json.Interchangeable x y :=
  Json.faithful_of_isIntegral hx hy _ _ (Json.yields_ofJson hx next) (Json.yields_ofJson hy next')

/-- The member `@class` behind its sibling, and an empty object for an empty array. In `z`, where
the name of the class is no text, the object is no instance. -/
theorem sameContent_ofJson_iff_cart :
    let x : Json := .object [("@class", .string "Cart"), ("items", .object [])]
    let y : Json := .object [("items", .array []), ("@class", .string "Cart")]
    let z : Json := .object [("@class", .ofInt 1), ("items", .object [])]
    x.IsIntegral ∧ y.IsIntegral ∧ z.IsIntegral ∧
    (ofJson x 0).1.SameContent (ofJson y 7).1 ∧ ¬(ofJson x 0).1.SameContent (ofJson z 0).1 := by
  intro x y z
  have hempty : (Json.object []).IsIntegral := .object List.nodup_nil nofun
  have hx : x.IsIntegral := .object (by decide)
    (List.forall_mem_cons.2 ⟨.string _, List.forall_mem_cons.2 ⟨hempty, nofun⟩⟩)
  have hy : y.IsIntegral := .object (by decide)
    (List.forall_mem_cons.2 ⟨.array nofun, List.forall_mem_cons.2 ⟨.string _, nofun⟩⟩)
  have hz : z.IsIntegral := .object (by decide)
    (List.forall_mem_cons.2 ⟨.int (by decide) (by decide), List.forall_mem_cons.2 ⟨hempty, nofun⟩⟩)
  have hmoved : Json.Interchangeable x y :=
    @Json.Interchangeable.moved "Cart" [] [("items", .object [])] [("items", .array [])] []
      (.cons .emptyObject .nil)
  refine ⟨hx, hy, hz, (sameContent_ofJson_iff hx hy 0 7).2 hmoved, fun hsame => ?_⟩
  have hother : Json.Interchangeable x z := (sameContent_ofJson_iff hx hz 0 0).1 hsame
  obtain ⟨hclass, -⟩ :=
    (Json.interchangeable_object_iff_of_mem (by decide) (by decide) List.mem_cons_self).1 hother
  simp [Json.ofInt] at hclass

end Value

end DocTypes

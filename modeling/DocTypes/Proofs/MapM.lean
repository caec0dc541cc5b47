import Mathlib.Data.List.Forall2

/-!
# Sequences that may fail

A sequence of computations succeeds if each of them does, and keeps what each of them keeps. A list
is mapped item by item by `List.mapM`, and one item without an answer leaves the whole list without
one. The answers stand in the order of the items, so a mapped list is related to the list by
`List.Forall₂`.
-/

namespace DocTypes

universe u v w

variable {α : Type u} {β : Type v} {ε : Type w}

/-- A sequence `x >>= f` succeeds if both `x` and `f` do, with what `f` makes of the value of
`x`. -/
theorem bind_eq_ok_iff {γ : Type v} {x : Except ε β} {f : β → Except ε γ} {c : γ} :
    x >>= f = .ok c ↔ ∃ b, x = .ok b ∧ f b = .ok c := by
  cases x with
  | error e => simp [bind, Except.bind]
  | ok b => simp [bind, Except.bind]

/-- A sequence `x >>= f` fails as `x` does, or as `f` does behind it. -/
theorem bind_eq_error_iff {γ : Type v} {x : Except ε β} {f : β → Except ε γ} {e : ε} :
    x >>= f = .error e ↔ x = .error e ∨ ∃ b, x = .ok b ∧ f b = .error e := by
  cases x with
  | error e => simp [bind, Except.bind]
  | ok b => simp [bind, Except.bind]

/-- An answer changed by `Except.map f` is `f` of an answer. -/
theorem map_eq_ok_iff {γ : Type v} {x : Except ε β} {f : β → γ} {c : γ} :
    x.map f = .ok c ↔ ∃ b, x = .ok b ∧ f b = c := by
  cases x with
  | error e => simp [Except.map]
  | ok b => simp [Except.map]

/-- Changing the answers by `Except.map` leaves the errors alone. -/
theorem map_eq_error_iff {γ : Type v} {x : Except ε β} {f : β → γ} {e : ε} :
    x.map f = .error e ↔ x = .error e := by
  cases x with
  | error e' => simp [Except.map]
  | ok b => simp [Except.map]

/-- Changing the errors by `Except.mapError` leaves the answers alone. -/
theorem mapError_eq_ok_iff {ε' : Type w} {x : Except ε β} {f : ε → ε'} {b : β} :
    x.mapError f = .ok b ↔ x = .ok b := by
  cases x with
  | error e => simp [Except.mapError]
  | ok b => simp [Except.mapError]

/-- For `f` into `Option`: all items of `l` have an answer if `l.mapM f` is one, and `answers` is
the list of them. -/
theorem mapM_eq_some_iff {f : α → Option β} {l : List α} {answers : List β} :
    l.mapM f = some answers ↔ List.Forall₂ (fun a b => f a = some b) l answers := by
  induction l generalizing answers with
  | nil => simp [eq_comm]
  | cons a l ih =>
    rw [List.mapM_cons, List.forall₂_cons_left_iff]
    simp only [Option.bind_eq_bind, Option.bind_eq_some_iff, Option.pure_def, Option.some.injEq, ih]
    constructor
    · rintro ⟨b, hb, bs, hbs, rfl⟩
      exact ⟨b, bs, hb, hbs, rfl⟩
    · rintro ⟨b, bs, hb, hbs, rfl⟩
      exact ⟨b, hb, bs, hbs, rfl⟩

/-- For `f` into `Option`: `l.mapM f` is no answer if and only if `f` has none for some item. -/
theorem mapM_eq_none_iff {f : α → Option β} {l : List α} :
    l.mapM f = none ↔ ∃ a ∈ l, f a = none := by
  induction l with
  | nil => simp
  | cons a l ih =>
    rw [List.mapM_cons]
    cases ha : f a with
    | none => simp [ha]
    | some b => cases hl : l.mapM f <;> simp_all

/-- If `f` takes back what `g` does to every item, by `h`, then `mapM f` takes back `map g`. -/
theorem mapM_map_eq_some {f : α → Option β} {g : β → α} {l : List β}
    (h : ∀ b ∈ l, f (g b) = some b) : (l.map g).mapM f = some l := by
  rw [mapM_eq_some_iff, List.forall₂_map_left_iff, List.forall₂_same]
  exact h

/-- In lists related by `R` every item of the second is related to one of the first. -/
theorem exists_of_mem_forall₂ {R : α → β → Prop} {l : List α} {answers : List β} {b : β}
    (h : List.Forall₂ R l answers) (hb : b ∈ answers) : ∃ a ∈ l, R a b := by
  induction h with
  | nil => exact absurd hb List.not_mem_nil
  | @cons a b' l answers hab _ ih =>
    rcases List.mem_cons.1 hb with rfl | hb
    · exact ⟨a, List.mem_cons_self, hab⟩
    · obtain ⟨a', ha', hf⟩ := ih hb
      exact ⟨a', List.mem_cons_of_mem _ ha', hf⟩

/-- Every item of `answers` is what `f` gives for some item of `l`. -/
theorem exists_of_mem_mapM {f : α → Option β} {l : List α} {answers : List β} {b : β}
    (h : l.mapM f = some answers) (hb : b ∈ answers) : ∃ a ∈ l, f a = some b :=
  exists_of_mem_forall₂ (R := fun a b => f a = some b) (mapM_eq_some_iff.1 h) hb

/-- At a place `i`, `answers` has what `f` gives for the item of `l` there. -/
theorem getElem?_of_mapM {f : α → Option β} {l : List α} {answers : List β}
    (h : l.mapM f = some answers) (i : Nat) : answers[i]? = l[i]?.bind f := by
  rw [mapM_eq_some_iff] at h
  induction h generalizing i with
  | nil => rfl
  | cons hb _ ih =>
    cases i with
    | zero => exact hb.symm
    | succ i => exact ih i

/-- If `f` takes items related by `R` to answers related by `S` (`hstep`), then `mapM f` does so
with lists. -/
theorem exists_mapM_of_forall₂ {f : α → Option β} {R : α → α → Prop} {S : β → β → Prop}
    {l l' : List α} {answers : List β}
    (hstep : ∀ a a' b, R a a' → f a = some b → ∃ b', f a' = some b' ∧ S b b')
    (h : List.Forall₂ R l l') (hl : l.mapM f = some answers) :
    ∃ answers', l'.mapM f = some answers' ∧ List.Forall₂ S answers answers' := by
  rw [mapM_eq_some_iff] at hl
  -- By induction on the relation of the two lists: `mapM f` goes through both in step.
  induction h generalizing answers with
  | nil =>
    obtain rfl := List.forall₂_nil_left_iff.1 hl
    exact ⟨[], rfl, .nil⟩
  | @cons a a' l l' ha _ ih =>
    obtain ⟨b, bs, hb, hbs, rfl⟩ := List.forall₂_cons_left_iff.1 hl
    obtain ⟨b', hb', hS⟩ := hstep a a' b ha hb
    obtain ⟨bs', hbs', hSs⟩ := ih hbs
    exact ⟨b' :: bs', by rw [List.mapM_cons, hb', hbs']; rfl, .cons hS hSs⟩

/-- A list related by `R` to `before ++ a :: after` has an item related to `a` between two parts
that are related to `before` and to `after`. -/
theorem exists_of_forall₂_append_cons {R : α → β → Prop} {before after : List α} {a : α}
    {l : List β} (h : List.Forall₂ R (before ++ a :: after) l) :
    ∃ lower b upper, l = lower ++ b :: upper ∧ List.Forall₂ R before lower ∧ R a b ∧
      List.Forall₂ R after upper := by
  -- The other list is split where the first one is, behind as many elements as `before` has.
  induction before generalizing l with
  | nil =>
    obtain ⟨b, upper, hb, hupper, rfl⟩ := List.forall₂_cons_left_iff.1 h
    exact ⟨[], b, upper, rfl, .nil, hb, hupper⟩
  | cons c before ih =>
    obtain ⟨c', rest, hc, hrest, rfl⟩ := List.forall₂_cons_left_iff.1 h
    obtain ⟨lower, b, upper, rfl, hlower, hb, hupper⟩ := ih hrest
    exact ⟨c' :: lower, b, upper, rfl, .cons hc hlower, hb, hupper⟩

/-- Two functions that agree on the items of `l` have the same `mapM` over it. -/
theorem mapM_congr {f g : α → Option β} {l : List α} (h : ∀ a ∈ l, f a = g a) :
    l.mapM f = l.mapM g := by
  induction l with
  | nil => rfl
  | cons a l ih =>
    rw [List.mapM_cons, List.mapM_cons, h a (by simp), ih fun b hb => h b (by simp [hb])]

/-- One `mapM` of `f` followed by `g` is the `mapM` of `f` followed by that of `g`. -/
theorem mapM_bind {γ : Type v} {f : α → Option β} {g : β → Option γ} {l : List α} :
    (l.mapM fun a => (f a).bind g) = (l.mapM f).bind fun answers => answers.mapM g := by
  induction l with
  | nil => simp
  | cons a l ih =>
    rw [List.mapM_cons, List.mapM_cons, ih]
    cases ha : f a with
    | none => simp
    -- On the left side `g` is asked before the rest of the list, on the right side behind it.
    | some b =>
      cases hl : l.mapM f with
      | none => cases g b <;> simp
      | some bs => simp [List.mapM_cons]

/-- For `f` into `Except`: all items of `l` succeed if `l.mapM f` does, and `answers` is the list of
their values. -/
theorem mapM_eq_ok_iff {f : α → Except ε β} {l : List α} {answers : List β} :
    l.mapM f = .ok answers ↔ List.Forall₂ (fun a b => f a = .ok b) l answers := by
  induction l generalizing answers with
  | nil => simp [pure, Except.pure, eq_comm]
  | cons a l ih =>
    rw [List.mapM_cons, List.forall₂_cons_left_iff]
    cases ha : f a with
    | error e => simp [bind, Except.bind]
    | ok b =>
      cases hl : l.mapM f with
      | error e =>
        have hn : ∀ bs, ¬List.Forall₂ (fun a b => f a = .ok b) l bs := fun bs h => by
          simp [ih.2 h] at hl
        simp [bind, Except.bind, hn]
      | ok bs =>
        have hbs (bs' : List β) : List.Forall₂ (fun a b => f a = .ok b) l bs' ↔ bs = bs' := by
          rw [← ih, hl, Except.ok.injEq]
        simp [bind, Except.bind, pure, Except.pure, hbs, eq_comm]

/-- For `f` into `Except`: `l.mapM f` succeeds if `f` does for every item (`h`). -/
theorem exists_mapM_eq_ok {f : α → Except ε β} {l : List α} (h : ∀ a ∈ l, ∃ b, f a = .ok b) :
    ∃ answers, l.mapM f = .ok answers := by
  induction l with
  | nil => exact ⟨[], rfl⟩
  | cons a l ih =>
    obtain ⟨b, hb⟩ := h a List.mem_cons_self
    obtain ⟨answers, hl⟩ := ih fun a' ha' => h a' (List.mem_cons_of_mem _ ha')
    exact ⟨b :: answers, by rw [List.mapM_cons, hb, hl]; rfl⟩

/-- Every item of `answers` is a value of `f` for some item of `l`. -/
theorem exists_of_mem_mapM_ok {f : α → Except ε β} {l : List α} {answers : List β} {b : β}
    (h : l.mapM f = .ok answers) (hb : b ∈ answers) : ∃ a ∈ l, f a = .ok b :=
  exists_of_mem_forall₂ (R := fun a b => f a = .ok b) (mapM_eq_ok_iff.1 h) hb

/-- Around the value of `a` stand the values of the items around it, those of `before` in `lower`
and those of `after` in `upper`. -/
theorem exists_of_mapM_append_cons {f : α → Except ε β} {before after : List α} {a : α}
    {answers : List β} (h : (before ++ a :: after).mapM f = .ok answers) :
    ∃ lower b upper, answers = lower ++ b :: upper ∧ f a = .ok b ∧
      before.mapM f = .ok lower ∧ after.mapM f = .ok upper := by
  rw [List.mapM_append, List.mapM_cons] at h
  obtain ⟨lower, hlower, h⟩ := bind_eq_ok_iff.1 h
  obtain ⟨others, hothers, hok⟩ := bind_eq_ok_iff.1 h
  obtain ⟨b, hb, hothers⟩ := bind_eq_ok_iff.1 hothers
  obtain ⟨upper, hupper, hcons⟩ := bind_eq_ok_iff.1 hothers
  cases hcons
  cases hok
  exact ⟨lower, b, upper, rfl, hb, hlower, hupper⟩

end DocTypes

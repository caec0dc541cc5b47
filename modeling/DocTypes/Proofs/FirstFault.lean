import DocTypes.Proofs.MapM

/-!
# The first item at fault

A check goes through items in order and stops at the first one that is at fault. Which items are at
fault, and with which error, is given by a relation that knows nothing of the check. `Reports` says
that a check fails with the error of the first item at fault and with no other, and so succeeds if
no item is (`Reports.exists_ok_iff`). It is put together along the check: two checks in sequence go
through the items of both (`Reports.bind`), and a list is checked element by element
(`Reports.mapM`).
-/

namespace DocTypes

universe u v w

variable {ι : Type u} {ε : Type v} {β γ : Type w} {offends : ι → ε → Prop} {items others : List ι}
  {item : ι} {e : ε}

/-- By the relation `offends`, no one of `items` is at fault. -/
def Faultless (offends : ι → ε → Prop) (items : List ι) : Prop :=
  ∀ i ∈ items, ∀ e, ¬offends i e

/-- One of `items` is at fault with the error `e`, and those in front of it are `Faultless`. -/
def FirstFault (offends : ι → ε → Prop) (items : List ι) (e : ε) : Prop :=
  ∃ before i after, items = before ++ i :: after ∧ Faultless offends before ∧ offends i e

/-- Items are `Faultless` if the first is not at fault and the others are `Faultless`. -/
theorem faultless_cons_iff : Faultless offends (item :: items) ↔
    (∀ e, ¬offends item e) ∧ Faultless offends items := by
  simp [Faultless]

/-- The first fault is that of `item`, or this has none and it is the first of `items`. -/
theorem firstFault_cons_iff : FirstFault offends (item :: items) e ↔
    offends item e ∨ (∀ e', ¬offends item e') ∧ FirstFault offends items e := by
  constructor
  · rintro ⟨before, i, after, hsplit, hbefore, hi⟩
    -- The part `before` is empty, and then `item` is at fault, or it starts with `item`.
    rcases List.cons_eq_append_iff.1 hsplit with ⟨rfl, hcons⟩ | ⟨before, rfl, rfl⟩
    · obtain ⟨rfl, -⟩ := List.cons.inj hcons
      exact .inl hi
    · obtain ⟨hitem, hbefore⟩ := faultless_cons_iff.1 hbefore
      exact .inr ⟨hitem, before, i, after, rfl, hbefore, hi⟩
  · rintro (hi | ⟨hitem, before, i, after, rfl, hbefore, hi⟩)
    · exact ⟨[], item, items, rfl, fun _ => nofun, hi⟩
    · exact ⟨item :: before, i, after, rfl, faultless_cons_iff.2 ⟨hitem, hbefore⟩, hi⟩

/-- The first fault of `items ++ others` is in `items`, or these are `Faultless` and it is in
`others`. -/
theorem firstFault_append_iff : FirstFault offends (items ++ others) e ↔
    FirstFault offends items e ∨ Faultless offends items ∧ FirstFault offends others e := by
  induction items with
  | nil => simp [FirstFault, Faultless]
  | cons item items ih =>
    rw [List.cons_append, firstFault_cons_iff, ih, firstFault_cons_iff, faultless_cons_iff,
      and_or_left, or_assoc, and_assoc]

/-- If `items` are given by `g`, the first fault of `given.map g` is that of `given`, where `k` is
at fault as `g k` is. -/
theorem firstFault_map_iff {κ : Type*} {g : κ → ι} {given : List κ} :
    FirstFault offends (given.map g) e ↔ FirstFault (fun k => offends (g k)) given e := by
  induction given with
  | nil => simp [FirstFault]
  | cons k given ih => rw [List.map_cons, firstFault_cons_iff, firstFault_cons_iff, ih]

/-- Items are `Faultless` if there is no `FirstFault`: with some item at fault, one of them is the
first. -/
theorem faultless_iff_forall_not_firstFault :
    Faultless offends items ↔ ∀ e, ¬FirstFault offends items e := by
  induction items with
  | nil => simp [FirstFault, Faultless]
  | cons item items ih =>
    simp only [faultless_cons_iff, firstFault_cons_iff, ih, not_or, not_and, forall_and]
    exact and_congr_right fun hitem => ⟨fun h e _ => h e, fun h e => h e hitem⟩

/-- The elements of a list, each with all that stand in front of it, those of `earlier` first. -/
def withEarlier {α : Type u} (earlier : List α) : List α → List (List α × α)
  | [] => []
  | a :: rest => (earlier, a) :: withEarlier (earlier ++ [a]) rest

/-- The first fault of `withEarlier earlier l` is that of an element `a` of `l` with
`earlier ++ before` in front of it, and the elements of `before` have none. -/
theorem firstFault_withEarlier_iff {α : Type u} {offends : List α × α → ε → Prop}
    {earlier l : List α} : FirstFault offends (withEarlier earlier l) e ↔
      ∃ before a after, l = before ++ a :: after ∧
        Faultless offends (withEarlier earlier before) ∧ offends (earlier ++ before, a) e := by
  -- By induction on the list, for all `earlier`: an element that is passed joins those in front.
  induction l generalizing earlier with
  | nil => simp [withEarlier, FirstFault]
  | cons a l ih =>
    rw [withEarlier, firstFault_cons_iff, ih]
    constructor
    · rintro (ha | ⟨ha, before, b, after, rfl, hbefore, hb⟩)
      · exact ⟨[], a, l, rfl, nofun, by rwa [List.append_nil]⟩
      · refine ⟨a :: before, b, after, rfl, faultless_cons_iff.2 ⟨ha, hbefore⟩, ?_⟩
        rwa [List.append_assoc] at hb
    · rintro ⟨before, b, after, hsplit, hbefore, hb⟩
      rcases List.cons_eq_append_iff.1 hsplit with ⟨rfl, hcons⟩ | ⟨before, rfl, rfl⟩
      · obtain ⟨rfl, -⟩ := List.cons.inj hcons
        exact .inl (by rwa [List.append_nil] at hb)
      · obtain ⟨ha, hbefore⟩ := faultless_cons_iff.1 hbefore
        refine .inr ⟨ha, before, b, after, rfl, hbefore, ?_⟩
        rwa [List.append_assoc]

/-- The check `x` fails with the error of the first one of `items` at fault, and with no other
error. -/
def Reports (offends : ι → ε → Prop) (x : Except ε β) (items : List ι) : Prop :=
  ∀ e, x = .error e ↔ FirstFault offends items e

namespace Reports

variable {x : Except ε β} {f : β → Except ε γ}

/-- A check that `Reports` the faults of `items` succeeds if they are `Faultless`. -/
theorem exists_ok_iff (h : Reports offends x items) :
    (∃ b, x = .ok b) ↔ Faultless offends items := by
  rw [faultless_iff_forall_not_firstFault]
  simp only [← h _]
  cases x <;> simp

/-- A check that `Reports` the faults of `items` fails if one of them `offends`. -/
theorem exists_error_iff (h : Reports offends x items) :
    (∃ e, x = .error e) ↔ ∃ i ∈ items, ∃ e, offends i e := by
  have hok := not_congr h.exists_ok_iff
  simp only [Faultless, not_forall, not_not, exists_prop] at hok
  rw [← hok]
  cases x <;> simp

/-- A check that succeeds, by `h`, `Reports` the faults of no items. -/
theorem ok {b : β} (h : x = .ok b) : Reports offends x [] := by
  intro e
  simp [h, FirstFault]

/-- A check that fails if `item` is at fault `Reports` the faults of this item. -/
theorem single (h : ∀ e, x = .error e ↔ offends item e) : Reports offends x [item] := by
  intro e
  rw [h, firstFault_cons_iff]
  simp [FirstFault]

/-- A sequence `x >>= f` goes through the `items` of `x`, and then through the `others` of `f`. -/
theorem bind (hx : Reports offends x items)
    (hf : ∀ b, x = .ok b → Reports offends (f b) others) :
    Reports offends (x >>= f) (items ++ others) := by
  intro e
  rw [firstFault_append_iff, ← hx.exists_ok_iff, ← hx e]
  -- Where `x` fails, its items are not `Faultless`, and `f` is not asked.
  cases hcase : x with
  | error e' => simp [Bind.bind, Except.bind]
  | ok b =>
    rw [← hf b hcase e]
    simp [Bind.bind, Except.bind]

/-- The first check of a sequence may be of one `item`, as by `single`. -/
theorem cons (hx : ∀ e, x = .error e ↔ offends item e)
    (hf : ∀ b, x = .ok b → Reports offends (f b) items) :
    Reports offends (x >>= f) (item :: items) :=
  (single hx).bind hf

/-- If all that follows a check succeeds (`hf`), nothing more than by `x` is reported. -/
theorem bind_ok (hx : Reports offends x items) (hf : ∀ b, x = .ok b → ∃ c, f b = .ok c) :
    Reports offends (x >>= f) items := by
  rw [← List.append_nil items]
  refine hx.bind fun b hb => ?_
  obtain ⟨c, hc⟩ := hf b hb
  exact ok hc

/-- A condition `p` that is tested before a check `x` puts an `item` in front that is at fault if
`p` holds. -/
theorem guard {p : Prop} [Decidable p] {fault : ε} (hitem : ∀ e, offends item e ↔ p ∧ fault = e)
    (hx : ¬p → Reports offends x items) :
    Reports offends (if p then .error fault else x) (item :: items) := by
  intro e
  rw [firstFault_cons_iff]
  by_cases hp : p
  · simp [hp, hitem]
  · simp only [hp, hitem, if_false, false_and, not_false_iff, implies_true, true_and, false_or]
    exact hx hp e

/-- If `x` goes through `given`, it goes through `given.map g` where `g k` is at fault as `k` is
(`hg`). -/
theorem map {κ : Type*} {given : List κ} {offends' : κ → ε → Prop} {g : κ → ι}
    (h : Reports offends' x given) (hg : ∀ k e, offends' k e ↔ offends (g k) e) :
    Reports offends x (given.map g) := by
  intro e
  have hsame : (fun k => offends (g k)) = offends' := by
    funext k e
    exact propext (hg k e).symm
  rw [firstFault_map_iff, hsame, h e]

/-- A check by `List.mapM g` goes through the items of the first element, then through those of the
second, and so on. -/
theorem mapM {α : Type*} {g : α → Except ε β} {l : List α} {itemsOf : α → List ι}
    (h : ∀ a ∈ l, Reports offends (g a) (itemsOf a)) :
    Reports offends (l.mapM g) (l.flatMap itemsOf) := by
  induction l with
  | nil => exact ok rfl
  | cons a l ih =>
    rw [List.mapM_cons, List.flatMap_cons]
    refine (h a List.mem_cons_self).bind fun b _ => ?_
    exact (ih fun a' ha' => h a' (List.mem_cons_of_mem _ ha')).bind_ok fun bs _ => ⟨b :: bs, rfl⟩

end Reports

end DocTypes

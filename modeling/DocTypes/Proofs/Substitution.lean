import DocTypes.Proofs.MapM
import DocTypes.Proofs.Subtyping
import DocTypes.Validation

/-!
# Acceptance follows the subtype relation

A value that is valid for a declaration stays valid if its objects are replaced by objects of
subtypes, if `self` comes to stand for a supertype, and if more types or more parents become known.
The main statement is `validate_mono`. It leaves out `$this`, which asks for one particular object.

`IsPartOf` compares registries, and `is_subtype` grows along it (`isSubtype_mono`). `Narrows`
compares values. That a term keeps holding is an induction on the term (`holds_mono`).
-/

namespace DocTypes

open Relation (ReflTransGen)

/-! ## Growing registries -/

namespace TypeRegistry

/-- Every type of `r` is known to `r'`, with the same parents and maybe more. -/
def IsPartOf (r r' : TypeRegistry) : Prop :=
  ∀ d ∈ r.definitions, ∃ d' ∈ r'.definitions, d'.name = d.name ∧ ∀ p ∈ d.parents, p ∈ d'.parents

instance {r r' : TypeRegistry} : Decidable (r.IsPartOf r') :=
  inferInstanceAs (Decidable (∀ d ∈ r.definitions, ∃ d' ∈ r'.definitions, d'.name = d.name ∧
    ∀ p ∈ d.parents, p ∈ d'.parents))

variable {definitions definitions' : List TypeDefinition} {r r' : TypeRegistry}
  {child parent : String}

/-- A type `Extends` in a larger registry what it did. -/
theorem IsPartOf.extends (h : r.IsPartOf r') (hp : Extends r.definitions child parent) :
    Extends r'.definitions child parent := by
  obtain ⟨d, hd, rfl, hparent⟩ := hp
  obtain ⟨d', hd', hname, hparents⟩ := h d hd
  exact ⟨d', hd', hname, hparents parent hparent⟩

/-- A type that `r` contains is known to a larger registry. -/
theorem IsPartOf.contains (h : r.IsPartOf r') (hc : r.contains child = true) :
    r'.contains child = true := by
  obtain ⟨d, hd, rfl⟩ := List.mem_map.1 (contains_iff_mem_names.1 hc)
  obtain ⟨d', hd', hname, -⟩ := h d hd
  exact contains_iff_mem_names.2 (List.mem_map.2 ⟨d', hd', hname⟩)

/-- `isSubtype` keeps holding in a larger registry (`hpart`), since each step of `Extends` does. -/
theorem isSubtype_mono (hr : build definitions = .ok r) (hr' : build definitions' = .ok r')
    (hpart : r.IsPartOf r') (h : r.isSubtype child parent = true) :
    r'.isSubtype child parent = true := by
  rw [isSubtype_iff_reflTransGen_of_build hr, ← definitions_of_build hr] at h
  rw [isSubtype_iff_reflTransGen_of_build hr', ← definitions_of_build hr']
  exact ReflTransGen.mono (fun _ _ => hpart.extends) _ _ h

/-- `isSubtype` is transitive in a registry of `build`. -/
theorem isSubtype_trans (hr : build definitions = .ok r) {a b c : String}
    (hab : r.isSubtype a b = true) (hbc : r.isSubtype b c = true) : r.isSubtype a c = true := by
  rw [isSubtype_iff_reflTransGen_of_build hr] at hab hbc ⊢
  exact hab.trans hbc

end TypeRegistry

/-! ## Narrowing values -/

/-- The second value has the shape of the first: equal scalars, arrays with as many elements in the
same order, and objects of the same class or of a subtype of it in `r`. The properties of objects
and the keys of arrays are free, as `matches` looks at neither. -/
inductive Value.Narrows (r : TypeRegistry) : Value → Value → Prop
  | null : Narrows r .null .null
  | bool (b : Bool) : Narrows r (.bool b) (.bool b)
  | int (n : Int) : Narrows r (.int n) (.int n)
  | float {x y : Float} : x = y ∨ (x == y) = true → Narrows r (.float x) (.float y)
  | string (s : String) : Narrows r (.string s) (.string s)
  | array {xs ys : List (ArrayKey × Value)} :
      List.Forall₂ (fun x y => Narrows r x.2 y.2) xs ys → Narrows r (.array xs) (.array ys)
  | object {i j : Nat} {name name' : String} {ps qs : List (String × Value)} :
      r.isSubtype name' name = true → Narrows r (.object i name ps) (.object j name' qs)

variable {definitions definitions' : List TypeDefinition} {r r' : TypeRegistry}
  {c c' : ObjectContext} {v v' : Value}

/-- `Narrows` does not change whether a value is of a built-in kind. -/
theorem PrimitiveKind.holds_of_narrows {kind : PrimitiveKind} (hv : Value.Narrows r v v') :
    kind.holds v' = kind.holds v := by
  cases hv with
  | float _ => cases kind <;> rfl
  | array _ => cases kind <;> rfl
  | object _ => cases kind <;> rfl
  | _ => rfl

namespace TypeTerm

/-- Whether a term asks for the receiver itself by `thisRef`, at any depth. -/
def mentionsThis : TypeTerm → Bool
  | thisRef => true
  | arrayOf element => element.mentionsThis
  | primitive _ => false
  | classRef _ => false
  | selfRef => false
  | unhandled _ => false

/-- `isInstance` keeps holding for every supertype of the class (`hname`) when the value is narrowed
(`hv`). -/
theorem isInstance_of_narrows (hr : TypeRegistry.build definitions = .ok r)
    (hr' : TypeRegistry.build definitions' = .ok r') (hpart : r.IsPartOf r')
    (hv : Value.Narrows r' v v') {name name' : String} (hname : r'.isSubtype name name' = true)
    (h : isInstance r name v = true) : isInstance r' name' v' = true := by
  cases hv with
  | @object _ _ cls cls' _ _ hsub =>
    have hcls : r'.isSubtype cls name = true := TypeRegistry.isSubtype_mono hr hr' hpart h
    exact TypeRegistry.isSubtype_trans hr' hsub (TypeRegistry.isSubtype_trans hr' hcls hname)
  | _ => cases h

/-- A term other than `$this` (`ht`) that `holds` for a value holds for it when it is narrowed. -/
theorem holds_mono (hr : TypeRegistry.build definitions = .ok r)
    (hr' : TypeRegistry.build definitions' = .ok r') (hpart : r.IsPartOf r')
    (hc : r'.isSubtype c.className c'.className = true) {t : TypeTerm}
    (ht : t.mentionsThis = false) (hv : Value.Narrows r' v v') (h : t.holds r c v = true) :
    t.holds r' c' v' = true := by
  -- The induction is on the term. Only an array asks about other values, its elements, so `v` and
  -- `v'` are left free; `$this` is ruled out by `ht`.
  induction t generalizing v v' with
  | primitive kind => exact (PrimitiveKind.holds_of_narrows hv).trans h
  | classRef name =>
    obtain ⟨hknown, hinstance⟩ := Bool.and_eq_true_iff.1 h
    have hrefl : r'.isSubtype name name = true :=
      (TypeRegistry.isSubtype_iff_reflTransGen_of_build hr').2 .refl
    exact Bool.and_eq_true_iff.2 ⟨hpart.contains hknown,
      isInstance_of_narrows hr hr' hpart hv hrefl hinstance⟩
  | selfRef => exact isInstance_of_narrows hr hr' hpart hv hc h
  | thisRef => cases ht
  | arrayOf element ih =>
    cases hv with
    | @array xs ys hitems =>
      have hall : ∀ x ∈ xs, element.holds r c x.2 = true := List.all_eq_true.1 h
      refine List.all_eq_true.2 fun y hy => ?_
      obtain ⟨x, hx, hxy⟩ := exists_of_mem_forall₂ hitems hy
      exact ih ht hxy (hall x hx)
    | _ => cases h
  | unhandled word => cases h

/-- A term other than `$this` can be decided in the context `c'` if it can be in `c`. -/
theorem undecidable?_eq_none_of_mentionsThis {t : TypeTerm} (ht : t.mentionsThis = false)
    (h : t.undecidable? c = none) : t.undecidable? c' = none := by
  induction t with
  | thisRef => cases ht
  | arrayOf element ih => exact ih ht h
  | unhandled word => cases h
  | _ => rfl

end TypeTerm

/-- `validate` accepts a value if all terms can be decided and one of them `holds`. -/
theorem TypeDeclaration.validate_eq_ok_true_iff {d : TypeDeclaration} :
    d.validate r c v = .ok true ↔
      (∀ t ∈ d.terms, t.undecidable? c = none) ∧ ∃ t ∈ d.terms, t.holds r c v = true := by
  unfold validate
  -- One term that is not decidable fails the declaration before any other is tried.
  cases hf : d.terms.findSome? (·.undecidable? c) with
  | some e =>
    obtain ⟨t, ht, hu⟩ := List.exists_of_findSome?_eq_some hf
    simp only [reduceCtorEq, false_iff, not_and]
    intro hall
    cases (hall t ht).symm.trans hu
  | none =>
    have hall : ∀ t ∈ d.terms, t.undecidable? c = none := List.findSome?_eq_none_iff.1 hf
    simp only [Except.ok.injEq, List.any_eq_true]
    exact (and_iff_right hall).symm

/-- A declaration without `$this` (`hd`) for which `validate` accepts a value accepts it when its
objects are replaced by objects of subtypes (`hv`), when `self` comes to stand for a supertype
(`hc`), and when more types or more parents become known (`hpart`). -/
theorem TypeDeclaration.validate_mono {d : TypeDeclaration}
    (hr : TypeRegistry.build definitions = .ok r) (hr' : TypeRegistry.build definitions' = .ok r')
    (hpart : r.IsPartOf r') (hd : ∀ t ∈ d.terms, t.mentionsThis = false)
    (hv : Value.Narrows r' v v') (hc : r'.isSubtype c.className c'.className = true)
    (h : d.validate r c v = .ok true) : d.validate r' c' v' = .ok true := by
  obtain ⟨hdecidable, t, ht, hholds⟩ := validate_eq_ok_true_iff.1 h
  refine validate_eq_ok_true_iff.2 ⟨?_, t, ht, ?_⟩
  · intro u hu
    exact TypeTerm.undecidable?_eq_none_of_mentionsThis (hd u hu) (hdecidable u hu)
  · exact TypeTerm.holds_mono hr hr' hpart hc (hd t ht) hv hholds

/-- The class `Circle` and the interface that it implements. -/
def shapes : TypeRegistry where
  definitions := [{ name := "Circle", kind := .class, parents := ["Shape"] },
    { name := "Shape", kind := .interface }]
  nodup_names := by decide

/-- Here `Circle` has one more parent and a subclass. -/
def moreShapes : TypeRegistry where
  definitions := [
    { name := "Shape", kind := .interface },
    { name := "Colored", kind := .interface },
    { name := "Circle", kind := .class, parents := ["Colored", "Shape"] },
    { name := "Disc", kind := .class, parents := ["Circle"] }]
  nodup_names := by decide

/-- A list with a `Circle` is a list of shapes, and so is one with a `Disc`. -/
theorem TypeDeclaration.validate_mono_disc :
    let d : TypeDeclaration := ⟨[.selfRef, .arrayOf (.classRef "Shape")], by simp⟩
    TypeRegistry.build shapes.definitions = .ok shapes ∧
    TypeRegistry.build moreShapes.definitions = .ok moreShapes ∧ shapes.IsPartOf moreShapes ∧
    (∀ t ∈ d.terms, t.mentionsThis = false) ∧
    d.validate shapes (.static "Circle") (.array [(.index 0, .object 0 "Circle" [])]) = .ok true ∧
    d.validate moreShapes (.static "Shape") (.array [(.name "k", .object 1 "Disc" [])]) =
      .ok true := by
  intro d
  have hr : TypeRegistry.build shapes.definitions = .ok shapes := by cbv
  have hr' : TypeRegistry.build moreShapes.definitions = .ok moreShapes := by cbv
  have hpart : shapes.IsPartOf moreShapes := by decide
  have hd : ∀ t ∈ d.terms, t.mentionsThis = false := by decide
  have hv : Value.Narrows moreShapes (.array [(.index 0, .object 0 "Circle" [])])
      (.array [(.name "k", .object 1 "Disc" [])]) :=
    .array (.cons (.object (by cbv)) .nil)
  have hc : moreShapes.isSubtype (ObjectContext.static "Circle").className
      (ObjectContext.static "Shape").className = true := by cbv
  have hcircle : shapes.isSubtype "Circle" "Shape" = true := by cbv
  have h : d.validate shapes (.static "Circle") (.array [(.index 0, .object 0 "Circle" [])]) =
      .ok true := by
    refine validate_eq_ok_true_iff.2 ⟨by decide, .arrayOf (.classRef "Shape"), by simp [d], ?_⟩
    have hknown : shapes.contains "Shape" = true := by rfl
    simp [TypeTerm.holds, TypeTerm.isInstance, hknown, hcircle]
  exact ⟨hr, hr', hpart, hd, h, validate_mono hr hr' hpart hd hv hc h⟩

end DocTypes

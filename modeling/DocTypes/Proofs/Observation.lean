import DocTypes.Validation
import Mathlib.Data.List.Forall2

/-!
# What validation looks at

Of a value, `validate` sees the kinds of its parts, which of two truth values stands there, how many
elements an array has and in which order, the class of an object, and whether an object is the
receiver. `Value.Alike` says that two values are the same in all this, each in a context of its own.
Then they have the same outcome, errors included (`validate_alike`).

So nothing else matters. `Value.outline` leaves out the keys of arrays, the properties of objects
and the contents of numbers and texts at every depth, and a value is judged as its `outline` is.
-/

namespace DocTypes

/-- The contexts `c` and `c'` are of one class, and both or neither have a receiver. -/
structure ObjectContext.Alike (c c' : ObjectContext) : Prop where
  className_eq : c.className = c'.className
  hasReceiver_eq : c.hasReceiver = c'.hasReceiver

namespace Value

/-- The values have the same kinds, equal truth values, arrays with as many elements in the same
order, and objects of the same class that `isReceiver` accepts in both contexts or in none. -/
inductive Alike (c c' : ObjectContext) : Value → Value → Prop
  | null : Alike c c' .null .null
  | bool (b : Bool) : Alike c c' (.bool b) (.bool b)
  | int (m n : Int) : Alike c c' (.int m) (.int n)
  | float (x y : Float) : Alike c c' (.float x) (.float y)
  | string (s t : String) : Alike c c' (.string s) (.string t)
  | array {xs ys : List (ArrayKey × Value)} :
      List.Forall₂ (fun x y => Alike c c' x.2 y.2) xs ys → Alike c c' (.array xs) (.array ys)
  | object {i j : Nat} {name : String} {ps qs : List (String × Value)} :
      c.isReceiver (.object i name ps) = c'.isReceiver (.object j name qs) →
      Alike c c' (.object i name ps) (.object j name qs)

mutual

/-- A value without the keys of arrays, the properties of objects and the contents of numbers and
texts. The identity `i` of an object stays, since `is_receiver` compares it. -/
def outline : Value → Value
  | null => .null
  | bool b => .bool b
  | int _ => .int 0
  | float _ => .float 0
  | string _ => .string ""
  | array items => .list (outlineItems items)
  | object i name _ => .object i name []

/-- The `outline` of each element of an array. -/
def outlineItems : List (ArrayKey × Value) → List Value
  | [] => []
  | (_, v) :: rest => outline v :: outlineItems rest

end

variable {c c' : ObjectContext} {v v' : Value}

mutual

/-- A value and its `outline` are `Alike` in every context. -/
theorem alike_outline (c : ObjectContext) : (v : Value) → Alike c c v v.outline
  | null => .null
  | bool b => .bool b
  | int n => .int n 0
  | float x => .float x 0
  | string s => .string s ""
  | array items => .array (alike_outlineItems c 0 items)
  | object i name ps => by
    have hreceiver : c.isReceiver (.object i name ps) = c.isReceiver (.object i name []) := by
      cases c <;> rfl
    exact .object hreceiver

/-- The elements of an array and their outlines are `Alike`, from whatever `start` the outlines are
numbered. -/
theorem alike_outlineItems (c : ObjectContext) (start : Nat) : (items : List (ArrayKey × Value)) →
    List.Forall₂ (fun x y => Alike c c x.2 y.2) items (numbered start (outlineItems items))
  | [] => .nil
  | (_, v) :: rest => .cons (alike_outline c v) (alike_outlineItems c (start + 1) rest)

end

/-- Values that are `Alike` are of the same built-in kinds. -/
theorem Alike.holds_eq (hv : Alike c c' v v') (kind : PrimitiveKind) :
    kind.holds v = kind.holds v' := by
  cases hv with
  | bool b => rfl
  | null => rfl
  | _ => cases kind <;> rfl

/-- Values that are `Alike` pass `isInstance` for the same classes. -/
theorem Alike.isInstance_eq (hv : Alike c c' v v') (r : TypeRegistry) (className : String) :
    TypeTerm.isInstance r className v = TypeTerm.isInstance r className v' := by
  cases hv <;> rfl

/-- Of values that are `Alike`, both are the receivers of their contexts or both are not. -/
theorem Alike.isReceiver_eq (hv : Alike c c' v v') : c.isReceiver v = c'.isReceiver v' := by
  cases hv with
  | object hreceiver => exact hreceiver
  | _ => cases c <;> cases c' <;> rfl

end Value

variable {r : TypeRegistry} {c c' : ObjectContext} {v v' : Value}

namespace TypeTerm

/-- In contexts of one class (`hc`) `holds` is the same at two values that are `Alike`. -/
theorem holds_eq_of_alike (hc : c.className = c'.className) (hv : Value.Alike c c' v v')
    (t : TypeTerm) : t.holds r c v = t.holds r c' v' := by
  -- The values are left free, since an array of terms asks `ih` about the elements.
  induction t generalizing v v' with
  | primitive kind => exact hv.holds_eq kind
  | classRef name =>
    have hinstance := hv.isInstance_eq r name
    simp only [holds, hinstance]
  -- `self` asks for the class of the context, and `hc` is all that it needs.
  | selfRef =>
    have hinstance := hv.isInstance_eq r c.className
    rw [holds, holds, hinstance, hc]
  | thisRef => exact hv.isReceiver_eq
  | unhandled word => rfl
  | arrayOf element ih =>
    cases hv with
    | @array xs ys hitems =>
      show (xs.all fun x => element.holds r c x.2) = ys.all fun y => element.holds r c' y.2
      -- Element by element, from the front.
      induction hitems with
      | nil => rfl
      | @cons x y xs ys hxy _ hrest =>
        have hfirst : element.holds r c x.2 = element.holds r c' y.2 := ih hxy
        rw [List.all_cons, List.all_cons, hfirst, hrest]
    | _ => rfl

/-- In contexts that are `Alike` a term is undecidable for the same reason, if it is. -/
theorem undecidable?_eq_of_alike (hc : c.Alike c') (t : TypeTerm) :
    t.undecidable? c = t.undecidable? c' := by
  induction t with
  | thisRef => rw [undecidable?, undecidable?, hc.hasReceiver_eq, hc.className_eq]
  | arrayOf element ih => exact ih
  | _ => rfl

end TypeTerm

/-- `validate` at a declaration has the same outcome for two values that are `Alike`. -/
theorem TypeDeclaration.validate_eq_of_alike (hc : c.Alike c') (hv : Value.Alike c c' v v')
    (d : TypeDeclaration) : d.validate r c v = d.validate r c' v' := by
  have hundecidable : (fun t : TypeTerm => t.undecidable? c) = fun t => t.undecidable? c' :=
    funext (TypeTerm.undecidable?_eq_of_alike hc)
  have hholds : (fun t : TypeTerm => t.holds r c v) = fun t => t.holds r c' v' :=
    funext (TypeTerm.holds_eq_of_alike hc.className_eq hv)
  rw [validate, validate, hundecidable, hholds]

namespace Validation

/-- `validate` has the same outcome, the error included, for two values that are `Alike` in contexts
that are `Alike`, whatever the declaration. In particular it does not depend on the keys of arrays,
the properties of objects and the contents of numbers and texts, which `outline` leaves out. -/
theorem validate_alike (r : TypeRegistry) (d : Option TypeDeclaration) :
    (∀ c c' v v', ObjectContext.Alike c c' → Value.Alike c c' v v' →
      validate r c d v = validate r c' d v') ∧
    ∀ c v, validate r c d v.outline = validate r c d v := by
  have halike : ∀ c c' v v', ObjectContext.Alike c c' → Value.Alike c c' v v' →
      validate r c d v = validate r c' d v' := by
    intro c c' v v' hc hv
    cases d with
    | none => rfl
    | some declaration => exact declaration.validate_eq_of_alike hc hv
  refine ⟨halike, fun c v => ?_⟩
  have hself : c.Alike c := ⟨rfl, rfl⟩
  exact (halike c c v v.outline hself (v.alike_outline c)).symm

/-- The receivers of two contexts, in arrays with different keys; then the same in a `static`
context without a receiver, which is an error. -/
theorem validate_alike_receivers :
    let d : TypeDeclaration := .single (.arrayOf .thisRef)
    let v : Value := .array [(.index 0, .object 3 "A" []), (.index 1, .object 3 "A" [])]
    let v' : Value :=
      .array [(.name "k", .object 7 "A" [("p", .null)]), (.index 5, .object 7 "A" [])]
    (ObjectContext.receiver 3 "A").Alike (.receiver 7 "A") ∧
    Value.Alike (.receiver 3 "A") (.receiver 7 "A") v v' ∧
    validate ∅ (.receiver 7 "A") (some d) v' = .ok true ∧
    validate ∅ (.static "A") (some d) v.outline = .error (.noReceiver "A") := by
  intro d v v'
  have hc : (ObjectContext.receiver 3 "A").Alike (.receiver 7 "A") := ⟨rfl, rfl⟩
  have hv : Value.Alike (.receiver 3 "A") (.receiver 7 "A") v v' :=
    .array (.cons (.object rfl) (.cons (.object rfl) .nil))
  obtain ⟨halike, houtline⟩ := validate_alike ∅ (some d)
  have hreceiver : validate ∅ (.receiver 3 "A") (some d) v = .ok true := rfl
  have hstatic : validate ∅ (.static "A") (some d) v = .error (.noReceiver "A") := rfl
  exact ⟨hc, hv, (halike _ _ _ _ hc hv).symm.trans hreceiver, (houtline _ v).trans hstatic⟩

end Validation

end DocTypes

import DocTypes.Registry.Definition
import DocTypes.Registry.Traversal

/-!
# Type registries

The types that are known, in the order of their definition and no two of one name. A registry tells
whether a name denotes a type (`contains`), and whether one type is a subtype of another
(`isSubtype`): it is, if they are the same or if the other can be reached by going from a type to
one of its direct `parents`.

`ancestors` is computed when it is asked for. `ancestors_eq_lookup` says that this is what looking a
name up in a table comes to that is filled when the registry is built.
-/

namespace DocTypes

/-- The known types by their `definitions`, which `nodup_names` keeps apart. -/
structure TypeRegistry where
  definitions : List TypeDefinition
  nodup_names : (definitions.map (·.name)).Nodup
deriving DecidableEq

namespace TypeRegistry

/-- The registry that knows no type, as `empty` makes it. -/
def empty : TypeRegistry := ⟨[], by simp⟩

instance : EmptyCollection TypeRegistry := ⟨empty⟩

instance : Inhabited TypeRegistry := ⟨∅⟩

/-- The names of the types, in the order of `definitions`. -/
def names (r : TypeRegistry) : List String := r.definitions.map (·.name)

/-- The number of types, as `len` gives it. -/
def size (r : TypeRegistry) : Nat := r.definitions.length

/-- Whether no type is known, as `is_empty` tells. -/
def isEmpty (r : TypeRegistry) : Bool := r.definitions.isEmpty

/-- The definition of the type `name`, as `get` finds it. -/
def get? (r : TypeRegistry) (name : String) : Option TypeDefinition :=
  r.definitions.find? (·.name == name)

/-- Whether `name` denotes a type, that is, whether `get?` finds its definition. -/
def contains (r : TypeRegistry) (name : String) : Bool := (r.get? name).isSome

/-- Whether the type `name` is a class or an interface, as `kind` tells; `none` for an unknown
one. -/
def kind? (r : TypeRegistry) (name : String) : Option TypeKind := (r.get? name).map (·.kind)

/-- Whether `name` denotes a class (`is_class`). -/
def isClass (r : TypeRegistry) (name : String) : Bool := r.kind? name == some .class

/-- Whether `name` denotes an interface (`is_interface`). -/
def isInterface (r : TypeRegistry) (name : String) : Bool := r.kind? name == some .interface

/-- The direct parents of the type `name`, in the order in which its definition lists them; an
unknown one has none. -/
def parents (r : TypeRegistry) (name : String) : List String :=
  ((r.get? name).map (·.parents)).getD []

/-- The types that can be reached from `name` by one or more steps to a direct parent, as
`ancestors` gives them: what `visit` discovers from it, without itself. -/
def ancestors (r : TypeRegistry) (name : String) : List String :=
  (Traversal.visit r.names r.parents [name]).discovered.filter (· != name)

/-- Whether an instance of `child` is an instance of `ancestor`, as `is_subtype` tells. The two may
be the same name, also one that is not registered. -/
def isSubtype (r : TypeRegistry) (child ancestor : String) : Bool :=
  child == ancestor || (r.ancestors child).contains ancestor

/-- The first direct parent of a type that is a class (`parent_class`). -/
def parentClass? (r : TypeRegistry) (name : String) : Option String :=
  (r.parents name).find? r.isClass

/-- The type `name`, its `parentClass?`, the parent class of that one and so on, at most `steps`
steps up. -/
def chainUp (r : TypeRegistry) : Nat → String → List String
  | 0, name => [name]
  | steps + 1, name =>
    match r.parentClass? name with
    | none => [name]
    | some parent => name :: r.chainUp steps parent

/-- A type with its parent class, the parent class of that one and so on, as `hierarchy_for_class`
climbs them. Without cycles the chain passes through no type twice, so it is no longer than the
registry, and `size` steps are enough (`isChain_parentChain`). -/
def parentChain (r : TypeRegistry) (name : String) : List String := r.chainUp r.size name

/-- A name denotes a type if it is among the `names`. -/
theorem contains_iff_mem_names {r : TypeRegistry} {name : String} :
    r.contains name = true ↔ name ∈ r.names := by
  simp [contains, get?, names]

end TypeRegistry

end DocTypes

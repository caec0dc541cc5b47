import DocTypes.Value.Basic

/-!
# Object contexts

What `self` and `$this` stand for while a value is checked: a live instance, the `receiver`, or only
a class if there is no instance, as in a `static` method.
-/

namespace DocTypes

/-- The surroundings of a check: the instance with this `identity`, or only a class. -/
inductive ObjectContext
  | receiver (identity : Nat) (className : String)
  | static (className : String)
deriving DecidableEq, Repr

namespace ObjectContext

/-- The class that `self` stands for (`class_name`), that of the receiver if there is one. -/
def className : ObjectContext → String
  | receiver _ name => name
  | static name => name

/-- Whether there is a live instance, so that `$this` stands for anything. -/
def hasReceiver : ObjectContext → Bool
  | receiver _ _ => true
  | static _ => false

/-- Whether a value is the receiver itself (`is_receiver`): an object of the same identity, whatever
its class and properties are. -/
def isReceiver : ObjectContext → Value → Bool
  | receiver i _, .object j _ _ => i == j
  | _, _ => false

end ObjectContext

end DocTypes

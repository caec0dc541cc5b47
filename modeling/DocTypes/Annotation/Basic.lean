import DocTypes.OrderedMap

/-!
# Annotations

What the doc comment of a class or a property says, tag by tag, types still as they were written:
the type of a variable (`Annotation.var`), a virtual method (`Annotation.method`), or any other tag
with its arguments.
-/

namespace DocTypes

/-- A parameter of a virtual method: the text of its `type`, and whether it has a default value. -/
structure ParameterAnnotation where
  type : Option String := none
  hasDefault : Bool := false
deriving DecidableEq

/-- A virtual method, with its `parameters` in order and the text of its `returnType`. -/
structure MethodAnnotation where
  name : String
  parameters : OrderedMap String ParameterAnnotation := ∅
  returnType : Option String := none
  isStatic : Bool := false
deriving DecidableEq

/-- One tag of a doc comment, with types as texts that nobody has read yet. -/
inductive Annotation
  | var (type : String)
  | method (m : MethodAnnotation)
  | tag (name arguments : String)
deriving DecidableEq

/-- The tags of a doc comment, in order, as a list of `Annotation`. -/
abbrev Annotations := List Annotation

/-- The name of a tag (`tag_name`); the two special ones are called `var` and `method`. -/
def Annotation.tagName : Annotation → String
  | var _ => "var"
  | method _ => "method"
  | tag name _ => name

namespace Annotations

/-- The annotations whose `tagName` is `tag` (`by_tag`). -/
def byTag (a : Annotations) (tag : String) : Annotations := a.filter (·.tagName == tag)

/-- The types of the `var` annotations, in order. -/
def vars (a : Annotations) : List String :=
  a.filterMap fun
    | .var type => some type
    | _ => none

/-- The virtual methods, that is, the `method` annotations in order. -/
def methods (a : Annotations) : List MethodAnnotation :=
  a.filterMap fun
    | .method m => some m
    | _ => none

end Annotations

end DocTypes

import DocTypes.Annotation.Basic

/-!
# Class declarations

The raw shape of a class, a `ClassDeclaration`: its import statements, the annotations of its doc
comment, and its properties with theirs. Nothing in it has been resolved or checked.
-/

namespace DocTypes

/-- A property as declared, with the `annotations` of its doc comment. -/
structure PropertyDeclaration where
  name : String
  annotations : Annotations := []
deriving DecidableEq

/-- A class as declared; `imports` holds the texts of its statements. -/
structure ClassDeclaration where
  name : String
  imports : List String := []
  annotations : Annotations := []
  properties : List PropertyDeclaration := []
deriving DecidableEq

/-- The property `name` with one `var` annotation for each of the given `types`, as `typed` makes it
for a single one. -/
def PropertyDeclaration.ofTypes (name : String) (types : List String) : PropertyDeclaration :=
  ⟨name, types.map .var⟩

namespace ClassDeclaration

/-- The class with one more import statement, behind those it has (`import`). -/
def addImport (c : ClassDeclaration) (statement : String) : ClassDeclaration :=
  { c with imports := c.imports ++ [statement] }

/-- The class with one more annotation, behind those it has (`annotation`). -/
def annotate (c : ClassDeclaration) (a : Annotation) : ClassDeclaration :=
  { c with annotations := c.annotations ++ [a] }

/-- The class with one more property, behind those it has (`property`). -/
def addProperty (c : ClassDeclaration) (p : PropertyDeclaration) : ClassDeclaration :=
  { c with properties := c.properties ++ [p] }

end ClassDeclaration

end DocTypes

import DocTypes.ConstructionError
import DocTypes.Import.Statement
import DocTypes.OrderedMap

/-!
# Import tables

The imports of one class, from short name to path in the order of the statements
(`ImportTable.ofStatements`). No two imports may have the same short name.
-/

namespace DocTypes

/-- The paths of imported classes by their short names, `ImportStatement.shortName`. -/
abbrev ImportTable := OrderedMap String String

namespace ImportTable

/-- The table with one more statement of the class `className`. A statement that cannot be read, or
one whose short name the table has already, is reported. -/
def addStatement (className : String) (table : ImportTable) (statement : String) :
    Except ConstructionError ImportTable :=
  match ImportStatement.parse statement with
  | .error cause => .error (.invalidImport statement className cause)
  | .ok parsed =>
    match table.get? parsed.shortName with
    | some first => .error (.duplicateAlias parsed.shortName className first parsed.path)
    | none => .ok (table.insert parsed.shortName parsed.path)

/-- The table of the statements of a class, in order and up to the first fault
(`from_statements`). -/
def ofStatements (className : String) (statements : List String) :
    Except ConstructionError ImportTable :=
  statements.foldlM (addStatement className) ∅

end ImportTable

end DocTypes

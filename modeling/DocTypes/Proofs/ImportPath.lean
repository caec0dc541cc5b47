import DocTypes.Proofs.ImportGrammar
import DocTypes.Proofs.ImportTable

/-!
# Imported paths

By `parse_import_statement` a statement is read only if it names a class by a name path, so every
entry of an import table leads to a name path (`leadsToPaths_of_ofStatements`). The short name,
whether the statement gives it or the path ends with it, is a single identifier
(`isIdentifier_of_mem_entries`).
-/

namespace DocTypes

open Lexeme

namespace ImportStatement

variable {source : String} {s : ImportStatement}

/-- The `path` of a statement that `parse` reads is a name path. -/
theorem isPath_of_parse (h : parse source = .ok s) : IsPath s.path.toList :=
  (parse_eq_ok_iff.1 h).1.isPath

/-- The `shortName` of a statement that `parse` reads is an identifier. -/
theorem isIdentifier_shortName_of_parse (h : parse source = .ok s) :
    IsIdentifier s.shortName.toList := by
  have himport := (parse_eq_ok_iff.1 h).1
  unfold shortName
  -- Without `as` the short name is the last segment of the path.
  cases hname : s.explicitAlias with
  | none => exact (isPath_of_parse h).lastSegment_spec.1
  | some name =>
    rw [hname] at himport
    exact himport.isIdentifier

end ImportStatement

namespace ImportTable

variable {className shortName path : String} {statements : List String} {table : ImportTable}

/-- Every short name in `table` stands for a name path. -/
def LeadsToPaths (table : ImportTable) : Prop :=
  ∀ shortName path, table.get? shortName = some path → IsPath path.toList

/-- The table that `ofStatements` makes `LeadsToPaths`. -/
theorem leadsToPaths_of_ofStatements (h : ofStatements className statements = .ok table) :
    table.LeadsToPaths := by
  intro shortName path hget
  obtain ⟨text, -, s, hparse, -, rfl⟩ := (get?_eq_some_iff_of_ofStatements h).1 hget
  exact ImportStatement.isPath_of_parse hparse

/-- The short names in a table that `ofStatements` makes are identifiers. -/
theorem isIdentifier_of_mem_entries (h : ofStatements className statements = .ok table)
    (hmem : (shortName, path) ∈ table.entries) : IsIdentifier shortName.toList := by
  have hget : table.get? shortName = some path := OrderedMap.get?_eq_some_iff.2 hmem
  obtain ⟨text, -, s, hparse, rfl, -⟩ := (get?_eq_some_iff_of_ofStatements h).1 hget
  exact ImportStatement.isIdentifier_shortName_of_parse hparse

end ImportTable

end DocTypes

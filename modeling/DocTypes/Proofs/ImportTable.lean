import DocTypes.Import.Table
import DocTypes.Proofs.FirstFault
import Mathlib.Data.List.Induction

/-!
# Import tables and the statements they are made of

A table that `ofStatements` makes has an entry for each statement, under its short name
(`get?_eq_some_iff_of_ofStatements`). So a short name is taken exactly if a statement in front has
it, and whether a statement is at fault depends on the statements only: the table fails with the
first fault (`reports_ofStatements`).
-/

namespace DocTypes.ImportTable

variable {className text shortName path : String} {statements : List String}
  {table next : ImportTable} {e : ConstructionError}

/-- `addStatement` succeeds if `ImportStatement.parse` can read the statement and its short name is
not taken. -/
theorem addStatement_eq_ok_iff : addStatement className table text = .ok next ↔
    ∃ s, ImportStatement.parse text = .ok s ∧ table.get? s.shortName = none ∧
      table.insert s.shortName s.path = next := by
  unfold addStatement
  cases hparse : ImportStatement.parse text with
  | error cause => simp
  | ok s => cases hget : table.get? s.shortName <;> simp [hget]

/-- `addStatement` fails if the statement cannot be read or its short name is taken, by the path
`first`. -/
theorem addStatement_eq_error_iff : addStatement className table text = .error e ↔
    (∃ cause, ImportStatement.parse text = .error cause ∧
      .invalidImport text className cause = e) ∨
    ∃ s first, ImportStatement.parse text = .ok s ∧ table.get? s.shortName = some first ∧
      .duplicateAlias s.shortName className first s.path = e := by
  unfold addStatement
  cases hparse : ImportStatement.parse text with
  | error cause => simp
  | ok s => cases hget : table.get? s.shortName <;> simp [hget]

/-- Some statement imports `path` under `shortName`. -/
def Imports (statements : List String) (shortName path : String) : Prop :=
  ∃ text ∈ statements, ∃ s, ImportStatement.parse text = .ok s ∧ s.shortName = shortName ∧
    s.path = path

/-- `ofStatements` adds one more statement to the table of the others. -/
theorem ofStatements_concat : ofStatements className (statements ++ [text]) =
    ofStatements className statements >>= fun table => addStatement className table text := by
  simp [ofStatements]

/-- The entries of a table are what the statements import, by `Imports`. -/
theorem get?_eq_some_iff_of_ofStatements (h : ofStatements className statements = .ok table) :
    table.get? shortName = some path ↔ Imports statements shortName path := by
  -- By induction from the end, as the last statement is added to the table of the others.
  induction statements using List.reverseRecOn generalizing table with
  | nil =>
    cases h
    simp [Imports]
  | append_singleton statements text ih =>
    rw [ofStatements_concat] at h
    obtain ⟨before, hbefore, hadd⟩ := bind_eq_ok_iff.1 h
    obtain ⟨s, hparse, hnew, rfl⟩ := addStatement_eq_ok_iff.1 hadd
    have hsplit : Imports (statements ++ [text]) shortName path ↔
        Imports statements shortName path ∨ s.shortName = shortName ∧ s.path = path := by
      simp [Imports, or_and_right, exists_or, hparse]
    rw [OrderedMap.get?_insert, hsplit, ← ih hbefore]
    split
    · next hname => simp [hname, hnew]
    · next hname => simp [Ne.symm hname]

/-- A statement behind the `earlier` ones is at fault: it cannot be read, or an earlier one has its
short name. -/
inductive StatementFault (className : String) (earlier : List String) (text : String) :
    ConstructionError → Prop
  | malformed {cause : ParseError} : ImportStatement.parse text = .error cause →
      StatementFault className earlier text (.invalidImport text className cause)
  | taken {s : ImportStatement} {first : String} : ImportStatement.parse text = .ok s →
      Imports earlier s.shortName first →
      StatementFault className earlier text (.duplicateAlias s.shortName className first s.path)

/-- A table goes on with the first fault of the statements that `addStatement` adds to it. -/
theorem reports_foldlM_addStatement {earlier : List String}
    (h : ofStatements className earlier = .ok table) :
    Reports (fun i => StatementFault className i.1 i.2)
      (statements.foldlM (addStatement className) table) (withEarlier earlier statements) := by
  -- Along the statements: the table holds what was declared in `earlier`, which grows by one each
  -- time.
  induction statements generalizing earlier table with
  | nil => exact .ok rfl
  | cons text statements ih =>
    rw [List.foldlM_cons]
    refine .cons (fun e => ?_) fun next hnext => ?_
    · rw [addStatement_eq_error_iff]
      simp only [get?_eq_some_iff_of_ofStatements h]
      constructor
      · rintro (⟨cause, hparse, rfl⟩ | ⟨s, first, hparse, hfirst, rfl⟩)
        · exact .malformed hparse
        · exact .taken hparse hfirst
      · rintro (hparse | ⟨hparse, hfirst⟩)
        · exact .inl ⟨_, hparse, rfl⟩
        · exact .inr ⟨_, _, hparse, hfirst, rfl⟩
    · refine ih ?_
      rw [ofStatements_concat, h]
      exact hnext

/-- The table of some statements (`from_statements`) fails with the first fault among them. -/
theorem reports_ofStatements (className : String) (statements : List String) :
    Reports (fun i => StatementFault className i.1 i.2) (ofStatements className statements)
      (withEarlier [] statements) :=
  reports_foldlM_addStatement rfl

end DocTypes.ImportTable

import DocTypes.Proofs.ImportTable
import Mathlib.Data.List.Nodup

/-!
# What becomes of the import statements of a class

The statements of a class make a table by `ofStatements` (`from_statements`) if all of them can be
read and no two have one short name (`ReadAs`). The table then has their short names and paths in
order (`ofStatements_eq_ok_iff`). Otherwise there is a first statement at fault, and its error is
reported, whatever stands behind it. The main statement is `ofStatements_outcome`.
-/

namespace DocTypes.ImportTable

variable {className text : String} {statements : List String} {imports : List ImportStatement}
  {table : ImportTable} {e : ConstructionError}

/-- The entry of a statement that has been read, its `shortName` and its `path`. -/
def entry (s : ImportStatement) : String × String := (s.shortName, s.path)

/-- The `statements` can be read as `imports`, and no two of them have one short name. -/
structure ReadAs (statements : List String) (imports : List ImportStatement) : Prop where
  parse_eq : statements.mapM ImportStatement.parse = .ok imports
  nodup_shortNames : (imports.map (·.shortName)).Nodup

/-- The table of statements that have been read: no short name comes twice, by
`nodup_shortNames`. -/
def ReadAs.toTable (h : ReadAs statements imports) : ImportTable where
  entries := imports.map entry
  nodup_keys := by
    rw [List.map_map]
    exact h.nodup_shortNames

/-- Without statements `ReadAs` leaves nothing to read. -/
theorem readAs_nil_iff : ReadAs [] imports ↔ imports = [] := by
  constructor
  · rintro ⟨hparse, -⟩
    exact (Except.ok.inj hparse).symm
  · rintro rfl
    exact ⟨rfl, List.nodup_nil⟩

/-- `ReadAs` goes on with one more statement, `text`, if its short name is new. -/
theorem readAs_concat_iff : ReadAs (statements ++ [text]) imports ↔
    ∃ before s, ReadAs statements before ∧ ImportStatement.parse text = .ok s ∧
      s.shortName ∉ before.map (·.shortName) ∧ imports = before ++ [s] := by
  constructor
  · rintro ⟨hparse, hnodup⟩
    obtain ⟨before, s, rest, rfl, hs, hbefore, hrest⟩ := exists_of_mapM_append_cons hparse
    obtain rfl : [] = rest := Except.ok.inj hrest
    rw [List.map_append, List.map_singleton, List.nodup_append_comm, List.singleton_append,
      List.nodup_cons] at hnodup
    exact ⟨before, s, ⟨hbefore, hnodup.2⟩, hs, hnodup.1, rfl⟩
  · rintro ⟨before, s, ⟨hparse, hnodup⟩, hs, hnew, rfl⟩
    constructor
    · rw [List.mapM_append, hparse, List.mapM_cons, hs]
      rfl
    · rw [List.map_append, List.map_singleton, List.nodup_append_comm, List.singleton_append,
        List.nodup_cons]
      exact ⟨hnew, hnodup⟩

/-- In a table whose entries are those of `imports` (`h`) the short names are theirs. -/
theorem get?_eq_none_iff_of_entries (h : table.entries = imports.map entry) {shortName : String} :
    table.get? shortName = none ↔ shortName ∉ imports.map (·.shortName) := by
  have hkeys : table.keys = imports.map (·.shortName) := by
    rw [OrderedMap.keys, h, List.map_map]
    rfl
  rw [OrderedMap.get?_eq_none_iff, hkeys]

/-- `addStatement` adds a statement to such a table if it can be read and its short name is new. Its
entry goes to the end. -/
theorem addStatement_of_entries (h : table.entries = imports.map entry) {next : ImportTable} :
    addStatement className table text = .ok next ↔ ∃ s, ImportStatement.parse text = .ok s ∧
      s.shortName ∉ imports.map (·.shortName) ∧ next.entries = (imports ++ [s]).map entry := by
  have hinsert {s : ImportStatement} (hnew : table.get? s.shortName = none) :
      (table.insert s.shortName s.path).entries = (imports ++ [s]).map entry := by
    rw [List.map_append, ← h]
    exact OrderedMap.store_of_notMem (OrderedMap.get?_eq_none_iff.1 hnew)
  rw [addStatement_eq_ok_iff]
  simp only [← get?_eq_none_iff_of_entries h]
  constructor
  · rintro ⟨s, hparse, hnew, rfl⟩
    exact ⟨s, hparse, hnew, hinsert hnew⟩
  · rintro ⟨s, hparse, hnew, hentries⟩
    exact ⟨s, hparse, hnew, OrderedMap.ext ((hinsert hnew).trans hentries.symm)⟩

/-- `ofStatements` makes a table of statements that can be read, no two with one short name
(`ReadAs`). It has their short names and paths, in order. -/
theorem ofStatements_eq_ok_iff : ofStatements className statements = .ok table ↔
    ∃ imports, ReadAs statements imports ∧ table.entries = imports.map entry := by
  -- By induction from the end, as the loop adds the last statement to the table of the others. That
  -- the entries are those read so far is its invariant.
  induction statements using List.reverseRecOn generalizing table with
  | nil =>
    simp only [readAs_nil_iff, exists_eq_left, List.map_nil]
    constructor
    · intro h
      cases h
      rfl
    · intro h
      rw [OrderedMap.ext (n := ∅) h]
      rfl
  | append_singleton statements text ih =>
    rw [ofStatements_concat, bind_eq_ok_iff]
    constructor
    · rintro ⟨front, hfront, hadd⟩
      obtain ⟨before, hread, hentries⟩ := ih.1 hfront
      obtain ⟨s, hparse, hnew, hnext⟩ := (addStatement_of_entries hentries).1 hadd
      exact ⟨before ++ [s], readAs_concat_iff.2 ⟨before, s, hread, hparse, hnew, rfl⟩, hnext⟩
    · rintro ⟨imports, hread, hentries⟩
      obtain ⟨before, s, hbefore, hparse, hnew, rfl⟩ := readAs_concat_iff.1 hread
      have hfront : hbefore.toTable.entries = before.map entry := rfl
      exact ⟨_, ih.2 ⟨before, hbefore, hfront⟩,
        (addStatement_of_entries hfront).2 ⟨s, hparse, hnew, hentries⟩⟩

/-- `ofStatements` makes a table if there is something that the statements `ReadAs`. -/
theorem exists_ofStatements_eq_ok_iff :
    (∃ table, ofStatements className statements = .ok table) ↔
      ∃ imports, ReadAs statements imports := by
  constructor
  · rintro ⟨table, htable⟩
    obtain ⟨imports, hread, -⟩ := ofStatements_eq_ok_iff.1 htable
    exact ⟨imports, hread⟩
  · rintro ⟨imports, hread⟩
    exact ⟨hread.toTable, ofStatements_eq_ok_iff.2 ⟨imports, hread, rfl⟩⟩

/-- `ofStatements` fails with an error if one of the statements is at fault with it
(`StatementFault`), and those in front of it make a table. -/
theorem ofStatements_eq_error_iff : ofStatements className statements = .error e ↔
    ∃ before text after, statements = before ++ text :: after ∧
      (∃ imports, ReadAs before imports) ∧ StatementFault className before text e := by
  rw [reports_ofStatements className statements e, firstFault_withEarlier_iff]
  simp only [← (reports_ofStatements className _).exists_ok_iff, exists_ofStatements_eq_ok_iff,
    List.nil_append]

/-- If all statements of a class can be read and no two have one short name (`ReadAs`), their table
has the short names and paths in order. Otherwise `ofStatements` reports the first statement that
cannot be read, or that has the short name of one in front of it, and nothing behind this statement
makes a difference. -/
theorem ofStatements_outcome (className : String) (statements : List String) :
    (∀ imports, ReadAs statements imports → ∃ table, ofStatements className statements = .ok table ∧
      table.entries = imports.map fun s => (s.shortName, s.path)) ∧
    ((∀ imports, ¬ReadAs statements imports) → ∃ before text after e,
      statements = before ++ text :: after ∧ (∃ imports, ReadAs before imports) ∧
      StatementFault className before text e ∧
      ∀ rest, ofStatements className (before ++ text :: rest) = .error e) := by
  constructor
  · intro imports hread
    exact ⟨hread.toTable, ofStatements_eq_ok_iff.2 ⟨imports, hread, rfl⟩, rfl⟩
  · intro hnone
    cases houtcome : ofStatements className statements with
    | ok table =>
      obtain ⟨imports, hread, -⟩ := ofStatements_eq_ok_iff.1 houtcome
      exact absurd hread (hnone imports)
    | error e =>
      obtain ⟨before, text, after, hsplit, hbefore, hfault⟩ :=
        ofStatements_eq_error_iff.1 houtcome
      exact ⟨before, text, after, e, hsplit, hbefore, hfault, fun rest =>
        ofStatements_eq_error_iff.2 ⟨before, text, rest, rfl, hbefore, hfault⟩⟩

/-- A table of two statements, and statements of which the third one gives the last segment of the
first path as its short name, in front of one that cannot be read. -/
theorem ofStatements_outcome_price :
    (∃ table, ofStatements "Shop" ["\\Money\\Price", "Tax\\Price as Tax"] = .ok table ∧
      table.entries = [("Price", "Money\\Price"), ("Tax", "Tax\\Price")]) ∧
    ∃ before text after e,
      ["Money\\Price", "Tax", "Shop\\Item as Price", "Tax as"] = before ++ text :: after ∧
      StatementFault "Shop" before text e ∧
      e = .duplicateAlias "Price" "Shop" "Money\\Price" "Shop\\Item" := by
  constructor
  · obtain ⟨htable, -⟩ := ofStatements_outcome "Shop" ["\\Money\\Price", "Tax\\Price as Tax"]
    have hread : ReadAs ["\\Money\\Price", "Tax\\Price as Tax"]
        [⟨"Money\\Price", none, ⟨0, 12⟩⟩, ⟨"Tax\\Price", some "Tax", ⟨0, 16⟩⟩] :=
      ⟨by rfl, by decide⟩
    exact htable _ hread
  · obtain ⟨-, herror⟩ :=
      ofStatements_outcome "Shop" ["Money\\Price", "Tax", "Shop\\Item as Price", "Tax as"]
    have hfails : ofStatements "Shop" ["Money\\Price", "Tax", "Shop\\Item as Price", "Tax as"] =
        .error (.duplicateAlias "Price" "Shop" "Money\\Price" "Shop\\Item") := by rfl
    have hnone : ∀ imports,
        ¬ReadAs ["Money\\Price", "Tax", "Shop\\Item as Price", "Tax as"] imports := by
      rintro imports ⟨hparse, -⟩
      have hlast : ["Money\\Price", "Tax", "Shop\\Item as Price", "Tax as"].mapM
          ImportStatement.parse = .error (.malformedImport "Tax as" 4) := by rfl
      cases hlast.symm.trans hparse
    obtain ⟨before, text, after, e, hsplit, -, hfault, hrest⟩ := herror hnone
    refine ⟨before, text, after, e, hsplit, hfault, ?_⟩
    have hsame := hrest after
    rw [← hsplit, hfails] at hsame
    exact (Except.error.inj hsame).symm

end DocTypes.ImportTable

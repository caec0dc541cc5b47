import DocTypes.Proofs.ClassIdentifier
import DocTypes.Proofs.ImportPath

/-!
# Imported names

A name that is written without a separator in front is looked for in three places, in this order:
among the reserved words, among the short names of the imports, and in the namespace, the last two
by `resolve_class_name`. If it is in none of them, it stands for itself (`StandsFor`). Imports are
found by the whole name. As their short names are identifiers, no name with a separator in it is
found among them, and none is reserved. The main statement is `resolve_imported`.
-/

namespace DocTypes

open TypeExpr Lexeme

/-- The short names in a table that `ofStatements` makes have no `separator` in them. -/
theorem ImportTable.notMem_keys_of_separator_mem {className name : String}
    {statements : List String} {table : ImportTable}
    (h : ofStatements className statements = .ok table) (hseparator : separator ∈ name.toList) :
    name ∉ table.keys := by
  intro hmem
  obtain ⟨⟨_, path⟩, hentry, rfl⟩ := List.mem_map.1 hmem
  have hne := (isIdentifier_of_mem_entries h hentry).ne_separator separator hseparator
  exact absurd rfl (bne_iff_ne.1 hne)

namespace Scope

variable {s : Scope} {word name path : String} {term : TypeTerm} {isArray : Bool}

/-- What a name without a separator in front stands for in `s`. A reserved word has its own meaning,
even if it is also a short name of the imports. Any other short name stands for its path, and any
other name for the type inside the namespace if that is known, and else for itself. -/
inductive StandsFor (s : Scope) : String → TypeTerm → Prop
  | primitive (kind : PrimitiveKind) : StandsFor s kind.keyword (.primitive kind)
  | self : StandsFor s "self" .selfRef
  | unhandled {word : String} : word ∈ Keyword.unhandledWords →
      StandsFor s word (.unhandled word)
  | imported {shortName path : String} : (shortName, path) ∈ s.imports.entries →
      shortName ∉ reservedWords → StandsFor s shortName (.classRef path)
  | unimported {name : String} : IsPath name.toList → name ∉ s.imports.keys →
      name ∉ reservedWords → StandsFor s name
        (.classRef (if s.registry.contains (s.nameInside name) then s.nameInside name else name))

/-- `resolveUnqualified` takes an imported name to its path, whatever is known inside the
namespace. -/
theorem resolveUnqualified_of_mem_entries (h : (name, path) ∈ s.imports.entries) :
    s.resolveUnqualified name = path := by
  rw [resolveUnqualified, OrderedMap.get?_eq_some_iff.2 h]

/-- `resolveUnqualified` looks up a name that is not imported (`h`) inside the namespace only. -/
theorem resolveUnqualified_of_notMem_keys (h : name ∉ s.imports.keys) :
    s.resolveUnqualified name =
      if s.registry.contains (s.nameInside name) then s.nameInside name else name := by
  rw [resolveUnqualified, OrderedMap.get?_eq_none_iff.2 h]

/-- `resolveName` takes every name that `StandsFor` a term, which is a name of the grammar, to the
term. -/
theorem StandsFor.exists_isName (hidentifier : ∀ e ∈ s.imports.entries, IsIdentifier e.1.toList)
    (h : s.StandsFor word term) : ∃ n, IsName word.toList n ∧ s.resolveName n = term := by
  -- Reserved words are names by themselves. A name path that is free of them is a class name.
  cases h with
  | primitive kind => exact ⟨_, .primitive kind, rfl⟩
  | self => exact ⟨_, .self, rfl⟩
  | unhandled hword => exact ⟨_, .unhandled hword, rfl⟩
  | imported hentry hfree =>
    rw [← resolveUnqualified_of_mem_entries hentry]
    exact exists_isName_of_notMem_reservedWords (.identifier (hidentifier _ hentry)) hfree
  | unimported hpath hnew hfree =>
    rw [← resolveUnqualified_of_notMem_keys hnew]
    exact exists_isName_of_notMem_reservedWords hpath hfree

/-- A text that is a term (`h`) stands for what `resolveParts` gives for its name. -/
theorem resolve_eq_ok_of_isTerm {raw : String} {n : Name} (h : IsTerm raw.toList n isArray) :
    s.resolve raw = .ok (.single (s.resolveParts n isArray)) := by
  have hstrip : IsTerm (strip raw.toList) n isArray := by rwa [h.strip_eq]
  exact resolve_eq_ok_single_iff.2
    ⟨h.bar_notMem, resolvePiece?_eq_some_iff.2 ⟨n, isArray, hstrip, rfl⟩⟩

/-- A piece of a union that is a term (`hterm`) stands for what `resolveParts` gives for its
name. -/
theorem terms_getElem?_of_isTerm {raw : String} {declaration : TypeDeclaration}
    (h : s.resolve raw = .ok declaration) {i : Nat} {piece : List Char}
    (hpiece : (raw.toList.splitOn bar)[i]? = some piece) {n : Name}
    (hterm : IsTerm (strip piece) n isArray) :
    declaration.terms[i]? = some (s.resolveParts n isArray) := by
  rw [getElem?_of_mapM (resolve_eq_ok_iff.1 h), hpiece]
  exact resolvePiece?_eq_some_iff.2 ⟨n, isArray, hterm, rfl⟩

/-- A text that is a name (`hname`) stands for what `resolveName` gives. With the array suffix it
stands for arrays of that, and as a member of a union it does the same. -/
theorem resolve_of_isName {n : Name} (hname : IsName word.toList n) :
    s.resolve word = .ok (.single (s.resolveName n)) ∧
    s.resolve (word ++ "[]") = .ok (.single (.arrayOf (s.resolveName n))) ∧
    ∀ raw declaration, s.resolve raw = .ok declaration → ∀ (i : Nat) piece,
      (raw.toList.splitOn bar)[i]? = some piece →
      (strip piece = word.toList → declaration.terms[i]? = some (s.resolveName n)) ∧
      (strip piece = word.toList ++ "[]".toList →
        declaration.terms[i]? = some (s.resolveName n).arrayOf) := by
  -- Both spellings are terms of the grammar for the same name.
  have hsingle : IsTerm word.toList n false := ⟨_, hname, (List.append_nil _).symm⟩
  have harray : IsTerm (word.toList ++ "[]".toList) n true := ⟨_, hname, rfl⟩
  refine ⟨resolve_eq_ok_of_isTerm hsingle, ?_, fun raw declaration hresolve i piece hpiece => ?_⟩
  · exact resolve_eq_ok_of_isTerm (by rwa [String.toList_append])
  · constructor
    · intro hstrip
      exact terms_getElem?_of_isTerm hresolve hpiece (by rwa [hstrip])
    · intro hstrip
      exact terms_getElem?_of_isTerm hresolve hpiece (by rwa [hstrip])

/-- In the scope of a class whose imports are a table of `ofStatements`, whatever its namespace and
whatever is known, the short names of the imports are identifiers, and a name without a separator in
front stands for what its place among reserved words, imports and the namespace says (`StandsFor`):
by itself, with the array suffix, and as a member of a union. A name with a `separator` in it is
never looked up among the imports. -/
theorem resolve_imported {className : String} {statements : List String}
    (h : ImportTable.ofStatements className statements = .ok s.imports) :
    (∀ shortName path, (shortName, path) ∈ s.imports.entries →
      IsIdentifier shortName.toList ∧ shortName ≠ "" ∧ separator ∉ shortName.toList) ∧
    (∀ name, IsPath name.toList → separator ∈ name.toList → s.StandsFor name
      (.classRef (if s.registry.contains (s.nameInside name) then s.nameInside name else name))) ∧
    ∀ word term, s.StandsFor word term →
      s.resolve word = .ok (.single term) ∧
      s.resolve (word ++ "[]") = .ok (.single (.arrayOf term)) ∧
      ∀ raw declaration, s.resolve raw = .ok declaration → ∀ (i : Nat) piece,
        (raw.toList.splitOn bar)[i]? = some piece →
        (strip piece = word.toList → declaration.terms[i]? = some term) ∧
        (strip piece = word.toList ++ "[]".toList →
          declaration.terms[i]? = some term.arrayOf) := by
  have hidentifier : ∀ e ∈ s.imports.entries, IsIdentifier e.1.toList :=
    fun e he => ImportTable.isIdentifier_of_mem_entries h he
  refine ⟨fun shortName path hentry => ⟨hidentifier _ hentry, ?_, fun hseparator => ?_⟩,
    fun name hpath hseparator => ?_, fun word term hword => ?_⟩
  · rintro rfl
    exact (IsPath.identifier (hidentifier _ hentry)).ne_nil rfl
  · exact ImportTable.notMem_keys_of_separator_mem h hseparator (List.mem_map_of_mem hentry)
  -- No reserved word has a separator in it.
  · have hfree : ∀ word ∈ reservedWords, separator ∉ word.toList := by decide
    exact .unimported hpath (ImportTable.notMem_keys_of_separator_mem h hseparator)
      fun hreserved => hfree name hreserved hseparator
  · obtain ⟨n, hname, rfl⟩ := hword.exists_isName hidentifier
    exact resolve_of_isName hname

/-- The scope of a class in which two names are imported that mean something else without the
imports. -/
def tariffScope : Scope where
  className := "Shop\\Tariff"
  inNamespace := "Shop"
  imports := ⟨[("Price", "Money\\Price"), ("int", "Money\\Whole")], by decide⟩
  registry := ⟨[⟨"Shop\\Price", .class, []⟩, ⟨"Shop\\Price\\Tag", .class, []⟩], by decide⟩

/-- In `tariffScope` an imported name that a type inside the namespace and one that a reserved word
competes with, and names that start with the short name of the first. -/
theorem resolve_imported_tariff :
    ImportTable.ofStatements "Shop\\Tariff" ["Money\\Price", "Money\\Whole as int"] =
      .ok tariffScope.imports ∧
    tariffScope.resolve "Price" = .ok (.single (.classRef "Money\\Price")) ∧
    tariffScope.resolve "int[]" = .ok (.single (.arrayOf (.primitive .int))) ∧
    tariffScope.resolve "Price\\Tag" = .ok (.single (.classRef "Shop\\Price\\Tag")) ∧
    tariffScope.resolve "Price\\Label[]" =
      .ok (.single (.arrayOf (.classRef "Price\\Label"))) := by
  have himports : ImportTable.ofStatements "Shop\\Tariff"
      ["Money\\Price", "Money\\Whole as int"] = .ok tariffScope.imports := by rfl
  obtain ⟨-, hseparated, hstands⟩ := resolve_imported himports
  have hprice : tariffScope.StandsFor "Price" (.classRef "Money\\Price") :=
    .imported (by decide) (by decide)
  exact ⟨himports, (hstands _ _ hprice).1, (hstands _ _ (.primitive .int)).2.1,
    (hstands _ _ (hseparated "Price\\Tag" (by decide) (by decide))).1,
    (hstands _ _ (hseparated "Price\\Label" (by decide) (by decide))).2.1⟩

end Scope

end DocTypes

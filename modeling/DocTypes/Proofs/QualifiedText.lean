import DocTypes.Proofs.ImportPath
import DocTypes.Proofs.UnionValidation

/-!
# The fully qualified text of a declaration

A resolved declaration can be written so that it means the same wherever it is read: a class is
written with a leading separator, and everything else as it is (`qualifiedText`).
`resolve_qualifiedText` says that this text stands for the declaration in every scope.

The reason is that `resolve_class_name` gives name paths only. An imported path is one by the
grammar of the statements (`leadsToPaths_of_ofStatements`), a name inside the namespace joins two of
them, and any other name was read as one (`exists_isName_resolveName`). Behind a separator such a
path is a qualified name whatever it looks like, so no reserved word, import or namespace can catch
it.
-/

namespace DocTypes

open TypeExpr Lexeme

/-- The text of a term, with a separator in front of a `classRef`. -/
def TypeTerm.qualifiedText : TypeTerm → String
  | classRef name => "\\" ++ name
  | arrayOf element => element.qualifiedText ++ arraySuffix
  | primitive kind => (primitive kind).text
  | selfRef => selfRef.text
  | thisRef => thisRef.text
  | unhandled word => (unhandled word).text

/-- The text of a declaration, with a separator in front of every `classRef`. -/
def TypeDeclaration.qualifiedText (d : TypeDeclaration) : String :=
  "|".intercalate (d.terms.map TypeTerm.qualifiedText)

namespace Scope

variable {s : Scope}

/-- The names that a scope can bring in are name paths: those of `imports` and the namespace. -/
structure BringsPaths (s : Scope) : Prop where
  imports : s.imports.LeadsToPaths
  inNamespace : s.inNamespace = "" ∨ IsPath s.inNamespace.toList

/-- `nameInside` makes a name path of a name path: it joins the two. -/
theorem BringsPaths.nameInside (hs : s.BringsPaths) {name : String} (hn : IsPath name.toList) :
    IsPath (s.nameInside name).toList := by
  unfold Scope.nameInside
  split
  · exact hn
  · next hne =>
    have hpath : IsPath s.inNamespace.toList := hs.inNamespace.resolve_left hne
    simpa [separator] using hpath.join_path hn

/-- `resolveUnqualified` makes a name path of a name path in each of its three cases. -/
theorem BringsPaths.resolveUnqualified (hs : s.BringsPaths) {name : String}
    (hn : IsPath name.toList) : IsPath (s.resolveUnqualified name).toList := by
  unfold Scope.resolveUnqualified
  split
  · next path hget => exact hs.imports name path hget
  · split
    · exact hs.nameInside hn
    · exact hn

/-- A class that is named by a name path (`hn`) is written as a qualified name, which stands for the
class in every scope `s'`. -/
theorem exists_isName_classRef {name : String} (hn : IsPath name.toList) :
    ∃ written, IsName (TypeTerm.classRef name).qualifiedText.toList written ∧
      ∀ s' : Scope, s'.resolveName written = .classRef name := by
  refine ⟨.className name true, ?_, fun _ => rfl⟩
  simpa [TypeTerm.qualifiedText] using IsName.qualified hn

/-- What `resolveName` makes of a name is written as a name that stands for it in every scope
`s'`. -/
theorem exists_isName_resolveName (hs : s.BringsPaths) {word : List Char} {name : Name}
    (h : IsName word name) :
    ∃ written, IsName (s.resolveName name).qualifiedText.toList written ∧
      ∀ s' : Scope, s'.resolveName written = s.resolveName name := by
  -- Reserved words are written as they were read, and the two kinds of class names behind a
  -- separator.
  cases h with
  | primitive kind => exact ⟨.primitive kind, .primitive kind, fun _ => rfl⟩
  | self => exact ⟨.self, .self, fun _ => rfl⟩
  | this => exact ⟨.this, .this, fun _ => rfl⟩
  | @unhandled word hw => exact ⟨.unhandled word, .unhandled hw, fun _ => rfl⟩
  | className hp _ =>
    exact exists_isName_classRef (hs.resolveUnqualified (by rwa [String.toList_ofList]))
  | qualified hp => exact exists_isName_classRef (by rwa [String.toList_ofList])

/-- A way `written` of writing terms that puts the array suffix behind the element (`harray`). If it
writes what a name stands for as a name that stands for it, it writes terms without a bar, and as
pieces that stand for them. -/
theorem resolvePiece?_written {written : TypeTerm → String}
    (harray : ∀ t, written (.arrayOf t) = written t ++ arraySuffix) {s' : Scope}
    {name name' : Name} (hname : IsName (written (s.resolveName name)).toList name')
    (hresolve : s'.resolveName name' = s.resolveName name) (isArray : Bool) :
    bar ∉ (written (s.resolveParts name isArray)).toList ∧
      s'.resolvePiece? (written (s.resolveParts name isArray)).toList =
        some (s.resolveParts name isArray) := by
  have hterm : IsTerm (written (s.resolveParts name isArray)).toList name' isArray := by
    refine ⟨_, hname, ?_⟩
    cases isArray with
    | true => simp [resolveParts, harray]
    | false => simp [resolveParts]
  refine ⟨hterm.bar_notMem, resolvePiece?_eq_some_iff.2 ⟨name', isArray, ?_, ?_⟩⟩
  · rwa [hterm.strip_eq]
  · simp only [resolveParts, hresolve]

/-- What a piece of a declaration stands for is written by `qualifiedText` without a bar, and as a
piece it stands for the same in every scope `s'`. -/
theorem resolvePiece?_qualifiedText (hs : s.BringsPaths) {piece : List Char} {term : TypeTerm}
    (h : s.resolvePiece? piece = some term) (s' : Scope) :
    bar ∉ term.qualifiedText.toList ∧ s'.resolvePiece? term.qualifiedText.toList = some term := by
  obtain ⟨name, isArray, ⟨word, hword, -⟩, rfl⟩ := resolvePiece?_eq_some_iff.1 h
  obtain ⟨written, hwritten, hresolve⟩ := exists_isName_resolveName hs hword
  exact resolvePiece?_written (fun _ => rfl) hwritten (hresolve s') isArray

/-- A declaration that was resolved where the imports are those of `ofStatements` and the namespace,
if any, is a name path, and that is written back with a separator in front of every class
(`qualifiedText`), resolves to itself in every scope `s'`. -/
theorem resolve_qualifiedText {className : String} {statements : List String}
    (himports : ImportTable.ofStatements className statements = .ok s.imports)
    (hnamespace : s.inNamespace = "" ∨ IsPath s.inNamespace.toList) {raw : String}
    {d : TypeDeclaration} (h : s.resolve raw = .ok d) (s' : Scope) :
    s'.resolve d.qualifiedText = .ok d := by
  have hs : s.BringsPaths := ⟨ImportTable.leadsToPaths_of_ofStatements himports, hnamespace⟩
  refine resolve_intercalate_eq_ok_iff.2 fun term ht => ?_
  obtain ⟨piece, hpiece⟩ := exists_piece_of_resolve h ht
  exact resolvePiece?_qualifiedText hs hpiece s'

/-- A class with a namespace, in which `Price` is imported and `Item` is known. -/
def basketScope : Scope where
  className := "Shop\\Basket"
  inNamespace := "Shop"
  imports := ⟨[("Price", "Money\\callable")], by decide⟩
  registry := ⟨[{ name := "Shop\\Item", kind := .class }], by decide⟩

/-- Another class, in which `Item` and `callable` are imported from elsewhere. -/
def ledgerScope : Scope where
  className := "Books\\Ledger"
  inNamespace := "Books"
  imports := ⟨[("Item", "Books\\Entry"), ("callable", "Books\\Hook")], by decide⟩
  registry := ∅

/-- An import whose path ends in the reserved word `callable`, a name of the namespace, the reserved
word `int` qualified, and reserved words with a space and without. -/
theorem resolve_qualifiedText_basket :
    ImportTable.ofStatements "Shop\\Basket" ["Money\\callable as Price"] =
      .ok basketScope.imports ∧
    IsPath basketScope.inNamespace.toList ∧
    ∃ d, basketScope.resolve "Price[]|Item|\\int|resource (closed)|int[]" = .ok d ∧
      d.qualifiedText = "\\Money\\callable[]|\\Shop\\Item|\\int|resource (closed)|int[]" ∧
      ledgerScope.resolve d.qualifiedText = .ok d := by
  have himports : ImportTable.ofStatements "Shop\\Basket" ["Money\\callable as Price"] =
      .ok basketScope.imports := by rfl
  have hnamespace : IsPath basketScope.inNamespace.toList := by decide
  let d : TypeDeclaration := ⟨[.arrayOf (.classRef "Money\\callable"), .classRef "Shop\\Item",
    .classRef "int", .unhandled "resource (closed)", .arrayOf (.primitive .int)], by simp⟩
  have h : basketScope.resolve "Price[]|Item|\\int|resource (closed)|int[]" = .ok d := by rfl
  exact ⟨himports, hnamespace, d, h, by rfl,
    resolve_qualifiedText himports (.inr hnamespace) h ledgerScope⟩

end Scope

end DocTypes

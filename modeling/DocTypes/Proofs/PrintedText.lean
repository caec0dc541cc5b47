import DocTypes.Proofs.Building
import DocTypes.Proofs.QualifiedText

/-!
# The printed text of a declaration

A declaration is printed, by `text`, with the full names of its classes and without a separator in
front of them. So each of them is an unqualified name for `resolve_class_name` where the text is
read again, even in the class that it comes from: it may be a reserved word there, or the short name
of an import, or the name of another type inside the namespace. A scope keeps a name path that is
none of these (`KeepsName`).

The main statement is `resolve_text_iff`: the printed text of a declaration stands for it, in the
class where it was resolved, if and only if the class keeps every name in it.
-/

namespace DocTypes

open TypeExpr Lexeme

/-- The classes that a term names in a `classRef`. -/
def TypeTerm.classNames : TypeTerm → List String
  | classRef name => [name]
  | arrayOf element => element.classNames
  | primitive _ => []
  | selfRef => []
  | thisRef => []
  | unhandled _ => []

/-- The classes that a declaration names in its `terms`, in order. -/
def TypeDeclaration.classNames (d : TypeDeclaration) : List String :=
  d.terms.flatMap TypeTerm.classNames

namespace Scope

variable {s : Scope} {name : String}

/-! ## Names that stand for themselves -/

/-- A `name` means the class of that name without a separator in front: it is a name path and not
reserved, it is imported as the short name of no other path, and if it is not imported at all, there
is no type of that name inside the namespace. -/
structure KeepsName (s : Scope) (name : String) : Prop where
  isPath : IsPath name.toList
  notReserved : name ∉ reservedWords
  imported : ∀ path ∈ s.imports.get? name, path = name
  notInside : s.imports.get? name = none → s.inNamespace ≠ "" →
    s.registry.contains (s.inNamespace ++ "\\" ++ name) = false

/-- The `nameInside` a namespace has a separator more than the name. -/
theorem nameInside_eq_self_iff : s.nameInside name = name ↔ s.inNamespace = "" := by
  unfold nameInside
  split
  · next hnone => simp [hnone]
  · next hsome =>
    refine iff_of_false (fun h => ?_) hsome
    have hlength := congrArg String.length h
    simp only [String.length_append] at hlength
    have hseparator : "\\".length = 1 := rfl
    omega

/-- The names that `resolveUnqualified` takes to themselves. -/
theorem resolveUnqualified_eq_self_iff : s.resolveUnqualified name = name ↔
    (∀ path ∈ s.imports.get? name, path = name) ∧
      (s.imports.get? name = none → s.inNamespace ≠ "" →
        s.registry.contains (s.inNamespace ++ "\\" ++ name) = false) := by
  unfold resolveUnqualified
  cases himport : s.imports.get? name with
  | some path => simp
  | none =>
    by_cases hnamespace : s.inNamespace = ""
    · simp [nameInside, hnamespace]
    · have hinside : s.nameInside name = s.inNamespace ++ "\\" ++ name := if_neg hnamespace
      have hne : s.nameInside name ≠ name := fun h => hnamespace (nameInside_eq_self_iff.1 h)
      rw [← hinside]
      cases hknown : s.registry.contains (s.nameInside name) <;> simp [hne, hnamespace]

/-- `KeepsName` holds of a name path that is not reserved and stands for itself. -/
theorem keepsName_iff : s.KeepsName name ↔
    IsPath name.toList ∧ name ∉ reservedWords ∧ s.resolveUnqualified name = name := by
  rw [resolveUnqualified_eq_self_iff]
  exact ⟨fun h => ⟨h.isPath, h.notReserved, h.imported, h.notInside⟩,
    fun ⟨hpath, hfree, himported, hinside⟩ => ⟨hpath, hfree, himported, hinside⟩⟩

instance (s : Scope) (name : String) : Decidable (s.KeepsName name) :=
  decidable_of_iff' _ keepsName_iff

/-- Under `KeepsName` the text of a `classRef` is a name that stands for the class without a
separator in front. -/
theorem KeepsName.exists_isName (h : s.KeepsName name) :
    ∃ written, IsName (TypeTerm.classRef name).text.toList written ∧
      s.resolveName written = .classRef name := by
  obtain ⟨hpath, hfree, hself⟩ := keepsName_iff.1 h
  obtain ⟨written, hwritten, hresolve⟩ :=
    exists_isName_of_notMem_reservedWords (s := s) hpath hfree
  exact ⟨written, hwritten, by rw [hresolve, hself]⟩

/-! ## Names that are kept are read again -/

/-- What `resolveName` makes of a name is printed as a name that stands for it, if the scope keeps
it (`hkeeps`). -/
theorem exists_isName_text {word : List Char} {n : Name} (h : IsName word n)
    (hkeeps : ∀ name ∈ (s.resolveName n).classNames, s.KeepsName name) :
    ∃ written, IsName (s.resolveName n).text.toList written ∧
      s.resolveName written = s.resolveName n := by
  cases h with
  | primitive kind => exact ⟨.primitive kind, .primitive kind, rfl⟩
  | self => exact ⟨.self, .self, rfl⟩
  | this => exact ⟨.this, .this, rfl⟩
  | @unhandled word hw => exact ⟨.unhandled word, .unhandled hw, rfl⟩
  | className => exact (hkeeps _ (List.mem_singleton_self _)).exists_isName
  | qualified => exact (hkeeps _ (List.mem_singleton_self _)).exists_isName

/-- What a piece stands for is printed by `text` without a bar, and as a piece it stands for the
same. -/
theorem resolvePiece?_text {piece : List Char} {term : TypeTerm}
    (h : s.resolvePiece? piece = some term)
    (hkeeps : ∀ name ∈ term.classNames, s.KeepsName name) :
    bar ∉ term.text.toList ∧ s.resolvePiece? term.text.toList = some term := by
  obtain ⟨n, isArray, ⟨word, hword, -⟩, rfl⟩ := resolvePiece?_eq_some_iff.1 h
  have hnames : (s.resolveParts n isArray).classNames = (s.resolveName n).classNames := by
    cases isArray <;> rfl
  obtain ⟨written, hwritten, hresolve⟩ := exists_isName_text hword (hnames ▸ hkeeps)
  exact resolvePiece?_written (fun _ => rfl) hwritten hresolve isArray

/-! ## Names that are read again are kept -/

/-- Blanks around an `IsPath` are no part of it. -/
theorem eq_nil_of_isPath_append {before path after : List Char}
    (hbefore : ∀ c ∈ before, isPadding c = true) (hafter : ∀ c ∈ after, isPadding c = true)
    (h : IsPath (before ++ (path ++ after))) : before = [] ∧ after = [] := by
  have hpath : ∀ c ∈ before ++ (path ++ after), isPadding c ≠ true :=
    fun c hc => Bool.eq_false_iff.1 (isPadding_eq_false_of_isPath h c hc)
  constructor
  · exact List.eq_nil_iff_forall_not_mem.2 fun c hc => hpath c (by simp [hc]) (hbefore c hc)
  · exact List.eq_nil_iff_forall_not_mem.2 fun c hc => hpath c (by simp [hc]) (hafter c hc)

/-- There is no `separator` among blanks. -/
theorem count_separator_eq_zero {blanks : List Char} (h : ∀ c ∈ blanks, isPadding c = true) :
    blanks.count separator = 0 :=
  List.count_eq_zero.2 fun hmem => absurd (h _ hmem) (by decide)

/-- If a name is a word between blanks (`hname`), and is what `resolveUnqualified` makes of the
word, then it is the word. -/
theorem eq_of_resolveUnqualified_eq (himports : s.imports.LeadsToPaths) {word : String}
    {before after : List Char} (hbefore : ∀ c ∈ before, isPadding c = true)
    (hafter : ∀ c ∈ after, isPadding c = true)
    (hname : name.toList = before ++ (word.toList ++ after))
    (h : s.resolveUnqualified word = name) : word = name := by
  unfold resolveUnqualified at h
  split at h
  · -- An imported path is a name path, so there are no blanks.
    next path hget =>
    subst h
    have hpath : IsPath (before ++ (word.toList ++ after)) := hname ▸ himports word path hget
    obtain ⟨rfl, rfl⟩ := eq_nil_of_isPath_append hbefore hafter hpath
    rw [← String.toList_inj, hname, List.nil_append, List.append_nil]
  · split at h
    · rw [nameInside] at h
      split at h
      · exact h
      · -- A name inside the namespace has more separators than the word.
        subst h
        have hcount := congrArg (List.count separator) hname
        have hone : "\\".toList.count separator = 1 := rfl
        simp only [String.toList_append, List.count_append, hone,
          count_separator_eq_zero hbefore, count_separator_eq_zero hafter] at hcount
        omega
    · exact h

/-- A name that stands for itself as a piece satisfies `KeepsName`. -/
theorem keepsName_of_resolvePiece? (himports : s.imports.LeadsToPaths)
    (h : s.resolvePiece? name.toList = some (.classRef name)) : s.KeepsName name := by
  obtain ⟨n, isArray, ⟨word, hword, hstrip⟩, hterm⟩ := resolvePiece?_eq_some_iff.1 h
  cases isArray with
  | true => cases hterm
  | false =>
    have hname := eq_append_strip_append name.toList
    rw [hstrip, if_neg (by decide), List.append_nil] at hname
    have hbefore : ∀ c ∈ name.toList.takeWhile isPadding, isPadding c = true :=
      fun c hc => List.mem_takeWhile_imp hc
    have hafter : ∀ c ∈ (skipPadding name.toList).rtakeWhile isPadding, isPadding c = true :=
      fun c hc => List.mem_rtakeWhile_imp hc
    generalize name.toList.takeWhile isPadding = before at hname hbefore
    generalize (skipPadding name.toList).rtakeWhile isPadding = after at hname hafter
    have hname' : s.resolveName n = .classRef name := hterm
    -- Reserved words stand for no class, so only an unqualified name can stand for itself.
    cases hword with
    | primitive kind => cases hname'
    | self => cases hname'
    | this => cases hname'
    | unhandled => cases hname'
    | className hpath hfree =>
      have hself : s.resolveUnqualified (String.ofList word) = name :=
        TypeTerm.classRef.inj hname'
      have hlist : (String.ofList word).toList = word := String.toList_ofList
      obtain rfl : String.ofList word = name :=
        eq_of_resolveUnqualified_eq himports hbefore hafter (by rwa [hlist]) hself
      exact keepsName_iff.2 ⟨by rwa [hlist], hfree, hself⟩
    | @qualified path hpath =>
      -- The separator in front is no part of the name that the word stands for.
      obtain rfl : String.ofList path = name := TypeTerm.classRef.inj hname'
      have hlength := congrArg List.length hname
      simp only [String.toList_ofList, List.length_append, List.length_cons] at hlength
      omega

/-- A name that `resolveName` takes to something with a class in it stands for this class. -/
theorem resolveName_eq_of_mem_classNames {n : Name}
    (h : name ∈ (s.resolveName n).classNames) : s.resolveName n = .classRef name := by
  unfold resolveName at h ⊢
  split at h
  all_goals first
    | exact absurd h List.not_mem_nil
    | rw [List.mem_singleton.1 h]

/-- If a piece stands for a term as the printed `text` of the term does, the scope keeps the names
in it. -/
theorem keepsName_of_resolvePiece?_text (himports : s.imports.LeadsToPaths) {piece : List Char}
    {term : TypeTerm} (hpiece : s.resolvePiece? piece = some term)
    (h : s.resolvePiece? term.text.toList = some term) :
    ∀ name ∈ term.classNames, s.KeepsName name := by
  intro name hname
  obtain ⟨n, isArray, -, rfl⟩ := resolvePiece?_eq_some_iff.1 hpiece
  cases isArray with
  | true =>
    have hn : s.resolveName n = .classRef name := resolveName_eq_of_mem_classNames hname
    have htext : (s.resolveParts n true).text.toList = name.toList ++ "[]".toList := by
      simp [resolveParts, hn, TypeTerm.text, arraySuffix]
    rw [htext] at h
    obtain ⟨-, n', hn', hread⟩ := exists_name_of_resolvePiece?_suffix h
    have hsame : s.resolveName n = s.resolveName n' := TypeTerm.arrayOf.inj hn'
    exact keepsName_of_resolvePiece? himports (by rw [hread, ← hsame, hn])
  | false =>
    have hn : s.resolveParts n false = .classRef name := resolveName_eq_of_mem_classNames hname
    rw [hn] at h
    exact keepsName_of_resolvePiece? himports h

/-! ## Declarations -/

/-- The printed `text` of a declaration that was resolved in a scope stands for it there if and only
if `KeepsName` holds of all names in it. -/
theorem resolve_text_eq_ok_iff (himports : s.imports.LeadsToPaths) {raw : String}
    {d : TypeDeclaration} (h : s.resolve raw = .ok d) :
    s.resolve d.text = .ok d ↔ ∀ name ∈ d.classNames, s.KeepsName name := by
  rw [TypeDeclaration.text, resolve_intercalate_eq_ok_iff]
  constructor
  · intro hread name hname
    obtain ⟨term, ht, hname⟩ := List.mem_flatMap.1 hname
    obtain ⟨piece, hpiece⟩ := exists_piece_of_resolve h ht
    exact keepsName_of_resolvePiece?_text himports hpiece (hread term ht).2 name hname
  · intro hkeeps term ht
    obtain ⟨piece, hpiece⟩ := exists_piece_of_resolve h ht
    exact resolvePiece?_text hpiece fun name hname =>
      hkeeps name (List.mem_flatMap.2 ⟨term, ht, hname⟩)

end Scope

namespace ClassDescriptor

/-- The printed `text` of a declaration that was resolved in a class of `build` stands for it there
if and only if `KeepsName` holds of every name in it, with what `r` knows at the time. -/
theorem resolve_text_iff {c : ClassDeclaration} {known r : TypeRegistry}
    {analyzers : List Analyzer} {d : ClassDescriptor} (h : build c known analyzers = .ok d)
    {raw : String} {declaration : TypeDeclaration}
    (hresolve : (d.scope r).resolve raw = .ok declaration) :
    (d.scope r).resolve declaration.text = .ok declaration ↔
      ∀ name ∈ declaration.classNames, (d.scope r).KeepsName name := by
  obtain ⟨bare, features, hbare, -, rfl⟩ := build_eq_ok_iff.1 h
  obtain ⟨imports, properties, methods, himports, -, -, rfl⟩ := ofDeclaration_eq_ok_iff.1 hbare
  exact Scope.resolve_text_eq_ok_iff (ImportTable.leadsToPaths_of_ofStatements himports) hresolve

/-- A class with a namespace and an import, `Price`. -/
def basket : ClassDeclaration where
  name := "Shop\\Basket"
  imports := ["Money\\Price"]

/-- What is known has types of the same short names as `basket` uses, but outside, and one with a
reserved name. -/
def basketTypes : TypeRegistry where
  definitions := [⟨"Shop\\Basket", .class, []⟩, ⟨"Shop\\Item", .class, []⟩,
    ⟨"Money\\Price", .class, []⟩, ⟨"Item", .class, []⟩, ⟨"Price", .class, []⟩,
    ⟨"int", .class, []⟩]
  nodup_names := by decide

/-- The full names, such as `Item` in `Shop`, are no short names of anything here. -/
theorem resolve_text_iff_basket : ∃ d declaration, build basket basketTypes [] = .ok d ∧
    (d.scope basketTypes).resolve "Item[]|Price|int" = .ok declaration ∧
    declaration.text = "Shop\\Item[]|Money\\Price|int" ∧
    (d.scope basketTypes).resolve declaration.text = .ok declaration := by
  obtain ⟨d, declaration, hbuild, hresolve, htext, hkeeps⟩ : ∃ d declaration,
      build basket basketTypes [] = .ok d ∧
        (d.scope basketTypes).resolve "Item[]|Price|int" = .ok declaration ∧
        declaration.text = "Shop\\Item[]|Money\\Price|int" ∧
        ∀ name ∈ declaration.classNames, (d.scope basketTypes).KeepsName name :=
    ⟨_, _, by rfl, by rfl, by rfl, by decide⟩
  exact ⟨d, declaration, hbuild, hresolve, htext, (resolve_text_iff hbuild hresolve).2 hkeeps⟩

/-- Known classes outside the namespace, whose names are those of the type `Item` inside, of
the import `Price` and of the primitive kind `int`: printed and read again, each is taken
for the other. -/
theorem exists_resolve_text_ne : ∃ d declaration other, build basket basketTypes [] = .ok d ∧
    (d.scope basketTypes).resolve "\\Item|\\Price|\\int" = .ok declaration ∧
    (∀ name ∈ declaration.classNames, basketTypes.contains name = true) ∧
    declaration.text = "Item|Price|int" ∧
    (d.scope basketTypes).resolve declaration.text = .ok other ∧
    other.terms = [.classRef "Shop\\Item", .classRef "Money\\Price", .primitive .int] ∧
    other ≠ declaration :=
  ⟨_, _, _, by rfl, by rfl, by decide, by rfl, by rfl, by rfl, by decide⟩

end ClassDescriptor

end DocTypes

import DocTypes.Proofs.ImportedName
import DocTypes.Proofs.PrintedText

/-!
# Names that a namespace captures

What a declaration stands for depends on the types that are known. When more types become known it
can still be read, or cannot for the same reason, since `parse` looks at the text alone. Of the
terms that it stands for, only those change that are written as a name without a separator in front,
stand for this name itself, and now have a type of that name in the namespace (`Captures`). They
come to stand for that type, and all others stay (`Becomes`): of the three steps of
`resolve_class_name`, only the middle one asks what is known. The main statement is
`resolve_withRegistry`.
-/

namespace DocTypes

open TypeExpr Lexeme

/-- The class `name`, or the arrays of it. -/
def TypeTerm.reference (name : String) (isArray : Bool) : TypeTerm :=
  if isArray then .arrayOf (.classRef name) else .classRef name

/-- `reference` tells names apart, and classes from arrays. -/
theorem TypeTerm.reference_inj {name name' : String} {isArray isArray' : Bool} :
    TypeTerm.reference name isArray = .reference name' isArray' ↔
      name = name' ∧ isArray = isArray' := by
  cases isArray <;> cases isArray' <;> simp [TypeTerm.reference]

namespace Scope

variable {s : Scope} {r : TypeRegistry} {name : String} {piece : List Char} {term : TypeTerm}

/-- The scope `s` with the known types of `r`. -/
def withRegistry (s : Scope) (r : TypeRegistry) : Scope := { s with registry := r }

/-- The name is not imported, and the type of that name in the namespace is unknown to the scope `s`
but known to `r`. -/
structure Captures (s : Scope) (r : TypeRegistry) (name : String) : Prop where
  inNamespace_ne : s.inNamespace ≠ ""
  notMem_keys : name ∉ s.imports.keys
  unknown : s.registry.contains (s.inNamespace ++ "\\" ++ name) = false
  known : r.contains (s.inNamespace ++ "\\" ++ name) = true

/-- What a piece that stands for a term comes to stand for when the types of `r` are known: the type
in the namespace if the term is a name that `r` captures and the piece is this name, and else the
same. -/
inductive Becomes (s : Scope) (r : TypeRegistry) (piece : List Char) : TypeTerm → TypeTerm → Prop
  | captured {name : String} {isArray : Bool} : s.Captures r name →
      strip piece = (name.toList ++ if isArray then arraySuffix.toList else []) →
      Becomes s r piece (.reference name isArray)
        (.reference (s.inNamespace ++ "\\" ++ name) isArray)
  | same {term : TypeTerm} :
      (∀ name isArray, s.Captures r name →
        strip piece = (name.toList ++ if isArray then arraySuffix.toList else []) →
        term ≠ .reference name isArray) →
      Becomes s r piece term term

/-- A piece that is a captured name `Becomes` the type in the namespace. -/
theorem Becomes.eq_of_captures {term' : TypeTerm} {isArray : Bool}
    (h : s.Becomes r piece (.reference name isArray) term') (hcaptured : s.Captures r name)
    (hpiece : strip piece = (name.toList ++ if isArray then arraySuffix.toList else [])) :
    term' = .reference (s.inNamespace ++ "\\" ++ name) isArray := by
  generalize hterm : TypeTerm.reference name isArray = term at h
  cases h with
  | captured _ _ =>
    obtain ⟨rfl, rfl⟩ := TypeTerm.reference_inj.1 hterm
    rfl
  | same hother => exact absurd hterm.symm (hother name isArray hcaptured hpiece)

/-! ## Names -/

/-- The `nameInside` of a captured name is a name of its own, since there is a namespace. -/
theorem Captures.nameInside_eq (h : s.Captures r name) :
    s.nameInside name = s.inNamespace ++ "\\" ++ name := if_neg h.inNamespace_ne

/-- Under `resolveUnqualified` a captured name stands for itself, and for the type in the namespace
when that is known. -/
theorem Captures.resolveUnqualified (h : s.Captures r name) :
    s.resolveUnqualified name = name ∧
      (s.withRegistry r).resolveUnqualified name = s.inNamespace ++ "\\" ++ name := by
  have hinside : (s.withRegistry r).nameInside name = s.inNamespace ++ "\\" ++ name :=
    h.nameInside_eq
  constructor
  · rw [resolveUnqualified_of_notMem_keys h.notMem_keys, h.nameInside_eq, h.unknown]
    rfl
  · have hkeys : name ∉ (s.withRegistry r).imports.keys := h.notMem_keys
    rw [resolveUnqualified_of_notMem_keys hkeys, hinside]
    exact if_pos h.known

/-- A captured name is not the name of the type in the namespace, by `nameInside_eq_self_iff`. -/
theorem Captures.nameInside_ne (h : s.Captures r name) :
    s.inNamespace ++ "\\" ++ name ≠ name := by
  rw [← h.nameInside_eq]
  exact fun hself => h.inNamespace_ne (nameInside_eq_self_iff.1 hself)

/-- `resolveUnqualified` takes any other name to the same as before. By `hr` no type is forgotten,
so what was found in the namespace is found again. -/
theorem resolveUnqualified_withRegistry
    (hr : ∀ n, s.registry.contains n = true → r.contains n = true) (h : ¬s.Captures r name) :
    (s.withRegistry r).resolveUnqualified name = s.resolveUnqualified name := by
  -- An import is asked for before the namespace, and does not look at what is known.
  by_cases hkey : name ∈ s.imports.keys
  · obtain ⟨⟨_, path⟩, hentry, rfl⟩ := List.mem_map.1 hkey
    have hentry' : (_, path) ∈ (s.withRegistry r).imports.entries := hentry
    rw [resolveUnqualified_of_mem_entries hentry, resolveUnqualified_of_mem_entries hentry']
  · have hkey' : name ∉ (s.withRegistry r).imports.keys := hkey
    have hinside : (s.withRegistry r).nameInside name = s.nameInside name := rfl
    rw [resolveUnqualified_of_notMem_keys hkey, resolveUnqualified_of_notMem_keys hkey', hinside]
    show (if r.contains (s.nameInside name) = true then s.nameInside name else name) = _
    by_cases hbefore : s.registry.contains (s.nameInside name) = true
    · rw [if_pos hbefore, if_pos (hr _ hbefore)]
    · rw [if_neg hbefore]
      by_cases hnow : r.contains (s.nameInside name) = true
      · -- Only without a namespace is the name not captured, and then it stands for itself.
        have hnone : s.inNamespace = "" := by
          by_contra hsome
          rw [nameInside, if_neg hsome] at hbefore hnow
          exact h ⟨hsome, hkey, by simpa using hbefore, hnow⟩
        rw [if_pos hnow, nameInside, if_pos hnone]
      · rw [if_neg hnow]

/-- `resolveName` takes any name of the grammar to the same as before, unless it is written without
a separator in front and captured. -/
theorem resolveName_withRegistry
    (hr : ∀ n, s.registry.contains n = true → r.contains n = true) {word : List Char} {n : Name}
    (hword : IsName word n) :
    (∃ name, s.Captures r name ∧ word = name.toList ∧ n = .className name false) ∨
      (s.withRegistry r).resolveName n = s.resolveName n := by
  cases hword with
  | className hpath hfree =>
    by_cases hcaptured : s.Captures r (String.ofList word)
    · exact .inl ⟨_, hcaptured, String.toList_ofList.symm, rfl⟩
    · right
      rw [resolveName, resolveName, resolveUnqualified_withRegistry hr hcaptured]
  | _ => exact .inr rfl

/-! ## Pieces and declarations -/

/-- A name of the grammar that stands for a reference of its own text (`htext`) is a `className`
without a separator in front. -/
theorem eq_className_of_resolveName {word : List Char} {n : Name} (hword : IsName word n)
    (htext : word = name.toList) (h : s.resolveName n = .classRef name) :
    n = .className name false := by
  cases hword with
  | className hpath hfree => rw [htext, String.ofList_toList]
  | @qualified path hpath =>
    have hname : String.ofList path = name := by
      rw [resolveName] at h
      exact TypeTerm.classRef.inj h
    -- The text would be longer than itself by the separator.
    have hlength := congrArg List.length htext
    rw [← hname, String.toList_ofList, List.length_cons] at hlength
    omega
  | _ => cases h

/-- `resolveParts` gives a reference if the name of the member stands for the class. -/
theorem resolveParts_eq_reference_iff {n : Name} {isArray isArray' : Bool} :
    s.resolveParts n isArray = .reference name isArray' ↔
      isArray = isArray' ∧ s.resolveName n = .classRef name := by
  have hname : (s.resolveName n).isArray = false := isArray_resolveName n
  cases isArray <;> cases isArray'
  · simp [resolveParts, TypeTerm.reference]
  · refine iff_of_false (fun h => ?_) (by simp)
    have h' : s.resolveName n = .arrayOf (.classRef name) := h
    rw [h'] at hname
    exact Bool.noConfusion hname
  · simp [resolveParts, TypeTerm.reference]
  · simp [resolveParts, TypeTerm.reference]

/-- A piece that `resolvePiece?` takes to a term is still taken to one, and the one `Becomes` the
other. -/
theorem exists_resolvePiece?_withRegistry
    (hr : ∀ n, s.registry.contains n = true → r.contains n = true)
    (h : s.resolvePiece? piece = some term) :
    ∃ term', (s.withRegistry r).resolvePiece? piece = some term' ∧
      s.Becomes r piece term term' := by
  obtain ⟨n, isArray, hterm, rfl⟩ := resolvePiece?_eq_some_iff.1 h
  have hnow : (s.withRegistry r).resolvePiece? piece =
      some ((s.withRegistry r).resolveParts n isArray) :=
    resolvePiece?_eq_some_iff.2 ⟨n, isArray, hterm, rfl⟩
  refine ⟨_, hnow, ?_⟩
  obtain ⟨word, hword, hstrip⟩ := hterm
  -- Only the name of a piece can change, so an array suffix stays what it is.
  rcases resolveName_withRegistry hr hword with ⟨name, hcaptured, rfl, rfl⟩ | hsame
  · obtain ⟨hbefore, hafter⟩ := hcaptured.resolveUnqualified
    rw [resolveParts, resolveParts, resolveName, resolveName, hbefore, hafter]
    exact .captured hcaptured hstrip
  · have hkept : (s.withRegistry r).resolveParts n isArray = s.resolveParts n isArray := by
      rw [resolveParts, resolveParts, hsame]
    rw [hkept]
    refine .same fun name isArray' hcaptured hpiece hreference => ?_
    -- A captured name would have changed.
    obtain ⟨rfl, hname⟩ := resolveParts_eq_reference_iff.1 hreference
    have htext : word = name.toList := List.append_cancel_right (hstrip.symm.trans hpiece)
    obtain rfl := eq_className_of_resolveName hword htext hname
    obtain ⟨hbefore, hafter⟩ := hcaptured.resolveUnqualified
    rw [resolveName, resolveName, hbefore, hafter] at hsame
    exact hcaptured.nameInside_ne (TypeTerm.classRef.inj hsame)

/-- When more types become known (`hr`), `resolve` still reads a text or fails for the same reason.
It stands for as many terms as before, of which those change that are written as a captured name, in
front of the array suffix or not. They come to stand for the type of this name in the namespace. -/
theorem resolve_withRegistry (s : Scope) (r : TypeRegistry)
    (hr : ∀ n, s.registry.contains n = true → r.contains n = true) (raw : String) :
    (∀ e, (s.withRegistry r).resolve raw = .error e ↔ s.resolve raw = .error e) ∧
    ∀ declaration, s.resolve raw = .ok declaration →
      ∃ declaration', (s.withRegistry r).resolve raw = .ok declaration' ∧
        declaration'.terms.length = declaration.terms.length ∧
        ∀ (i : Nat) term, declaration.terms[i]? = some term →
          ∃ piece term', (raw.toList.splitOn bar)[i]? = some piece ∧
            declaration'.terms[i]? = some term' ∧ s.Becomes r piece term term' := by
  refine ⟨fun e => ?_, fun declaration h => ?_⟩
  · rw [resolve, resolve, map_eq_error_iff, map_eq_error_iff]
  · obtain ⟨e, hparse, rfl⟩ := map_eq_ok_iff.1 h
    have hnow : (s.withRegistry r).resolve raw = .ok ((s.withRegistry r).resolveExpr e) :=
      map_eq_ok_iff.2 ⟨e, hparse, rfl⟩
    refine ⟨_, hnow, ?_, fun i term hterm => ?_⟩
    · rw [resolveExpr, resolveExpr, List.length_map, List.length_map]
    · rw [getElem?_of_mapM (resolve_eq_ok_iff.1 h)] at hterm
      obtain ⟨piece, hpiece, hmeaning⟩ := Option.bind_eq_some_iff.1 hterm
      obtain ⟨term', hmeaning', hbecomes⟩ := exists_resolvePiece?_withRegistry hr hmeaning
      refine ⟨piece, term', hpiece, ?_, hbecomes⟩
      rw [getElem?_of_mapM (resolve_eq_ok_iff.1 hnow), hpiece]
      exact hmeaning'

/-- A class of the namespace `Shop`, in which no other type is known. -/
def depotScope : Scope where
  className := "Shop\\Depot"
  inNamespace := "Shop"
  imports := ⟨[("Price", "Money\\Price")], by decide⟩
  registry := ⟨[⟨"Shop\\Depot", .class, []⟩], by decide⟩

/-- The types when two more have been added to the namespace of `depotScope`, and one outside of
it. -/
def grownRegistry : TypeRegistry :=
  ⟨[⟨"Item", .class, []⟩, ⟨"Shop\\Item", .class, []⟩, ⟨"Shop\\Price", .class, []⟩,
    ⟨"Shop\\Depot", .class, []⟩], by decide⟩

/-- Of the terms that are written as `Item`, which is new to the namespace, the one with a separator
in front stays, and the other changes. The import of `Price` stays too. -/
theorem resolve_withRegistry_depot :
    (∀ n, depotScope.registry.contains n = true → grownRegistry.contains n = true) ∧
    depotScope.resolve "\\Item|Price| Item[]" =
      .ok ⟨[.classRef "Item", .classRef "Money\\Price", .arrayOf (.classRef "Item")], by simp⟩ ∧
    ∃ declaration,
      (depotScope.withRegistry grownRegistry).resolve "\\Item|Price| Item[]" = .ok declaration ∧
      declaration.terms.length = 3 ∧
      declaration.terms[2]? = some (.arrayOf (.classRef "Shop\\Item")) := by
  have hmore : ∀ n, depotScope.registry.contains n = true → grownRegistry.contains n = true := by
    intro n hn
    rw [TypeRegistry.contains_iff_mem_names] at hn ⊢
    obtain rfl : n = "Shop\\Depot" := by simpa [depotScope, TypeRegistry.names] using hn
    decide
  have hbefore : depotScope.resolve "\\Item|Price| Item[]" =
      .ok ⟨[.classRef "Item", .classRef "Money\\Price", .arrayOf (.classRef "Item")], by simp⟩ := by
    rfl
  have hcaptured : depotScope.Captures grownRegistry "Item" :=
    ⟨by decide, by decide, by decide, by decide⟩
  obtain ⟨declaration, hnow, hlength, hterms⟩ :=
    (resolve_withRegistry depotScope grownRegistry hmore "\\Item|Price| Item[]").2 _ hbefore
  obtain ⟨piece, term, hpiece, hterm, hbecomes⟩ := hterms 2 (.reference "Item" true) rfl
  obtain rfl : " Item[]".toList = piece := Option.some.inj hpiece
  rw [hbecomes.eq_of_captures hcaptured rfl] at hterm
  exact ⟨hmore, hbefore, declaration, hnow, hlength, hterm⟩

end Scope

end DocTypes

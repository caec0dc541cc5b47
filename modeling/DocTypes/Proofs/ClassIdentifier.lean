import DocTypes.Proofs.ObjectProperties
import DocTypes.Proofs.UnionValidation

/-!
# The class of a text

Two questions about a text are answered apart: `isObjectType` says whether it is of an object type,
which arrays may be, and `classOf` which class it denotes, which arrays do not. Both answers are
determined by the single term that the text stands for, if it stands for one (`isObjectType_iff`,
`classOf_eq_ok_iff`). So the first is a guard of the second, and it is one for the elements where it
is put to the text of an array: the text without the array suffix stands for the element type
(`exists_element_of_resolve_suffix`).
-/

namespace DocTypes

open TypeExpr Lexeme

namespace Scope

variable {s : Scope} {raw : String} {term : TypeTerm}

/-- A text stands for a single term if it has no `bar` and stands for the term as a piece, by
`resolvePiece?`. -/
theorem resolve_eq_ok_single_iff : s.resolve raw = .ok (.single term) ↔
    bar ∉ raw.toList ∧ s.resolvePiece? raw.toList = some term := by
  rw [resolve_eq_ok_iff, TypeDeclaration.single, mapM_eq_some_iff]
  constructor
  · intro h
    have hbar := bar_notMem_of_length_splitOn h.length_eq
    rw [List.splitOn_eq_singleton hbar] at h
    exact ⟨hbar, (List.forall₂_cons.1 h).1⟩
  · rintro ⟨hbar, hterm⟩
    rw [List.splitOn_eq_singleton hbar]
    exact .cons hterm .nil

/-- A text with the array suffix that stands for a single term stands for arrays: the term is
`arrayOf` what the text without the suffix stands for. -/
theorem exists_element_of_resolve_suffix (h : s.resolve (raw ++ "[]") = .ok (.single term)) :
    ∃ element, element.isArray = false ∧ term = .arrayOf element ∧
      s.resolve raw = .ok (.single element) := by
  obtain ⟨-, hpiece⟩ := resolve_eq_ok_single_iff.1 h
  rw [String.toList_append] at hpiece
  obtain ⟨hbar, name, rfl, helement⟩ := exists_name_of_resolvePiece?_suffix hpiece
  exact ⟨_, isArray_resolveName name, rfl, resolve_eq_ok_single_iff.2 ⟨hbar, helement⟩⟩

end Scope

namespace ClassDescriptor

variable {d : ClassDescriptor} {r : TypeRegistry} {raw name : String}

/-- A text is of an object type, as `is_object_type` answers, if it stands for a single term `t`
that is. -/
theorem isObjectType_iff : d.isObjectType r (some raw) = true ↔
    ∃ t, (d.scope r).resolve raw = .ok (.single t) ∧ t.isObjectType r = true := by
  unfold isObjectType resolve?
  cases hresolve : (d.scope r).resolve raw with
  | error e => simp [hresolve, Except.map]
  | ok declaration =>
    simp only [hresolve, Except.map, TypeDeclaration.isObjectType, Option.any_eq_true,
      Except.ok.injEq]
    constructor
    · rintro ⟨t, ht, hobject⟩
      exact ⟨t, TypeDeclaration.eq_single_of_singleTerm? ht, hobject⟩
    · rintro ⟨t, rfl, hobject⟩
      exact ⟨t, rfl, hobject⟩

/-- The class of a text, as `class_identifier_of` answers, is the one that the single term denotes
that it stands for (`TypeTerm.DenotesClass`). -/
theorem classOf_eq_ok_iff : d.classOf r raw = .ok name ↔
    ∃ t, (d.scope r).resolve raw = .ok (.single t) ∧ t.DenotesClass d.name r name := by
  unfold classOf
  cases hresolve : (d.scope r).resolve raw with
  | error e => simp
  | ok declaration =>
    simp only [mapError_eq_ok_iff, Scope.classOfDeclaration, Except.ok.injEq]
    constructor
    · intro h
      split at h
      · next t ht =>
        exact ⟨t, TypeDeclaration.eq_single_of_singleTerm? ht, Scope.classOf_eq_ok_iff.1 h⟩
      · cases h
    · rintro ⟨t, rfl, ht⟩
      exact Scope.classOf_eq_ok_iff.2 ht

/-- A text that denotes no class (`h`) is what the error of `classOf` quotes. -/
theorem classOf_eq_error_of_forall_ne (h : ∀ name, d.classOf r raw ≠ .ok name) :
    d.classOf r raw = .error ⟨raw⟩ := by
  unfold classOf at h ⊢
  split
  · rfl
  · next declaration hresolve =>
    simp only [hresolve, ne_eq, mapError_eq_ok_iff] at h
    cases hclass : (d.scope r).classOfDeclaration declaration with
    | error e => rfl
    | ok name => exact absurd hclass (h name)

/-- For `class_identifier_of` a text denotes a class if and only if it is of an object type by
`isObjectType` and stands for a single term that is no array; the class is that of the descriptor
for `self` and `$this`, and else the known class that the term names. Any other text, readable or
not, is quoted in the error of `classOf`. A text that is of an object type with the array suffix
behind it denotes a class without it. -/
theorem classOf_isObjectType (d : ClassDescriptor) (r : TypeRegistry) :
    (∀ raw, (∃ name, d.classOf r raw = .ok name) ↔ d.isObjectType r (some raw) = true ∧
      ∃ t, (d.scope r).resolve raw = .ok (.single t) ∧ t.isArray = false) ∧
    (∀ raw name, d.classOf r raw = .ok name ↔
      ∃ t, (d.scope r).resolve raw = .ok (.single t) ∧ t.DenotesClass d.name r name) ∧
    (∀ raw, (∀ name, d.classOf r raw ≠ .ok name) → d.classOf r raw = .error ⟨raw⟩) ∧
    ∀ raw, d.isObjectType r (some (raw ++ "[]")) = true → ∃ element name,
      (d.scope r).resolve (raw ++ "[]") = .ok (.single (.arrayOf element)) ∧
      (d.scope r).resolve raw = .ok (.single element) ∧ d.classOf r raw = .ok name := by
  refine ⟨fun raw => ?_, fun raw name => classOf_eq_ok_iff,
    fun raw => classOf_eq_error_of_forall_ne, fun raw h => ?_⟩
  · constructor
    · rintro ⟨name, h⟩
      obtain ⟨t, hresolve, ht⟩ := classOf_eq_ok_iff.1 h
      have hobject : t.isObjectType r = true :=
        (TypeTerm.isObjectType_iff_of_isArray_eq_false d.name ht.isArray_eq_false).2 ⟨name, ht⟩
      exact ⟨isObjectType_iff.2 ⟨t, hresolve, hobject⟩, t, hresolve, ht.isArray_eq_false⟩
    · rintro ⟨h, t, hresolve, harray⟩
      obtain ⟨t', hresolve', hobject⟩ := isObjectType_iff.1 h
      -- Both questions are answered by one and the same term.
      obtain rfl : t = t' := by
        simpa [TypeDeclaration.single] using hresolve.symm.trans hresolve'
      obtain ⟨name, ht⟩ :=
        (TypeTerm.isObjectType_iff_of_isArray_eq_false d.name harray).1 hobject
      exact ⟨name, classOf_eq_ok_iff.2 ⟨t, hresolve, ht⟩⟩
  · obtain ⟨t, hresolve, hobject⟩ := isObjectType_iff.1 h
    obtain ⟨element, harray, rfl, helement⟩ := Scope.exists_element_of_resolve_suffix hresolve
    -- An array denotes objects if its elements do.
    have helementObject : element.isObjectType r = true := hobject
    obtain ⟨name, ht⟩ :=
      (TypeTerm.isObjectType_iff_of_isArray_eq_false d.name harray).1 helementObject
    exact ⟨element, name, hresolve, helement, classOf_eq_ok_iff.2 ⟨element, helement, ht⟩⟩

/-- Items and arrays of them, in the class `shelf` where items are known: only the text without the
suffix denotes the class, and a text that cannot be read is quoted. -/
theorem classOf_isObjectType_shelf : ∃ d, ofDeclaration shelf shelfTypes = .ok d ∧
    d.isObjectType shelfTypes (some "Item[]") = true ∧
    d.classOf shelfTypes "Item" = .ok "Shop\\Item" ∧
    d.classOf shelfTypes "Item[]" = .error ⟨"Item[]"⟩ ∧
    d.classOf shelfTypes "Item|" = .error ⟨"Item|"⟩ := by
  obtain ⟨d, hbuild, hitem, hitems, hunreadable⟩ : ∃ d, ofDeclaration shelf shelfTypes = .ok d ∧
      (d.scope shelfTypes).resolve "Item" = .ok (.single (.classRef "Shop\\Item")) ∧
      d.isObjectType shelfTypes (some "Item[]") = true ∧
      (d.scope shelfTypes).resolve "Item|" = .error (.emptyMember "Item|" ⟨5, 5⟩) :=
    ⟨_, by rfl, by rfl, by rfl, by rfl⟩
  obtain ⟨hguard, hclass, herror, hsuffix⟩ := classOf_isObjectType d shelfTypes
  refine ⟨d, hbuild, hitems, ?_, herror _ fun name h => ?_, herror _ fun name h => ?_⟩
  · exact (hclass _ _).2 ⟨_, hitem, .classRef (by decide)⟩
  · obtain ⟨element, -, harray, -, -⟩ := hsuffix "Item" hitems
    obtain ⟨-, t, ht, hflat⟩ := (hguard "Item[]").1 ⟨name, h⟩
    obtain rfl : TypeTerm.arrayOf element = t := by
      simpa [TypeDeclaration.single] using harray.symm.trans ht
    cases hflat
  · obtain ⟨t, ht, -⟩ := (hclass _ _).1 h
    cases hunreadable.symm.trans ht

end ClassDescriptor

end DocTypes

import DocTypes.Proofs.Building
import DocTypes.Proofs.CacheValidity
import DocTypes.Proofs.ManifestRegistry
import DocTypes.Proofs.ParentChain
import Mathlib.Data.List.Induction

/-!
# The cache is transparent

Whatever has been asked before, the answer for a class is the one that a new factory would give;
what stands in the cache is what has been built since it was last cleared; and a class is handed out
as the same shared descriptor until then, and never again afterwards. The main statement is
`cache_transparent`.

The classes that a request by `hierarchy_for_class` stores are found from the chain of parent
classes (`contains_hierarchy_iff`): it goes through the chain from the root on, and ends at the
first class that cannot be built.
-/

namespace DocTypes

open Relation (ReflTransGen)

namespace MetadataFactory

variable {f : MetadataFactory} {cache : DescriptorCache} {className target : String}
  {first : Nat}

/-! ## What is at hand -/

/-- Behind `metadata` for a class that `f.Builds`, the class is at hand too. -/
theorem contains_metadata_iff :
    (f.metadata className cache).2.contains target = true ↔
      cache.contains target = true ∨ target = className ∧ f.Builds className := by
  rcases f.metadata_cases className cache with ⟨s, hs, h⟩ | ⟨e, -, hbuild, h⟩ | ⟨d, -, hbuild, h⟩
  · rw [h]
    refine ⟨.inl, ?_⟩
    rintro (hc | ⟨rfl, -⟩)
    · exact hc
    · simp [DescriptorCache.contains, OrderedMap.contains, hs]
  · rw [h]
    simp [Builds, hbuild]
  · rw [h]
    have hbuilds : f.Builds className := ⟨d, hbuild⟩
    simp only [DescriptorCache.contains, OrderedMap.contains, OrderedMap.get?_insert]
    by_cases hc : target = className
    · simp [hc, hbuilds]
    · simp [hc]

/-- Behind `metadataAll` for `classNames`, those classes are at hand too that can be built, as all
in front of them. -/
theorem Valid.contains_metadataAll_iff {classNames : List String} (hv : f.Valid first cache) :
    (f.metadataAll classNames cache).2.contains target = true ↔ cache.contains target = true ∨
      ∃ before after, classNames = before ++ target :: after ∧
        ∀ n ∈ before ++ [target], f.Builds n := by
  -- By induction on the classes. The cache behind one class is valid for the rest.
  induction classNames generalizing cache with
  | nil => simp [metadataAll]
  | cons className rest ih =>
    by_cases hbuilds : f.Builds className
    · obtain ⟨s, hs⟩ := hv.exists_metadata_eq_ok_iff.2 hbuilds
      rw [metadataAll_cons_of_ok hs, ih (hv.of_stores (f.stores_metadata className cache)),
        contains_metadata_iff, or_assoc]
      refine or_congr_right ⟨?_, ?_⟩
      · rintro (⟨rfl, -⟩ | ⟨before, after, rfl, hall⟩)
        · exact ⟨[], rest, rfl, by simpa using hbuilds⟩
        · refine ⟨className :: before, after, rfl, ?_⟩
          simpa [hbuilds] using hall
      · rintro ⟨before, after, hsplit, hall⟩
        rcases List.cons_eq_append_iff.1 hsplit with ⟨-, hrest⟩ | ⟨before', rfl, rfl⟩
        · obtain ⟨rfl, -⟩ := List.cons.inj hrest
          exact .inl ⟨rfl, hbuilds⟩
        · refine .inr ⟨before', after, rfl, fun n hn => hall n ?_⟩
          exact List.mem_cons_of_mem _ hn
    · -- The request ends here, and no class comes before this one.
      obtain ⟨e, he⟩ : ∃ e, (f.metadata className cache).1 = .error e := by
        cases hanswer : (f.metadata className cache).1 with
        | error e => exact ⟨e, rfl⟩
        | ok s => exact absurd (hv.exists_metadata_eq_ok_iff.1 ⟨s, hanswer⟩) hbuilds
      rw [metadataAll_cons_of_error he, contains_metadata_iff]
      refine or_congr_right ⟨fun h => absurd h.2 hbuilds, ?_⟩
      rintro ⟨before, after, hsplit, hall⟩
      rcases List.cons_eq_append_iff.1 hsplit with ⟨rfl, hrest⟩ | ⟨before', rfl, -⟩
      · obtain ⟨rfl, -⟩ := List.cons.inj hrest
        exact absurd (hall _ (by simp)) hbuilds
      · exact absurd (hall _ (by simp)) hbuilds

/-- A request for the hierarchy of `className` comes to `target` and builds it: `target` is declared
and lies on the way up, and it can be built, as every declared class above it. -/
structure Reaches (f : MetadataFactory) (className target : String) : Prop where
  declared : f.source.contains className = true
  target_declared : f.source.contains target = true
  above : ReflTransGen f.registry.ParentClass className target
  builds : ∀ n, ReflTransGen f.registry.ParentClass target n → f.source.contains n = true →
    f.Builds n

/-- In a chain from its root on, without the classes that are not declared, stand those that are
reached by `Reaches`, each behind classes that can be built. -/
theorem reaches_iff_of_isChain {chain : List String}
    (hdeclared : f.source.contains className = true)
    (hchain : f.registry.IsChain className chain) :
    (∃ before after, chain.reverse.filter f.source.contains = before ++ target :: after ∧
      ∀ n ∈ before ++ [target], f.Builds n) ↔ f.Reaches className target := by
  -- What stands in front of a class in the chain is what lies above it, by
  -- `IsChain.exists_split_iff`.
  constructor
  · rintro ⟨before, after, hsplit, hall⟩
    obtain ⟨hbefore, hbuilds⟩ := List.forall_mem_append.1 hall
    obtain ⟨hreach, htarget, habove⟩ := hchain.exists_split_iff.1 ⟨before, after, hsplit, hbefore⟩
    refine ⟨hdeclared, htarget, hreach, fun n hn hdecl => ?_⟩
    rcases Relation.reflTransGen_iff_eq_or_transGen.1 hn with rfl | hn
    · exact hbuilds _ (List.mem_singleton_self _)
    · exact habove n hn hdecl
  · intro h
    obtain ⟨before, after, hsplit, hbefore⟩ := hchain.exists_split_iff.2
      ⟨h.above, h.target_declared, fun n hn => h.builds n hn.to_reflTransGen⟩
    refine ⟨before, after, hsplit, List.forall_mem_append.2 ⟨hbefore, ?_⟩⟩
    exact List.forall_mem_singleton.2 (h.builds target .refl h.target_declared)

/-- Behind `hierarchy` for a class, the classes are at hand too that it `Reaches`. -/
theorem Valid.contains_hierarchy_iff {definitions : List TypeDefinition}
    (hr : TypeRegistry.build definitions = .ok f.registry) (hv : f.Valid first cache) :
    (f.hierarchy className cache).2.contains target = true ↔
      cache.contains target = true ∨ f.Reaches className target := by
  unfold hierarchy
  split
  · next hdeclared =>
    rw [hv.contains_metadataAll_iff,
      reaches_iff_of_isChain hdeclared (TypeRegistry.isChain_parentChain hr)]
  · next hundeclared => exact ⟨.inl, fun h => h.resolve_right fun hr => hundeclared hr.declared⟩

/-- A request brings a class into the cache: it is by `metadata` for the class and succeeds, or it
is by `hierarchy` and `Reaches` the class. -/
inductive Supplies (f : MetadataFactory) (cache : DescriptorCache) : Request → String → Prop
  | metadata {className : String} {s : SharedDescriptor} :
      (f.metadata className cache).1 = .ok s → Supplies f cache (.metadata className) className
  | hierarchy {className target : String} : f.Reaches className target →
      Supplies f cache (.hierarchy className) target

/-- Behind a request that is not for clearing (`hrequest`) the classes are at hand too that it
`Supplies`. -/
theorem Valid.contains_serve_iff {definitions : List TypeDefinition}
    (hr : TypeRegistry.build definitions = .ok f.registry) (hv : f.Valid first cache)
    {request : Request} (hrequest : request ≠ .clear) :
    (f.serve cache request).contains target = true ↔
      cache.contains target = true ∨ f.Supplies cache request target := by
  cases request with
  | metadata className =>
    rw [MetadataFactory.serve, contains_metadata_iff, ← hv.exists_metadata_eq_ok_iff]
    refine or_congr_right ⟨?_, ?_⟩
    · rintro ⟨rfl, s, hs⟩
      exact .metadata hs
    · intro h
      cases h with
      | metadata hs => exact ⟨rfl, _, hs⟩
  | hierarchy className =>
    rw [MetadataFactory.serve, hv.contains_hierarchy_iff hr]
    refine or_congr_right ⟨.hierarchy, ?_⟩
    intro h
    cases h with
    | hierarchy hreach => exact hreach
  | isCached className =>
    refine ⟨.inl, ?_⟩
    rintro (h | h)
    · exact h
    · cases h
  | clear => exact absurd rfl hrequest

/-- Some request of `history` was as `P` says for the requests before it, and no later one was for
clearing. -/
def SinceClear (P : List Request → Request → Prop) (history : List Request) : Prop :=
  ∃ before request after, history = before ++ request :: after ∧ .clear ∉ after ∧ P before request

/-- In a longer history the request was `last`, or one before it and `last` is not for clearing. -/
theorem sinceClear_concat_iff {P : List Request → Request → Prop} {history : List Request}
    {last : Request} : SinceClear P (history ++ [last]) ↔
      P history last ∨ last ≠ .clear ∧ SinceClear P history := by
  constructor
  · rintro ⟨before, request, after, hsplit, hclear, hP⟩
    rcases List.eq_nil_or_concat after with rfl | ⟨middle, final, rfl⟩
    · obtain ⟨rfl, hlast⟩ := List.append_inj' hsplit rfl
      cases hlast
      exact .inl hP
    · rw [List.concat_eq_append, ← List.cons_append, ← List.append_assoc] at hsplit
      obtain ⟨rfl, hfinal⟩ := List.append_inj' hsplit rfl
      cases hfinal
      rw [List.concat_eq_append, List.mem_append, not_or] at hclear
      obtain ⟨hmiddle, hne⟩ := hclear
      exact .inr ⟨fun h => hne (by simp [h]), before, request, middle, rfl, hmiddle, hP⟩
  · rintro (hP | ⟨hne, before, request, after, rfl, hclear, hP⟩)
    · exact ⟨history, last, [], rfl, List.not_mem_nil, hP⟩
    · refine ⟨before, request, after ++ [last], by simp, ?_, hP⟩
      simp [hclear, Ne.symm hne]

/-- A class is at hand if some request `Supplies` it since the cache was last cleared. -/
theorem contains_cacheAfter_iff {definitions : List TypeDefinition}
    (hr : TypeRegistry.build definitions = .ok f.registry) (history : List Request) :
    (f.cacheAfter history).contains target = true ↔
      SinceClear (fun before request => f.Supplies (f.cacheAfter before) request target)
        history := by
  -- By induction on the history from its end, as the last request is made in the cache of the
  -- others.
  induction history using List.reverseRecOn with
  | nil =>
    refine ⟨nofun, ?_⟩
    rintro ⟨before, request, after, hsplit, -⟩
    simp at hsplit
  | append_singleton history last ih =>
    rw [cacheAfter_concat, sinceClear_concat_iff, ← ih]
    by_cases hclear : last = .clear
    · subst hclear
      refine ⟨nofun, ?_⟩
      rintro (h | h)
      · cases h
      · exact absurd rfl h.1
    · rw [(f.valid_cacheAfter history).contains_serve_iff hr hclear, or_comm]
      simp [hclear]

/-! ## Who is handed out -/

/-- What `build` makes for a class is made of its declaration in `f.source`. -/
theorem exists_declaration_of_build {d : ClassDescriptor} (h : f.build className = .ok d) :
    ∃ c, f.source.get? className = some c ∧
      ClassDescriptor.build c f.registry f.analyzers = .ok d := by
  unfold build at h
  split at h
  · cases h
  · next c hc => exact ⟨c, hc, mapError_eq_ok_iff.1 h⟩

/-- What `build` makes for a class of a manifest has the name of the class. -/
theorem name_of_build {types : List TypeDefinition} {classes : List ClassDeclaration}
    (hsource : Manifest.ofParts types classes = .ok ⟨types, f.source⟩) {d : ClassDescriptor}
    (h : f.build className = .ok d) : d.name = className := by
  obtain ⟨c, hc, hbuild⟩ := exists_declaration_of_build h
  obtain ⟨bare, features, hbare, -, rfl⟩ := ClassDescriptor.build_eq_ok_iff.1 hbuild
  obtain ⟨imports, properties, methods, -, -, -, rfl⟩ :=
    ClassDescriptor.ofDeclaration_eq_ok_iff.1 hbare
  exact Manifest.name_of_ofParts hsource hc

/-- A request is answered with the shared descriptor `s` of a class: by `metadata` the one that was
asked for, by `hierarchy` one of the list. -/
inductive HandsOut (f : MetadataFactory) (cache : DescriptorCache) :
    Request → String → SharedDescriptor → Prop
  | metadata {className : String} {s : SharedDescriptor} :
      (f.metadata className cache).1 = .ok s → HandsOut f cache (.metadata className) className s
  | hierarchy {className : String} {answer : List SharedDescriptor} {s : SharedDescriptor} :
      (f.hierarchy className cache).1 = .ok answer → s ∈ answer →
      HandsOut f cache (.hierarchy className) s.descriptor.name s

/-- The answer of `metadata` for a class is at hand behind the request. -/
theorem get?_metadata {s : SharedDescriptor} (h : (f.metadata className cache).1 = .ok s) :
    (f.metadata className cache).2.entries.get? className = some s := by
  rcases f.metadata_cases className cache with ⟨t, ht, hm⟩ | ⟨e, -, -, hm⟩ | ⟨d, -, -, hm⟩ <;>
    rw [hm] at h ⊢ <;> cases h
  · exact ht
  · simp [OrderedMap.get?_insert]

/-- All that `metadataAll` answers is at hand behind the request. -/
theorem exists_get?_metadataAll {classNames : List String} {answer : List SharedDescriptor}
    {s : SharedDescriptor} (h : (f.metadataAll classNames cache).1 = .ok answer)
    (hs : s ∈ answer) :
    ∃ className, (f.metadataAll classNames cache).2.entries.get? className = some s := by
  induction classNames generalizing cache answer with
  | nil =>
    cases h
    cases hs
  | cons className rest ih =>
    cases hanswer : (f.metadata className cache).1 with
    | error e =>
      rw [metadataAll_cons_of_error hanswer] at h
      cases h
    | ok t =>
      rw [metadataAll_cons_of_ok hanswer] at h ⊢
      obtain ⟨others, hrest, rfl⟩ := map_eq_ok_iff.1 h
      rcases List.mem_cons.1 hs with rfl | hs
      · -- The rest of the request keeps what is at hand.
        exact ⟨className, get?_of_stores (f.stores_metadataAll rest _) (get?_metadata hanswer)⟩
      · exact ih hrest hs

/-- What a request `HandsOut` is at hand behind it, under the name of its class. -/
theorem Valid.get?_of_handsOut {types : List TypeDefinition} {classes : List ClassDeclaration}
    (hsource : Manifest.ofParts types classes = .ok ⟨types, f.source⟩) (hv : f.Valid first cache)
    {request : Request} {s : SharedDescriptor} (h : f.HandsOut cache request target s) :
    (f.serve cache request).entries.get? target = some s := by
  cases h with
  | metadata hanswer => exact get?_metadata hanswer
  | @hierarchy className answer _ hanswer hs =>
    have hvalid : f.Valid first (f.hierarchy className cache).2 := hv.serve (.hierarchy className)
    rw [MetadataFactory.serve]
    obtain ⟨n, hn⟩ : ∃ n, (f.hierarchy className cache).2.entries.get? n = some s := by
      unfold MetadataFactory.hierarchy at hanswer ⊢
      split at hanswer
      · next hdeclared =>
        rw [if_pos hdeclared]
        exact exists_get?_metadataAll hanswer hs
      · cases hanswer
    rw [name_of_build hsource (hvalid.built n s hn)]
    exact hn

/-- Two requests between which the cache was not cleared hand out one and the same descriptor of a
class, and two between which it was cleared, so that `.clear` is in `between`, never do. -/
theorem handsOut_twice {types : List TypeDefinition} {classes : List ClassDeclaration}
    (hsource : Manifest.ofParts types classes = .ok ⟨types, f.source⟩)
    {before between : List Request} {request later : Request} {s t : SharedDescriptor}
    (hs : f.HandsOut (f.cacheAfter before) request target s)
    (ht : f.HandsOut (f.cacheAfter (before ++ request :: between)) later target t) :
    (.clear ∉ between → t = s) ∧ (.clear ∈ between → t.serial ≠ s.serial) := by
  have hbefore := f.valid_cacheAfter before
  have hgets := hbefore.get?_of_handsOut hsource hs
  have hgett := (f.valid_cacheAfter _).get?_of_handsOut hsource ht
  rw [cacheAfter_append_cons] at hgett
  constructor
  · intro hclear
    -- The later request keeps what is at hand, and is not for clearing.
    have hlater : later ≠ .clear := by
      rintro rfl
      cases ht
    have hstores : ReflTransGen f.Stores (f.serve (f.cacheAfter before) request)
        (f.serve (between.foldl f.serve (f.serve (f.cacheAfter before) request)) later) :=
      (stores_foldl hclear).trans (stores_serve hlater)
    exact Option.some.inj (hgett.symm.trans (get?_of_stores hstores hgets))
  · intro hclear
    obtain ⟨early, late, rfl⟩ := List.append_of_mem hclear
    -- From the clearing on, all serials are new.
    rw [List.foldl_append, List.foldl_cons] at hgett
    have hcleared : f.Valid (early.foldl f.serve (f.serve (f.cacheAfter before) request)).nextSerial
        (f.serve (early.foldl f.serve (f.serve (f.cacheAfter before) request)) .clear) :=
      .of_empty (Nat.le_refl _) rfl
    have hold : s.serial < (f.serve (f.cacheAfter before) request).nextSerial :=
      (hbefore.serve request).serial_lt_next target s hgets
    have hnew := ((hcleared.foldl late).serve later).first_le_serial target t hgett
    have hmono := f.nextSerial_le_foldl early (f.serve (f.cacheAfter before) request)
    omega

/-- Take a factory for the classes of a manifest, with a registry that was built, and let it serve
any requests, as `metadata_for_class` and the other three do. What it answers for a class is what a
new factory answers. A class is at hand exactly if a request `Supplies` it since the cache was last
cleared. Two descriptors of a class that are handed out are the same one if the cache was not
cleared in between, and have different serials if it was. A request for a class that fails leaves
the cache alone. -/
theorem cache_transparent {types definitions : List TypeDefinition}
    {classes : List ClassDeclaration}
    (hsource : Manifest.ofParts types classes = .ok ⟨types, f.source⟩)
    (hregistry : TypeRegistry.build definitions = .ok f.registry) :
    (∀ history className,
      (f.metadata className (f.cacheAfter history)).1.map SharedDescriptor.descriptor =
        (f.metadata className {}).1.map SharedDescriptor.descriptor) ∧
    (∀ history className, (f.cacheAfter history).contains className = true ↔
      SinceClear (fun before request => f.Supplies (f.cacheAfter before) request className)
        history) ∧
    (∀ before request between later className s t,
      f.HandsOut (f.cacheAfter before) request className s →
      f.HandsOut (f.cacheAfter (before ++ request :: between)) later className t →
      (.clear ∉ between → t = s) ∧ (.clear ∈ between → t.serial ≠ s.serial)) ∧
    (∀ history className e, (f.metadata className (f.cacheAfter history)).1 = .error e →
      f.cacheAfter (history ++ [.metadata className]) = f.cacheAfter history) := by
  refine ⟨?_, ?_, ?_, ?_⟩
  · intro history className
    have hnew : f.Valid 0 {} := f.valid_cacheAfter []
    rw [(f.valid_cacheAfter history).map_metadata, hnew.map_metadata]
  · intro history className
    exact contains_cacheAfter_iff hregistry history
  · intro before request between later className s t hs ht
    exact handsOut_twice hsource hs ht
  · intro history className e he
    rw [cacheAfter_concat]
    rcases f.metadata_cases className (f.cacheAfter history) with
      ⟨s, -, h⟩ | ⟨e, -, -, h⟩ | ⟨d, -, -, h⟩
    · rw [h] at he
      cases he
    · rw [serve, h]
    · rw [h] at he
      cases he

/-- A class with a parent class, and one with a faulty import. -/
def modelClasses : List ClassDeclaration := [
  { name := "App\\Model", annotations := [.tag "deprecated" ""] },
  { name := "App\\User", properties := [.ofTypes "manager" ["User|null"]] },
  { name := "App\\Broken", imports := ["Not An Import"] }]

/-- What is known of `modelClasses` as types. -/
def modelTypes : TypeRegistry where
  definitions := [
    { name := "App\\User", kind := .class, parents := ["App\\Model"] },
    { name := "App\\Model", kind := .class }]
  nodup_names := by decide

/-- A factory for `modelClasses`, with two analyzers. -/
def models : MetadataFactory where
  source := OrderedMap.ofList (modelClasses.map fun c => (c.name, c))
  registry := modelTypes
  analyzers := [.objectProperties, .tagCount "deprecated"]

/-- For `models`, a hierarchy supplies the parent class, until the cache is cleared; the class
itself is then handed out anew; and the faulty class leaves nothing behind. -/
theorem cache_transparent_models :
    Manifest.ofParts [] modelClasses = .ok ⟨[], models.source⟩ ∧
    TypeRegistry.build modelTypes.definitions = .ok models.registry ∧
    SinceClear (fun before request => models.Supplies (models.cacheAfter before) request
      "App\\Model") [.hierarchy "App\\User", .metadata "App\\Broken"] ∧
    ¬SinceClear (fun before request => models.Supplies (models.cacheAfter before) request
      "App\\Model") [.hierarchy "App\\User", .clear] ∧
    (∃ s t, models.HandsOut (models.cacheAfter []) (.metadata "App\\User") "App\\User" s ∧
      models.HandsOut (models.cacheAfter [.metadata "App\\User", .clear]) (.metadata "App\\User")
        "App\\User" t ∧ t.serial ≠ s.serial) ∧
    models.cacheAfter [.hierarchy "App\\User", .metadata "App\\Broken"] =
      models.cacheAfter [.hierarchy "App\\User"] := by
  have hsource : Manifest.ofParts [] modelClasses = .ok ⟨[], models.source⟩ := by rfl
  have hregistry : TypeRegistry.build modelTypes.definitions = .ok modelTypes := by cbv
  obtain ⟨-, hcontains, hsame, hfail⟩ := cache_transparent hsource hregistry
  refine ⟨hsource, hregistry, ?_, ?_, ?_, ?_⟩
  · rw [← hcontains]
    rfl
  · rw [← hcontains]
    decide
  · have hs : ∃ s, (models.metadata "App\\User" (models.cacheAfter [])).1 = .ok s := ⟨_, by rfl⟩
    have ht : ∃ t, (models.metadata "App\\User"
        (models.cacheAfter [.metadata "App\\User", .clear])).1 = .ok t := ⟨_, by rfl⟩
    obtain ⟨s, hs⟩ := hs
    obtain ⟨t, ht⟩ := ht
    refine ⟨s, t, .metadata hs, .metadata ht, ?_⟩
    exact (hsame [] _ [.clear] _ _ s t (.metadata hs) (.metadata ht)).2 (List.mem_singleton_self _)
  · obtain ⟨e, he⟩ : ∃ e, (models.metadata "App\\Broken"
        (models.cacheAfter [.hierarchy "App\\User"])).1 = .error e := ⟨_, by rfl⟩
    exact hfail [.hierarchy "App\\User"] "App\\Broken" e he

end MetadataFactory

end DocTypes

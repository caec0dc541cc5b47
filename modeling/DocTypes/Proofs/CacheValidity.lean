import DocTypes.MetadataFactory
import Mathlib.Logic.Relation

/-!
# The cache through a run of requests

A factory answers requests one after the other, and its cache goes through all of them. All that a
request can do to it, clearing apart, is to store a class that is not at hand and can be built,
under a new serial (`Stores`). So what is at hand stays at hand until the cache is cleared
(`get?_of_stores`), and every cache is `Valid` (`valid_cacheAfter`): its entries are what is built
for their classes, with serials that have been given out already. Then the answer for a class is
what `build` makes for it, whatever is at hand (`Valid.map_metadata`).
-/

namespace DocTypes

open Relation (ReflTransGen)

/-- What a factory can be asked to do, by `metadata_for_class`, `hierarchy_for_class`, `is_cached`
and `clear_cache`. -/
inductive Request
  | metadata (className : String)
  | hierarchy (className : String)
  | isCached (className : String)
  | clear
deriving DecidableEq

namespace MetadataFactory

variable {f : MetadataFactory} {cache next : DescriptorCache} {className target : String}
  {first : Nat}

/-- The cache behind a request, when `cache` was there before it. -/
def serve (f : MetadataFactory) (cache : DescriptorCache) : Request → DescriptorCache
  | .metadata className => (f.metadata className cache).2
  | .hierarchy className => (f.hierarchy className cache).2
  | .isCached _ => cache
  | .clear => cache.clear

/-- The cache of a new factory that has served the requests of `history`. -/
def cacheAfter (f : MetadataFactory) (history : List Request) : DescriptorCache :=
  history.foldl f.serve {}

/-- The request `last` finds the cache that those of `history` leave. -/
theorem cacheAfter_concat (f : MetadataFactory) (history : List Request) (last : Request) :
    f.cacheAfter (history ++ [last]) = f.serve (f.cacheAfter history) last := by
  simp [cacheAfter]

/-- Later requests, those in `between`, go on with the cache that the earlier ones leave. -/
theorem cacheAfter_append_cons (f : MetadataFactory) (before between : List Request)
    (request : Request) :
    f.cacheAfter (before ++ request :: between) =
      between.foldl f.serve (f.serve (f.cacheAfter before) request) := by
  simp [cacheAfter]

/-- For the class a descriptor can be made by `build`. -/
def Builds (f : MetadataFactory) (className : String) : Prop := ∃ d, f.build className = .ok d

/-! ## What a request stores -/

/-- One more class is at hand in `next` than in `cache`: one that was not and that can be built. It
gets the next serial. -/
def Stores (f : MetadataFactory) (cache next : DescriptorCache) : Prop :=
  ∃ className d, cache.entries.get? className = none ∧ f.build className = .ok d ∧
    next = ⟨cache.entries.insert className ⟨cache.nextSerial, d⟩, cache.nextSerial + 1⟩

/-- A class that `metadata` is asked for is at hand, or cannot be built, or is built and stored, as
in `metadata_for_class`. All that is said of requests rests on these three cases. -/
theorem metadata_cases (f : MetadataFactory) (className : String) (cache : DescriptorCache) :
    (∃ s, cache.entries.get? className = some s ∧ f.metadata className cache = (.ok s, cache)) ∨
    (∃ e, cache.entries.get? className = none ∧ f.build className = .error e ∧
      f.metadata className cache = (.error e, cache)) ∨
    ∃ d, cache.entries.get? className = none ∧ f.build className = .ok d ∧
      f.metadata className cache = (.ok ⟨cache.nextSerial, d⟩,
        ⟨cache.entries.insert className ⟨cache.nextSerial, d⟩, cache.nextSerial + 1⟩) := by
  unfold metadata
  cases hget : cache.entries.get? className with
  | some s => exact .inl ⟨s, rfl, rfl⟩
  | none =>
    cases hbuild : f.build className with
    | error e => exact .inr (.inl ⟨e, rfl, rfl, rfl⟩)
    | ok d => exact .inr (.inr ⟨d, rfl, rfl, rfl⟩)

/-- `metadataAll` ends a request for several classes at the first that fails. -/
theorem metadataAll_cons_of_error {rest : List String} {e : MetadataError}
    (h : (f.metadata className cache).1 = .error e) :
    f.metadataAll (className :: rest) cache = (.error e, (f.metadata className cache).2) := by
  rw [metadataAll]
  rcases hanswer : f.metadata className cache with ⟨answer, next⟩
  rw [hanswer] at h
  subst h
  rfl

/-- Behind a class that succeeds, `metadataAll` goes on with the cache that it leaves. -/
theorem metadataAll_cons_of_ok {rest : List String} {s : SharedDescriptor}
    (h : (f.metadata className cache).1 = .ok s) :
    f.metadataAll (className :: rest) cache =
      ((f.metadataAll rest (f.metadata className cache).2).1.map (s :: ·),
        (f.metadataAll rest (f.metadata className cache).2).2) := by
  rw [metadataAll]
  rcases hanswer : f.metadata className cache with ⟨answer, next⟩
  rw [hanswer] at h
  subst h
  rfl

/-- `metadata` stores one class or none. -/
theorem stores_metadata (f : MetadataFactory) (className : String) (cache : DescriptorCache) :
    ReflTransGen f.Stores cache (f.metadata className cache).2 := by
  rcases f.metadata_cases className cache with ⟨s, -, h⟩ | ⟨e, -, -, h⟩ | ⟨d, hnone, hbuild, h⟩
  · rw [h]
  · rw [h]
  · rw [h]
    exact .single ⟨className, d, hnone, hbuild, rfl⟩

/-- `metadataAll` stores some of the classes. -/
theorem stores_metadataAll (f : MetadataFactory) (classNames : List String)
    (cache : DescriptorCache) :
    ReflTransGen f.Stores cache (f.metadataAll classNames cache).2 := by
  -- By induction on the classes, for every cache: each class finds the one that those before it
  -- leave.
  induction classNames generalizing cache with
  | nil => exact .refl
  | cons className rest ih =>
    cases hanswer : (f.metadata className cache).1 with
    | error e =>
      rw [metadataAll_cons_of_error hanswer]
      exact f.stores_metadata className cache
    | ok s =>
      rw [metadataAll_cons_of_ok hanswer]
      exact (f.stores_metadata className cache).trans (ih _)

/-- A request that is not for clearing stores some classes: it makes steps of `Stores`. -/
theorem stores_serve {request : Request} (h : request ≠ .clear) :
    ReflTransGen f.Stores cache (f.serve cache request) := by
  cases request with
  | metadata className => exact f.stores_metadata className cache
  | hierarchy className =>
    rw [serve, hierarchy]
    split
    · exact f.stores_metadataAll _ cache
    · exact .refl
  | isCached className => exact .refl
  | clear => exact absurd rfl h

/-- Requests among which none is for clearing make steps of `Stores`. -/
theorem stores_foldl {requests : List Request} (h : .clear ∉ requests) :
    ReflTransGen f.Stores cache (requests.foldl f.serve cache) := by
  induction requests generalizing cache with
  | nil => exact .refl
  | cons request rest ih =>
    obtain ⟨hfirst, hrest⟩ := not_or.1 (mt List.mem_cons.2 h)
    exact (stores_serve (Ne.symm hfirst)).trans (ih hrest)

/-- What is at hand in `cache` stays at hand while classes are stored, under its serial. -/
theorem get?_of_stores (h : ReflTransGen f.Stores cache next) {s : SharedDescriptor}
    (hs : cache.entries.get? className = some s) : next.entries.get? className = some s := by
  induction h with
  | refl => exact hs
  | tail _ hstore ih =>
    obtain ⟨stored, d, hnone, -, rfl⟩ := hstore
    -- Only a class that is not at hand yet is stored.
    have hne : className ≠ stored := by
      rintro rfl
      cases hnone.symm.trans ih
    rw [OrderedMap.get?_insert, if_neg hne]
    exact ih

/-- While classes are stored, `nextSerial` goes up. -/
theorem nextSerial_le_of_stores (h : ReflTransGen f.Stores cache next) :
    cache.nextSerial ≤ next.nextSerial := by
  induction h with
  | refl => exact Nat.le_refl _
  | tail _ hstore ih =>
    obtain ⟨stored, d, -, -, rfl⟩ := hstore
    exact Nat.le_succ_of_le ih

/-- Through all requests `nextSerial` never goes down, since clearing leaves it alone. -/
theorem nextSerial_le_foldl (f : MetadataFactory) (requests : List Request)
    (cache : DescriptorCache) :
    cache.nextSerial ≤ (requests.foldl f.serve cache).nextSerial := by
  induction requests generalizing cache with
  | nil => exact Nat.le_refl _
  | cons request rest ih =>
    have hfirst : cache.nextSerial ≤ (f.serve cache request).nextSerial := by
      -- Clearing is the one request that makes no steps of `Stores`.
      by_cases h : request = .clear
      · subst h
        exact Nat.le_refl _
      · exact nextSerial_le_of_stores (stores_serve h)
    exact Nat.le_trans hfirst (ih _)

/-! ## Valid caches -/

/-- The entries are what `f.build` makes for their classes. Their serials have been given out, none
of them before `first`. -/
structure Valid (f : MetadataFactory) (first : Nat) (cache : DescriptorCache) : Prop where
  built : ∀ className s, cache.entries.get? className = some s →
    f.build className = .ok s.descriptor
  first_le_serial : ∀ className s, cache.entries.get? className = some s → first ≤ s.serial
  serial_lt_next : ∀ className s, cache.entries.get? className = some s →
    s.serial < cache.nextSerial
  first_le_next : first ≤ cache.nextSerial

/-- An empty cache is `Valid`. -/
theorem Valid.of_empty (h : first ≤ cache.nextSerial) (hempty : cache.entries = ∅) :
    f.Valid first cache := by
  have hnone : ∀ c s, cache.entries.get? c ≠ some s := by
    intro c s hs
    rw [hempty] at hs
    cases hs
  exact ⟨fun c s hs => absurd hs (hnone c s), fun c s hs => absurd hs (hnone c s),
    fun c s hs => absurd hs (hnone c s), h⟩

/-- A cache stays `Valid` when a class is stored. -/
theorem Valid.of_stores_one (hv : f.Valid first cache) (h : f.Stores cache next) :
    f.Valid first next := by
  obtain ⟨stored, d, -, hbuild, rfl⟩ := h
  -- An entry of the new cache is the one that is stored now, or was there before.
  have hget : ∀ c s,
      (cache.entries.insert stored ⟨cache.nextSerial, d⟩).get? c = some s →
      (c = stored ∧ s = ⟨cache.nextSerial, d⟩) ∨ cache.entries.get? c = some s := by
    intro c s hs
    rw [OrderedMap.get?_insert] at hs
    split at hs
    · next hc => exact .inl ⟨hc, (Option.some.inj hs).symm⟩
    · exact .inr hs
  refine ⟨?_, ?_, ?_, Nat.le_succ_of_le hv.first_le_next⟩
  · intro c s hs
    rcases hget c s hs with ⟨rfl, rfl⟩ | hs
    · exact hbuild
    · exact hv.built c s hs
  · intro c s hs
    rcases hget c s hs with ⟨rfl, rfl⟩ | hs
    · exact hv.first_le_next
    · exact hv.first_le_serial c s hs
  · intro c s hs
    rcases hget c s hs with ⟨rfl, rfl⟩ | hs
    · exact Nat.lt_succ_self _
    · exact Nat.lt_succ_of_lt (hv.serial_lt_next c s hs)

/-- A cache stays `Valid` through any number of steps of `Stores`. -/
theorem Valid.of_stores (hv : f.Valid first cache) (h : ReflTransGen f.Stores cache next) :
    f.Valid first next := by
  induction h with
  | refl => exact hv
  | tail _ hstore ih => exact ih.of_stores_one hstore

/-- A cache stays `Valid` through a request: it is cleared, or classes are stored. -/
theorem Valid.serve (hv : f.Valid first cache) (request : Request) :
    f.Valid first (f.serve cache request) := by
  by_cases h : request = .clear
  · subst h
    exact .of_empty hv.first_le_next rfl
  · exact hv.of_stores (stores_serve h)

/-- A cache stays `Valid` through all of `requests`. -/
theorem Valid.foldl (hv : f.Valid first cache) (requests : List Request) :
    f.Valid first (requests.foldl f.serve cache) := by
  induction requests generalizing cache with
  | nil => exact hv
  | cons request rest ih => exact ih (hv.serve request)

/-- The cache of a factory is `Valid` after any history. -/
theorem valid_cacheAfter (f : MetadataFactory) (history : List Request) :
    f.Valid 0 (f.cacheAfter history) :=
  (Valid.of_empty (Nat.zero_le _) rfl).foldl history

/-- The answer of `metadata` for a class is what `build` makes for it, whatever is at hand. -/
theorem Valid.map_metadata (hv : f.Valid first cache) :
    (f.metadata className cache).1.map SharedDescriptor.descriptor = f.build className := by
  rcases f.metadata_cases className cache with ⟨s, hs, h⟩ | ⟨e, -, hbuild, h⟩ | ⟨d, -, hbuild, h⟩
  · rw [h, hv.built className s hs]
    rfl
  · rw [h, hbuild]
    rfl
  · rw [h, hbuild]
    rfl

/-- `metadata` has a descriptor for the classes that can be built. -/
theorem Valid.exists_metadata_eq_ok_iff (hv : f.Valid first cache) :
    (∃ s, (f.metadata className cache).1 = .ok s) ↔ f.Builds className := by
  unfold Builds
  rw [← hv.map_metadata]
  cases (f.metadata className cache).1 <;> simp [Except.map]

end MetadataFactory

end DocTypes

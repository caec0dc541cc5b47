/-!
# Maps that keep the order of insertion

An `OrderedMap` is a list of entries whose keys are distinct. Storing under a key that is already
present replaces the value and leaves the entry where it is; a new key goes to the end (`store`).
`ofList` reads a list of entries by that rule, so a repeated key keeps its first place and its last
value. The view is `entries`; `get?_insert` and `keys_insert` say what storing does to it.
-/

namespace DocTypes

universe u v w

/-- Entries in order of insertion, no two with the same key (`nodup_keys`). -/
structure OrderedMap (κ : Type u) (β : Type v) where
  entries : List (κ × β)
  nodup_keys : (entries.map Prod.fst).Nodup
deriving DecidableEq

namespace OrderedMap

variable {κ : Type u} {β : Type v} {γ : Type w}

/-- A map is determined by its `entries`. -/
@[ext]
theorem ext {m n : OrderedMap κ β} (h : m.entries = n.entries) : m = n := by
  cases m
  cases n
  cases h
  rfl

/-- The map without `entries`. -/
def empty : OrderedMap κ β := ⟨[], List.nodup_nil⟩

instance : EmptyCollection (OrderedMap κ β) := ⟨empty⟩

instance : Inhabited (OrderedMap κ β) := ⟨∅⟩

/-- Maps are `==` if the same keys stand in the same order with equal values. -/
instance [BEq κ] [BEq β] : BEq (OrderedMap κ β) := ⟨fun m n => m.entries == n.entries⟩

/-- The keys of the `entries`, in order. -/
def keys (m : OrderedMap κ β) : List κ := m.entries.map Prod.fst

/-- The values of the `entries`, in the order of their keys. -/
def values (m : OrderedMap κ β) : List β := m.entries.map Prod.snd

/-- The number of `entries`. -/
def size (m : OrderedMap κ β) : Nat := m.entries.length

/-- Whether there are no `entries`. -/
def isEmpty (m : OrderedMap κ β) : Bool := m.entries.isEmpty

/-- The same keys in the same order, each with the value that `f` gives. -/
def mapValues (f : β → γ) (m : OrderedMap κ β) : OrderedMap κ γ where
  entries := m.entries.map fun e => (e.1, f e.2)
  nodup_keys := by simpa [List.map_map, Function.comp_def] using m.nodup_keys

/-- Leaving the values alone, by `id`, leaves the map alone. -/
theorem mapValues_id (m : OrderedMap κ β) : m.mapValues id = m := by
  simp [mapValues]

variable [DecidableEq κ]

/-- The value stored under the key `k`. -/
def get? (m : OrderedMap κ β) (k : κ) : Option β := m.entries.lookup k

/-- Whether a value is stored under the key `k`. -/
def contains (m : OrderedMap κ β) (k : κ) : Bool := (m.get? k).isSome

/-- A list of entries with the value under `k` replaced by `v`, or with a new entry at its end. -/
def store (k : κ) (v : β) : List (κ × β) → List (κ × β)
  | [] => [(k, v)]
  | e :: rest => if e.1 = k then (k, v) :: rest else e :: store k v rest

/-- The keys after `store` are those of `l`, and `k` at the end if it is not among them. -/
theorem map_fst_store (k : κ) (v : β) (l : List (κ × β)) :
    (store k v l).map Prod.fst =
      if k ∈ l.map Prod.fst then l.map Prod.fst else l.map Prod.fst ++ [k] := by
  fun_induction store k v l with
  | case1 => simp
  | case2 e rest heq => simp [heq]
  | case3 e rest hne ih =>
    have hne' : ¬k = e.1 := fun h => hne h.symm
    simp only [List.map_cons, ih, List.mem_cons, hne', false_or]
    split <;> simp

/-- So distinct keys stay distinct under `store`. -/
theorem nodup_map_fst_store {k : κ} {v : β} {l : List (κ × β)} (h : (l.map Prod.fst).Nodup) :
    ((store k v l).map Prod.fst).Nodup := by
  rw [map_fst_store]
  split
  · exact h
  · next hk =>
    refine List.nodup_append.2 ⟨h, by simp, ?_⟩
    simp only [List.mem_singleton]
    rintro a ha b rfl rfl
    exact hk ha

/-- Under `k` the new value is found after `store`, and under any other key `j` what was found
before. -/
theorem lookup_store (k j : κ) (v : β) (l : List (κ × β)) :
    (store k v l).lookup j = if j = k then some v else l.lookup j := by
  have found (b : β) (rest : List (κ × β)) (a : κ) :
      List.lookup j ((a, b) :: rest) = if j = a then some b else rest.lookup j := by
    by_cases h : j = a <;> simp [List.lookup_cons, h, beq_eq_false_iff_ne.2]
  fun_induction store k v l with
  | case1 => simp [found]
  | case2 e rest heq =>
    obtain ⟨a, b⟩ := e
    simp only [found]
    split <;> simp_all
  | case3 e rest hne ih =>
    obtain ⟨a, b⟩ := e
    simp only [found, ih]
    split
    · next h => rw [if_neg (h ▸ hne)]
    · rfl

/-- The map with `v` stored under `k`: in place if the key is present, else at the end. -/
def insert (m : OrderedMap κ β) (k : κ) (v : β) : OrderedMap κ β :=
  ⟨store k v m.entries, nodup_map_fst_store m.nodup_keys⟩

/-- The map that storing the entries of `l` one after the other gives. -/
def ofList (l : List (κ × β)) : OrderedMap κ β := l.foldl (fun m e => m.insert e.1 e.2) ∅

/-- Nothing is stored in the empty map under any key `k`. -/
@[simp]
theorem get?_empty (k : κ) : (∅ : OrderedMap κ β).get? k = none := rfl

/-- What `insert` stores under `k` is seen by `get?` under `k` and nowhere else. -/
theorem get?_insert (m : OrderedMap κ β) (k j : κ) (v : β) :
    (m.insert k v).get? j = if j = k then some v else m.get? j :=
  lookup_store k j v m.entries

/-- `insert` leaves the `keys` alone for a present key, and puts a new key at the end. -/
theorem keys_insert (m : OrderedMap κ β) (k : κ) (v : β) :
    (m.insert k v).keys = if k ∈ m.keys then m.keys else m.keys ++ [k] :=
  map_fst_store k v m.entries

/-- A new key (`hk`) goes to the end of the list. -/
theorem store_of_notMem {k : κ} {v : β} {l : List (κ × β)} (hk : k ∉ l.map Prod.fst) :
    store k v l = l ++ [(k, v)] := by
  induction l with
  | nil => rfl
  | cons e rest ih =>
    rw [List.map_cons, List.mem_cons, not_or] at hk
    rw [store, if_neg (Ne.symm hk.1), ih hk.2, List.cons_append]

/-- `store` brings in no entry but the one that is stored. -/
theorem mem_of_mem_store {k : κ} {v : β} {l : List (κ × β)} {e : κ × β} (he : e ∈ store k v l) :
    e = (k, v) ∨ e ∈ l := by
  fun_induction store k v l with
  | case1 => exact .inl (List.mem_singleton.1 he)
  | case2 e' rest _ => exact (List.mem_cons.1 he).imp id (List.mem_cons_of_mem _)
  | case3 e' rest _ ih =>
    rcases List.mem_cons.1 he with rfl | he
    · exact .inr List.mem_cons_self
    · exact (ih he).imp id (List.mem_cons_of_mem _)

/-- A list of entries with distinct keys (`hl`) is taken by `ofList` as it is. -/
theorem entries_ofList_of_nodup {l : List (κ × β)} (hl : (l.map Prod.fst).Nodup) :
    (ofList l).entries = l := by
  -- What has been stored already stays in front.
  have hfold : ∀ m : OrderedMap κ β, ((m.entries ++ l).map Prod.fst).Nodup →
      (l.foldl (fun m e => m.insert e.1 e.2) m).entries = m.entries ++ l := by
    clear hl
    induction l with
    | nil => simp
    | cons e rest ih =>
      intro m hm
      have hnew : e.1 ∉ m.entries.map Prod.fst := by
        rw [List.map_append, List.map_cons, List.nodup_append] at hm
        intro he
        exact hm.2.2 e.1 he e.1 List.mem_cons_self rfl
      have hinsert : (m.insert e.1 e.2).entries = m.entries ++ [e] := store_of_notMem hnew
      rw [List.foldl_cons, ih _ (by rwa [hinsert, List.append_assoc]), hinsert, List.append_assoc]
      rfl
  exact hfold ∅ hl

/-- The map that `ofList` makes of the `entries` of a map is this map. -/
theorem ofList_entries (m : OrderedMap κ β) : ofList m.entries = m :=
  ext (entries_ofList_of_nodup m.nodup_keys)

/-- The entries of `ofList` are among those that it was made of. -/
theorem mem_of_mem_entries_ofList {l : List (κ × β)} {e : κ × β} (he : e ∈ (ofList l).entries) :
    e ∈ l := by
  -- By induction on the list, for the map `m` of what has been stored already.
  have hfold : ∀ m : OrderedMap κ β, e ∈ (l.foldl (fun m e => m.insert e.1 e.2) m).entries →
      e ∈ m.entries ∨ e ∈ l := by
    clear he
    induction l with
    | nil => exact fun m hm => .inl hm
    | cons d rest ih =>
      intro m hm
      rw [List.foldl_cons] at hm
      rcases ih _ hm with hm | hm
      · rcases mem_of_mem_store hm with rfl | hm
        · exact .inr List.mem_cons_self
        · exact .inl hm
      · exact .inr (List.mem_cons_of_mem _ hm)
  rcases hfold ∅ he with he | he
  · exact absurd he List.not_mem_nil
  · exact he

/-- A value `v` is stored under `k` if the entry is there. -/
theorem get?_eq_some_iff {m : OrderedMap κ β} {k : κ} {v : β} :
    m.get? k = some v ↔ (k, v) ∈ m.entries := by
  unfold get?
  rw [List.lookup_eq_some_iff]
  constructor
  · rintro ⟨before, after, hsplit, -⟩
    rw [hsplit]
    exact List.mem_append_right _ List.mem_cons_self
  · intro hmem
    obtain ⟨before, after, hsplit⟩ := List.append_of_mem hmem
    refine ⟨before, after, hsplit, ?_⟩
    -- No earlier entry has the key, because the keys are distinct.
    intro e he
    have hkeys := m.nodup_keys
    rw [hsplit, List.map_append, List.map_cons, List.nodup_append] at hkeys
    have hne : e.1 ≠ k := hkeys.2.2 e.1 (List.mem_map_of_mem he) k List.mem_cons_self
    simpa using hne.symm

/-- No value is stored under `k` if there is no such key. -/
theorem get?_eq_none_iff {m : OrderedMap κ β} {k : κ} : m.get? k = none ↔ k ∉ m.keys := by
  rw [Option.eq_none_iff_forall_ne_some, keys, List.mem_map]
  constructor
  · rintro hnone ⟨⟨_, v⟩, hmem, rfl⟩
    exact hnone v (get?_eq_some_iff.2 hmem)
  · intro hnone v hget
    exact hnone ⟨_, get?_eq_some_iff.1 hget, rfl⟩

/-- The last entry for `k` in the list is the one that counts, if none of the keys `after` it is the
same (`hlast`). -/
theorem get?_ofList_of_last {before after : List (κ × β)} {k : κ} {v : β}
    (hlast : k ∉ after.map Prod.fst) : (ofList (before ++ (k, v) :: after)).get? k = some v := by
  -- Storing under the keys behind it does not touch what is stored under `k`.
  have hfold : ∀ m : OrderedMap κ β, m.get? k = some v →
      (after.foldl (fun m e => m.insert e.1 e.2) m).get? k = some v := by
    induction after with
    | nil => exact fun m hm => hm
    | cons e rest ih =>
      rw [List.map_cons, List.mem_cons, not_or] at hlast
      intro m hm
      rw [List.foldl_cons]
      exact ih hlast.2 _ (by rw [get?_insert, if_neg hlast.1, hm])
  rw [ofList, List.foldl_append, List.foldl_cons]
  exact hfold _ (by rw [get?_insert, if_pos rfl])

end OrderedMap

end DocTypes

import Mathlib

/-! Hash maps as association lists with distinct keys, with the operations that
Mathlib's `AList` does not have. The order of the entries is not meaningful: a
program that iterates over a map sees its entries in some `HashOrder`. -/

abbrev HashMap (K V : Type) := AList fun _ : K => V

namespace HashMap
variable {K V W : Type}

/-- The entries as pairs. -/
def pairs (m : HashMap K V) : List (K × V) := m.entries.map fun e => (e.1, e.2)

def len (m : HashMap K V) : ℕ := m.entries.length

/-- Keep the entries that satisfy `p`. -/
def retain (p : K → V → Bool) (m : HashMap K V) : HashMap K V where
  entries := m.entries.filter fun e => p e.1 e.2
  nodupKeys := m.nodupKeys.sublist List.filter_sublist

/-- Replace every value, keeping its key. -/
def mapVal (f : K → V → W) (m : HashMap K V) : HashMap K W where
  entries := m.entries.map fun e => ⟨e.1, f e.1 e.2⟩
  nodupKeys := by
    have h : (m.entries.map fun e => (⟨e.1, f e.1 e.2⟩ : Sigma fun _ : K => W)).keys =
        m.entries.keys := by
      simp [List.keys, Function.comp_def]
    rw [List.NodupKeys, h]
    exact m.nodupKeys

/-- The entry API's `or_insert`. -/
def orInsert [DecidableEq K] (m : HashMap K V) (k : K) (v : V) : HashMap K V :=
  if k ∈ m then m else m.insert k v

/-- Change the value of a key that is present. -/
def modify [DecidableEq K] (m : HashMap K V) (k : K) (f : V → V) : HashMap K V :=
  match m.lookup k with
  | some v => m.insert k (f v)
  | none => m

theorem mem_pairs [DecidableEq K] {m : HashMap K V} {k : K} {v : V} :
    (k, v) ∈ m.pairs ↔ m.lookup k = some v := by
  have h : m.lookup k = some v ↔ (⟨k, v⟩ : Sigma fun _ : K => V) ∈ m.entries :=
    AList.mem_lookup_iff
  rw [h, pairs, List.mem_map]
  constructor
  · rintro ⟨⟨k', v'⟩, he, heq⟩
    cases heq
    exact he
  · intro he
    exact ⟨_, he, rfl⟩

theorem map_fst_pairs (m : HashMap K V) : m.pairs.map Prod.fst = m.keys := by
  simp [pairs, AList.keys, List.keys, Function.comp_def]

theorem length_pairs (m : HashMap K V) : m.pairs.length = m.len := by simp [pairs, len]

theorem length_keys (m : HashMap K V) : m.keys.length = m.len := by
  rw [← map_fst_pairs, List.length_map, length_pairs]

section Lookup
variable [DecidableEq K]

theorem pairs_erase_sublist (m : HashMap K V) (k : K) :
    (pairs (m.erase k)).Sublist m.pairs :=
  (List.kerase_sublist k m.entries).map _

theorem pairs_insert (m : HashMap K V) (k : K) (v : V) :
    pairs (AList.insert k v m) = (k, v) :: pairs (m.erase k) := by
  simp only [pairs, AList.entries_insert, List.map_cons]
  rfl

theorem mem_iff_lookup {m : HashMap K V} {k : K} : k ∈ m ↔ ∃ v, m.lookup k = some v := by
  rw [← AList.lookup_isSome, Option.isSome_iff_exists]

theorem lookup_insert' (m : HashMap K V) (k k' : K) (v : V) :
    (AList.insert k v m).lookup k' = if k' = k then some v else m.lookup k' := by
  by_cases h : k' = k
  · subst h
    rw [if_pos rfl]
    exact AList.lookup_insert m
  · rw [if_neg h]
    exact AList.lookup_insert_ne h

theorem lookup_erase' (m : HashMap K V) (k k' : K) :
    (m.erase k).lookup k' = if k' = k then none else m.lookup k' := by
  by_cases h : k' = k
  · subst h
    rw [if_pos rfl]
    exact AList.lookup_erase k' m
  · rw [if_neg h]
    exact AList.lookup_erase_ne h

theorem lookup_retain (p : K → V → Bool) (m : HashMap K V) (k : K) :
    (m.retain p).lookup k = (m.lookup k).filter (p k) := by
  apply Option.ext
  intro v
  have h1 : (m.retain p).lookup k = some v ↔
      (⟨k, v⟩ : Sigma fun _ : K => V) ∈ (m.retain p).entries := AList.mem_lookup_iff
  have h2 : m.lookup k = some v ↔ (⟨k, v⟩ : Sigma fun _ : K => V) ∈ m.entries :=
    AList.mem_lookup_iff
  rw [h1, Option.filter_eq_some_iff, h2, retain, List.mem_filter]

theorem lookup_mapVal (f : K → V → W) (m : HashMap K V) (k : K) :
    (m.mapVal f).lookup k = (m.lookup k).map (f k) := List.dlookup_map₂ k

theorem lookup_modify (m : HashMap K V) (k k' : K) (f : V → V) :
    (m.modify k f).lookup k' = if k' = k then (m.lookup k).map f else m.lookup k' := by
  unfold modify
  cases hk : m.lookup k with
  | none =>
    by_cases h : k' = k
    · rw [if_pos h, h]
      exact hk
    · rw [if_neg h]
  | some v => exact lookup_insert' m k k' (f v)

theorem lookup_orInsert (m : HashMap K V) (k k' : K) (v : V) :
    (m.orInsert k v).lookup k' = if k' = k then some ((m.lookup k).getD v) else m.lookup k' := by
  unfold orInsert
  by_cases hk : k ∈ m
  · obtain ⟨u, hu⟩ := Option.isSome_iff_exists.mp (AList.lookup_isSome.mpr hk)
    rw [if_pos hk, hu]
    split
    next h => rw [h, hu, Option.getD_some]
    next => rfl
  · have hnone : m.lookup k = none := AList.lookup_eq_none.mpr hk
    rw [if_neg hk, hnone, Option.getD_none]
    exact lookup_insert' m k k' v

theorem mem_retain {p : K → V → Bool} {m : HashMap K V} {k : K} :
    k ∈ m.retain p ↔ ∃ v, m.lookup k = some v ∧ p k v = true := by
  simp only [mem_iff_lookup, lookup_retain, Option.filter_eq_some_iff]

theorem mem_of_mem_retain {p : K → V → Bool} {m : HashMap K V} {k : K} (h : k ∈ m.retain p) :
    k ∈ m := by
  obtain ⟨v, hv, _⟩ := mem_retain.mp h
  exact mem_iff_lookup.mpr ⟨v, hv⟩

theorem mem_modify {m : HashMap K V} {k k' : K} {f : V → V} : k' ∈ m.modify k f ↔ k' ∈ m := by
  unfold modify
  split
  · rename_i v hv
    rw [AList.mem_insert]
    exact ⟨fun h => h.elim (fun he => he ▸ mem_iff_lookup.mpr ⟨v, hv⟩) id, .inr⟩
  · rfl

theorem card_keys (m : HashMap K V) : m.keys.toFinset.card = m.len := by
  rw [List.toFinset_card_of_nodup m.keys_nodup, length_keys]

/-- A map whose keys all lie in a finite set is no larger than it, and has its
size only when it covers it. -/
theorem covers_of_card_le {m : HashMap K V} {S : Finset K} (hS : ∀ k ∈ m, k ∈ S)
    (hcard : S.card ≤ m.len) : ∀ k ∈ S, k ∈ m := by
  have hsub : m.keys.toFinset ⊆ S := by
    intro k hk
    exact hS k (AList.mem_keys.mpr (List.mem_toFinset.mp hk))
  have heq := Finset.eq_of_subset_of_card_le hsub (hcard.trans (card_keys m).ge)
  intro k hk
  rw [← heq] at hk
  exact AList.mem_keys.mpr (List.mem_toFinset.mp hk)

theorem card_le_len {m : HashMap K V} {S : Finset K} (hS : ∀ k ∈ S, k ∈ m) :
    S.card ≤ m.len := by
  rw [← card_keys]
  refine Finset.card_le_card fun k hk => ?_
  exact List.mem_toFinset.mpr (AList.mem_keys.mp (hS k hk))

/-- A map with the keys `1 .. N` has at least `N` entries. -/
theorem le_len_of_numbered {m : HashMap ℕ V} {N : ℕ} (h : ∀ q, 1 ≤ q → q ≤ N → q ∈ m) :
    N ≤ m.len := by
  have hcard : (Finset.Icc 1 N).card ≤ m.len := by
    refine card_le_len fun k hk => ?_
    obtain ⟨hlo, hhi⟩ := Finset.mem_Icc.mp hk
    exact h k hlo hhi
  rwa [Nat.card_Icc, Nat.add_sub_cancel] at hcard

/-- Whatever is measured of its values is bounded. -/
theorem exists_bound (g : V → ℕ) (m : HashMap K V) :
    ∃ T, ∀ k v, m.lookup k = some v → g v ≤ T := by
  refine ⟨(m.pairs.map fun e => g e.2).sum, fun k v hv => ?_⟩
  exact List.le_sum_of_mem (List.mem_map.mpr ⟨(k, v), mem_pairs.mpr hv, rfl⟩)

end Lookup
end HashMap

/-- The order in which a program meets the entries of its hash maps: some
permutation of them, chosen by the hasher. -/
structure HashOrder where
  visit : {α : Type} → List α → List α
  perm : ∀ {α : Type} (l : List α), (visit l).Perm l

namespace HashOrder
variable {K V : Type}

instance : Inhabited HashOrder := ⟨⟨id, fun l => List.Perm.refl l⟩⟩

/-- The entries of `m` in the order an iteration meets them. -/
def iter (ord : HashOrder) (m : HashMap K V) : List (K × V) := ord.visit m.pairs

theorem iter_perm (ord : HashOrder) (m : HashMap K V) : (ord.iter m).Perm m.pairs :=
  ord.perm _

theorem mem_iter [DecidableEq K] {ord : HashOrder} {m : HashMap K V} {k : K} {v : V} :
    (k, v) ∈ ord.iter m ↔ m.lookup k = some v := by
  rw [(ord.iter_perm m).mem_iff, HashMap.mem_pairs]

/-- Visit the entry at index `k` last. -/
def last (k : ℕ) : HashOrder where
  visit l := l.eraseIdx k ++ l[k]?.toList
  perm l := by
    by_cases h : k < l.length
    · rw [List.getElem?_eq_getElem h, Option.toList_some]
      exact List.perm_append_comm.trans (List.getElem_cons_eraseIdx_perm h)
    · rw [List.eraseIdx_of_length_le (by omega), List.getElem?_eq_none (by omega),
        Option.toList_none, List.append_nil]

/-- Any entry may be the one an iteration meets last. -/
theorem exists_last [DecidableEq K] {m : HashMap K V} {k : K} {v : V}
    (h : m.lookup k = some v) : ∃ (ord : HashOrder) (l : List (K × V)),
      ord.iter m = l ++ [(k, v)] := by
  obtain ⟨i, hi⟩ := List.mem_iff_getElem?.mp (HashMap.mem_pairs.mpr h)
  refine ⟨last i, m.pairs.eraseIdx i, ?_⟩
  simp only [iter, last, hi, Option.toList_some]

end HashOrder

import Qstream.HashMap

/-! Sums over the values of a hash map, and how the operations change them. -/
namespace HashMap
variable {K V W : Type}

/-- The sum of `g` over the values. -/
def total (g : V → ℕ) (m : HashMap K V) : ℕ := (m.pairs.map fun e => g e.2).sum

theorem len_eq_total (m : HashMap K V) : m.len = m.total fun _ => 1 := by
  simp [total, length_pairs]

theorem pairs_retain (p : K → V → Bool) (m : HashMap K V) :
    (m.retain p).pairs = m.pairs.filter fun e => p e.1 e.2 := by
  simp only [pairs, retain, List.filter_map]
  rfl

theorem pairs_mapVal (f : K → V → W) (m : HashMap K V) :
    (m.mapVal f).pairs = m.pairs.map fun e => (e.1, f e.1 e.2) := by
  simp [pairs, mapVal]

theorem total_mapVal (g : W → ℕ) (f : K → V → W) (m : HashMap K V) :
    total g (m.mapVal f) = (m.pairs.map fun e => g (f e.1 e.2)).sum := by
  simp [total, pairs_mapVal, Function.comp_def]

/-- What is retained and what is not make up the whole. -/
theorem total_retain (g : V → ℕ) (p : K → V → Bool) (m : HashMap K V) :
    total g (m.retain p) + ((m.pairs.filter fun e => !p e.1 e.2).map fun e => g e.2).sum =
      total g m := by
  rw [total, total, pairs_retain]
  induction m.pairs with
  | nil => rfl
  | cons e l ih =>
    cases hp : p e.1 e.2 <;>
      simp only [List.filter_cons, hp, Bool.not_false, Bool.not_true, List.map_cons, List.sum_cons,
        Bool.false_eq_true, if_false, if_true] <;>
      omega

theorem total_retain_le (g : V → ℕ) (p : K → V → Bool) (m : HashMap K V) :
    total g (m.retain p) ≤ total g m := by
  have h := total_retain g p m
  omega

theorem len_mapVal (f : K → V → W) (m : HashMap K V) : (m.mapVal f).len = m.len := by
  simp [len, mapVal]

/-- Those that go and those that stay are all. -/
theorem len_retain_not (p : V → Bool) (m : HashMap K V) :
    (m.retain fun _ v => ! p v).len + (m.pairs.filter fun e => p e.2).length = m.len := by
  have h := total_retain (fun _ => 1) (fun _ v => ! p v) m
  simp only [Bool.not_not, List.map_const', List.sum_replicate, smul_eq_mul, mul_one] at h
  rw [len_eq_total, len_eq_total, h]

section Lookup
variable [DecidableEq K]

theorem total_congr {m m' : HashMap K V} (h : ∀ k, m'.lookup k = m.lookup k) (g : V → ℕ) :
    total g m' = total g m := by
  have hperm : m'.entries.Perm m.entries :=
    List.lookup_ext m'.nodupKeys m.nodupKeys fun k v => by
      change v ∈ m'.lookup k ↔ v ∈ m.lookup k
      rw [h]
  exact ((hperm.map _).map _).sum_eq

theorem total_insert_of_notMem {m : HashMap K V} {k : K} (h : k ∉ m) (g : V → ℕ) (v : V) :
    total g (AList.insert k v m) = g v + total g m := by
  have herase : total g (m.erase k) = total g m := by
    refine total_congr (fun k' => ?_) g
    rw [lookup_erase']
    split
    next heq => rw [heq, AList.lookup_eq_none.mpr h]
    next => rfl
  rw [total, pairs_insert, List.map_cons, List.sum_cons, ← herase]
  rfl

/-- The entry that goes and those that stay make up the whole. -/
theorem total_erase (g : V → ℕ) (m : HashMap K V) (k : K) :
    total g (m.erase k) + (m.lookup k).elim 0 g = total g m := by
  cases hk : m.lookup k with
  | none =>
    rw [Option.elim_none, Nat.add_zero]
    refine total_congr (fun k' => ?_) g
    rw [lookup_erase']
    split
    next heq => rw [heq, hk]
    next => rfl
  | some v =>
    have hback : total g (AList.insert k v (m.erase k)) = total g m := by
      refine total_congr (fun k' => ?_) g
      rw [lookup_insert', lookup_erase']
      split
      next heq => rw [heq, hk]
      next => rfl
    have hgone : k ∉ m.erase k := fun h => (AList.mem_erase.mp h).1 rfl
    rw [Option.elim_some, ← hback, total_insert_of_notMem hgone, Nat.add_comm]

theorem total_insert (g : V → ℕ) (m : HashMap K V) (k : K) (v : V) :
    total g (AList.insert k v m) + (m.lookup k).elim 0 g = total g m + g v := by
  have herase := total_erase g m k
  rw [total, pairs_insert, List.map_cons, List.sum_cons]
  change g v + total g (m.erase k) + _ = _
  omega

theorem len_insert (m : HashMap K V) (k : K) (v : V) :
    len (AList.insert k v m) + (decide (k ∈ m)).toNat = m.len + 1 := by
  have h := total_insert (fun _ => 1) m k v
  rw [← len_eq_total, ← len_eq_total] at h
  rw [← h]
  by_cases hk : k ∈ m
  · obtain ⟨u, hu⟩ := mem_iff_lookup.mp hk
    rw [hu, decide_eq_true hk]
    rfl
  · rw [AList.lookup_eq_none.mpr hk, decide_eq_false hk]
    rfl

theorem len_erase_of_lookup {m : HashMap K V} {k : K} {v : V} (h : m.lookup k = some v) :
    len (m.erase k) + 1 = m.len := by
  have herase := total_erase (fun _ => 1) m k
  rw [h, Option.elim_some, ← len_eq_total, ← len_eq_total] at herase
  exact herase

theorem len_insert_of_lookup {m : HashMap K V} {k : K} {u : V} (h : m.lookup k = some u) (v : V) :
    len (AList.insert k v m) = m.len := by
  have hlen := len_insert m k v
  rw [decide_eq_true (mem_iff_lookup.mpr ⟨u, h⟩), Bool.toNat_true] at hlen
  omega

theorem total_modify {g : V → ℕ} {f : V → V} (hf : ∀ x, g (f x) = g x) (m : HashMap K V) (k : K) :
    total g (m.modify k f) = total g m := by
  unfold modify
  split
  next v hv =>
    have hins := total_insert g m k (f v)
    rw [hv, Option.elim_some, hf] at hins
    omega
  next => rfl

theorem total_orInsert {g : V → ℕ} {v : V} (hv : g v = 0) (m : HashMap K V) (k : K) :
    total g (m.orInsert k v) = total g m := by
  unfold orInsert
  split
  next => rfl
  next hk => rw [total_insert_of_notMem hk, hv, Nat.zero_add]

theorem modify_modify (m : HashMap K V) (k : K) (f g : V → V) :
    (m.modify k f).modify k g = m.modify k (g ∘ f) := by
  cases hk : m.lookup k with
  | none => simp only [modify, hk]
  | some v =>
    have hlook : (AList.insert k (f v) m).lookup k = some (f v) := AList.lookup_insert m
    simp only [modify, hk, hlook, AList.insert_insert, Function.comp_apply]

end Lookup
end HashMap

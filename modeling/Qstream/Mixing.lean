import Mathlib

/-! Generators that count through all words of a width and mix each into an output: every word
comes out once in a period, and so does every residue as often as it is among the words. -/
namespace Mixing
open Finset

/-! Mixing steps lose nothing. -/

theorem xorShift_injective {w s : ℕ} (hs : 0 < s) :
    Function.Injective fun x : BitVec w => x ^^^ (x >>> s) := by
  intro x y h
  -- bit by bit from the top: a higher bit has been mixed into each
  have hbit (k : ℕ) : ∀ i, w - i ≤ k → x.getLsbD i = y.getLsbD i := by
    induction k with
    | zero =>
      intro i hi
      rw [BitVec.getLsbD_of_ge x i (by omega), BitVec.getLsbD_of_ge y i (by omega)]
    | succ k ih =>
      intro i hi
      by_cases hw : w ≤ i
      · rw [BitVec.getLsbD_of_ge x i hw, BitVec.getLsbD_of_ge y i hw]
      have hmixed := congrArg (BitVec.getLsbD · i) h
      simp only [BitVec.getLsbD_xor, BitVec.getLsbD_ushiftRight] at hmixed
      rw [ih (s + i) (by omega)] at hmixed
      exact Bool.xor_left_inj.mp hmixed
  exact BitVec.eq_of_getLsbD_eq fun i hi => hbit _ i le_rfl

theorem mul_injective {w : ℕ} {c d : BitVec w} (h : c * d = 1#w) :
    Function.Injective fun x : BitVec w => x * c := by
  intro x y hxy
  have hback (z : BitVec w) : z * c * d = z := by rw [BitVec.mul_assoc, h, BitVec.mul_one]
  rw [← hback x, ← hback y]
  exact congrArg (· * d) hxy

/-- Counting in steps of a unit reaches every word once. -/
theorem counter_injective {w : ℕ} {c d : BitVec w} (h : c * d = 1#w) (x : BitVec w) {i j : ℕ}
    (hi : i < 2 ^ w) (hj : j < 2 ^ w)
    (heq : x + BitVec.ofNat w i * c = x + BitVec.ofNat w j * c) : i = j := by
  have hij := congrArg BitVec.toNat (mul_injective h (BitVec.add_right_inj x |>.mp heq))
  rwa [BitVec.toNat_ofNat, BitVec.toNat_ofNat, Nat.mod_eq_of_lt hi, Nat.mod_eq_of_lt hj] at hij

/-! How often something comes up in a period. -/

/-- A permutation of the numbers below a bound changes no count. -/
theorem card_filter_permuted {N : ℕ} {f : ℕ → ℕ} (hf : ∀ k < N, f k < N)
    (hinj : ∀ i < N, ∀ j < N, f i = f j → i = j) (p : ℕ → Prop) [DecidablePred p] :
    #{k ∈ range N | p (f k)} = #{k ∈ range N | p k} := by
  have himage : (range N).image f = range N := by
    refine eq_of_subset_of_card_le (fun x hx => ?_) ?_
    · obtain ⟨k, hk, rfl⟩ := mem_image.mp hx
      exact mem_range.mpr (hf k (mem_range.mp hk))
    · rw [card_image_of_injOn fun i hi j hj => hinj i (by simpa using hi) j (by simpa using hj)]
  calc #{k ∈ range N | p (f k)}
    _ = #({k ∈ range N | p (f k)}.image f) := (card_image_of_injOn fun i hi j hj =>
        hinj i (by simpa using (mem_filter.mp hi).1) j (by simpa using (mem_filter.mp hj).1)).symm
    _ = #{k ∈ (range N).image f | p k} := by rw [filter_image]
    _ = #{k ∈ range N | p k} := by rw [himage]

theorem count_lt (c b : ℕ) : Nat.count (· < c) b = min c b := by
  induction b with
  | zero => simp
  | succ b ih =>
    rw [Nat.count_succ, ih]
    split <;> omega

/-- How many numbers below `N` have a residue below `c`. -/
theorem card_mod_lt {c m : ℕ} (hc : c ≤ m) (hm : 0 < m) (N : ℕ) :
    #{k ∈ range N | k % m < c} = c * (N / m) + min c (N % m) := by
  have hrest (q r : ℕ) (hr : r ≤ m) : #{k ∈ range (m * q + r) | k % m < c} =
      #{k ∈ range (m * q) | k % m < c} + min c r := by
    have hlow : #{k ∈ range r | (m * q + k) % m < c} = min c r := by
      rw [← count_lt, Nat.count_eq_card_filter_range]
      refine congrArg card (filter_congr fun k hk => ?_)
      rw [Nat.mul_add_mod, Nat.mod_eq_of_lt ((mem_range.mp hk).trans_le hr)]
    rw [← hlow, ← Nat.count_eq_card_filter_range, ← Nat.count_eq_card_filter_range,
      ← Nat.count_eq_card_filter_range, Nat.count_add]
  have hwhole (q : ℕ) : #{k ∈ range (m * q) | k % m < c} = c * q := by
    induction q with
    | zero => rfl
    | succ q ih => rw [Nat.mul_succ, hrest q m le_rfl, ih, min_eq_left hc, Nat.mul_succ]
  calc #{k ∈ range N | k % m < c}
    _ = #{k ∈ range (m * (N / m) + N % m) | k % m < c} := by rw [Nat.div_add_mod]
    _ = c * (N / m) + min c (N % m) := by rw [hrest _ _ (Nat.mod_lt _ hm).le, hwhole]

end Mixing

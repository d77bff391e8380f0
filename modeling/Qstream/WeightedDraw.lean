import Mathlib

/-! A weighted draw from a list by running subtraction, with a roll that is made of a random
64-bit number by way of a double. -/
namespace WeightedDraw
variable {α : Type*}

/-- The cast `as f64` of an integer: the nearest number with 53 significant bits, and of two that
are equally near the one whose last bit is zero. -/
def asF64 (x : ℕ) : ℕ :=
  let ulp := 2 ^ (x.log2 - 52)
  let q := x / ulp
  if 2 * (x % ulp) < ulp ∨ (2 * (x % ulp) = ulp ∧ q % 2 = 0) then q * ulp else (q + 1) * ulp

example : asF64 (2 ^ 63 + 1024) = 2 ^ 63 ∧ asF64 (2 ^ 63 + 1025) = 2 ^ 63 + 2048 := by decide +kernel

theorem asF64_max : asF64 (2 ^ 64 - 1) = 2 ^ 64 := by decide +kernel

/-- The last of the 53 bits counts 2048 at most. -/
theorem ulp_of_lt {x : ℕ} (hx : x < 2 ^ 64) : ∃ k ≤ 11, 2 ^ (x.log2 - 52) = 2 ^ k := by
  refine ⟨_, ?_, rfl⟩
  rcases eq_or_ne x 0 with rfl | hne
  · decide
  · have hlog : x.log2 < 64 := (Nat.log2_lt hne).mpr hx
    omega

theorem asF64_le {x : ℕ} (hx : x < 2 ^ 64) : asF64 x ≤ 2 ^ 64 := by
  obtain ⟨k, hk, hulp⟩ := ulp_of_lt hx
  have hquot : x / 2 ^ k < 2 ^ (64 - k) := by
    rw [Nat.div_lt_iff_lt_mul (by positivity), ← pow_add, Nat.sub_add_cancel (by omega)]
    exact hx
  have hup : (x / 2 ^ k + 1) * 2 ^ k ≤ 2 ^ 64 := by
    calc (x / 2 ^ k + 1) * 2 ^ k ≤ 2 ^ (64 - k) * 2 ^ k := Nat.mul_le_mul_right _ hquot
      _ = 2 ^ 64 := by rw [← pow_add, Nat.sub_add_cancel (by omega)]
  simp only [asF64, hulp]
  split
  · exact (Nat.mul_le_mul_right _ (Nat.le_succ _)).trans hup
  · exact hup

/-- The cast is at most half of the last bit off. -/
theorem asF64_near {x : ℕ} (hx : x < 2 ^ 64) : asF64 x ≤ x + 1024 ∧ x ≤ asF64 x + 1024 := by
  obtain ⟨k, hk, hulp⟩ := ulp_of_lt hx
  have hsize : 2 ^ k ≤ 2048 := (Nat.pow_le_pow_right (by decide) hk).trans (by decide)
  have hpos : 0 < 2 ^ k := by positivity
  have hsplit := Nat.div_add_mod' x (2 ^ k)
  have hrest := Nat.mod_lt x hpos
  simp only [asF64, hulp]
  split
  next => omega
  next hround =>
    push Not at hround
    rw [Nat.add_one_mul]
    omega

/-- The share of the total that a random number rolls. -/
def fraction (random : UInt64) : ℚ := (asF64 random.toNat : ℚ) / asF64 (2 ^ 64 - 1)

theorem fraction_eq (random : UInt64) : fraction random = (asF64 random.toNat : ℚ) / 2 ^ 64 := by
  rw [fraction, asF64_max]
  norm_num

theorem fraction_le_one (random : UInt64) : fraction random ≤ 1 := by
  rw [fraction_eq]
  refine div_le_one_of_le₀ ?_ (by norm_num)
  exact_mod_cast asF64_le random.toNat_lt

/-- Subtract the weights from `roll` until it is used up. -/
def draw (weight : α → ℚ) : ℚ → List α → Option α
  | _, [] => none
  | roll, p :: ps =>
    let roll := roll - weight p
    if roll ≤ 0 then some p else draw weight roll ps

theorem mem_of_draw {weight : α → ℚ} {roll : ℚ} {l : List α} {p : α}
    (h : draw weight roll l = some p) : p ∈ l := by
  induction l generalizing roll with
  | nil => simp [draw] at h
  | cons q l ih =>
    simp only [draw] at h
    split at h
    · cases h
      exact List.mem_cons_self
    · exact List.mem_cons_of_mem _ (ih h)

/-- A roll within the total weight draws something. -/
theorem draw_isSome (weight : α → ℚ) {roll : ℚ} {l : List α} (hl : l ≠ [])
    (h : roll ≤ (l.map weight).sum) : (draw weight roll l).isSome := by
  induction l generalizing roll with
  | nil => exact absurd rfl hl
  | cons q l ih =>
    simp only [draw]
    split
    · rfl
    · rename_i hpos
      simp only [List.map_cons, List.sum_cons] at h
      refine ih ?_ (by linarith)
      rintro rfl
      simp only [List.map_nil, List.sum_nil] at h
      linarith

end WeightedDraw

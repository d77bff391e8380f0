import Qstream.HashMapTotals
import Qstream.RunsTotals

/-! Counters of a fixed width, which start again at zero when they are full: what they show of
an amount, and what sums of them show. -/
namespace Counters
open Runs

/-- `x` is what a counter of `m` values shows of the amount `y`: whole turns may be missing. -/
def Shows (m x y : ℕ) : Prop := ∃ turns, x + m * turns = y

variable {m x y z : ℕ}

theorem Shows.refl (x : ℕ) : Shows m x x := ⟨0, Nat.add_zero x⟩

theorem Shows.of_mod (m y : ℕ) : Shows m (y % m) y := ⟨y / m, Nat.mod_add_div y m⟩

theorem Shows.trans (h : Shows m x y) (h' : Shows m y z) : Shows m x z := by
  obtain ⟨t, rfl⟩ := h
  obtain ⟨t', rfl⟩ := h'
  exact ⟨t + t', by ring⟩

theorem Shows.add {x' y' : ℕ} (h : Shows m x y) (h' : Shows m x' y') : Shows m (x + x') (y + y') := by
  obtain ⟨t, rfl⟩ := h
  obtain ⟨t', rfl⟩ := h'
  exact ⟨t + t', by ring⟩

theorem Shows.modEq (h : Shows m x y) : x ≡ y [MOD m] := by
  obtain ⟨t, rfl⟩ := h
  simp [Nat.ModEq]

/-- A counter shows the amount modulo its size. -/
theorem Shows.eq_mod (h : Shows m x y) (hx : x < m) : x = y % m := by
  rw [← Nat.mod_eq_of_lt hx]
  exact h.modEq

/-- Nothing is missing of an amount that fits the counter. -/
theorem Shows.eq_of_lt (h : Shows m x y) (hy : y < m) : x = y := by
  obtain ⟨t, rfl⟩ := h
  cases t with
  | zero => rfl
  | succ t =>
    rw [Nat.mul_succ] at hy
    omega

theorem shows_add32 (a b : UInt32) : Shows (2 ^ 32) (a + b).toNat (a.toNat + b.toNat) := by
  rw [UInt32.toNat_add]
  exact .of_mod _ _

theorem shows_add64 (a : UInt64) (n : ℕ) :
    Shows (2 ^ 64) (a + UInt64.ofNat n).toNat (a.toNat + n) := by
  rw [UInt64.toNat_add, UInt64.toNat_ofNat']
  exact (Shows.of_mod _ _).trans ((Shows.refl _).add (.of_mod _ _))

/-- An entry that is made where there is none, and then changed: the sum over the entries shows
what is added to the entry. -/
theorem shows_total_entry {K V : Type} [DecidableEq K] {g : V → ℕ} {f : V → V} {v : V} {d : ℕ}
    (hv : g v = 0) (hf : ∀ x, Shows m (g (f x)) (g x + d)) (entries : HashMap K V) (k : K) :
    Shows m (((entries.orInsert k v).modify k f).total g) (entries.total g + d) := by
  have hmade := HashMap.total_orInsert hv entries k
  have hlook := HashMap.lookup_orInsert entries k k v
  rw [if_pos rfl] at hlook
  have hins := HashMap.total_insert g (entries.orInsert k v) k (f ((entries.lookup k).getD v))
  rw [hlook, Option.elim_some] at hins
  obtain ⟨t, ht⟩ := hf ((entries.lookup k).getD v)
  refine ⟨t, ?_⟩
  rw [HashMap.modify, hlook]
  change HashMap.total g (AList.insert k _ _) + _ = _
  omega

section
variable {σ ε M : Type*} [AddMonoid M] {step : σ → ε → σ → Prop} {cost : σ → ε → M} {s t : σ}
  {es : List ε} {k : M} {f : σ → ℕ}

/-- What comes in, stays or goes out over a run, as the counters show it, if they show it in every
step. -/
theorem shows_balance (out inp : M →+ ℕ) (h : Sums step cost s es t k)
    (hstep : ∀ s e t, step s e t → Shows m (f t + out (cost s e)) (f s + inp (cost s e))) :
    Shows m (f t + out k) (f s + inp k) := by
  induction h with
  | nil s =>
    rw [map_zero, map_zero]
    exact .refl _
  | @cons s t u e es k hs _ ih =>
    obtain ⟨i, hone⟩ := hstep s e t hs
    obtain ⟨j, hrest⟩ := ih
    refine ⟨i + j, ?_⟩
    rw [map_add, map_add, Nat.mul_add]
    omega

/-- A counter that shows the cost of every step shows the total. -/
theorem shows_sum (inp : M →+ ℕ) (h : Sums step cost s es t k)
    (hstep : ∀ s e t, step s e t → Shows m (f t) (f s + inp (cost s e))) :
    Shows m (f t) (f s + inp k) :=
  shows_balance 0 inp h hstep

end

end Counters

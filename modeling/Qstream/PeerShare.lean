import Qstream.FaultFrequency
import Qstream.PeerSelectComplete
import Qstream.WeightedShare

/-! How the pulls are shared out among the sources of a file. -/
namespace Qstream
open Finset

section Share
variable (P : PeerConfig) (n : Node) (s : Scheduler) (ord : HashOrder) (now : ℕ) (filename : String)

/-- How often a source is picked in a period of the generator. -/
def picks (a : SocketAddr) : ℕ := #((range (2 ^ 64)).filter fun k =>
  (pickPeer P n { s with rng := Rng.state s.rng k } ord now filename).1 = some a)

/-- The weight of all sources. -/
def totalWeight : ℚ :=
  ((sources P n s ord now filename).map (weight P n s now filename)).sum

theorem weight_pos (a : SocketAddr) : 0 < weight P n s now filename a :=
  lt_max_of_lt_right (by norm_num)

theorem totalWeight_pos (hs : sources P n s ord now filename ≠ []) :
    0 < totalWeight P n s ord now filename := by
  refine List.sum_pos _ (fun x hx => ?_) fun h => hs (List.map_eq_nil_iff.mp h)
  obtain ⟨b, -, rfl⟩ := List.mem_map.mp hx
  exact weight_pos P n s now filename b

/-- The generator decides by its next number only. -/
theorem pickPeer_state (hs : sources P n s ord now filename ≠ []) (k : ℕ) :
    (pickPeer P n { s with rng := Rng.state s.rng k } ord now filename).1 =
      WeightedDraw.draw (weight P n s now filename)
        (WeightedDraw.asF64 (Rng.output s.rng k).toNat * (totalWeight P n s ord now filename / 2 ^ 64))
        (sources P n s ord now filename) := by
  have hsame : sources P n { s with rng := Rng.state s.rng k } ord now filename =
      sources P n s ord now filename := rfl
  unfold pickPeer
  simp only [hsame, if_neg hs, WeightedDraw.fraction_eq]
  rw [mul_div_assoc', ← div_mul_eq_mul_div]
  rfl

end Share

variable {P : PeerConfig} {n : Node} {s : Scheduler} {ord : HashOrder} {now : ℕ} {filename : String}

/-- Over a period of the generator every source is picked in proportion to its weight. The random
number is rounded to 53 bits, and so 2049 of the 2^64 draws may go wrong for each entry of the
source, and 1025 more. -/
theorem picks_share (hs : sources P n s ord now filename ≠ []) (a : SocketAddr) :
    |(picks P n s ord now filename a : ℚ) - ((sources P n s ord now filename).count a : ℚ) *
      (weight P n s now filename a / totalWeight P n s ord now filename * 2 ^ 64)| ≤
    ((sources P n s ord now filename).count a : ℚ) * 2049 + 1025 := by
  have htotal := totalWeight_pos P n s ord now filename hs
  have hpicks : picks P n s ord now filename a = #((range (2 ^ 64)).filter fun x : ℕ =>
      WeightedDraw.draw (weight P n s now filename)
        (WeightedDraw.asF64 x * (totalWeight P n s ord now filename / 2 ^ 64))
        (sources P n s ord now filename) = some a) := by
    simp only [picks, pickPeer_state P n s ord now filename hs]
    exact Rng.card_output s.rng fun x => WeightedDraw.draw (weight P n s now filename)
      (WeightedDraw.asF64 x * (totalWeight P n s ord now filename / 2 ^ 64))
      (sources P n s ord now filename) = some a
  rw [hpicks]
  have hfits : ((sources P n s ord now filename).map (weight P n s now filename)).sum ≤
      (2 ^ 64 : ℕ) * (totalWeight P n s ord now filename / 2 ^ 64) := by
    rw [Nat.cast_pow, Nat.cast_ofNat, mul_div_cancel₀ _ (by norm_num)]
    exact le_rfl
  have hshare := WeightedDraw.near_asF64.card_draw (p := a) (by norm_num) (by positivity)
    (fun q => (weight_pos P n s now filename q).le) hfits
  rw [div_div_eq_mul_div, ← div_mul_eq_mul_div] at hshare
  refine hshare.trans_eq ?_
  ring

/-- Of two sources, the bootstrap does not have the segment and the other peer may have it. -/
theorem picks_share_demo :
    sources demoConfig demoKnown (.new 1) default 5 "seg_2.ts" = [demoOther, demoBootstrap] ∧
    |(picks demoConfig demoKnown (.new 1) default 5 "seg_2.ts" demoOther : ℚ) -
      ((sources demoConfig demoKnown (.new 1) default 5 "seg_2.ts").count demoOther : ℚ) *
        (weight demoConfig demoKnown (.new 1) 5 "seg_2.ts" demoOther /
          totalWeight demoConfig demoKnown (.new 1) default 5 "seg_2.ts" * 2 ^ 64)| ≤
      ((sources demoConfig demoKnown (.new 1) default 5 "seg_2.ts").count demoOther : ℚ) * 2049 + 1025 :=
  ⟨by decide +kernel, picks_share (by decide +kernel) demoOther⟩

end Qstream

import Qstream.Fault
import Qstream.Mixing

/-! The random numbers over a period of their generator, and what they make of the percentages. -/
namespace Qstream
open Mixing Finset

namespace Rng

/-- The state after `k` numbers, and the number that comes next. -/
def state (seed : UInt64) (k : ℕ) : UInt64 := (fun s => (Rng.next s).2)^[k] seed

def output (seed : UInt64) (k : ℕ) : UInt64 := (Rng.next (state seed k)).1

/-- One mixing step of the output. -/
def shiftMix (s c z : UInt64) : UInt64 := (z ^^^ (z >>> s)) * c

theorem next_eq (s : UInt64) : Rng.next s =
    (shiftMix 31 1 (shiftMix 27 0x94D049BB133111EB (shiftMix 30 0xBF58476D1CE4E5B9
      (s + 0x9E3779B97F4A7C15))), s + 0x9E3779B97F4A7C15) := by
  simp [Rng.next, shiftMix]

theorem shiftMix_injective {s c d : UInt64} (hs : 0 < s.toNat % 64) (hc : c * d = 1) :
    Function.Injective (shiftMix s c) := by
  intro x y h
  have hbits := congrArg UInt64.toBitVec h
  simp only [shiftMix, UInt64.toBitVec_mul, UInt64.toBitVec_xor, UInt64.toBitVec_shiftRight] at hbits
  have hunit : c.toBitVec * d.toBitVec = 1#64 := congrArg UInt64.toBitVec hc
  exact UInt64.toBitVec_inj.mp (xorShift_injective hs (mul_injective hunit hbits))

theorem state_eq (seed : UInt64) (k : ℕ) :
    state seed k = seed + UInt64.ofNat k * 0x9E3779B97F4A7C15 := by
  induction k with
  | zero => simp [state]
  | succ k ih =>
    have hnext : state seed (k + 1) = state seed k + 0x9E3779B97F4A7C15 :=
      Function.iterate_succ_apply' ..
    have hone : UInt64.ofNat 1 = 1 := rfl
    rw [hnext, ih, UInt64.ofNat_add, UInt64.add_mul, hone, UInt64.one_mul, UInt64.add_assoc]

/-- In a period of the generator no number comes twice. -/
theorem output_injective (seed : UInt64) {i j : ℕ} (hi : i < 2 ^ 64) (hj : j < 2 ^ 64)
    (h : output seed i = output seed j) : i = j := by
  simp only [output, next_eq] at h
  have h3 := shiftMix_injective (d := 1) (by decide) (by decide) h
  have h2 := shiftMix_injective (d := 0x319642B2D24D8EC3) (by decide) (by decide) h3
  have h1 := shiftMix_injective (d := 0x96DE1B173F119089) (by decide) (by decide) h2
  have hstate := UInt64.add_left_inj _ |>.mp h1
  rw [state_eq, state_eq] at hstate
  have hunit : 0x9E3779B97F4A7C15#64 * 0xF1DE83E19937733D#64 = 1#64 := by decide
  exact counter_injective hunit seed.toBitVec hi hj (congrArg UInt64.toBitVec hstate)

/-- What holds of the numbers of a period holds as often as it does of all numbers. -/
theorem card_output (seed : UInt64) (p : ℕ → Prop) [DecidablePred p] :
    #{k ∈ range (2 ^ 64) | p (output seed k).toNat} = #{k ∈ range (2 ^ 64) | p k} :=
  card_filter_permuted (fun _ _ => UInt64.toNat_lt _)
    (fun _ hi _ hj h => output_injective seed hi hj (UInt64.toNat_inj.mp h)) p

/-- Whatever the seed, every number comes exactly once in a period. -/
theorem output_once (seed x : UInt64) : ∃! k, k < 2 ^ 64 ∧ output seed k = x := by
  have hcount := card_output seed (· = x.toNat)
  rw [filter_eq', if_pos (mem_range.mpr (UInt64.toNat_lt x)), card_singleton] at hcount
  obtain ⟨k, hk⟩ := card_eq_one.mp hcount
  have hiff (j : ℕ) : j < 2 ^ 64 ∧ output seed j = x ↔ j = k := by
    have hmem := Finset.ext_iff.mp hk j
    rwa [mem_filter, mem_range, UInt64.toNat_inj, mem_singleton] at hmem
  exact ⟨k, (hiff k).mpr rfl, fun j hj => (hiff j).mp hj⟩

theorem output_succ (seed : UInt64) (k : ℕ) :
    output (Rng.next seed).2 k = output seed (k + 1) :=
  congrArg (fun s => (Rng.next s).1)
    (Function.iterate_succ_apply (fun s => (Rng.next s).2) k seed).symm

end Rng

namespace FaultInjector
variable {δ : Type*} {f : FaultInjector UInt64 δ}

/-- The injector is configured to drop datagrams and for nothing else. -/
structure OnlyDrops (f : FaultInjector UInt64 δ) : Prop where
  dup : f.dupPct = 0
  reorder : f.reorderPct = 0
  delay : f.delayMs = 0
  burst : f.burstEveryMs = 0

/-- What reaches the socket of the datagrams sent one after the other at the given times. -/
def sendAll (f : FaultInjector UInt64 δ) : List (δ × ℕ) → List δ
  | [] => []
  | x :: l => (f.send x.1 x.2).2 ++ (f.send x.1 x.2).1.sendAll l

theorem OnlyDrops.send (h : f.OnlyDrops) (x : δ) (now : ℕ) :
    f.send x now = if (f.rollIf f.dropPct).1 then ((f.rollIf f.dropPct).2.drop, [])
      else ((f.rollIf f.dropPct).2.emit 1, [x]) := by
  have hburst : f.inBurst now = false := by
    simp [inBurst, h.burst]
  have hdup : f.rollIf f.dupPct = (false, f) := by
    simp [rollIf, h.dup]
  have hdelay : (f.rollIf f.dropPct).2.delayMs = 0 := by
    unfold rollIf
    split <;> exact h.delay
  simp only [FaultInjector.send, hburst, Bool.false_eq_true, if_false, h.reorder, gt_iff_lt,
    Nat.lt_irrefl, pipeline, copies, hdup, sendCopies, sendCopy, hdelay]
  split <;> rfl

/-- Whether the next datagram is lost is decided by the next number, if it is not plain. -/
theorem rollIf_spec (f : FaultInjector UInt64 δ) (pct : ℕ) :
    (f.rollIf pct).1 = decide ((Rng.output f.rng 0).toNat % 100 < pct) ∧
    ((f.rollIf pct).2 = f ∧ (pct = 0 ∨ 100 ≤ pct) ∨
      (f.rollIf pct).2 = { f with rng := (Rng.next f.rng).2 }) := by
  have hmod : (Rng.output f.rng 0).toNat % 100 < 100 := Nat.mod_lt _ (by decide)
  unfold rollIf roll
  by_cases hzero : pct = 0
  · simp [hzero]
  by_cases hall : 100 ≤ pct
  · simp [Nat.pos_of_ne_zero hzero, hall, hmod.trans_le hall]
  · simp only [gt_iff_lt, Nat.pos_of_ne_zero hzero, if_true, ge_iff_le, if_neg hall, if_neg hzero]
    exact ⟨rfl, .inr rfl⟩

theorem OnlyDrops.rollIf (h : f.OnlyDrops) (pct : ℕ) :
    (f.rollIf pct).2.dropPct = f.dropPct ∧ (f.rollIf pct).2.OnlyDrops := by
  rcases (f.rollIf_spec pct).2 with ⟨heq, -⟩ | heq
  all_goals
    rw [heq]
    exact ⟨rfl, h.1, h.2, h.3, h.4⟩

/-- The later datagrams are decided by the later numbers: a plain percentage asks for no number,
and all numbers answer it alike. -/
theorem output_rollIf (f : FaultInjector UInt64 δ) (pct k : ℕ) :
    (Rng.output (f.rollIf pct).2.rng k).toNat % 100 < pct ↔
      (Rng.output f.rng (k + 1)).toNat % 100 < pct := by
  rcases (f.rollIf_spec pct).2 with ⟨heq, hplain⟩ | heq
  · have hmod (x : ℕ) : x % 100 < 100 := Nat.mod_lt _ (by decide)
    have h1 := hmod (Rng.output (f.rollIf pct).2.rng k).toNat
    have h2 := hmod (Rng.output f.rng (k + 1)).toNat
    omega
  · rw [heq]
    dsimp only
    rw [Rng.output_succ]

/-- The datagrams lost are as many as there are numbers with a small residue, and the others
arrive in order. -/
theorem OnlyDrops.sendAll (h : f.OnlyDrops) (l : List (δ × ℕ)) :
    (f.sendAll l).Sublist (l.map Prod.fst) ∧ (f.sendAll l).length +
      Nat.count (fun k => (Rng.output f.rng k).toNat % 100 < f.dropPct) l.length = l.length := by
  induction l generalizing f with
  | nil => simp [FaultInjector.sendAll]
  | cons x l ih =>
    obtain ⟨hpct, honly⟩ := h.rollIf f.dropPct
    have hrest (g : FaultInjector UInt64 δ) (hrng : g.rng = (f.rollIf f.dropPct).2.rng)
        (hpct : g.dropPct = f.dropPct) (hg : g.OnlyDrops) :
        (g.sendAll l).Sublist (l.map Prod.fst) ∧ (g.sendAll l).length +
          Nat.count (fun k => (Rng.output f.rng (k + 1)).toNat % 100 < f.dropPct) l.length =
            l.length := by
      have hg := ih hg
      rw [hrng, hpct] at hg
      simpa only [output_rollIf] using hg
    rw [FaultInjector.sendAll, List.length_cons, Nat.count_succ', h.send x.1 x.2,
      (f.rollIf_spec f.dropPct).1, List.map_cons]
    by_cases hhit : (Rng.output f.rng 0).toNat % 100 < f.dropPct
    · obtain ⟨hsub, hlen⟩ := hrest (f.rollIf f.dropPct).2.drop rfl hpct
        ⟨honly.1, honly.2, honly.3, honly.4⟩
      rw [decide_eq_true hhit, if_pos rfl, if_pos hhit, List.nil_append]
      refine ⟨hsub.cons _, ?_⟩
      dsimp only
      omega
    · obtain ⟨hsub, hlen⟩ := hrest ((f.rollIf f.dropPct).2.emit 1) rfl hpct
        ⟨honly.1, honly.2, honly.3, honly.4⟩
      rw [decide_eq_false hhit, if_neg Bool.false_ne_true, if_neg hhit, List.singleton_append,
        List.length_cons]
      refine ⟨hsub.cons_cons _, ?_⟩
      dsimp only
      omega

/-- Of a period of datagrams exactly the configured share is lost, up to the sixteen numbers by
which a period is longer than a multiple of a hundred, and the others reach the socket in order. -/
theorem drop_share (h : f.OnlyDrops) {l : List (δ × ℕ)} (hl : l.length = 2 ^ 64) :
    (f.sendAll l).Sublist (l.map Prod.fst) ∧ (f.sendAll l).length +
      (min f.dropPct 100 * (2 ^ 64 / 100) + min f.dropPct (2 ^ 64 % 100)) = 2 ^ 64 := by
  obtain ⟨hsub, hlen⟩ := h.sendAll l
  refine ⟨hsub, ?_⟩
  rw [hl, Nat.count_eq_card_filter_range] at hlen
  have hmin : ∀ k, k % 100 < f.dropPct ↔ k % 100 < min f.dropPct 100 := by
    intro k
    rw [lt_min_iff]
    exact ⟨fun hk => ⟨hk, Nat.mod_lt _ (by decide)⟩, And.left⟩
  have hrest : min (min f.dropPct 100) (2 ^ 64 % 100) = min f.dropPct (2 ^ 64 % 100) := by
    rw [min_assoc, min_eq_right (Nat.mod_lt _ (by decide)).le]
  rw [Rng.card_output f.rng fun x => x % 100 < f.dropPct] at hlen
  simp only [hmin] at hlen
  rwa [card_mod_lt (min_le_right _ _) (by decide), hrest] at hlen

/-- A period of datagrams of which three in ten are to be dropped. -/
theorem drop_share_demo : ∃ (f : FaultInjector UInt64 Unit) (l : List (Unit × ℕ)), f.dropPct = 30 ∧
    l.length = 2 ^ 64 ∧ (f.sendAll l).length + (30 * (2 ^ 64 / 100) + 16) = 2 ^ 64 := by
  let f : FaultInjector UInt64 Unit := ⟨7, 0, 30, 0, 0, 0, 0, 0, none, [], ⟨0, 0⟩⟩
  have hshare (l : List (Unit × ℕ)) (hl : l.length = 2 ^ 64) :
      (f.sendAll l).length + (30 * (2 ^ 64 / 100) + 16) = 2 ^ 64 :=
    (drop_share (f := f) ⟨rfl, rfl, rfl, rfl⟩ hl).2
  exact ⟨f, List.replicate (2 ^ 64) ((), 0), rfl, List.length_replicate,
    hshare _ List.length_replicate⟩

end FaultInjector
end Qstream

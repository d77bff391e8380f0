import Qstream.FaultRuns

/-! When the fault injector asks to be woken: its deadline beside the two stores a drain empties. -/
namespace Qstream
open Runs

namespace FaultInjector
variable {ρ δ : Type*} [RandomSource ρ] {f : FaultInjector ρ δ} {now t : ℕ}

/-- When the first delayed datagram is due. -/
def delayedDue (f : FaultInjector ρ δ) : Option ℕ := f.delayed.head?.map Prod.fst

/-- When the held datagram is released. -/
def heldDue (f : FaultInjector ρ δ) : Option ℕ := f.held.map fun e => e.1 + HOLD_MAX

omit [RandomSource ρ] in
theorem release_ne_nil_iff : (f.release t).2 ≠ [] ↔ ∃ a ∈ f.delayedDue, a ≤ t := by
  cases hqueue : f.delayed with
  | nil => simp [release, delayedDue, hqueue]
  | cons e es =>
    by_cases hdue : e.1 ≤ t
    · simp [release, delayedDue, hqueue, hdue]
    · simp [release, delayedDue, hqueue, hdue]

omit [RandomSource ρ] in
/-- A drain sends something when one of the two stores is due. -/
theorem drain_ne_nil_iff :
    (f.drain t).2 ≠ [] ↔ (∃ a ∈ f.delayedDue, a ≤ t) ∨ ∃ b ∈ f.heldDue, b ≤ t := by
  have hpositive : 0 < HOLD_MAX := by decide
  obtain ⟨heldAt, y, hheld, hdue, heq⟩ | ⟨hearly, heq⟩ := f.drain_cases t
  · refine iff_of_true (by simp [heq]) (.inr ⟨heldAt + HOLD_MAX, ?_, by omega⟩)
    simp [heldDue, hheld]
  · rw [heq, release_ne_nil_iff]
    refine ⟨.inl, fun h => h.resolve_right ?_⟩
    rintro ⟨b, hb, hle⟩
    obtain ⟨e, he, rfl⟩ := Option.mem_map.mp hb
    have := hearly e he
    omega

omit [RandomSource ρ] in
/-- The deadline is that of the delay queue, and of the held datagram when the queue is empty. -/
theorem nextDeadline_eq :
    f.nextDeadline now = (f.delayedDue.or f.heldDue).map fun d => max d (now + 1) := by
  unfold nextDeadline delayedDue heldDue
  refine congrArg (Option.map · _) (funext fun d => ?_)
  split <;> omega

omit [RandomSource ρ] in
/-- The event loop is woken in time for every release, just when the delayed datagram is not due
after the held one, or is due at once. -/
theorem nextDeadline_in_time_iff (f : FaultInjector ρ δ) (now : ℕ) :
    (∀ t > now, (f.drain t).2 ≠ [] → ∃ d, f.nextDeadline now = some d ∧ d ≤ t) ↔
      ∀ a ∈ f.delayed.head?, ∀ b ∈ f.held, a.1 ≤ b.1 + HOLD_MAX ∨ a.1 ≤ now + 1 := by
  simp only [drain_ne_nil_iff, nextDeadline_eq]
  cases hdelayed : f.delayed.head? with
  | none =>
    simp only [delayedDue, hdelayed, Option.map_none, Option.none_or, Option.map_eq_some_iff]
    refine iff_of_true (fun t ht hdue => ?_) (fun a ha => by cases ha)
    rcases hdue with ⟨a, ha, -⟩ | ⟨b, hb, hle⟩
    · cases ha
    · exact ⟨_, ⟨b, hb, rfl⟩, by omega⟩
  | some a =>
    simp only [delayedDue, hdelayed, Option.map_some, Option.some_or, Option.mem_some_iff,
      forall_eq', exists_eq_left', heldDue, Option.mem_map, Option.some.injEq]
    constructor
    · intro hwakes b hb
      by_contra hlate
      push Not at hlate
      have := hwakes (max (b.1 + HOLD_MAX) (now + 1)) (by omega)
        (.inr ⟨_, ⟨b, hb, rfl⟩, by omega⟩)
      omega
    · rintro hfirst t ht (hdue | ⟨_, ⟨b, hb, rfl⟩, hdue⟩)
      · omega
      · have := hfirst b hb
        omega

end FaultInjector

namespace Outgoing

/-- With a latency the delay queue hides the held datagram: three datagrams at once leave two
delayed and one held. -/
theorem held_datagram_unannounced : ∃ S,
    Run Step (initial (numbered 0 0 100 1000) 0) [.send 1 0, .send 2 0, .send 3 0] S ∧
    (S.injector.drain (millis 50)).2 = [3] ∧
    S.injector.nextDeadline 0 = some (millis 1000) ∧
    ¬ ∀ t > 0, (S.injector.drain t).2 ≠ [] → ∃ d, S.injector.nextDeadline 0 = some d ∧ d ≤ t := by
  have hrun : Run Step (initial (numbered 0 0 100 1000) 0) [.send 1 0, .send 2 0, .send 3 0] _ :=
    .cons ⟨by decide, rfl⟩ (.cons ⟨by decide, rfl⟩ (.cons ⟨by decide, rfl⟩ (.nil _)))
  refine ⟨_, hrun, by decide +kernel, by decide +kernel, fun hwakes => ?_⟩
  obtain ⟨d, hd, hle⟩ := hwakes (millis 50) (by decide) (by decide +kernel)
  have heq : some d = some (millis 1000) := hd.symm.trans (by decide +kernel)
  obtain rfl : d = millis 1000 := Option.some.inj heq
  exact absurd hle (by decide)

end Outgoing
end Qstream

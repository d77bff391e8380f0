import Qstream.TransferReceiverRetries
import Qstream.TransferSenderRuns

/-! Which side of a transfer waits longer when nothing arrives any more. -/
namespace Qstream.Transfer
open Runs

/-- How long a sender waits for ACKs of one window. -/
def senderWait (cfg : Settings) (count rttEst : ℕ) : ℕ :=
  ∑ k ∈ Finset.range (SENDER_RETRY_LIMIT + 1), retryInterval cfg count rttEst k

/-- How long a receiver waits after the last packet it stored. -/
def receiverWait (cfg : Settings) (gapEst : ℕ) : ℕ :=
  ∑ k ∈ Finset.range (RETRY_LIMIT + 1), adaptiveQuiet cfg gapEst k

theorem receiverWait_le (cfg : Settings) (gapEst : ℕ) : receiverWait cfg gapEst ≤ secs 72 := by
  calc receiverWait cfg gapEst ≤ (Finset.range (RETRY_LIMIT + 1)).card • secs 8 :=
        Finset.sum_le_card_nsmul _ _ _ fun k _ => min_le_right _ _
    _ = secs 72 := by rw [Finset.card_range]; decide

/-- No setting makes the ack timeout shorter than 300 milliseconds. -/
theorem le_retryInterval (cfg : Settings) (count rttEst k : ℕ) :
    min (millis 300 * 2 ^ min k 4) (secs 8) ≤ retryInterval cfg count rttEst k := by
  have hbase : millis 300 ≤ ackTimeout cfg count rttEst :=
    (Nat.mul_le_mul_right _ (le_max_right _ _)).trans (le_max_left _ _)
  exact min_le_min_right _ (Nat.mul_le_mul_right _ hbase)

theorem le_senderWait (cfg : Settings) (count rttEst : ℕ) :
    millis 134100 ≤ senderWait cfg count rttEst := by
  calc millis 134100 = ∑ k ∈ Finset.range (SENDER_RETRY_LIMIT + 1),
          min (millis 300 * 2 ^ min k 4) (secs 8) := by decide +kernel
    _ ≤ senderWait cfg count rttEst := Finset.sum_le_sum fun k _ => le_retryInterval cfg count rttEst k

/-- Whatever the settings and the estimates are, the sender waits longer. -/
theorem receiverWait_lt_senderWait (cfg : Settings) (count rttEst gapEst : ℕ) :
    receiverWait cfg gapEst < senderWait cfg count rttEst := by
  have hreceiver := receiverWait_le cfg gapEst
  have hsender := le_senderWait cfg count rttEst
  have hmargin : secs 72 < millis 134100 := by decide
  omega

namespace SenderTransfer
variable {cfg : Settings} {s t : SenderTransfer} {t0 now now' : ℕ}

/-- Since `t0` the sender has waited out the ACKs of its earlier attempts. -/
structure Waited (cfg : Settings) (t0 : ℕ) (s : SenderTransfer) (now : ℕ) : Prop where
  unsent : s.rangeSent < s.range.2 → s.ackDeadline = none
  armed : ∀ ack, s.ackDeadline = some ack →
    t0 + ∑ k ∈ Finset.range (s.retryCount + 1), retryInterval cfg s.range.2 s.rttEst k ≤ ack
  unarmed : s.ackDeadline = none →
    t0 + ∑ k ∈ Finset.range s.retryCount, retryInterval cfg s.range.2 s.rttEst k ≤ now

theorem chunkSent_rttEst (cfg : Settings) (s : SenderTransfer) (now : ℕ) :
    (s.chunkSent cfg now).rttEst = s.rttEst := by
  simp only [chunkSent]
  split <;> rfl

/-- When a chunk ends the window the ack timer is armed, else it stays as it is. -/
theorem chunkSent_ackDeadline (cfg : Settings) (s : SenderTransfer) (now : ℕ) :
    (s.chunkSent cfg now).ackDeadline =
      if (s.chunkSent cfg now).rangeSent < s.range.2 then s.ackDeadline
      else some (now + retryInterval cfg s.range.2 s.rttEst s.retryCount) := by
  rw [chunkSent_rangeSent]
  simp only [chunkSent]
  by_cases hfull : s.rangeSent + min (s.range.2 - s.rangeSent) SEND_CHUNK ≥ s.range.2
  · rw [if_pos hfull, if_neg (Nat.not_lt_of_le hfull)]
  · rw [if_neg hfull, if_pos (Nat.lt_of_not_le hfull)]

theorem Waited.tick (h : Waited cfg t0 s now) (hle : now ≤ now') {sent : List Message}
    (ht : s.tick cfg now' = (t, sent, .ok ())) :
    Waited cfg t0 t now' ∧ t.range = s.range ∧ t.rttEst = s.rttEst := by
  rcases tick_cases cfg s now' with ⟨hlt, -, heq⟩ | ⟨⟨hfull, ack, hack, hdue⟩, -, heq⟩ |
    ⟨-, -, heq⟩ | ⟨-, -, heq⟩
  · obtain rfl : s.chunkSent cfg now' = t := congrArg Prod.fst (heq.symm.trans ht)
    have hnone := h.unsent hlt
    have hbefore := h.unarmed hnone
    refine ⟨⟨fun hpart => ?_, fun ack hack => ?_, fun _ => ?_⟩, chunkSent_range _ _ _,
      chunkSent_rttEst _ _ _⟩
    · rw [chunkSent_range] at hpart
      rw [chunkSent_ackDeadline, if_pos hpart, hnone]
    · rw [chunkSent_ackDeadline] at hack
      split at hack
      · rw [hnone] at hack
        cases hack
      · obtain rfl := Option.some.inj hack
        rw [chunkSent_retryCount, chunkSent_range, chunkSent_rttEst, Finset.sum_range_succ]
        omega
    · rw [chunkSent_retryCount, chunkSent_range, chunkSent_rttEst]
      omega
  · obtain rfl : { s with
        retryCount := s.retryCount + 1, rangeSent := 0, ackDeadline := none,
        sendDeadline := now' } = t := congrArg Prod.fst (heq.symm.trans ht)
    exact ⟨⟨fun _ => rfl, fun _ hnew => (by cases hnew), fun _ => (h.armed ack hack).trans hdue⟩,
      rfl, rfl⟩
  · cases congrArg (fun x => x.2.2) (heq.symm.trans ht)
  · obtain rfl : s = t := congrArg Prod.fst (heq.symm.trans ht)
    exact ⟨⟨h.unsent, h.armed, fun hnone => (h.unarmed hnone).trans hle⟩, rfl, rfl⟩

/-- Giving up takes the timeouts of all attempts. -/
theorem Waited.giveUp (h : Waited cfg t0 s now) {e : SenderError}
    (ht : (s.tick cfg now').2.2 = .error e) : t0 + senderWait cfg s.range.2 s.rttEst ≤ now' := by
  rcases tick_cases cfg s now' with ⟨-, -, heq⟩ | ⟨-, -, heq⟩ | ⟨⟨-, ack, hack, hdue⟩, hlast, -⟩ |
    ⟨-, -, heq⟩
  · rw [heq] at ht
    cases ht
  · rw [heq] at ht
    cases ht
  · have harmed := h.armed ack hack
    have hall : senderWait cfg s.range.2 s.rttEst ≤
        ∑ k ∈ Finset.range (s.retryCount + 1), retryInterval cfg s.range.2 s.rttEst k :=
      Finset.sum_le_sum_of_subset (Finset.range_subset_range.mpr (Nat.succ_le_succ hlast))
    omega
  · rw [heq] at ht
    cases ht

theorem Waited.run {times : List ℕ} (h : Waited cfg t0 s now)
    (hrun : Run (SenderStep cfg) s (times.map .tick) t) (hsorted : (now :: times).Pairwise (· ≤ ·)) :
    (∃ last, Waited cfg t0 t last) ∧ t.range = s.range ∧ t.rttEst = s.rttEst := by
  induction times generalizing s now with
  | nil =>
    cases hrun
    exact ⟨⟨now, h⟩, rfl, rfl⟩
  | cons x times ih =>
    obtain ⟨hle, hrest⟩ := List.pairwise_cons.mp hsorted
    cases hrun with
    | cons hstep hrun =>
      cases hstep with
      | tick ht =>
        obtain ⟨hwaited, hrange, hrtt⟩ := h.tick (hle x List.mem_cons_self) ht
        obtain ⟨hlast, hrange', hrtt'⟩ := ih hwaited hrun hrest
        exact ⟨hlast, hrange'.trans hrange, hrtt'.trans hrtt⟩

end SenderTransfer

namespace ReceiverTransfer
variable {cfg : Settings} {r : ReceiverTransfer} {N s c now : ℕ} {clk : Clock}

/-- With packets in store, a quiet period that is over is all a tick acts on. -/
theorem InRange.onTick_quiet (h : r.InRange N s c) (hlen : r.packets.len ≠ 0)
    (hnow : r.quietDeadline ≤ now) :
    (r.onTick cfg now clk).1 = (r.quietExpired cfg now clk).1 := by
  have hresend : r.resendRequest cfg now = (r, []) := if_neg fun hdue => hlen hdue.1
  have hfirst : ¬ (now ≥ r.firstResponseDeadline ∧ r.packets.len = 0) := fun hdue => hlen hdue.2
  simp only [onTick, h.outcome, Option.isSome_none, Bool.false_eq_true, if_false, hresend,
    if_neg hfirst, ge_iff_le, if_pos hnow]

/-- The quiet period runs out while retries are left. -/
theorem InRange.quietExpired_retries (h : r.InRange N s c) (hfew : r.retryCount < RETRY_LIMIT) :
    let t := (r.quietExpired cfg now clk).1
    t.outcome = none ∧ t.retryCount = r.retryCount + 1 ∧ t.gapEst = r.gapEst ∧
      t.backoff = min (r.backoff + 1) 4 ∧
      t.quietDeadline = now + adaptiveQuiet cfg r.gapEst (min (r.backoff + 1) 4) := by
  obtain ⟨s', c', hrange, hmissing⟩ := h.asks
  generalize hquiet : now + adaptiveQuiet cfg r.gapEst (min (r.backoff + 1) 4) = quiet
  simp only [quietExpired, hrange, hquiet]
  split
  next hcomplete => exact absurd hcomplete (Bool.eq_false_iff.mp hmissing)
  split
  next hover => exact absurd hover (Nat.not_lt_of_le hfew)
  next => exact ⟨h.outcome, rfl, rfl, rfl, rfl⟩

/-- And while none is left. -/
theorem InRange.quietExpired_last (h : r.InRange N s c) (hnone : RETRY_LIMIT ≤ r.retryCount) :
    (r.quietExpired cfg now clk).1.outcome ≠ none := by
  rcases quietExpired_cases cfg r now clk with hdone | ⟨-, -, ⟨-, hmore, hfew⟩ | ⟨hidle, -⟩⟩
  · exact hdone
  · omega
  · exact absurd h.asks hidle

/-- The tick that comes when the quiet period runs out. -/
def quietTick (cfg : Settings) (clk : Clock) (r : ReceiverTransfer) : ReceiverTransfer :=
  (r.onTick cfg r.quietDeadline clk).1

theorem adaptiveQuiet_min (cfg : Settings) (gapEst k : ℕ) :
    adaptiveQuiet cfg gapEst (min k 4) = adaptiveQuiet cfg gapEst k := by
  simp only [adaptiveQuiet, min_assoc, min_self]

/-- From a packet stored at `t0` on, the quiet periods grow with the backoff. -/
theorem quietTick_iterate (h : r.InRange N s c) (hlen : r.packets.len ≠ 0) (hbackoff : r.backoff = 0)
    {t0 : ℕ} (hstart : r.quietDeadline = t0 + adaptiveQuiet cfg r.gapEst 0) {k : ℕ}
    (hk : r.retryCount + k ≤ RETRY_LIMIT) :
    let t := (quietTick cfg clk)^[k] r
    t.InRange N s c ∧ t.packets = r.packets ∧ t.gapEst = r.gapEst ∧ t.backoff = min k 4 ∧
      t.retryCount = r.retryCount + k ∧
      t.quietDeadline = t0 + ∑ i ∈ Finset.range (k + 1), adaptiveQuiet cfg r.gapEst i := by
  induction k with
  | zero => exact ⟨h, rfl, rfl, hbackoff, rfl, by simpa using hstart⟩
  | succ k ih =>
    obtain ⟨hin, hpk, hgap, hback, hretry, hquiet⟩ := ih (by omega)
    rw [Function.iterate_succ_apply']
    generalize (quietTick cfg clk)^[k] r = t at *
    have hexpired : quietTick cfg clk t = (t.quietExpired cfg t.quietDeadline clk).1 :=
      hin.onTick_quiet (by rwa [hpk]) le_rfl
    obtain ⟨hout, hmore, hgap', hback', hquiet'⟩ :=
      @InRange.quietExpired_retries cfg t N s c t.quietDeadline clk hin (by omega)
    obtain ⟨hsame, -, -⟩ := quietExpired_spec cfg t t.quietDeadline clk
    have hcap : min (min k 4 + 1) 4 = min (k + 1) 4 := by omega
    simp only [hexpired]
    refine ⟨hsame.inRange hout hin, hsame.packets.trans hpk, hgap'.trans hgap, ?_, ?_, ?_⟩
    · rw [hback', hback, hcap]
    · omega
    · rw [hquiet', hquiet, hback, hcap, hgap, adaptiveQuiet_min, Finset.sum_range_succ _ (k + 1)]
      omega

end ReceiverTransfer

/-- The sender outlives the receiver: from any moment on it waits longer for the ACKs of a
window than the receiver does after the last packet it stored. The receiver fails when it has
waited for so long, or earlier when it had asked again before that packet; the sender goes on
with its window, however its ticks fall, until it has waited for so long. -/
theorem sender_outlives_receiver (cfg : Settings) :
    (∀ count rttEst gapEst, receiverWait cfg gapEst < senderWait cfg count rttEst) ∧
    (∀ (r : ReceiverTransfer) (N s c t0 : ℕ) (clk : Clock), r.InRange N s c → r.packets.len ≠ 0 →
      r.backoff = 0 → r.quietDeadline = t0 + adaptiveQuiet cfg r.gapEst 0 →
      r.retryCount ≤ RETRY_LIMIT →
      let t := (ReceiverTransfer.quietTick cfg clk)^[RETRY_LIMIT - r.retryCount] r
      t.outcome = none ∧ (t.quietTick cfg clk).outcome ≠ none ∧
        t.quietDeadline ≤ t0 + receiverWait cfg r.gapEst ∧
        (r.retryCount = 0 → t.quietDeadline = t0 + receiverWait cfg r.gapEst)) ∧
    ∀ (s t : SenderTransfer) (t0 now : ℕ) (times : List ℕ), s.retryCount = 0 →
      s.ackDeadline = none → Run (SenderStep cfg) s (times.map .tick) t →
      (t0 :: times).Pairwise (· ≤ ·) → now < t0 + senderWait cfg s.range.2 s.rttEst →
      (t.tick cfg now).2.2 = .ok () := by
  refine ⟨receiverWait_lt_senderWait cfg, fun r N s c t0 clk h hlen hbackoff hstart hretry => ?_,
    fun s t t0 now times hretry hack hrun hsorted hnow => ?_⟩
  · obtain ⟨hin, hpk, -, -, hcount, hquiet⟩ := @ReceiverTransfer.quietTick_iterate cfg r N s c
      clk h hlen hbackoff t0 hstart (RETRY_LIMIT - r.retryCount) (by omega)
    intro t
    have hlast : (t.quietTick cfg clk).outcome ≠ none := by
      have hexpired : t.quietTick cfg clk = (t.quietExpired cfg t.quietDeadline clk).1 :=
        hin.onTick_quiet (by rwa [hpk]) le_rfl
      rw [hexpired]
      exact hin.quietExpired_last (by omega)
    refine ⟨hin.outcome, hlast, ?_, fun hzero => ?_⟩
    · rw [hquiet]
      exact Nat.add_le_add_left
        (Finset.sum_le_sum_of_subset (Finset.range_subset_range.mpr (by omega))) t0
    · rw [hquiet, hzero]
      rfl
  · have hwaited : s.Waited cfg t0 t0 :=
      ⟨fun _ => hack, fun ack h => absurd (hack.symm.trans h) (Option.some_ne_none _).symm,
        fun _ => by rw [hretry]; exact le_rfl⟩
    obtain ⟨⟨last, hlast⟩, hrange, hrtt⟩ := hwaited.run hrun hsorted
    cases hresult : (t.tick cfg now).2.2 with
    | ok u => rfl
    | error e =>
      have hlate := hlast.giveUp hresult
      rw [hrange, hrtt] at hlate
      omega

/-- A receiver with one of two packets, and a sender of one packet a hundred seconds later. -/
theorem sender_outlives_receiver_demo :
    (∃ r : ReceiverTransfer, r.InRange 2 1 2 ∧
      ((ReceiverTransfer.quietTick defaultSettings fun _ => 0)^[8] r).quietDeadline =
        receiverWait defaultSettings r.gapEst) ∧
    ∃ t, Run (SenderStep defaultSettings)
        (SenderTransfer.new (fun _ => 0) 7 unspecifiedEndpoint [1, 2, 3]) [.tick 0] t ∧
      (t.tick defaultSettings (secs 100)).2.2 = .ok () := by
  obtain ⟨-, hreceiver, hsender⟩ := sender_outlives_receiver defaultSettings
  constructor
  · have hfresh := ReceiverTransfer.new_fresh defaultSettings (fun _ => 0) 7 unspecifiedEndpoint
      "seg_1.ts"
    rcases hfresh.onContent_opened (N := 2) (by decide) (by decide) defaultSettings
      ⟨fun _ => 0, default, .ok, 0⟩ ⟨∅, ["srv"], fun _ => none⟩ 1 [1] with ⟨hin, -⟩ | ⟨hout, -⟩
    · refine ⟨_, hin, ?_⟩
      have hwait := (hreceiver _ 2 1 2 0 (fun _ => 0) hin (by decide +kernel) (by decide +kernel)
        (by decide +kernel) (by decide +kernel)).2.2.2 (by decide +kernel)
      rwa [Nat.zero_add] at hwait
    · exact absurd (by decide +kernel) hout
  · have hrun : Run (SenderStep defaultSettings)
        (SenderTransfer.new (fun _ => 0) 7 unspecifiedEndpoint [1, 2, 3]) ([0].map .tick) _ :=
      .one (.tick (SenderTransfer.tick_send defaultSettings (by decide) (by decide)))
    refine ⟨_, hrun, hsender _ _ 0 (secs 100) [0] rfl rfl hrun (by simp) ?_⟩
    have hwait := le_senderWait defaultSettings 1 (millis 250)
    have hnow : secs 100 < millis 134100 := by decide
    exact hnow.trans_le (hwait.trans (Nat.le_add_left _ _))

end Qstream.Transfer

import Qstream.Runs
import Qstream.TransferReceiverPatience
import Qstream.TransferReceiverRuns

/-! When a receiver asks to be woken: its reported deadline beside the timers a tick acts on. -/
namespace Qstream.Transfer
open Runs

namespace ReceiverTransfer
variable {cfg : Settings} {env : World} {r t : ReceiverTransfer} {dir : Dir} {now : ℕ} {clk : Clock}

/-- When the request is due to be repeated. -/
def resendAt (cfg : Settings) (r : ReceiverTransfer) : ℕ :=
  r.startedAt + millis cfg.firstTimeoutMs / 2

/-- Until content comes or the request is repeated, the first-response timeout is that of the
request. -/
def AwaitsFirst (cfg : Settings) (r : ReceiverTransfer) : Prop :=
  r.total = none → r.requestResent = false →
    r.firstResponseDeadline = r.startedAt + millis cfg.firstTimeoutMs

/-- The request is to be repeated at `now`. -/
def ResendDue (cfg : Settings) (r : ReceiverTransfer) (now : ℕ) : Prop :=
  r.packets.len = 0 ∧ r.requestResent = false ∧ r.resendAt cfg ≤ now

/-- The receiver with the request repeated at `now`. -/
def resent (cfg : Settings) (r : ReceiverTransfer) (now : ℕ) : ReceiverTransfer :=
  { r with requestResent := true, firstResponseDeadline := now + millis cfg.firstTimeoutMs }

theorem resendRequest_of_due (h : r.ResendDue cfg now) :
    r.resendRequest cfg now = (r.resent cfg now, [r.requestMessage]) := if_pos h

theorem resendRequest_of_not_due (h : ¬ r.ResendDue cfg now) :
    r.resendRequest cfg now = (r, []) := if_neg h

/-- A finished download ignores ticks. -/
theorem onTick_finished (hout : r.outcome ≠ none) : r.onTick cfg now clk = (r, []) := by
  unfold onTick
  rw [if_pos (Option.isSome_iff_ne_none.mpr hout)]

/-- A quiet period that runs out leaves the first-response timeout alone. -/
theorem quietExpired_first (cfg : Settings) (r : ReceiverTransfer) (now : ℕ) (clk : Clock) :
    (r.quietExpired cfg now clk).1.firstResponseDeadline = r.firstResponseDeadline ∧
      (r.quietExpired cfg now clk).1.requestResent = r.requestResent := by
  cases hrg : r.range with
  | none =>
    simp only [quietExpired, hrg]
    exact ⟨trivial, trivial⟩
  | some rg =>
    simp only [quietExpired, hrg]
    split
    · exact ⟨rfl, rfl⟩
    split <;> exact ⟨rfl, rfl⟩

theorem AwaitsFirst.tick (h : r.AwaitsFirst cfg) (now : ℕ) (clk : Clock) :
    (r.onTick cfg now clk).1.AwaitsFirst cfg := by
  by_cases hout : r.outcome = none
  swap
  · rwa [onTick_finished hout]
  simp only [onTick, hout, Option.isSome_none, Bool.false_eq_true, if_false]
  by_cases hdue : r.ResendDue cfg now
  · -- from now on the request counts as repeated
    rw [resendRequest_of_due hdue]
    dsimp only
    split
    · exact fun _ hnot => Bool.noConfusion hnot
    split
    · intro _ hnot
      rw [(quietExpired_first cfg (r.resent cfg now) now clk).2] at hnot
      cases hnot
    · exact fun _ hnot => Bool.noConfusion hnot
  · rw [resendRequest_of_not_due hdue]
    dsimp only
    split
    · exact h
    split
    · obtain ⟨hsame, -, -⟩ := quietExpired_spec cfg r now clk
      obtain ⟨hfirst, hresent⟩ := quietExpired_first cfg r now clk
      intro htotal hnot
      rw [hsame.total] at htotal
      rw [hresent] at hnot
      rw [hfirst, hsame.same.startedAt]
      exact h htotal hnot
    · exact h

variable {p total : ℕ} {d : Bytes}

theorem latchTotal_total (cfg : Settings) (clk : Clock) (r : ReceiverTransfer) (total : ℕ) :
    (r.latchTotal cfg clk total).total ≠ none := by
  unfold latchTotal
  split
  next h => exact h ▸ Option.some_ne_none _
  next => exact Option.some_ne_none _

/-- Content that a download in progress is given fixes its total. -/
theorem AwaitsFirst.content (h : r.AwaitsFirst cfg) :
    (r.onContent cfg env dir p total d).1.AwaitsFirst cfg := by
  have hlatched := latchTotal_total cfg env.clk r total
  have hstored : ((r.latchTotal cfg env.clk total).store cfg env.clk p d).total ≠ none := hlatched
  have hcomplete (t : ReceiverTransfer) : (t.complete env dir).1.total = t.total := by
    simp only [complete]
    split <;> rfl
  have hres := onContent_result cfg env r dir p total d
  generalize r.onContent cfg env dir p total d = res at hres ⊢
  cases hres with
  | saved => exact h
  | failed => exact h
  | dropped | nudged => exact fun hnone => absurd hnone hlatched
  | stored => exact fun hnone => absurd hnone hstored
  | advanced =>
    intro hnone
    simp only [advance] at hnone
    split at hnone
    · exact absurd ((hcomplete _).symm.trans hnone) hstored
    · exact absurd hnone hstored
  | completed => exact fun hnone => absurd ((hcomplete _).symm.trans hnone) hstored

end ReceiverTransfer

namespace Download
open ReceiverTransfer
variable {cfg : Settings} {S T : Download} {e : ReceiverEvent} {es : List ReceiverEvent}

def Step (cfg : Settings) (S : Download) (e : ReceiverEvent) (T : Download) : Prop :=
  T = S.apply cfg e

end Download
end Qstream.Transfer

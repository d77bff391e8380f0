import Qstream.TransferReceiverWindow

/-! How long a download can wait: every content that counts and every timer that runs out uses
up some of a finite patience, and nothing gives it back. -/
namespace Qstream.Transfer

namespace ReceiverTransfer
variable {cfg : Settings} {env : World} {r t : ReceiverTransfer} {dir : Dir} {N s c p total : ℕ}
variable {d : Bytes} {now : ℕ} {clk : Clock}

/-- A first content claimed a file of no packets: nothing will ever be stored. -/
structure Empty (r : ReceiverTransfer) : Prop where
  outcome : r.outcome = none
  total : r.total = some 0
  range : r.range = some (1, 0)
  packets : r.packets = ∅

/-- A download without an outcome, however its first content looks. -/
inductive Live (r : ReceiverTransfer) : Prop
  | fresh (h : r.Fresh)
  | window {N s c : ℕ} (h : r.InRange N s c)
  | empty (h : r.Empty)

theorem Live.outcome (h : r.Live) : r.outcome = none := by
  cases h with
  | fresh h => exact h.outcome
  | window h => exact h.outcome
  | empty h => exact h.outcome

theorem SameProgress.live (h : SameProgress r t) (hout : t.outcome = none) (hr : r.Live) :
    t.Live := by
  cases hr with
  | fresh hf => exact .fresh (h.fresh hout hf)
  | window hw => exact .window (h.inRange hout hw)
  | empty he =>
    exact .empty ⟨hout, h.total.trans he.total, h.range.trans he.range, h.packets.trans he.packets⟩

/-- Packets still to come, the resend still to make, and retries left. -/
def patience (r : ReceiverTransfer) : ℕ :=
  20 * (if r.total.isSome then 65535 - r.packets.len else 65536) +
    (if r.requestResent then 0 else 10) + (RETRY_LIMIT + 1 - r.retryCount)

/-- The deadline whose passing uses up patience. -/
def due (r : ReceiverTransfer) : ℕ :=
  if r.packets.len = 0 then r.firstResponseDeadline else r.quietDeadline

theorem patience_latchTotal (cfg : Settings) (clk : Clock) (h : r.total = none) (total : ℕ) :
    (r.latchTotal cfg clk total).patience < r.patience := by
  simp only [latchTotal, h, patience, Option.isSome_some, Option.isSome_none, if_true,
    Bool.false_eq_true, if_false]
  omega

theorem len_store (cfg : Settings) (clk : Clock) (h : p ∉ r.packets) :
    (r.store cfg clk p d).packets.len = r.packets.len + 1 := by
  rw [store_packets, HashMap.len, HashMap.len, AList.entries_insert_of_notMem h, List.length_cons]

/-- Content does not touch what is remembered of the request. -/
theorem onContent_requestResent (cfg : Settings) (env : World) (r : ReceiverTransfer) (dir : Dir)
    (p total : ℕ) (d : Bytes) :
    (r.onContent cfg env dir p total d).1.requestResent = r.requestResent := by
  have hlatch : (r.latchTotal cfg env.clk total).requestResent = r.requestResent := by
    unfold latchTotal
    split <;> rfl
  have hcomplete (r : ReceiverTransfer) : (r.complete env dir).1.requestResent = r.requestResent := by
    simp only [complete]
    split <;> rfl
  have hadvance (r : ReceiverTransfer) (s c N : ℕ) :
      (r.advance cfg env dir s c N).1.requestResent = r.requestResent := by
    simp only [advance]
    split
    · exact hcomplete r
    · rfl
  have hstore : ((r.latchTotal cfg env.clk total).store cfg env.clk p d).requestResent =
      r.requestResent := hlatch
  have hres := onContent_result cfg env r dir p total d
  generalize r.onContent cfg env dir p total d = res at hres ⊢
  cases hres with
  | saved => rfl
  | failed => rfl
  | dropped => exact hlatch
  | nudged => exact hlatch
  | stored => exact hstore
  | advanced => exact (hadvance _ _ _ _).trans hstore
  | completed => exact (hcomplete _).trans hstore

/-- A packet in store outweighs the retries it gives back. -/
theorem InRange.patience_lt (h : r.InRange N s c) (htotal : t.total = some N)
    (hlen : t.packets.len = r.packets.len + 1) (hresent : t.requestResent = r.requestResent) :
    t.patience < r.patience := by
  have hfew := h.len_lt
  have hN := h.total_le
  simp only [patience, htotal, h.total, Option.isSome_some, if_true, hlen, hresent]
  have hlimit : RETRY_LIMIT = 8 := rfl
  omega

theorem onContent_empty (h : r.Empty) (p total : ℕ) (d : Bytes) :
    (r.onContent cfg env dir p total d).1 = r := by
  have hp : p = 0 ∨ p > 0 := Nat.eq_zero_or_pos p
  simp only [onContent, h.outcome, latchTotal_of_some cfg env.clk r h.total, h.total, h.range,
    if_pos hp]

theorem InRange.content (h : r.InRange N s c) (cfg : Settings) (env : World) (dir : Dir)
    (p total : ℕ) (d : Bytes) :
    (r.onContent cfg env dir p total d).1 = r ∨
      (r.onContent cfg env dir p total d).1.outcome ≠ none ∨
      ((r.onContent cfg env dir p total d).1.Live ∧
        (r.onContent cfg env dir p total d).1.patience < r.patience) := by
  rcases @onContent_inRange cfg env r dir N s c p d h total with ⟨-, heq⟩ | ⟨-, -, -, heq⟩ |
    ⟨-, -, -, heq⟩ | ⟨hnew, -, -, hstore⟩
  · exact .inl (by rw [heq])
  · exact .inl (by rw [heq])
  · exact .inl (by rw [heq])
  have hlen := len_store (d := d) cfg env.clk hnew
  rcases hstore with ⟨hin, heq⟩ | ⟨hleft, r2, heq, hin, hpk, -⟩ | ⟨-, heq⟩
  · rw [heq]
    exact .inr (.inr ⟨.window hin, h.patience_lt hin.total hlen rfl⟩)
  · have hresent := onContent_requestResent cfg env r dir p total d
    rw [heq] at hresent ⊢
    exact .inr (.inr ⟨.window hin, h.patience_lt hin.total (by rw [hpk, hlen]) hresent⟩)
  · rw [heq]
    exact .inr (.inl (complete_outcome _ _ _))

/-- Content leaves a download as it is, ends it, or uses up patience. -/
theorem Live.content (h : r.Live) (ht : total < 65536) :
    (r.onContent cfg env dir p total d).1 = r ∨
      (r.onContent cfg env dir p total d).1.outcome ≠ none ∨
      ((r.onContent cfg env dir p total d).1.Live ∧
        (r.onContent cfg env dir p total d).1.patience < r.patience) := by
  cases h with
  | empty he => exact .inl (onContent_empty he p total d)
  | window hw => exact hw.content cfg env dir p total d
  | fresh hf =>
    have hless := patience_latchTotal cfg env.clk hf.total total
    rcases Nat.eq_zero_or_pos total with rfl | hpos
    · have hempty : (r.latchTotal cfg env.clk 0).Empty := by
        constructor <;> simp [latchTotal, hf.total, hf.outcome, hf.packets]
      have hcontent : r.onContent cfg env dir p 0 d =
          (r.latchTotal cfg env.clk 0).onContent cfg env dir p 0 d := by
        simp only [onContent, hf.outcome, hempty.outcome,
          latchTotal_of_some cfg env.clk _ hempty.total]
      rw [hcontent, onContent_empty hempty]
      exact .inr (.inr ⟨.empty hempty, hless⟩)
    · have hopened := latchTotal_inRange cfg env.clk hf hpos (Nat.le_of_lt_succ ht)
      rw [onContent_of_fresh hf hpos (Nat.le_of_lt_succ ht)]
      rcases hopened.content cfg env dir p total d with heq | hout | ⟨hlive, hlt⟩
      · rw [heq]
        exact .inr (.inr ⟨.window hopened, hless⟩)
      · exact .inr (.inl hout)
      · exact .inr (.inr ⟨hlive, hlt.trans hless⟩)

/-- The receiver has a range to ask for again. -/
def Asks (r : ReceiverTransfer) : Prop :=
  ∃ s c, r.range = some (s, c) ∧ r.rangeComplete s c = false

theorem InRange.asks (h : r.InRange N s c) : r.Asks := by
  obtain ⟨q, hlo, hhi, hq⟩ := h.missing
  have hN := h.total_le
  have hfits := h.fits
  refine ⟨s, c, h.range, Bool.eq_false_iff.mpr fun hcomplete => ?_⟩
  exact hq ((rangeComplete_iff (by omega)).mp hcomplete q hlo hhi)

/-- The quiet timer fails the download, uses up a retry, or finds nothing to ask for. -/
theorem quietExpired_cases (cfg : Settings) (r : ReceiverTransfer) (now : ℕ) (clk : Clock) :
    let t := (r.quietExpired cfg now clk).1
    t.outcome ≠ none ∨
      (t.requestResent = r.requestResent ∧ t.firstResponseDeadline = r.firstResponseDeadline ∧
        (r.Asks ∧ t.retryCount = r.retryCount + 1 ∧ t.retryCount ≤ RETRY_LIMIT ∨
          ¬ r.Asks ∧ t.retryCount = r.retryCount)) := by
  cases hrg : r.range with
  | none =>
    have hnot : ¬ r.Asks := fun ⟨s, c, hsome, _⟩ => by simp [hrg] at hsome
    simp only [quietExpired, hrg]
    exact .inr ⟨trivial, trivial, .inr ⟨hnot, trivial⟩⟩
  | some rg =>
    obtain ⟨s, c⟩ := rg
    have hasks : r.Asks ↔ r.rangeComplete s c = false := by simp [Asks, hrg]
    simp only [quietExpired, hrg]
    split
    next hcomplete =>
      exact .inr ⟨rfl, rfl, .inr ⟨hasks.not.mpr (Bool.ne_false_iff.mpr hcomplete), rfl⟩⟩
    next hmissing =>
    split
    next => exact .inl (Option.some_ne_none _)
    next hretry =>
      exact .inr ⟨rfl, rfl, .inl ⟨hasks.mpr (Bool.eq_false_iff.mpr hmissing), rfl,
        Nat.le_of_not_lt hretry⟩⟩

/-- Where there is nothing to ask for again, nothing is stored yet. -/
theorem Live.len_eq_zero (h : r.Live) (hidle : ¬ r.Asks) : r.packets.len = 0 := by
  cases h with
  | fresh hf => rw [hf.packets]; rfl
  | empty he => rw [he.packets]; rfl
  | window hw => exact absurd hw.asks hidle

theorem SameProgress.patience (h : SameProgress r t) (hresent : t.requestResent = r.requestResent) :
    t.patience + (RETRY_LIMIT + 1 - r.retryCount) =
      r.patience + (RETRY_LIMIT + 1 - t.retryCount) := by
  simp only [ReceiverTransfer.patience, h.total, h.packets, hresent]
  omega

/-- When the request is not repeated, a tick ends the download, uses up patience, or comes before
the deadline, which stays. -/
theorem Live.tick_rest (h : r.Live) {t : ReceiverTransfer}
    (ht : t = if now ≥ r.firstResponseDeadline ∧ r.packets.len = 0 then
        r.failUnresponsive (clk 0) (.noResponse r.remote r.filename)
      else if now ≥ r.quietDeadline then (r.quietExpired cfg now clk).1 else r) :
    t.outcome ≠ none ∨ (t.Live ∧ (t.patience < r.patience ∨
      (t.patience = r.patience ∧ t.due = r.due ∧ now < r.due))) := by
  split at ht
  next => exact .inl (by rw [ht]; exact Option.some_ne_none _)
  next hfirst =>
  split at ht
  next hquiet =>
    obtain ⟨hsame, -, -⟩ := quietExpired_spec cfg r now clk
    have hcases := quietExpired_cases cfg r now clk
    simp only at hcases
    rw [← ht] at hsame hcases
    by_cases hout : t.outcome = none
    · obtain ⟨hresent, hdeadline, hretry⟩ := hcases.resolve_left (fun hne => hne hout)
      have hpatience := hsame.patience hresent
      refine .inr ⟨hsame.live hout h, ?_⟩
      rcases hretry with ⟨-, hmore, hfew⟩ | ⟨hidle, hkept⟩
      · exact .inl (by omega)
      · have hzero := h.len_eq_zero hidle
        have hdue : r.due = r.firstResponseDeadline := if_pos hzero
        have hdue' : t.due = t.firstResponseDeadline := if_pos (by rw [hsame.packets, hzero])
        refine .inr ⟨by omega, by rw [hdue, hdue', hdeadline], ?_⟩
        rw [hdue]
        exact Nat.lt_of_not_le fun hle => hfirst ⟨hle, hzero⟩
    · exact .inl hout
  next hquiet =>
    subst ht
    refine .inr ⟨h, .inr ⟨rfl, rfl, ?_⟩⟩
    unfold due
    split
    next hzero => exact Nat.lt_of_not_le fun hle => hfirst ⟨hle, hzero⟩
    next => exact Nat.lt_of_not_le hquiet

/-- A tick ends the download, uses up patience, or comes before the deadline, which stays. -/
theorem Live.tick (h : r.Live) (cfg : Settings) (now : ℕ) (clk : Clock) :
    (r.onTick cfg now clk).1.outcome ≠ none ∨ ((r.onTick cfg now clk).1.Live ∧
      ((r.onTick cfg now clk).1.patience < r.patience ∨
        ((r.onTick cfg now clk).1.patience = r.patience ∧
          (r.onTick cfg now clk).1.due = r.due ∧ now < r.due))) := by
  obtain ⟨r1, sent1, hres⟩ : ∃ r1 sent1, r.resendRequest cfg now = (r1, sent1) := ⟨_, _, rfl⟩
  have htick : (r.onTick cfg now clk).1 =
      if now ≥ r1.firstResponseDeadline ∧ r1.packets.len = 0 then
        r1.failUnresponsive (clk 0) (.noResponse r1.remote r1.filename)
      else if now ≥ r1.quietDeadline then (r1.quietExpired cfg now clk).1 else r1 := by
    simp only [onTick, h.outcome, Option.isSome_none, Bool.false_eq_true, if_false, hres]
    split
    · rfl
    split <;> rfl
  unfold resendRequest at hres
  split at hres
  next hresend =>
    -- the repeated request has used up patience already
    cases hres
    have hsame : SameProgress r { r with
        requestResent := true
        firstResponseDeadline := now + millis cfg.firstTimeoutMs } :=
      ⟨⟨rfl, rfl, rfl, rfl⟩, rfl, rfl, rfl, rfl⟩
    have hless : patience { r with
        requestResent := true
        firstResponseDeadline := now + millis cfg.firstTimeoutMs } < r.patience := by
      simp only [patience, hresend.2.1, Bool.false_eq_true, if_false, if_true]
      omega
    rcases (hsame.live h.outcome h).tick_rest htick with hout | ⟨hlive', hlt | ⟨heq, -, -⟩⟩
    · exact .inl hout
    · exact .inr ⟨hlive', .inl (hlt.trans hless)⟩
    · exact .inr ⟨hlive', .inl (by omega)⟩
  next =>
    cases hres
    exact h.tick_rest htick

end ReceiverTransfer
end Qstream.Transfer

import Qstream.Runs
import Qstream.TransferSender

/-! Runs of one sender under arbitrary ticks and Progress ACKs. The window stays
inside the file whatever the ACKs name; giving up in the end is guaranteed exactly
as long as they name at least one packet of it. -/
namespace Qstream.Transfer
open Runs

inductive SenderEvent
  | tick (now : ℕ)
  | progress (clk : Clock) (nextStart nextCount : ℕ)

/-- One event of a sender's life; a tick that gives up ends it. -/
inductive SenderStep (cfg : Settings) : SenderTransfer → SenderEvent → SenderTransfer → Prop
  | tick {s t : SenderTransfer} {now : ℕ} {sent : List Message}
      (h : s.tick cfg now = (t, sent, .ok ())) : SenderStep cfg s (.tick now) t
  | progress {s : SenderTransfer} {clk : Clock} {nextStart nextCount : ℕ} :
      SenderStep cfg s (.progress clk nextStart nextCount)
        (s.onAck cfg clk .progress nextStart nextCount).1

/-- A Progress ACK that names at least one of the packets `1..total`. -/
def NamesPackets (total nextStart nextCount : ℕ) : Prop :=
  1 ≤ nextStart ∧ nextStart ≤ total ∧ 1 ≤ nextCount

instance (total nextStart nextCount : ℕ) : Decidable (NamesPackets total nextStart nextCount) :=
  inferInstanceAs (Decidable (_ ∧ _ ∧ _))

def SenderEvent.Proper (total : ℕ) : SenderEvent → Prop
  | .tick _ => True
  | .progress _ nextStart nextCount => NamesPackets total nextStart nextCount

namespace SenderTransfer

/-- The window lies inside the file's packets. -/
structure WindowInv (s : SenderTransfer) : Prop where
  total : s.totalPackets = packetCount s.file.length
  start_pos : 1 ≤ s.range.1
  fits : s.range.1 + s.range.2 ≤ s.totalPackets + 1
  sent_le : s.rangeSent ≤ s.range.2

/-- Either packets of a non-empty window remain unsent or the ack timer is armed. -/
structure Live (s : SenderTransfer) : Prop where
  count_pos : 0 < s.range.2
  unsent_or_armed : s.rangeSent < s.range.2 ∨ s.ackDeadline.isSome

theorem new_windowInv (clk : Clock) (id : ℕ) (remote : SocketAddr) (file : Bytes) :
    (new clk id remote file).WindowInv := by
  refine ⟨rfl, le_rfl, ?_, Nat.zero_le _⟩
  simp only [new]
  omega

theorem new_live (clk : Clock) (id : ℕ) (remote : SocketAddr) (file : Bytes) :
    (new clk id remote file).Live := by
  have hpos : 0 < min INITIAL_WINDOW (packetCount file.length) :=
    lt_min (by decide) (packetCount_pos _)
  exact ⟨hpos, .inl hpos⟩

theorem tick_windowInv {cfg : Settings} {s t : SenderTransfer} {now : ℕ} {sent : List Message}
    (h : s.tick cfg now = (t, sent, .ok ())) (hi : s.WindowInv) : t.WindowInv := by
  rcases tick_ok_cases h with ⟨hlt, rfl, -⟩ | ⟨-, -, -, -, rfl⟩ | ⟨-, rfl⟩
  · obtain ⟨-, -, htot, hfile⟩ := chunkSent_same cfg s now
    refine ⟨by rw [htot, hfile]; exact hi.total, by simpa using hi.start_pos,
      by simpa [htot] using hi.fits, ?_⟩
    simp only [chunkSent_rangeSent, chunkSent_range]
    omega
  · exact ⟨hi.total, hi.start_pos, hi.fits, Nat.zero_le _⟩
  · exact hi

theorem tick_live {cfg : Settings} {s t : SenderTransfer} {now : ℕ} {sent : List Message}
    (h : s.tick cfg now = (t, sent, .ok ())) (hl : s.Live) : t.Live := by
  rcases tick_ok_cases h with ⟨-, rfl, -⟩ | ⟨-, -, -, -, rfl⟩ | ⟨-, rfl⟩
  · refine ⟨by simpa using hl.count_pos, ?_⟩
    rcases Nat.lt_or_ge (s.chunkSent cfg now).rangeSent s.range.2 with hlt | hge
    · exact .inl (by simpa using hlt)
    · obtain ⟨a, ha, -⟩ := chunkSent_armed hge
      exact .inr (by simp [ha])
  · exact ⟨hl.count_pos, .inl hl.count_pos⟩
  · exact hl

/-- A valid start moves the window to the named range, cut off at the last packet. -/
theorem onProgress_valid (cfg : Settings) (clk : Clock) {s : SenderTransfer} {a b : ℕ}
    (hi : s.WindowInv) (h1 : 1 ≤ a) (h2 : a ≤ s.totalPackets) :
    (s.onProgress cfg clk a b).range = (a, min b (s.totalPackets - a + 1)) ∧
    (s.onProgress cfg clk a b).rangeSent = 0 ∧
    (s.onProgress cfg clk a b).retryCount = 0 ∧
    (s.onProgress cfg clk a b).ackDeadline = none ∧
    (s.onProgress cfg clk a b).sendDeadline = clk 1 := by
  have hmax : s.totalPackets ≤ 65535 := hi.total ▸ packetCount_le _
  have ha : u16 a = a := u16_of_lt (by omega)
  have hb : u16 (min b (s.totalPackets - a + 1)) = min b (s.totalPackets - a + 1) :=
    u16_of_lt (by omega)
  simp [onProgress, h1, h2, ha, hb]

theorem onProgress_invalid (cfg : Settings) (clk : Clock) {s : SenderTransfer} {a b : ℕ}
    (h : ¬ (1 ≤ a ∧ a ≤ s.totalPackets)) :
    s.onProgress cfg clk a b =
      { s with range := (1, 0), rangeSent := 0,
               ackDeadline := some (clk 0 + retryInterval cfg 1 s.rttEst 1) } := by
  simp [onProgress, h]

theorem onProgress_same (cfg : Settings) (clk : Clock) (s : SenderTransfer) (a b : ℕ) :
    (s.onProgress cfg clk a b).transferId = s.transferId ∧
    (s.onProgress cfg clk a b).remote = s.remote ∧
    (s.onProgress cfg clk a b).totalPackets = s.totalPackets ∧
    (s.onProgress cfg clk a b).file = s.file := by
  simp only [onProgress]
  split <;> exact ⟨rfl, rfl, rfl, rfl⟩

theorem onProgress_windowInv (cfg : Settings) (clk : Clock) {s : SenderTransfer} (a b : ℕ)
    (hi : s.WindowInv) : (s.onProgress cfg clk a b).WindowInv := by
  obtain ⟨-, -, htot, hfile⟩ := onProgress_same cfg clk s a b
  by_cases h : 1 ≤ a ∧ a ≤ s.totalPackets
  · obtain ⟨hr, hs, -⟩ := onProgress_valid cfg clk (b := b) hi h.1 h.2
    refine ⟨by rw [htot, hfile]; exact hi.total, by rw [hr]; exact h.1, ?_, by omega⟩
    rw [hr, htot]
    simp only
    omega
  · have hpos : 1 ≤ s.totalPackets := hi.total ▸ packetCount_pos _
    rw [onProgress_invalid cfg clk h]
    exact ⟨hi.total, le_rfl, by simp, le_rfl⟩

theorem onProgress_live (cfg : Settings) (clk : Clock) {s : SenderTransfer} {a b : ℕ}
    (hi : s.WindowInv) (h : NamesPackets s.totalPackets a b) :
    (s.onProgress cfg clk a b).Live := by
  obtain ⟨h1, h2, h3⟩ := h
  obtain ⟨hr, hs, -⟩ := onProgress_valid cfg clk (b := b) hi h1 h2
  have hpos : 0 < (s.onProgress cfg clk a b).range.2 := by
    rw [hr]
    exact lt_min h3 (Nat.succ_pos _)
  exact ⟨hpos, .inl (by rw [hs]; exact hpos)⟩

/-- Tick the sender `late` after the deadline it reports; `none` when it gives up. -/
def tickAtDeadline (cfg : Settings) (late : SenderTransfer → ℕ) (s : SenderTransfer) :
    Option SenderTransfer :=
  match s.tick cfg (s.deadline + late s) with
  | (t, _, .ok _) => some t
  | (_, _, .error _) => none

theorem tickAtDeadline_some {cfg : Settings} {late : SenderTransfer → ℕ} {s t : SenderTransfer}
    (h : tickAtDeadline cfg late s = some t) :
    ∃ sent, s.tick cfg (s.deadline + late s) = (t, sent, .ok ()) := by
  unfold tickAtDeadline at h
  split at h
  · rename_i t' sent _ heq
    cases h
    exact ⟨sent, heq⟩
  · exact absurd h (by simp)

/-- Ticks left before a sender gives up: one per packet at worst, and one per retry. -/
def patience (s : SenderTransfer) : ℕ :=
  (SENDER_RETRY_LIMIT + 1 - s.retryCount) * (s.range.2 + 1) + (s.range.2 - s.rangeSent)

theorem patience_le (s : SenderTransfer) :
    s.patience + 1 ≤ (SENDER_RETRY_LIMIT + 2) * (s.range.2 + 1) := by
  have h1 : (SENDER_RETRY_LIMIT + 1 - s.retryCount) * (s.range.2 + 1) ≤
      (SENDER_RETRY_LIMIT + 1) * (s.range.2 + 1) := Nat.mul_le_mul_right _ (Nat.sub_le _ _)
  have h2 : (SENDER_RETRY_LIMIT + 2) * (s.range.2 + 1) =
      (SENDER_RETRY_LIMIT + 1) * (s.range.2 + 1) + (s.range.2 + 1) := by ring
  unfold patience
  omega

/-- A tick at or after the deadline of a live sender uses up some of its patience. -/
theorem tickAtDeadline_patience {cfg : Settings} {late : SenderTransfer → ℕ}
    {s t : SenderTransfer} (hl : s.Live) (h : tickAtDeadline cfg late s = some t) :
    t.Live ∧ t.patience < s.patience := by
  obtain ⟨sent, ht⟩ := tickAtDeadline_some h
  refine ⟨tick_live ht hl, ?_⟩
  by_cases hlt : s.rangeSent < s.range.2
  · have hd : s.deadline = s.sendDeadline := by
      simp [deadline, Nat.not_le.mpr hlt]
    rw [tick_send cfg hlt (by omega)] at ht
    simp only [Prod.mk.injEq] at ht
    rw [← ht.1]
    simp only [patience, chunkSent_range, chunkSent_retryCount, chunkSent_rangeSent, SEND_CHUNK]
    omega
  have hfull : s.range.2 ≤ s.rangeSent := by omega
  obtain ⟨ack, ha⟩ := Option.isSome_iff_exists.mp (hl.unsent_or_armed.resolve_left hlt)
  have hd : s.deadline = ack := by simp [deadline, hfull, ha]
  by_cases hretry : s.retryCount < SENDER_RETRY_LIMIT
  · rw [tick_resend cfg hfull ha (by omega) hretry] at ht
    simp only [Prod.mk.injEq] at ht
    rw [← ht.1]
    simp only [patience]
    have hsplit : SENDER_RETRY_LIMIT + 1 - s.retryCount =
        (SENDER_RETRY_LIMIT + 1 - (s.retryCount + 1)) + 1 := by omega
    rw [hsplit, Nat.add_mul, Nat.one_mul]
    omega
  · rw [tick_giveUp cfg hfull ha (by omega) (by omega)] at ht
    simp at ht

/-- A live sender left without ACKs gives up, whenever its ticks come. -/
theorem live_gives_up (cfg : Settings) (late : SenderTransfer → ℕ) {s : SenderTransfer}
    (hl : s.Live) : stopsWithin (tickAtDeadline cfg late)
      ((SENDER_RETRY_LIMIT + 2) * (s.range.2 + 1)) s = true :=
  stopsWithin_mono s.patience_le
    (stopsWithin_of_measure patience (fun _ _ hs h => tickAtDeadline_patience hs h) hl)

/-- A sender with an empty window that no timer can end. -/
def Inert (s : SenderTransfer) : Prop :=
  s.range.2 = 0 ∧ (s.ackDeadline = none ∨ s.retryCount < SENDER_RETRY_LIMIT)

theorem tickAtDeadline_inert (cfg : Settings) (late : SenderTransfer → ℕ) {s : SenderTransfer}
    (h : s.Inert) : ∃ t, tickAtDeadline cfg late s = some t ∧ t.Inert := by
  obtain ⟨hz, hor⟩ := h
  cases ha : s.ackDeadline with
  | none =>
    refine ⟨s, ?_, hz, .inl ha⟩
    rw [tickAtDeadline, tick_idle cfg (by omega) (by simp [ha])]
  | some ack =>
    have hretry : s.retryCount < SENDER_RETRY_LIMIT := hor.resolve_left (by simp [ha])
    have hd : s.deadline = ack := by simp [deadline, hz, ha]
    rw [tickAtDeadline, tick_resend cfg (by omega) ha (by omega) hretry]
    exact ⟨_, rfl, hz, .inl rfl⟩

theorem inert_never_gives_up (cfg : Settings) (late : SenderTransfer → ℕ) {s : SenderTransfer}
    (h : s.Inert) (n : ℕ) : stopsWithin (tickAtDeadline cfg late) n s = false :=
  not_stopsWithin_of_closed (fun _ hs => tickAtDeadline_inert cfg late hs) h n

/-- An ACK that names no packet leaves an inert sender, unless it names none of the
file's packets at the very last retry. -/
theorem onProgress_inert (cfg : Settings) (clk : Clock) {s : SenderTransfer} {a b : ℕ}
    (hi : s.WindowInv) (hretry : s.retryCount < SENDER_RETRY_LIMIT)
    (h : ¬ NamesPackets s.totalPackets a b) : (s.onProgress cfg clk a b).Inert := by
  by_cases hs : 1 ≤ a ∧ a ≤ s.totalPackets
  · obtain ⟨hr, -, -, hnone, -⟩ := onProgress_valid cfg clk (b := b) hi hs.1 hs.2
    have hb : b = 0 := by
      unfold NamesPackets at h
      omega
    exact ⟨by rw [hr]; simp [hb], .inl hnone⟩
  · rw [onProgress_invalid cfg clk hs]
    exact ⟨rfl, .inr hretry⟩

end SenderTransfer

/-- What every run from a new sender preserves, and what it preserves as long as the
ACKs name packets of the file. -/
theorem run_windowInv {cfg : Settings} {s t : SenderTransfer} {es : List SenderEvent}
    (h : Run (SenderStep cfg) s es t) (hi : s.WindowInv) : t.WindowInv := by
  refine h.invariant (fun s e t hs hstep => ?_) hi
  cases hstep with
  | tick ht => exact SenderTransfer.tick_windowInv ht hs
  | progress => exact SenderTransfer.onProgress_windowInv cfg _ _ _ hs

theorem run_totalPackets {cfg : Settings} {s t : SenderTransfer} {es : List SenderEvent}
    (h : Run (SenderStep cfg) s es t) : t.totalPackets = s.totalPackets := by
  refine h.invariant (I := fun u => u.totalPackets = s.totalPackets) (fun s e t hs hstep => ?_) rfl
  cases hstep with
  | tick ht => exact (SenderTransfer.tick_same ht).2.2.1.trans hs
  | progress => exact (SenderTransfer.onProgress_same cfg _ _ _ _).2.2.1.trans hs

theorem run_live {cfg : Settings} {s t : SenderTransfer} {es : List SenderEvent}
    (h : Run (SenderStep cfg) s es t) (hes : ∀ e ∈ es, e.Proper s.totalPackets)
    (hi : s.WindowInv) (hl : s.Live) : t.Live := by
  have hinv : t.totalPackets = s.totalPackets ∧ t.WindowInv ∧ t.Live := by
    refine h.invariant_of_events
      (I := fun u => u.totalPackets = s.totalPackets ∧ u.WindowInv ∧ u.Live)
      (fun u e v he hu hstep => ?_) hes ⟨rfl, hi, hl⟩
    obtain ⟨htot, hwin, hlive⟩ := hu
    have hrun := Run.one hstep
    refine ⟨(run_totalPackets hrun).trans htot, run_windowInv hrun hwin, ?_⟩
    cases hstep with
    | tick ht => exact SenderTransfer.tick_live ht hlive
    | progress => exact SenderTransfer.onProgress_live cfg _ hwin (htot ▸ he)
  exact hinv.2.2

/-- As long as every ACK names a packet of the file, a sender left alone has packets
to send or a timer to wait for, and gives up after a bounded number of ticks; the
first ACK that names none leaves it inert for ever. -/
theorem sender_gives_up (cfg : Settings) (late : SenderTransfer → ℕ) (clk : Clock) (id : ℕ)
    (remote : SocketAddr) (file : Bytes) {es : List SenderEvent} {s : SenderTransfer}
    (h : Run (SenderStep cfg) (SenderTransfer.new clk id remote file) es s)
    (hes : ∀ e ∈ es, e.Proper (packetCount file.length)) :
    (s.rangeSent < s.range.2 ∨ s.ackDeadline.isSome) ∧
    stopsWithin (SenderTransfer.tickAtDeadline cfg late)
      ((SENDER_RETRY_LIMIT + 2) * (s.range.2 + 1)) s = true ∧
    ∀ (clk' : Clock) (a b : ℕ), s.retryCount < SENDER_RETRY_LIMIT →
      ((∃ n, stopsWithin (SenderTransfer.tickAtDeadline cfg late) n
          (s.onAck cfg clk' .progress a b).1 = true) ↔
        NamesPackets (packetCount file.length) a b) := by
  have hnew := SenderTransfer.new_windowInv clk id remote file
  have hwin := run_windowInv h hnew
  have hlive := run_live h hes hnew (SenderTransfer.new_live clk id remote file)
  have htot : s.totalPackets = packetCount file.length := run_totalPackets h
  refine ⟨hlive.unsent_or_armed, SenderTransfer.live_gives_up cfg late hlive, ?_⟩
  intro clk' a b hretry
  rw [← htot]
  constructor
  · rintro ⟨n, hn⟩
    by_contra hbad
    have hinert := SenderTransfer.onProgress_inert cfg clk' hwin hretry hbad
    have := SenderTransfer.inert_never_gives_up cfg late hinert n
    simp only [SenderTransfer.onAck] at hn
    simp [this] at hn
  · intro hgood
    exact ⟨_, SenderTransfer.live_gives_up cfg late
      (SenderTransfer.onProgress_live cfg clk' hwin hgood)⟩

/-- A file of ten packets. -/
def tenPackets : Bytes := List.replicate 12600 0x47 ++ [3]

def senderStep? (s : SenderTransfer) : SenderEvent → Option SenderTransfer
  | .tick now =>
    match s.tick defaultSettings now with
    | (t, _, .ok _) => some t
    | (_, _, .error _) => none
  | .progress clk a b => some (s.onAck defaultSettings clk .progress a b).1

theorem step_of_senderStep? {s t : SenderTransfer} {e : SenderEvent} (h : senderStep? s e = some t) :
    SenderStep defaultSettings s e t := by
  cases e with
  | tick now =>
    rcases htick : s.tick defaultSettings now with ⟨u, sent, _ | _⟩
    · simp [senderStep?, htick] at h
    · simp only [senderStep?, htick, Option.some.injEq] at h
      exact .tick (h ▸ htick)
  | progress clk a b =>
    cases h
    exact .progress

/-- The first window has been sent, and the ACK for the next one comes twice. -/
def ackedTwice : List SenderEvent :=
  [.tick 0, .progress (fun _ => 5) 6 5, .tick 9, .progress (fun _ => 12) 6 5]

theorem sender_gives_up_ten_packets : ∃ s,
    Run (SenderStep defaultSettings)
      (SenderTransfer.new (fun _ => 0) 7 unspecifiedEndpoint tenPackets) ackedTwice s ∧
    stopsWithin (SenderTransfer.tickAtDeadline defaultSettings fun _ => 0)
      ((SENDER_RETRY_LIMIT + 2) * (5 + 1)) s = true := by
  have hexec : (exec senderStep? (SenderTransfer.new (fun _ => 0) 7 unspecifiedEndpoint tenPackets)
      ackedTwice).any (fun s => s.range.2 = 5) = true := by decide +kernel
  obtain ⟨s, hrun, hrange⟩ := Run.exists_of_exec (fun _ _ _ => step_of_senderStep?) hexec
  have hnames : NamesPackets (packetCount tenPackets.length) 6 5 := by decide +kernel
  have hproper : ∀ e ∈ ackedTwice, e.Proper (packetCount tenPackets.length) := by
    simp [ackedTwice, SenderEvent.Proper, hnames]
  have hstops := (sender_gives_up defaultSettings (fun _ => 0) (fun _ => 0) 7 unspecifiedEndpoint
    tenPackets hrun hproper).2.1
  rw [of_decide_eq_true hrange] at hstops
  exact ⟨s, hrun, hstops⟩

/-- After the ACK `(1, 0)` the sender has nothing to send and no timer, and never gives up. -/
theorem empty_ack_makes_inert :
    ∃ s, Run (SenderStep defaultSettings)
        (SenderTransfer.new (fun _ => 0) 7 unspecifiedEndpoint [1, 2, 3])
        [.progress (fun _ => 5) 1 0] s ∧
      ¬ (s.rangeSent < s.range.2 ∨ s.ackDeadline.isSome) ∧
      ∀ n, stopsWithin (SenderTransfer.tickAtDeadline defaultSettings fun _ => 0) n s = false :=
  ⟨_, Run.one .progress, by decide,
    SenderTransfer.inert_never_gives_up _ _ ⟨by decide, .inl (by decide)⟩⟩

end Qstream.Transfer

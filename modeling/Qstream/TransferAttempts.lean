import Qstream.TransferLink
import Qstream.TransferOutlives

/-! The attempts of a sender at one window: a chunk a tick, paced apart, until every packet
was sent and the ack timer runs, and again from the first packet when it runs out. -/
namespace Qstream.Transfer
open Runs Chunks

/-- Ticks that went by, with what they sent. -/
abbrev TickLog := List (ℕ × List Message)

def sentIn (log : TickLog) : List Message := log.flatMap Prod.snd

/-- One tick of a sender that goes on. -/
def TickStep (cfg : Settings) (s : SenderTransfer) (e : ℕ × List Message) (t : SenderTransfer) :
    Prop := s.tick cfg e.1 = (t, e.2, .ok ())

/-- Ticks of a sender whose ack timer is not armed. -/
def Attempt (cfg : Settings) : SenderTransfer → TickLog → SenderTransfer → Prop :=
  Run (guarded (fun s _ => s.ackDeadline = none) (TickStep cfg))

/-- No chunk leaves before its deadline, and each puts off the next by the pace of its packets. -/
def Paced (pace : ℕ) : ℕ → TickLog → Prop
  | _, [] => True
  | deadline, (now, sent) :: log =>
    if sent = [] then Paced pace deadline log
    else deadline ≤ now ∧ Paced pace (now + pace * sent.length) log

namespace SenderTransfer
variable {cfg : Settings} {s t : SenderTransfer} {log : TickLog}

def packetMessage (s : SenderTransfer) (p : ℕ) : Message :=
  .segmentContents s.transferId p s.totalPackets (packetOf s.file p)

/-- The first `n` packets of the window. -/
def windowPackets (s : SenderTransfer) (n : ℕ) : List Message :=
  (List.range' s.range.1 n).map s.packetMessage

/-- What any attempt from a state has sent when it reaches another: the packets in order, in
chunks paced apart; the timer is armed when all are sent, and until then a tick at or after the
deadline sends the next ones. -/
structure AttemptSpec (cfg : Settings) (s : SenderTransfer) (log : TickLog) (t : SenderTransfer) :
    Prop where
  sent : sentIn log = s.windowPackets t.rangeSent
  chunks : ∀ e ∈ log, e.2.length ≤ SEND_CHUNK
  paced : Paced (millis cfg.paceMs) s.sendDeadline log
  armed : t.ackDeadline.isSome ↔ t.rangeSent = s.range.2
  next : t.ackDeadline = none → ∀ now, t.sendDeadline ≤ now →
    0 < (t.tick cfg now).2.1.length

/-- Packets remain unsent only while no ack timer runs. -/
def TimerFits (s : SenderTransfer) : Prop := s.rangeSent < s.range.2 → s.ackDeadline = none

theorem chunkSent_sendDeadline (cfg : Settings) (s : SenderTransfer) (now : ℕ) :
    (s.chunkSent cfg now).sendDeadline =
      now + millis cfg.paceMs * min (s.range.2 - s.rangeSent) SEND_CHUNK := by
  have hdeadline : (if millis cfg.paceMs > 0 ∧ min (s.range.2 - s.rangeSent) SEND_CHUNK > 0 then
      now + millis cfg.paceMs * min (s.range.2 - s.rangeSent) SEND_CHUNK else now) =
      now + millis cfg.paceMs * min (s.range.2 - s.rangeSent) SEND_CHUNK := by
    split
    · rfl
    · rename_i hzero
      rcases Nat.eq_zero_or_pos (millis cfg.paceMs) with hpace | hpace
      · rw [hpace, Nat.zero_mul, Nat.add_zero]
      · rw [Nat.eq_zero_of_not_pos fun hsend => hzero ⟨hpace, hsend⟩, Nat.mul_zero, Nat.add_zero]
  simp only [chunkSent]
  split <;> exact hdeadline

/-- A chunk of a window inside the file has the next packets, and counts them. -/
theorem nextChunk_eq (h : s.WindowInv) :
    s.sendPackets (u16 (s.range.1 + s.rangeSent)) (min (s.range.2 - s.rangeSent) SEND_CHUNK) =
      (List.range' (s.range.1 + s.rangeSent) (min (s.range.2 - s.rangeSent) SEND_CHUNK)).map
        s.packetMessage := by
  have hfits := h.fits
  have hsent := h.sent_le
  rw [sendPackets_eq h.total (by omega), List.range'_eq_map_range, List.map_map]
  rfl

/-- A tick without an ack timer sends the next chunk or nothing. -/
theorem tick_unarmed {now : ℕ} {sent : List Message} (hnone : s.ackDeadline = none)
    (h : s.tick cfg now = (t, sent, .ok ())) :
    (s.rangeSent < s.range.2 ∧ s.sendDeadline ≤ now ∧ t = s.chunkSent cfg now ∧
      sent = s.sendPackets (u16 (s.range.1 + s.rangeSent))
        (min (s.range.2 - s.rangeSent) SEND_CHUNK)) ∨
    (t = s ∧ sent = []) := by
  have hnot : ∀ now, ¬ s.AckDue now := by
    rintro now ⟨-, ack, hack, -⟩
    rw [hnone] at hack
    cases hack
  rcases tick_cases cfg s now with ⟨hlt, hnow, ht⟩ | ⟨hdue, -⟩ | ⟨hdue, -⟩ | ⟨-, -, ht⟩
  · rw [ht] at h
    obtain ⟨rfl, rfl, -⟩ := h
    exact .inl ⟨hlt, hnow, rfl, rfl⟩
  · exact absurd hdue (hnot now)
  · exact absurd hdue (hnot now)
  · rw [ht] at h
    obtain ⟨rfl, rfl, -⟩ := h
    exact .inr ⟨rfl, rfl⟩

theorem tick_timerFits {now : ℕ} {sent : List Message} (h : s.tick cfg now = (t, sent, .ok ()))
    (hfits : s.TimerFits) : t.TimerFits := by
  rcases tick_ok_cases h with ⟨hlt, rfl, -⟩ | ⟨-, -, -, -, rfl⟩ | ⟨-, rfl⟩
  · intro hpart
    rw [chunkSent_range] at hpart
    rw [chunkSent_ackDeadline, if_pos hpart]
    exact hfits hlt
  · exact fun _ => rfl
  · exact hfits

theorem onProgress_timerFits (cfg : Settings) (clk : Clock) (s : SenderTransfer) (a b : ℕ) :
    (s.onProgress cfg clk a b).TimerFits := by
  intro hpart
  simp only [onProgress] at hpart ⊢
  split at hpart
  next hnames => rw [if_pos hnames]
  next => exact absurd hpart (Nat.lt_irrefl 0)

/-- The timer of an attempt is armed exactly when the whole window was sent. -/
structure Attempting (s : SenderTransfer) : Prop where
  window : s.WindowInv
  armed : s.ackDeadline.isSome ↔ s.rangeSent = s.range.2

/-- What a tick leaves alone: the window and its packets. -/
def SamePackets (s t : SenderTransfer) : Prop :=
  t.range = s.range ∧ t.packetMessage = s.packetMessage

theorem SamePackets.trans {u : SenderTransfer} (h : s.SamePackets t) (h' : t.SamePackets u) :
    s.SamePackets u := ⟨h'.1.trans h.1, h'.2.trans h.2⟩

theorem SamePackets.windowPackets_eq (h : s.SamePackets t) (n : ℕ) :
    t.windowPackets n = s.windowPackets n := by
  rw [windowPackets, windowPackets, h.1, h.2]

theorem tick_samePackets {now : ℕ} {sent : List Message} (h : s.tick cfg now = (t, sent, .ok ())) :
    s.SamePackets t := by
  obtain ⟨hfile, hid, htotal, hrange⟩ := tick_same h
  refine ⟨hrange, ?_⟩
  unfold packetMessage
  rw [hfile, hid, htotal]

/-- A chunk arms the timer if it is the last one. -/
theorem Attempting.chunkSent (h : s.Attempting) (hnone : s.ackDeadline = none) {now : ℕ}
    {sent : List Message} (ht : s.tick cfg now = (s.chunkSent cfg now, sent, .ok ())) :
    (s.chunkSent cfg now).Attempting := by
  have hwindow := tick_windowInv ht h.window
  have hle := hwindow.sent_le
  refine ⟨hwindow, ?_⟩
  rw [chunkSent_range] at hle ⊢
  rw [chunkSent_ackDeadline]
  split
  next hpart => simp only [hnone, Option.isSome_none, Bool.false_eq_true, hpart.ne]
  next hfull => simp only [Option.isSome_some, Nat.le_antisymm hle (Nat.le_of_not_lt hfull)]

/-- What a part of an attempt sends goes on where the state before it stands. -/
theorem Attempting.run (h : s.Attempting) (hrun : Attempt cfg s log t) :
    t.Attempting ∧ s.SamePackets t ∧ s.rangeSent ≤ t.rangeSent ∧
      sentIn log = (List.range' (s.range.1 + s.rangeSent) (t.rangeSent - s.rangeSent)).map
        s.packetMessage ∧
      (∀ e ∈ log, e.2.length ≤ SEND_CHUNK) ∧ Paced (millis cfg.paceMs) s.sendDeadline log := by
  induction hrun with
  | nil s =>
    exact ⟨h, ⟨rfl, rfl⟩, le_rfl, by rw [Nat.sub_self]; rfl,
      fun _ he => absurd he List.not_mem_nil, trivial⟩
  | @cons s u t e log hstep hrest ih =>
    obtain ⟨now, sent⟩ := e
    obtain ⟨hnone, htick⟩ := hstep
    change s.tick cfg now = (u, sent, .ok ()) at htick
    rcases tick_unarmed hnone htick with ⟨hlt, hnow, rfl, hsent⟩ | ⟨rfl, hsent⟩
    · have hsame := tick_samePackets htick
      obtain ⟨hlast, hsame', hle, hsentRest, hchunks, hpaced⟩ := ih (h.chunkSent hnone htick)
      rw [chunkSent_rangeSent] at hle
      rw [nextChunk_eq h.window] at hsent
      have hlength : sent.length = min (s.range.2 - s.rangeSent) SEND_CHUNK := by
        rw [hsent, List.length_map, List.length_range']
      refine ⟨hlast, hsame.trans hsame', (Nat.le_add_right _ _).trans hle, ?_, ?_, ?_⟩
      · rw [hsame.2, chunkSent_range, chunkSent_rangeSent, ← Nat.add_assoc] at hsentRest
        have hsplit : t.rangeSent - s.rangeSent = min (s.range.2 - s.rangeSent) SEND_CHUNK +
            (t.rangeSent - (s.rangeSent + min (s.range.2 - s.rangeSent) SEND_CHUNK)) := by omega
        calc sentIn ((now, sent) :: log) = sent ++ sentIn log := List.flatMap_cons
          _ = _ := by rw [hsent, hsentRest, ← List.map_append, List.range'_append_1, ← hsplit]
      · rintro e (- | ⟨-, he⟩)
        · exact hlength.trans_le (min_le_right _ _)
        · exact hchunks e he
      · have hsome : sent ≠ [] := List.ne_nil_of_length_pos (by
          rw [hlength]
          exact lt_min (Nat.sub_pos_of_lt hlt) (by decide))
        rw [Paced, if_neg hsome, hlength]
        rw [chunkSent_sendDeadline] at hpaced
        exact ⟨hnow, hpaced⟩
    · subst hsent
      obtain ⟨hlast, hsame, hle, hsentRest, hchunks, hpaced⟩ := ih h
      refine ⟨hlast, hsame, hle, hsentRest, ?_, ?_⟩
      · rintro e (- | ⟨-, he⟩)
        · exact Nat.zero_le _
        · exact hchunks e he
      · rw [Paced, if_pos rfl]
        exact hpaced

theorem Attempting.next (h : s.Attempting) (hnone : s.ackDeadline = none) {now : ℕ}
    (hnow : s.sendDeadline ≤ now) : 0 < (s.tick cfg now).2.1.length := by
  have hne : s.rangeSent ≠ s.range.2 := fun hfull => by
    have hsome := h.armed.mpr hfull
    rw [hnone] at hsome
    cases hsome
  have hlt := lt_of_le_of_ne h.window.sent_le hne
  rw [tick_send cfg hlt hnow]
  change 0 < (s.sendPackets _ _).length
  rw [nextChunk_eq h.window, List.length_map, List.length_range']
  exact lt_min (Nat.sub_pos_of_lt hlt) (by decide)

/-- An attempt that begins with nothing sent sends the window. -/
theorem Attempting.spec (h : s.Attempting) (hstart : s.rangeSent = 0) (hrun : Attempt cfg s log t) :
    AttemptSpec cfg s log t := by
  obtain ⟨hlast, hsame, -, hsent, hchunks, hpaced⟩ := h.run hrun
  rw [hstart, Nat.add_zero, Nat.sub_zero] at hsent
  exact ⟨hsent, hchunks, hpaced, by rw [hlast.armed, hsame.1], fun hnone _ => hlast.next hnone⟩

/-- What a sender has sent after its ticks: whole windows, one for each time the timer ran out,
and the part of the next one that it counts. -/
theorem tickRun_sent (hwin : s.WindowInv) (hstart : s.rangeSent = 0)
    (hrun : Run (TickStep cfg) s log t) :
    t.WindowInv ∧ s.SamePackets t ∧ s.retryCount ≤ t.retryCount ∧
      sentIn log = (List.replicate (t.retryCount - s.retryCount) (s.windowPackets s.range.2)).flatten ++
        s.windowPackets t.rangeSent := by
  refine hrun.history (I := fun log u => u.WindowInv ∧ s.SamePackets u ∧ s.retryCount ≤ u.retryCount ∧
    sentIn log = (List.replicate (u.retryCount - s.retryCount) (s.windowPackets s.range.2)).flatten ++
      s.windowPackets u.rangeSent) ?first ?step
  case first => exact ⟨hwin, ⟨rfl, rfl⟩, le_rfl, by rw [Nat.sub_self, hstart]; rfl⟩
  case step =>
    rintro log u ⟨now, sent⟩ v - ⟨hu, hsame, hretry, hsent⟩ htick
    change u.tick cfg now = (v, sent, .ok ()) at htick
    have hv := tick_windowInv htick hu
    have hsame' := hsame.trans (tick_samePackets htick)
    have hlog : sentIn (log ++ [(now, sent)]) = sentIn log ++ sent := by
      rw [sentIn, List.flatMap_append, List.flatMap_singleton]
      rfl
    rw [hlog, hsent, List.append_assoc]
    rcases tick_ok_cases htick with ⟨hlt, rfl, hchunk⟩ | ⟨hfull, -, -, hnone, rfl⟩ | ⟨hnone, rfl⟩
    · rw [chunkSent_retryCount, chunkSent_rangeSent]
      refine ⟨hv, hsame', hretry, congrArg _ ?_⟩
      rw [hchunk, nextChunk_eq hu, hsame.1, hsame.2, windowPackets, windowPackets, ← List.map_append,
        List.range'_append_1]
    · have hwhole : u.rangeSent = s.range.2 := by
        rw [← hsame.1]
        exact Nat.le_antisymm hu.sent_le hfull
      have hcount : u.retryCount + 1 - s.retryCount = u.retryCount - s.retryCount + 1 := by omega
      refine ⟨hv, hsame', hretry.trans (Nat.le_succ _), ?_⟩
      rw [hnone, hwhole, hcount, List.replicate_succ', List.flatten_append, List.flatten_singleton,
        List.append_assoc]
      rfl
    · exact ⟨hv, hsame', hretry, by rw [hnone, List.append_nil]⟩

theorem Attempting.of_start (hwin : s.WindowInv) (hnone : s.ackDeadline = none)
    (hstart : s.rangeSent = 0) (hcount : 1 ≤ s.range.2) : s.Attempting := by
  refine ⟨hwin, ?_⟩
  rw [hnone, hstart, Option.isSome_none]
  exact ⟨fun hsome => Bool.noConfusion hsome, fun hzero => absurd hzero (Nat.ne_of_lt hcount)⟩

end SenderTransfer

theorem run_timerFits {cfg : Settings} {s t : SenderTransfer} {es : List SenderEvent}
    (h : Run (SenderStep cfg) s es t) (hfits : s.TimerFits) : t.TimerFits := by
  refine h.invariant (fun s e t hs hstep => ?_) hfits
  cases hstep with
  | tick ht => exact SenderTransfer.tick_timerFits ht hs
  | progress => exact SenderTransfer.onProgress_timerFits cfg _ _ _ _

/-- A window is sent once in every attempt: its packets in order, at most a chunk a tick and paced
apart, until the ack timer is armed. Over any ticks whole windows are sent, one for each time the
timer ran out, and every time it does before the retry limit the same attempt starts again. -/
theorem window_sent_once {cfg : Settings} {clk : Clock} {id : ℕ} {remote : SocketAddr}
    {file : Bytes} {es : List SenderEvent} {s : SenderTransfer}
    (hreach : Run (SenderStep cfg) (SenderTransfer.new clk id remote file) es s)
    (hstart : s.rangeSent = 0) (hcount : 1 ≤ s.range.2) :
    (∀ log t, Attempt cfg s log t → s.AttemptSpec cfg log t) ∧
    ∀ log t, Run (TickStep cfg) s log t →
      sentIn log = (List.replicate (t.retryCount - s.retryCount) (s.windowPackets s.range.2)).flatten ++
        s.windowPackets t.rangeSent ∧
      ∀ now, t.AckDue now → t.retryCount < SENDER_RETRY_LIMIT →
        ∃ u, TickStep cfg t (now, []) u ∧ u.retryCount = t.retryCount + 1 ∧ u.rangeSent = 0 ∧
          u.range = s.range ∧ (∀ n, u.windowPackets n = s.windowPackets n) ∧
          ∀ log' v, Attempt cfg u log' v → u.AttemptSpec cfg log' v := by
  have hwin := run_windowInv hreach (SenderTransfer.new_windowInv clk id remote file)
  have hnone : s.ackDeadline = none :=
    run_timerFits hreach (fun _ => rfl) (hstart.trans_lt hcount)
  refine ⟨fun log t hrun =>
    (SenderTransfer.Attempting.of_start hwin hnone hstart hcount).spec hstart hrun, ?_⟩
  intro log t hrun
  obtain ⟨ht, hsame, -, hsent⟩ := SenderTransfer.tickRun_sent hwin hstart hrun
  refine ⟨hsent, ?_⟩
  rintro now ⟨hfull, ack, hack, hdue⟩ hfew
  have htick := SenderTransfer.tick_resend cfg hfull hack hdue hfew
  have hsame' := hsame.trans (SenderTransfer.tick_samePackets htick)
  have hwin' := SenderTransfer.tick_windowInv htick ht
  have hcount' : 1 ≤ t.range.2 := by rwa [hsame.1]
  exact ⟨_, htick, rfl, rfl, hsame.1, hsame'.windowPackets_eq, fun log' v hrun' =>
    (SenderTransfer.Attempting.of_start hwin' rfl rfl hcount').spec rfl hrun'⟩

/-- Ticks at the given times, while the sender goes on. -/
def tickAll (cfg : Settings) (s : SenderTransfer) : List ℕ → Option (TickLog × SenderTransfer)
  | [] => some ([], s)
  | now :: rest =>
    match s.tick cfg now with
    | (t, sent, .ok _) => (tickAll cfg t rest).map fun r => ((now, sent) :: r.1, r.2)
    | (_, _, .error _) => none

theorem run_of_tickAll {cfg : Settings} {s : SenderTransfer} {times : List ℕ}
    {r : TickLog × SenderTransfer} (h : tickAll cfg s times = some r) :
    Run (TickStep cfg) s r.1 r.2 := by
  induction times generalizing s r with
  | nil =>
    cases h
    exact .nil s
  | cons now rest ih =>
    rcases htick : s.tick cfg now with ⟨t, sent, _ | _⟩
    · simp [tickAll, htick] at h
    · simp only [tickAll, htick, Option.map_eq_some_iff] at h
      obtain ⟨r', hr', rfl⟩ := h
      exact .cons htick (ih hr')

/-- A window of ten packets goes out in two chunks; no ACK comes, and it goes out again, as far as
the first chunk. -/
theorem window_sent_once_chunks : ∃ s log t,
    Run (SenderStep defaultSettings)
      (SenderTransfer.new (fun _ => 0) 7 unspecifiedEndpoint tenPackets)
      [.tick 0, .progress (fun _ => 5) 1 10] s ∧
    Run (TickStep defaultSettings) s log t ∧ log.length = 4 ∧
    sentIn log = s.windowPackets 10 ++ s.windowPackets 8 := by
  have hexec : (exec senderStep? (SenderTransfer.new (fun _ => 0) 7 unspecifiedEndpoint tenPackets)
      [.tick 0, .progress (fun _ => 5) 1 10]).any (fun s => s.rangeSent = 0 ∧ s.range.2 = 10 ∧
        s.retryCount = 0 ∧ (tickAll defaultSettings s [5, secs 1, secs 20, secs 20]).any fun r =>
          r.1.length = 4 ∧ r.2.retryCount = 1 ∧ r.2.rangeSent = 8) = true := by decide +kernel
  obtain ⟨s, hreach, hs⟩ := Run.exists_of_exec (fun _ _ _ => step_of_senderStep?) hexec
  obtain ⟨hstart, hcount, hfirst, hticks⟩ := of_decide_eq_true hs
  obtain ⟨⟨log, t⟩, hlog, ht⟩ := (Option.any_eq_true ..).mp hticks
  obtain ⟨hlength, hretry, hsent⟩ := of_decide_eq_true ht
  have hrun := run_of_tickAll hlog
  have hwindows := ((window_sent_once hreach hstart (by omega)).2 log t hrun).1
  rw [hcount, hfirst, hretry, hsent] at hwindows
  exact ⟨s, log, t, hreach, hrun, hlength, hwindows⟩

end Qstream.Transfer

import Qstream.Chunks
import Qstream.TransferTimers

/-! The sending side of a segment transfer: it executes the packet range the
receiver named last, paced in chunks, and repeats it when no ACK arrives. -/
namespace Qstream.Transfer
open Chunks

/-- Why a sender gives up: no ACK for `range` within the retry budget. -/
inductive SenderError
  | noAck (transferId : ℕ) (range : ℕ × ℕ)
  deriving DecidableEq, Repr

structure SenderTransfer where
  transferId : ℕ
  remote : SocketAddr
  totalPackets : ℕ
  file : Bytes
  /-- `(start, count)` of the current window. -/
  range : ℕ × ℕ
  rangeSent : ℕ
  retryCount : ℕ
  /-- Armed once the window is fully sent. -/
  ackDeadline : Option ℕ
  sendDeadline : ℕ
  rttEst : ℕ
  windowSentAt : Option ℕ
  deriving DecidableEq, Repr

namespace SenderTransfer

def new (clk : Clock) (transferId : ℕ) (remote : SocketAddr) (file : Bytes) : SenderTransfer :=
  let n := packetCount file.length
  { transferId := transferId, remote := remote, totalPackets := n, file := file,
    range := (1, min INITIAL_WINDOW n), rangeSent := 0, retryCount := 0, ackDeadline := none,
    sendDeadline := clk 0, rttEst := millis 250, windowSentAt := none }

def payloadBytes (s : SenderTransfer) : ℕ := s.file.length

def deadline (s : SenderTransfer) : ℕ :=
  if s.rangeSent ≥ s.range.2 then s.ackDeadline.getD s.sendDeadline else s.sendDeadline

/-- The SEGMENT_CONTENTS datagrams for `count` packets from `firstPacket` on. -/
def sendPackets (s : SenderTransfer) (firstPacket count : ℕ) : List Message :=
  (List.range count).map fun i =>
    let packetNumber := u16 (firstPacket + i)
    let seek := (packetNumber - 1) * SEGMENT_PACKET_SIZE
    let stop := min (seek + SEGMENT_PACKET_SIZE) s.file.length
    .segmentContents s.transferId packetNumber s.totalPackets
      ((s.file.drop seek).take (stop - seek))

/-- The state after the next chunk of the current window was sent at `now`. -/
def chunkSent (cfg : Settings) (s : SenderTransfer) (now : ℕ) : SenderTransfer :=
  let count := s.range.2
  let toSend := min (count - s.rangeSent) SEND_CHUNK
  let pace := millis cfg.paceMs
  let s1 := { s with
    rangeSent := s.rangeSent + toSend
    sendDeadline := if pace > 0 ∧ toSend > 0 then now + pace * toSend else now }
  if s1.rangeSent ≥ count then
    { s1 with
      windowSentAt := some now
      ackDeadline := some (now + retryInterval cfg count s.rttEst s.retryCount) }
  else s1

/-- First half of `tick`: send the next chunk of the current window. -/
def sendChunk (cfg : Settings) (s : SenderTransfer) (now : ℕ) :
    SenderTransfer × List Message :=
  if s.rangeSent < s.range.2 ∧ now ≥ s.sendDeadline then
    (s.chunkSent cfg now,
      s.sendPackets (u16 (s.range.1 + s.rangeSent)) (min (s.range.2 - s.rangeSent) SEND_CHUNK))
  else (s, [])

/-- Second half of `tick`: the window was fully sent but no ACK arrived. -/
def ackTimer (s : SenderTransfer) (now : ℕ) : SenderTransfer × Except SenderError Unit :=
  match s.ackDeadline with
  | some ack =>
    if s.rangeSent ≥ s.range.2 ∧ now ≥ ack then
      let s1 := { s with retryCount := s.retryCount + 1 }
      if s1.retryCount > SENDER_RETRY_LIMIT then
        (s1, .error (.noAck s.transferId s.range))
      else
        ({ s1 with rangeSent := 0, ackDeadline := none, sendDeadline := now }, .ok ())
    else (s, .ok ())
  | none => (s, .ok ())

/-- Advance the state machine: the new state, the datagrams sent, and whether the
sender goes on. -/
def tick (cfg : Settings) (s : SenderTransfer) (now : ℕ) :
    SenderTransfer × List Message × Except SenderError Unit :=
  let (s1, sent) := s.sendChunk cfg now
  let (s2, result) := s1.ackTimer now
  (s2, sent, result)

/-- Handle a Progress ACK: execute the range it names, or wait for COMPLETE when it
names none of the file's packets. -/
def onProgress (cfg : Settings) (clk : Clock) (s : SenderTransfer) (nextStart nextCount : ℕ) :
    SenderTransfer :=
  let n := s.totalPackets
  if nextStart ≥ 1 ∧ nextStart ≤ n then
    let rtt := match s.windowSentAt with
      | some t => (s.rttEst * 3 + (clk 0 - t)) / 4
      | none => s.rttEst
    { s with
      rttEst := rtt
      windowSentAt := none
      range := (u16 nextStart, u16 (min nextCount (n - nextStart + 1)))
      rangeSent := 0
      ackDeadline := none
      retryCount := 0
      sendDeadline := clk 1 }
  else
    { s with
      range := (1, 0)
      rangeSent := 0
      ackDeadline := some (clk 0 + retryInterval cfg 1 s.rttEst 1) }

/-- Handle an ACK; the flag says that the transfer is complete. -/
def onAck (cfg : Settings) (clk : Clock) (s : SenderTransfer) (ackType : AckType)
    (nextStart nextCount : ℕ) : SenderTransfer × Bool :=
  match ackType with
  | .complete => (s, true)
  | .progress => (s.onProgress cfg clk nextStart nextCount, false)

/-! What one tick can do: send a chunk, repeat the window, give up, or nothing. -/

@[simp] theorem chunkSent_range (cfg : Settings) (s : SenderTransfer) (now : ℕ) :
    (s.chunkSent cfg now).range = s.range := by
  simp only [chunkSent]; split <;> rfl

@[simp] theorem chunkSent_retryCount (cfg : Settings) (s : SenderTransfer) (now : ℕ) :
    (s.chunkSent cfg now).retryCount = s.retryCount := by
  simp only [chunkSent]; split <;> rfl

@[simp] theorem chunkSent_rangeSent (cfg : Settings) (s : SenderTransfer) (now : ℕ) :
    (s.chunkSent cfg now).rangeSent =
      s.rangeSent + min (s.range.2 - s.rangeSent) SEND_CHUNK := by
  simp only [chunkSent]; split <;> rfl

theorem chunkSent_same (cfg : Settings) (s : SenderTransfer) (now : ℕ) :
    (s.chunkSent cfg now).transferId = s.transferId ∧
    (s.chunkSent cfg now).remote = s.remote ∧
    (s.chunkSent cfg now).totalPackets = s.totalPackets ∧
    (s.chunkSent cfg now).file = s.file := by
  simp only [chunkSent]; split <;> exact ⟨rfl, rfl, rfl, rfl⟩

/-- The ack timer is armed, beyond `now`, as soon as the window is fully sent. -/
theorem chunkSent_armed {cfg : Settings} {s : SenderTransfer} {now : ℕ}
    (h : s.range.2 ≤ (s.chunkSent cfg now).rangeSent) :
    ∃ a, (s.chunkSent cfg now).ackDeadline = some a ∧ now < a := by
  simp only [chunkSent_rangeSent] at h
  refine ⟨now + retryInterval cfg s.range.2 s.rttEst s.retryCount, ?_, ?_⟩
  · simp only [chunkSent, ge_iff_le, h, if_true]
  · exact Nat.lt_add_of_pos_right (retryInterval_pos _ _ _ _)

theorem tick_send (cfg : Settings) {s : SenderTransfer} {now : ℕ}
    (hlt : s.rangeSent < s.range.2) (hnow : s.sendDeadline ≤ now) :
    s.tick cfg now = (s.chunkSent cfg now,
      s.sendPackets (u16 (s.range.1 + s.rangeSent)) (min (s.range.2 - s.rangeSent) SEND_CHUNK),
      .ok ()) := by
  have hack : (s.chunkSent cfg now).ackTimer now = (s.chunkSent cfg now, .ok ()) := by
    unfold ackTimer
    by_cases hfull : s.range.2 ≤ (s.chunkSent cfg now).rangeSent
    · obtain ⟨a, ha, hlater⟩ := chunkSent_armed hfull
      simp [ha, Nat.not_le.mpr hlater]
    · rw [chunkSent_rangeSent] at hfull
      cases (s.chunkSent cfg now).ackDeadline <;> simp [hfull]
  simp only [tick, sendChunk, ge_iff_le, hlt, hnow, and_self, if_true, hack]

/-- The ack timer runs out with a retry left: the window starts again. -/
theorem tick_resend (cfg : Settings) {s : SenderTransfer} {now ack : ℕ}
    (hfull : s.range.2 ≤ s.rangeSent) (ha : s.ackDeadline = some ack) (hnow : ack ≤ now)
    (hretry : s.retryCount < SENDER_RETRY_LIMIT) :
    s.tick cfg now =
      ({ s with retryCount := s.retryCount + 1, rangeSent := 0, ackDeadline := none,
                sendDeadline := now }, [], .ok ()) := by
  have hn : ¬ (s.rangeSent < s.range.2 ∧ now ≥ s.sendDeadline) := by omega
  have hr : ¬ (s.retryCount + 1 > SENDER_RETRY_LIMIT) := by omega
  simp only [tick, sendChunk, hn, if_false, ackTimer, ha, ge_iff_le, hfull, hnow, and_self,
    if_true, hr]

theorem tick_giveUp (cfg : Settings) {s : SenderTransfer} {now ack : ℕ}
    (hfull : s.range.2 ≤ s.rangeSent) (ha : s.ackDeadline = some ack) (hnow : ack ≤ now)
    (hretry : SENDER_RETRY_LIMIT ≤ s.retryCount) :
    s.tick cfg now = ({ s with retryCount := s.retryCount + 1 }, [],
      .error (.noAck s.transferId s.range)) := by
  have hn : ¬ (s.rangeSent < s.range.2 ∧ now ≥ s.sendDeadline) := by omega
  have hr : s.retryCount + 1 > SENDER_RETRY_LIMIT := by omega
  simp only [tick, sendChunk, hn, if_false, ackTimer, ha, ge_iff_le, hfull, hnow, and_self,
    if_true, hr]

theorem tick_idle (cfg : Settings) {s : SenderTransfer} {now : ℕ}
    (hsend : s.rangeSent < s.range.2 → now < s.sendDeadline)
    (hack : s.range.2 ≤ s.rangeSent → ∀ ack, s.ackDeadline = some ack → now < ack) :
    s.tick cfg now = (s, [], .ok ()) := by
  have hn : ¬ (s.rangeSent < s.range.2 ∧ now ≥ s.sendDeadline) := by
    rintro ⟨hlt, hge⟩
    have := hsend hlt
    omega
  simp only [tick, sendChunk, hn, if_false, ackTimer]
  cases ha : s.ackDeadline with
  | none => rfl
  | some ack =>
    have hno : ¬ (s.rangeSent ≥ s.range.2 ∧ now ≥ ack) := by
      rintro ⟨hfull, hge⟩
      have := hack hfull ack ha
      omega
    simp only [hno, if_false]

/-- The ack timer has run out at `now`. -/
def AckDue (s : SenderTransfer) (now : ℕ) : Prop :=
  s.range.2 ≤ s.rangeSent ∧ ∃ ack, s.ackDeadline = some ack ∧ ack ≤ now

/-- A tick sends a chunk, repeats the window, gives up or does nothing. -/
theorem tick_cases (cfg : Settings) (s : SenderTransfer) (now : ℕ) :
    (s.rangeSent < s.range.2 ∧ s.sendDeadline ≤ now ∧ s.tick cfg now = (s.chunkSent cfg now,
      s.sendPackets (u16 (s.range.1 + s.rangeSent)) (min (s.range.2 - s.rangeSent) SEND_CHUNK),
      .ok ())) ∨
    (s.AckDue now ∧ s.retryCount < SENDER_RETRY_LIMIT ∧ s.tick cfg now =
      ({ s with retryCount := s.retryCount + 1, rangeSent := 0, ackDeadline := none,
                sendDeadline := now }, [], .ok ())) ∨
    (s.AckDue now ∧ SENDER_RETRY_LIMIT ≤ s.retryCount ∧ s.tick cfg now =
      ({ s with retryCount := s.retryCount + 1 }, [], .error (.noAck s.transferId s.range))) ∨
    ((s.rangeSent < s.range.2 → now < s.sendDeadline) ∧ ¬ s.AckDue now ∧
      s.tick cfg now = (s, [], .ok ())) := by
  by_cases hlt : s.rangeSent < s.range.2
  · have hnot : ¬ s.AckDue now := fun h => absurd h.1 (Nat.not_le_of_lt hlt)
    by_cases hnow : s.sendDeadline ≤ now
    · exact .inl ⟨hlt, hnow, tick_send cfg hlt hnow⟩
    · exact .inr (.inr (.inr ⟨fun _ => by omega, hnot,
        tick_idle cfg (fun _ => by omega) (fun hf => by omega)⟩))
  by_cases hdue : s.AckDue now
  · obtain ⟨hfull, ack, ha, hnow⟩ := hdue
    by_cases hretry : s.retryCount < SENDER_RETRY_LIMIT
    · exact .inr (.inl ⟨⟨hfull, ack, ha, hnow⟩, hretry, tick_resend cfg hfull ha hnow hretry⟩)
    · exact .inr (.inr (.inl ⟨⟨hfull, ack, ha, hnow⟩, by omega,
        tick_giveUp cfg hfull ha hnow (by omega)⟩))
  · refine .inr (.inr (.inr ⟨fun hl => absurd hl hlt, hdue,
      tick_idle cfg (fun hl => absurd hl hlt) fun hfull ack ha => ?_⟩))
    by_contra hge
    exact hdue ⟨hfull, ack, ha, by omega⟩

/-- A tick that lets the sender go on sends a chunk, repeats the window or does nothing. -/
theorem tick_ok_cases {cfg : Settings} {s t : SenderTransfer} {now : ℕ}
    {sent : List Message} (h : s.tick cfg now = (t, sent, .ok ())) :
    (s.rangeSent < s.range.2 ∧ t = s.chunkSent cfg now ∧
      sent = s.sendPackets (u16 (s.range.1 + s.rangeSent))
        (min (s.range.2 - s.rangeSent) SEND_CHUNK)) ∨
    (s.range.2 ≤ s.rangeSent ∧ s.ackDeadline.isSome ∧ s.retryCount < SENDER_RETRY_LIMIT ∧
      sent = [] ∧
      t = { s with retryCount := s.retryCount + 1, rangeSent := 0, ackDeadline := none,
                   sendDeadline := now }) ∨
    (sent = [] ∧ t = s) := by
  rcases tick_cases cfg s now with
    ⟨hlt, -, ht⟩ | ⟨⟨hfull, ack, hack, -⟩, hretry, ht⟩ | ⟨-, -, ht⟩ | ⟨-, -, ht⟩
  all_goals
    rw [ht] at h
    simp only [Prod.mk.injEq, reduceCtorEq, and_false] at h
  · exact .inl ⟨hlt, h.1.symm, h.2.1.symm⟩
  · exact .inr (.inl ⟨hfull, by simp [hack], hretry, h.2.1.symm, h.1.symm⟩)
  · exact .inr (.inr ⟨h.2.1.symm, h.1.symm⟩)

/-- What a tick leaves alone. -/
theorem tick_same {cfg : Settings} {s t : SenderTransfer} {now : ℕ} {sent : List Message}
    (h : s.tick cfg now = (t, sent, .ok ())) :
    t.file = s.file ∧ t.transferId = s.transferId ∧ t.totalPackets = s.totalPackets ∧
      t.range = s.range := by
  rcases tick_ok_cases h with ⟨-, rfl, -⟩ | ⟨-, -, -, -, rfl⟩ | ⟨-, rfl⟩
  · obtain ⟨hid, -, htotal, hfile⟩ := chunkSent_same cfg s now
    exact ⟨hfile, hid, htotal, chunkSent_range cfg s now⟩
  · exact ⟨rfl, rfl, rfl, rfl⟩
  · exact ⟨rfl, rfl, rfl, rfl⟩

/-- What a tick sends is a chunk of the window. -/
theorem mem_tick_sent {cfg : Settings} {s : SenderTransfer} {now : ℕ} {m : Message}
    (h : m ∈ (s.tick cfg now).2.1) :
    m ∈ s.sendPackets (u16 (s.range.1 + s.rangeSent)) (min (s.range.2 - s.rangeSent) SEND_CHUNK) := by
  have hsent : (s.tick cfg now).2.1 = (s.sendChunk cfg now).2 := rfl
  rw [hsent, sendChunk] at h
  split at h
  · exact h
  · exact absurd h List.not_mem_nil

theorem contents_of_mem_sendPackets {s : SenderTransfer} {first count : ℕ} {m : Message}
    (h : m ∈ s.sendPackets first count) :
    ∃ p d, m = .segmentContents s.transferId p s.totalPackets d := by
  obtain ⟨i, -, rfl⟩ := List.mem_map.mp h
  exact ⟨_, _, rfl⟩

end SenderTransfer
end Qstream.Transfer

import Qstream.TransferLink

/-! What a sender puts on the wire: whatever its owner's calls and the ACKs of the
network are, numbered slices of its file, cut within the file's bounds. The slices of
one window over all packets make up the file as long as 65535 packets suffice. -/
namespace Qstream.Transfer
open Chunks

/-- One call of a sender by its owner. -/
inductive SenderCall
  | tick (now : ℕ)
  | ack (clk : Clock) (ackType : AckType) (nextStart nextCount : ℕ)

/-- `bytes[seek..stop]`; bounds outside the slice panic. -/
def sliceChecked (bytes : Bytes) (seek stop : ℕ) : Option Bytes :=
  if seek ≤ stop ∧ stop ≤ bytes.length then some ((bytes.drop seek).take (stop - seek)) else none

/-- A subtraction that panics when it underflows. -/
def subChecked (a b : ℕ) : Option ℕ := if b ≤ a then some (a - b) else none

/-- The payload of a SEGMENT_CONTENTS. -/
def contentsOf : Message → Option Bytes
  | .segmentContents _ _ _ d => some d
  | _ => none

def payloads (sent : List Message) : List Bytes := sent.filterMap contentsOf

theorem mapM_eq_some_map {α β : Type} {f : α → Option β} {g : α → β} {l : List α}
    (h : ∀ x ∈ l, f x = some (g x)) : l.mapM f = some (l.map g) := by
  induction l with
  | nil => rfl
  | cons x l ih =>
    obtain ⟨hx, hl⟩ := List.forall_mem_cons.mp h
    rw [List.mapM_cons, hx, ih hl]
    rfl

namespace SenderTransfer

/-- `sendPackets` with the operations that can panic made explicit. -/
def sendPacketsChecked (s : SenderTransfer) (firstPacket count : ℕ) : Option (List Message) :=
  (List.range count).mapM fun i => do
    let packetNumber := u16 (firstPacket + i)
    let index ← subChecked packetNumber 1
    let seek := index * SEGMENT_PACKET_SIZE
    let stop := min (seek + SEGMENT_PACKET_SIZE) s.file.length
    let data ← sliceChecked s.file seek stop
    return .segmentContents s.transferId packetNumber s.totalPackets data

/-- One call, whatever its result: a sender that gave up may be called again. -/
def call (cfg : Settings) (s : SenderTransfer) : SenderCall → SenderTransfer × List Message
  | .tick now => ((s.tick cfg now).1, (s.tick cfg now).2.1)
  | .ack clk ackType nextStart nextCount => ((s.onAck cfg clk ackType nextStart nextCount).1, [])

/-- The state after some calls, and everything sent meanwhile. -/
def callAll (cfg : Settings) (s : SenderTransfer) : List SenderCall → SenderTransfer × List Message
  | [] => (s, [])
  | c :: cs =>
    let (s1, sent) := s.call cfg c
    let (s2, rest) := s1.callAll cfg cs
    (s2, sent ++ rest)

/-- The number of the next packet of the window. -/
def nextPacket (s : SenderTransfer) : ℕ := s.range.1 + s.rangeSent

/-- How many packets the next chunk has. -/
def nextChunk (s : SenderTransfer) : ℕ := min (s.range.2 - s.rangeSent) SEND_CHUNK

/-- The arithmetic of the next chunk: no packet number and no count of sent packets
wraps in 16 bits, no subtraction underflows and no slice leaves the file. -/
structure ChunkInBounds (s : SenderTransfer) : Prop where
  first_lt : s.nextPacket < 65536
  number_lt : ∀ i < s.nextChunk, s.nextPacket + i < 65536
  sent_lt : s.rangeSent + s.nextChunk < 65536
  checked : s.sendPacketsChecked (u16 s.nextPacket) s.nextChunk =
    some (s.sendPackets (u16 s.nextPacket) s.nextChunk)

/-! Every call keeps the window inside the file, also one that gives up. -/

theorem call_windowInv (cfg : Settings) {s : SenderTransfer} (c : SenderCall) (hi : s.WindowInv) :
    (s.call cfg c).1.WindowInv := by
  cases c with
  | tick now =>
    rcases tick_cases cfg s now with ⟨-, -, ht⟩ | ⟨-, -, ht⟩ | ⟨-, -, ht⟩ | ⟨-, -, ht⟩
    all_goals simp only [call, ht]
    · exact tick_windowInv ht hi
    · exact tick_windowInv ht hi
    · exact ⟨hi.total, hi.start_pos, hi.fits, hi.sent_le⟩
    · exact hi
  | ack clk ackType a b =>
    cases ackType with
    | complete => exact hi
    | progress => exact onProgress_windowInv cfg clk a b hi

theorem call_same (cfg : Settings) (s : SenderTransfer) (c : SenderCall) :
    (s.call cfg c).1.file = s.file ∧ (s.call cfg c).1.transferId = s.transferId := by
  cases c with
  | tick now =>
    rcases tick_cases cfg s now with ⟨-, -, ht⟩ | ⟨-, -, ht⟩ | ⟨-, -, ht⟩ | ⟨-, -, ht⟩
    all_goals simp only [call, ht, and_self]
    exact ⟨(tick_same ht).1, (tick_same ht).2.1⟩
  | ack clk ackType a b =>
    cases ackType with
    | complete => exact ⟨rfl, rfl⟩
    | progress =>
      obtain ⟨hid, -, -, hfile⟩ := onProgress_same cfg clk s a b
      exact ⟨hfile, hid⟩

/-- The packets `1 .. N` start inside the file. -/
theorem WindowInv.seek_le {s : SenderTransfer} (hi : s.WindowInv) {p : ℕ}
    (hp : p ≤ s.totalPackets) : (p - 1) * SEGMENT_PACKET_SIZE ≤ s.file.length := by
  refine le_trans (Nat.mul_le_mul_right _ (Nat.sub_le_sub_right hp 1)) ?_
  rw [hi.total]
  exact packetCount_sub_mul_le _

theorem sliceChecked_packet {s : SenderTransfer} (hi : s.WindowInv) {p : ℕ}
    (hp : p ≤ s.totalPackets) :
    sliceChecked s.file ((p - 1) * SEGMENT_PACKET_SIZE)
      (min ((p - 1) * SEGMENT_PACKET_SIZE + SEGMENT_PACKET_SIZE) s.file.length) =
        some (packetOf s.file p) := by
  have hseek := hi.seek_le hp
  have hbounds : (p - 1) * SEGMENT_PACKET_SIZE ≤
        min ((p - 1) * SEGMENT_PACKET_SIZE + SEGMENT_PACKET_SIZE) s.file.length ∧
      min ((p - 1) * SEGMENT_PACKET_SIZE + SEGMENT_PACKET_SIZE) s.file.length ≤ s.file.length :=
    ⟨le_min (Nat.le_add_right _ _) hseek, min_le_right _ _⟩
  rw [sliceChecked, if_pos hbounds, slice_eq_packet]

/-- Neither the subtraction nor the slice of a packet of the window panics. -/
theorem sendPacketsChecked_eq {s : SenderTransfer} (hi : s.WindowInv) {first count : ℕ}
    (hpos : 1 ≤ first) (hcount : 1 ≤ count) (hfit : first + count ≤ s.totalPackets + 1) :
    s.sendPacketsChecked (u16 first) count = some (s.sendPackets (u16 first) count) := by
  have hmax : s.totalPackets ≤ 65535 := hi.total ▸ packetCount_le _
  have hfirst : u16 first = first := u16_of_lt (by omega)
  rw [sendPackets_eq hi.total hfit, sendPacketsChecked]
  refine mapM_eq_some_map fun i hrange => ?_
  have hi' : i < count := List.mem_range.mp hrange
  have hnumber : u16 (first + i) = first + i := u16_of_lt (by omega)
  have hsub : subChecked (first + i) 1 = some (first + i - 1) := if_pos (by omega)
  simp only [hfirst, hnumber, hsub, Option.bind_eq_bind, Option.bind_some,
    sliceChecked_packet hi (show first + i ≤ s.totalPackets by omega)]
  rfl

theorem WindowInv.chunkInBounds {s : SenderTransfer} (hi : s.WindowInv)
    (hlt : s.rangeSent < s.range.2) : s.ChunkInBounds := by
  have hmax : s.totalPackets ≤ 65535 := hi.total ▸ packetCount_le _
  have hfits := hi.fits
  have hpos : 1 ≤ s.nextPacket := hi.start_pos.trans (Nat.le_add_right _ _)
  have hchunk : 1 ≤ s.nextChunk := le_min (by omega) (by decide)
  have hsent : s.rangeSent + s.nextChunk ≤ s.range.2 := by
    simp only [nextChunk]
    omega
  have hroom : s.nextPacket + s.nextChunk ≤ s.totalPackets + 1 := by
    simp only [nextPacket]
    omega
  have hcount : s.range.2 ≤ s.totalPackets := by
    have := hi.start_pos
    omega
  exact {
    first_lt := by omega
    number_lt := fun i hi => by omega
    sent_lt := by omega
    checked := sendPacketsChecked_eq hi hpos hchunk hroom }

/-- What one call sends are packets of the file. -/
theorem packet_of_mem_call {cfg : Settings} {s : SenderTransfer} (hi : s.WindowInv)
    {c : SenderCall} {m : Message} (hm : m ∈ (s.call cfg c).2) :
    ∃ p, 1 ≤ p ∧ p ≤ s.totalPackets ∧
      m = .segmentContents s.transferId p s.totalPackets (packetOf s.file p) := by
  cases c with
  | tick now =>
    have hmem := mem_tick_sent hm
    have hfits := hi.fits
    have hpos := hi.start_pos
    have hsent := hi.sent_le
    rw [sendPackets_eq hi.total (by omega), List.mem_map] at hmem
    obtain ⟨i, hrange, rfl⟩ := hmem
    have hi' := List.mem_range.mp hrange
    exact ⟨_, by omega, by omega, rfl⟩
  | ack clk ackType a b => exact absurd hm List.not_mem_nil

/-- What every sequence of calls keeps, and what it sends. -/
theorem callAll_spec (cfg : Settings) {s : SenderTransfer} (hi : s.WindowInv)
    (cs : List SenderCall) :
    (s.callAll cfg cs).1.WindowInv ∧ (s.callAll cfg cs).1.file = s.file ∧
    (s.callAll cfg cs).1.transferId = s.transferId ∧
    ∀ m ∈ (s.callAll cfg cs).2, ∃ p, 1 ≤ p ∧ p ≤ s.totalPackets ∧
      m = .segmentContents s.transferId p s.totalPackets (packetOf s.file p) := by
  induction cs generalizing s with
  | nil => exact ⟨hi, rfl, rfl, by simp [callAll]⟩
  | cons c cs ih =>
    have hi' := call_windowInv cfg c hi
    obtain ⟨hfile, hid⟩ := call_same cfg s c
    have htotal : (s.call cfg c).1.totalPackets = s.totalPackets := by
      rw [hi'.total, hfile, hi.total]
    obtain ⟨hwin, hfiles, hids, hsent⟩ := ih hi'
    refine ⟨hwin, hfiles.trans hfile, hids.trans hid, fun m hm => ?_⟩
    rcases List.mem_append.mp hm with hm | hm
    · exact packet_of_mem_call hi hm
    · obtain ⟨p, hpos, hle, rfl⟩ := hsent m hm
      exact ⟨p, hpos, htotal ▸ hle, by rw [htotal, hid, hfile]⟩

end SenderTransfer

/-- Whatever a sender is called with, and whatever the ACKs name, it emits packets
`1 .. N` with their own bytes of the file, and the next chunk it may send stays in bounds. -/
theorem sender_emits_packets (cfg : Settings) (clk : Clock) (id : ℕ) (remote : SocketAddr)
    (file : Bytes) (cs : List SenderCall) :
    let N := packetCount file.length
    let called := (SenderTransfer.new clk id remote file).callAll cfg cs
    (∀ m ∈ called.2, ∃ p d, m = .segmentContents id p N d ∧ 1 ≤ p ∧ p ≤ N ∧
      sliceChecked file ((p - 1) * SEGMENT_PACKET_SIZE)
        (min (p * SEGMENT_PACKET_SIZE) file.length) = some d) ∧
    (called.1.rangeSent < called.1.range.2 → called.1.ChunkInBounds) := by
  intro N called
  have hnew := SenderTransfer.new_windowInv clk id remote file
  obtain ⟨hwin, -, -, hsent⟩ := SenderTransfer.callAll_spec cfg hnew cs
  refine ⟨fun m hm => ?_, hwin.chunkInBounds⟩
  obtain ⟨p, hpos, hN, rfl⟩ := hsent m hm
  refine ⟨p, packetOf file p, rfl, hpos, hN, ?_⟩
  have hstop : p * SEGMENT_PACKET_SIZE = (p - 1) * SEGMENT_PACKET_SIZE + SEGMENT_PACKET_SIZE := by
    rw [← Nat.succ_mul, Nat.succ_eq_add_one, Nat.sub_add_cancel hpos]
  rw [hstop]
  exact SenderTransfer.sliceChecked_packet hnew hN

/-! One window over all packets: are its payloads the file? -/

namespace SenderTransfer

/-- The payloads of the packets `1 .. N`, one after another. -/
def packetization (s : SenderTransfer) : List Bytes :=
  payloads (s.sendPackets 1 s.totalPackets)

/-- The packets cover the whole file in full slices, the last one excepted. -/
structure CoversFile (s : SenderTransfer) : Prop where
  whole : s.packetization.flatten = s.file
  bounded : ∀ d ∈ s.packetization, d.length ≤ SEGMENT_PACKET_SIZE
  full : ∀ d ∈ s.packetization.dropLast, d.length = SEGMENT_PACKET_SIZE

theorem packetization_eq {s : SenderTransfer} (h : s.totalPackets = packetCount s.file.length) :
    s.packetization = (List.range s.totalPackets).map fun i => packetOf s.file (i + 1) := by
  have hsent : s.sendPackets 1 s.totalPackets = _ :=
    sendPackets_eq h (show 1 + s.totalPackets ≤ s.totalPackets + 1 by omega)
  rw [packetization, hsent, payloads, List.filterMap_map, ← List.filterMap_eq_map]
  refine List.filterMap_congr fun i _ => ?_
  simp only [Function.comp, contentsOf, Nat.add_comm 1 i]

/-- What the packets carry is the file up to the last addressable byte. -/
theorem flatten_packetization {s : SenderTransfer}
    (h : s.totalPackets = packetCount s.file.length) :
    s.packetization.flatten = s.file.take (s.totalPackets * SEGMENT_PACKET_SIZE) := by
  rw [packetization_eq h]
  exact flatten_chunks SEGMENT_PACKET_SIZE s.file s.totalPackets

theorem length_of_mem_packetization {s : SenderTransfer}
    (h : s.totalPackets = packetCount s.file.length) {d : Bytes} (hd : d ∈ s.packetization) :
    d.length ≤ SEGMENT_PACKET_SIZE := by
  rw [packetization_eq h] at hd
  obtain ⟨i, -, rfl⟩ := List.mem_map.mp hd
  rw [length_chunk]
  exact min_le_left _ _

/-- A packet before the last one ends where the next one starts, inside the file. -/
theorem length_of_mem_dropLast {s : SenderTransfer}
    (h : s.totalPackets = packetCount s.file.length) {d : Bytes}
    (hd : d ∈ s.packetization.dropLast) : d.length = SEGMENT_PACKET_SIZE := by
  rw [packetization_eq h, ← List.map_dropLast] at hd
  obtain ⟨i, hi, rfl⟩ := List.mem_map.mp hd
  have hlt : i + 1 ≤ s.totalPackets - 1 := by
    rw [List.dropLast_eq_take, List.length_range, List.take_range, List.mem_range] at hi
    omega
  have hnext : (i + 1) * SEGMENT_PACKET_SIZE ≤ s.file.length := by
    refine (Nat.mul_le_mul_right _ hlt).trans ?_
    rw [h]
    exact packetCount_sub_mul_le _
  rw [length_chunk, Nat.add_sub_cancel]
  rw [Nat.succ_mul] at hnext
  omega

/-- The packets end before the file does exactly when 65535 full packets do. -/
theorem length_le_iff {s : SenderTransfer} (h : s.totalPackets = packetCount s.file.length) :
    s.file.length ≤ s.totalPackets * SEGMENT_PACKET_SIZE ↔
      s.file.length ≤ 65535 * SEGMENT_PACKET_SIZE := by
  rw [h]
  refine ⟨fun hle => hle.trans ?_, le_packetCount_mul⟩
  exact Nat.mul_le_mul_right _ (packetCount_le _)

/-- Whoever sends more than the addressable bytes leaves some out. -/
theorem not_coversFile {s : SenderTransfer} (h : s.totalPackets = packetCount s.file.length)
    (hlong : 65535 * SEGMENT_PACKET_SIZE < s.file.length) : ¬ s.CoversFile := by
  intro hcover
  have hwhole := hcover.whole
  rw [flatten_packetization h, List.take_eq_self_iff, length_le_iff h] at hwhole
  omega

end SenderTransfer

/-- The packets of a file cover it exactly when their 16-bit numbers can: the count
saturates, and what lies beyond the last packet is never sent. -/
theorem packetization_covers_iff (clk : Clock) (id : ℕ) (remote : SocketAddr) (file : Bytes) :
    (SenderTransfer.new clk id remote file).CoversFile ↔
      file.length ≤ 65535 * SEGMENT_PACKET_SIZE := by
  have htotal := (SenderTransfer.new_windowInv clk id remote file).total
  constructor
  · intro hcover
    by_contra hlong
    exact SenderTransfer.not_coversFile htotal (Nat.lt_of_not_le hlong) hcover
  · intro hle
    have hall := (SenderTransfer.length_le_iff htotal).mpr hle
    exact {
      whole := (SenderTransfer.flatten_packetization htotal).trans (List.take_of_length_le hall)
      bounded := fun _ hd => SenderTransfer.length_of_mem_packetization htotal hd
      full := fun _ hd => SenderTransfer.length_of_mem_dropLast htotal hd }

/-- A file one byte too long for 65535 packets is cut off. -/
theorem long_file_is_cut :
    ¬ (SenderTransfer.new (fun _ => 0) 7 unspecifiedEndpoint
      (List.replicate (65535 * SEGMENT_PACKET_SIZE + 1) 0)).CoversFile := by
  refine SenderTransfer.not_coversFile (SenderTransfer.new_windowInv _ _ _ _).total ?_
  simp only [SenderTransfer.new, List.length_replicate]
  exact Nat.lt_succ_self _

end Qstream.Transfer

import Qstream.TransferReassembly
import Qstream.TransferSenderRuns

/-! One sender and one receiver joined by a network that may lose, duplicate, delay
and reorder their datagrams, and the integrity of the file that gets through. -/
namespace Qstream.Transfer
open Runs Chunks

/-- What stays fixed during one transfer. -/
structure LinkParams where
  senderCfg : Settings
  receiverCfg : Settings
  transferId : ℕ
  senderAddr : SocketAddr
  receiverAddr : SocketAddr
  filename : String
  file : Bytes

/-- Both parties, the receiver's directory, and the datagrams in flight. -/
structure Link where
  sender : Option SenderTransfer
  receiver : ReceiverTransfer
  dir : Dir
  wire : List Message

inductive LinkEvent
  | request (clk : Clock)
  | senderTick (now : ℕ)
  | ack (clk : Clock) (ackType : AckType) (nextStart nextCount : ℕ)
  | content (env : World) (packetNumber totalPackets : ℕ) (data : Bytes)
  | receiverTick (now : ℕ) (clk : Clock)
  | drop (m : Message)
  | duplicate (m : Message)

namespace LinkParams
variable (P : LinkParams)

def total : ℕ := packetCount P.file.length

def requestMessage : Message := .segmentRequest P.transferId P.filename

def contentMessage (p t : ℕ) (d : Bytes) : Message := .segmentContents P.transferId p t d

/-- Packet `p` of the file as it travels. -/
def packet (p : ℕ) : Message := P.contentMessage p P.total (packetOf P.file p)

def ackMessage (ackType : AckType) (a b : ℕ) : Message := .ack P.transferId ackType a b

end LinkParams

namespace Link

/-- The receiver has just sent its request. -/
def initial (P : LinkParams) (clk : Clock) (dir : Dir) : Link where
  sender := none
  receiver := .new P.receiverCfg clk P.transferId P.senderAddr P.filename
  dir := dir
  wire := [P.requestMessage]

/-- Serving a request starts a sender afresh, also when there is one already. -/
def onRequest (P : LinkParams) (L : Link) (clk : Clock) : Link :=
  { L with
    sender := some (.new clk P.transferId P.receiverAddr P.file)
    wire := L.wire.erase P.requestMessage }

def onSenderTick (P : LinkParams) (L : Link) (now : ℕ) : Link :=
  match L.sender with
  | none => L
  | some s =>
    match s.tick P.senderCfg now with
    | (s', sent, .ok _) => { L with sender := some s', wire := L.wire ++ sent }
    | (_, sent, .error _) => { L with sender := none, wire := L.wire ++ sent }

def onAck (P : LinkParams) (L : Link) (clk : Clock) (ackType : AckType) (a b : ℕ) : Link :=
  let wire := L.wire.erase (P.ackMessage ackType a b)
  match L.sender with
  | none => { L with wire := wire }
  | some s =>
    match s.onAck P.senderCfg clk ackType a b with
    | (_, true) => { L with sender := none, wire := wire }
    | (s', false) => { L with sender := some s', wire := wire }

def onContent (P : LinkParams) (L : Link) (env : World) (p t : ℕ) (d : Bytes) : Link :=
  let (r, sent, dir) := L.receiver.onContent P.receiverCfg env L.dir p t d
  { L with receiver := r, dir := dir, wire := L.wire.erase (P.contentMessage p t d) ++ sent }

def onReceiverTick (P : LinkParams) (L : Link) (now : ℕ) (clk : Clock) : Link :=
  let (r, sent) := L.receiver.onTick P.receiverCfg now clk
  { L with receiver := r, wire := L.wire ++ sent }

def apply (P : LinkParams) (L : Link) : LinkEvent → Link
  | .request clk => L.onRequest P clk
  | .senderTick now => L.onSenderTick P now
  | .ack clk ackType a b => L.onAck P clk ackType a b
  | .content env p t d => L.onContent P env p t d
  | .receiverTick now clk => L.onReceiverTick P now clk
  | .drop m => { L with wire := L.wire.erase m }
  | .duplicate m => { L with wire := m :: L.wire }

/-- An event can only deliver, lose or duplicate what is in flight. -/
def Enabled (P : LinkParams) (L : Link) : LinkEvent → Prop
  | .request _ => P.requestMessage ∈ L.wire
  | .senderTick _ => True
  | .ack _ ackType a b => P.ackMessage ackType a b ∈ L.wire
  | .content _ p t d => P.contentMessage p t d ∈ L.wire
  | .receiverTick _ _ => True
  | .drop m => m ∈ L.wire
  | .duplicate m => m ∈ L.wire

/-- The same with requests and ACKs from anywhere: only the contents must come from
a sender of the file. -/
def EnabledOpen (P : LinkParams) (L : Link) : LinkEvent → Prop
  | .content _ p t d => P.contentMessage p t d ∈ L.wire
  | .duplicate m => m ∈ L.wire
  | _ => True

inductive Step (P : LinkParams) : Link → LinkEvent → Link → Prop
  | mk {L : Link} {e : LinkEvent} (h : L.Enabled P e) : Step P L e (L.apply P e)

inductive OpenStep (P : LinkParams) : Link → LinkEvent → Link → Prop
  | mk {L : Link} {e : LinkEvent} (h : L.EnabledOpen P e) : OpenStep P L e (L.apply P e)

theorem Step.open {P : LinkParams} {L L' : Link} {e : LinkEvent} (h : Step P L e L') :
    OpenStep P L e L' := by
  cases h with
  | mk h => cases e <;> exact .mk (by first | exact h | trivial)

end Link

/-! The datagrams a sender emits are packets of its file. -/

theorem slice_eq_packet (file : Bytes) (p : ℕ) :
    (file.drop ((p - 1) * SEGMENT_PACKET_SIZE)).take
      (min ((p - 1) * SEGMENT_PACKET_SIZE + SEGMENT_PACKET_SIZE) file.length -
        (p - 1) * SEGMENT_PACKET_SIZE) = packetOf file p := by
  simp only [packetOf, chunk]
  rw [List.take_eq_take_iff, List.length_drop]
  omega

/-- The packets `first .. first + count - 1` of a window inside the file. -/
theorem sendPackets_eq {s : SenderTransfer} (h : s.totalPackets = packetCount s.file.length)
    {first count : ℕ} (hfit : first + count ≤ s.totalPackets + 1) :
    s.sendPackets (u16 first) count = (List.range count).map fun i =>
      .segmentContents s.transferId (first + i) s.totalPackets (packetOf s.file (first + i)) := by
  have hmax : s.totalPackets ≤ 65535 := h ▸ packetCount_le _
  apply List.map_congr_left
  intro i hi
  have hi' : i < count := List.mem_range.mp hi
  have hf : u16 first = first := u16_of_lt (by omega)
  have hp : u16 (first + i) = first + i := u16_of_lt (by omega)
  simp only [hf, hp, slice_eq_packet]

/-- The invariant of one transfer of one unchanged file. -/
structure Link.Safe (P : LinkParams) (L : Link) : Prop where
  sender : ∀ s, L.sender = some s →
    s.WindowInv ∧ s.file = P.file ∧ s.transferId = P.transferId
  wire : ∀ i p t d, Message.segmentContents i p t d ∈ L.wire →
    i = P.transferId ∧ t = P.total ∧ 1 ≤ p ∧ p ≤ P.total ∧ d = packetOf P.file p
  filename : L.receiver.filename = P.filename
  receiverId : L.receiver.transferId = P.transferId
  holds : L.receiver.Holds P.file
  window : L.receiver.outcome = none →
    L.receiver.Fresh ∨ ∃ s c, L.receiver.InRange P.total s c
  saved : L.receiver.outcome = some (.ok ()) →
    L.receiver.savedBytes = some P.file.length ∧
    ∃ w, L.dir.entries.lookup P.filename = some (.file P.file true w)

namespace Link
variable {P : LinkParams} {L : Link}

theorem initial_safe (P : LinkParams) (clk : Clock) (dir : Dir) : (initial P clk dir).Safe P where
  sender := by simp [initial]
  wire := by simp [initial, LinkParams.requestMessage]
  filename := rfl
  receiverId := rfl
  holds := by
    intro p d h
    simp [initial, ReceiverTransfer.new] at h
  window := fun _ => .inl (ReceiverTransfer.new_fresh _ _ _ _ _)
  saved := by simp [initial, ReceiverTransfer.new]

theorem total_pos (P : LinkParams) : 1 ≤ P.total := packetCount_pos _
theorem total_le (P : LinkParams) : P.total ≤ 65535 := packetCount_le _

/-- The packets a window of a safe sender puts on the wire. -/
theorem mem_sendPackets {s : SenderTransfer} (hw : s.WindowInv) (hfile : s.file = P.file)
    (hid : s.transferId = P.transferId) {m : Message} :
    m ∈ s.sendPackets (u16 (s.range.1 + s.rangeSent)) (min (s.range.2 - s.rangeSent) SEND_CHUNK) ↔
      ∃ p, s.range.1 + s.rangeSent ≤ p ∧
        p < s.range.1 + s.rangeSent + min (s.range.2 - s.rangeSent) SEND_CHUNK ∧
        m = P.packet p := by
  have htot : s.totalPackets = P.total := by rw [hw.total, hfile]; rfl
  have hfits := hw.fits
  have hsent := hw.sent_le
  rw [sendPackets_eq hw.total (by omega), List.mem_map]
  simp only [List.mem_range, hid, htot, hfile]
  constructor
  · rintro ⟨i, hi, rfl⟩
    exact ⟨_, Nat.le_add_right _ _, by omega, rfl⟩
  · rintro ⟨p, hlo, hhi, rfl⟩
    refine ⟨p - (s.range.1 + s.rangeSent), by omega, ?_⟩
    rw [Nat.add_sub_cancel' hlo]
    rfl

theorem packet_wire {p i q t : ℕ} {d : Bytes} (h1 : 1 ≤ p) (hN : p ≤ P.total)
    (h : Message.segmentContents i q t d = P.packet p) :
    i = P.transferId ∧ t = P.total ∧ 1 ≤ q ∧ q ≤ P.total ∧ d = packetOf P.file q := by
  simp only [LinkParams.packet, LinkParams.contentMessage, Message.segmentContents.injEq] at h
  obtain ⟨rfl, rfl, rfl, rfl⟩ := h
  exact ⟨rfl, rfl, h1, hN, rfl⟩

/-- A tick of a safe sender sends packets of the file. -/
theorem packet_of_mem_tick {s : SenderTransfer} (hw : s.WindowInv) (hfile : s.file = P.file)
    (hid : s.transferId = P.transferId) {now : ℕ} {m : Message}
    (h : m ∈ (s.tick P.senderCfg now).2.1) : ∃ p, 1 ≤ p ∧ p ≤ P.total ∧ m = P.packet p := by
  obtain ⟨p, hlo, hhi, heq⟩ := (mem_sendPackets hw hfile hid).mp (SenderTransfer.mem_tick_sent h)
  have htot : s.totalPackets = P.total := by rw [hw.total, hfile]; rfl
  have hpos := hw.start_pos
  have hfits := hw.fits
  exact ⟨p, by omega, by omega, heq⟩

theorem onRequest_safe (clk : Clock) (h : L.Safe P) : (L.onRequest P clk).Safe P :=
  { h with
    sender := by
      intro s hs
      cases hs
      exact ⟨SenderTransfer.new_windowInv _ _ _ _, rfl, rfl⟩
    wire := fun i p t d hm => h.wire i p t d (List.mem_of_mem_erase hm) }

theorem onSenderTick_safe (now : ℕ) (h : L.Safe P) : (L.onSenderTick P now).Safe P := by
  cases hs : L.sender with
  | none => simpa only [onSenderTick, hs] using h
  | some s =>
    obtain ⟨hw, hfile, hid⟩ := h.sender s hs
    cases htick : s.tick P.senderCfg now with
    | mk s' rest =>
      obtain ⟨sent, res⟩ := rest
      have hwire : ∀ i p t d, Message.segmentContents i p t d ∈ L.wire ++ sent →
          i = P.transferId ∧ t = P.total ∧ 1 ≤ p ∧ p ≤ P.total ∧ d = packetOf P.file p := by
        intro i p t d hm
        rcases List.mem_append.mp hm with hm | hm
        · exact h.wire i p t d hm
        · obtain ⟨q, h1, hN, heq⟩ := packet_of_mem_tick hw hfile hid (by rw [htick]; exact hm)
          exact packet_wire h1 hN heq
      cases res with
      | error e =>
        simp only [onSenderTick, hs, htick]
        exact { h with sender := by simp, wire := hwire }
      | ok _ =>
        simp only [onSenderTick, hs, htick]
        obtain ⟨hfile', hid', -, -⟩ := SenderTransfer.tick_same htick
        refine { h with sender := ?_, wire := hwire }
        intro u hu
        cases hu
        exact ⟨SenderTransfer.tick_windowInv htick hw, hfile'.trans hfile, hid'.trans hid⟩

theorem onAck_safe (clk : Clock) (ackType : AckType) (a b : ℕ) (h : L.Safe P) :
    (L.onAck P clk ackType a b).Safe P := by
  have hwire : ∀ i p t d, Message.segmentContents i p t d ∈
      L.wire.erase (P.ackMessage ackType a b) →
      i = P.transferId ∧ t = P.total ∧ 1 ≤ p ∧ p ≤ P.total ∧ d = packetOf P.file p :=
    fun i p t d hm => h.wire i p t d (List.mem_of_mem_erase hm)
  cases hs : L.sender with
  | none =>
    simp only [onAck, hs]
    exact { h with sender := by simp, wire := hwire }
  | some s =>
    obtain ⟨hw, hfile, hid⟩ := h.sender s hs
    cases ackType with
    | complete =>
      simp only [onAck, hs, SenderTransfer.onAck]
      exact { h with sender := by simp, wire := hwire }
    | progress =>
      simp only [onAck, hs, SenderTransfer.onAck]
      obtain ⟨hi, -, -, hf⟩ := SenderTransfer.onProgress_same P.senderCfg clk s a b
      refine { h with sender := ?_, wire := hwire }
      intro u hu
      cases hu
      exact ⟨SenderTransfer.onProgress_windowInv _ _ _ _ hw, hf.trans hfile, hi.trans hid⟩

/-- What the receiver of a safe link does with a packet of the file: it goes on with
its window, or it ends with the file saved or an error. -/
theorem receive_packet {r : ReceiverTransfer} (env : World) (dir : Dir) {p : ℕ}
    (hlen : P.file.length ≤ 65535 * SEGMENT_PACKET_SIZE)
    (hholds : r.Holds P.file) (hw : r.Fresh ∨ ∃ s c, r.InRange P.total s c) :
    let res := r.onContent P.receiverCfg env dir p P.total (packetOf P.file p)
    ReceiverTransfer.SameTransfer r res.1 ∧ res.1.Holds P.file ∧
    ((∃ s c, res.1.InRange P.total s c) ∨
      (env.io ≠ .ok ∧ ∃ e, res.1.outcome = some (.error e)) ∨
      (res.1.outcome = some (.ok ()) ∧ res.1.savedBytes = some P.file.length ∧
        res.2.2.entries.lookup r.filename = some (.file P.file true env.wall))) ∧
    ∀ i q t d, Message.segmentContents i q t d ∉ res.2.1 := by
  obtain ⟨r1, s, c, hin, hpk, hsame, -, heq⟩ :=
    ReceiverTransfer.exists_opened P.receiverCfg env hw (total_pos P) (total_le P)
  have hholds1 : r1.Holds P.file := by
    intro q d hq
    rw [hpk] at hq
    exact hholds q d hq
  simp only [heq]
  rcases ReceiverTransfer.onContent_inRange hin P.total with ⟨-, h⟩ | ⟨-, -, -, h⟩ | ⟨-, -, -, h⟩ |
    ⟨-, hlo, hhi, ⟨hstored, h⟩ | ⟨-, r2, h, hnext, hpk2, hsame2, -⟩ | ⟨hall, h⟩⟩
  · rw [h]
    exact ⟨hsame, hholds1, .inl ⟨s, c, hin⟩, by simp⟩
  · rw [h]
    exact ⟨hsame, hholds1, .inl ⟨s, c, hin⟩, by simp [ReceiverTransfer.ackMessage]⟩
  · rw [h]
    exact ⟨hsame, hholds1, .inl ⟨s, c, hin⟩, by simp⟩
  · rw [h]
    exact ⟨hsame.trans (ReceiverTransfer.store_same _ _ _ _ _), hholds1.store _ _ _,
      .inl ⟨s, c, hstored⟩, by simp⟩
  · rw [h]
    refine ⟨hsame.trans hsame2, ?_, .inl ⟨_, _, hnext⟩, by simp [ReceiverTransfer.ackMessage]⟩
    intro q d hq
    rw [hpk2] at hq
    exact hholds1.store _ _ _ q d hq
  · have hsame3 := hsame.trans (ReceiverTransfer.store_same P.receiverCfg env.clk r1 p
      (packetOf P.file p))
    have hkeys : ∀ q ∈ (r1.store P.receiverCfg env.clk p (packetOf P.file p)).packets,
        1 ≤ q ∧ q ≤ P.total := by
      intro q hq
      have := hin.stored_of_store hlo hhi hq
      have := hin.fits
      omega
    have hlast : (P.total - 1) * SEGMENT_PACKET_SIZE ≤ P.file.length :=
      packetCount_sub_mul_le _
    have hcover : P.file.length ≤ P.total * SEGMENT_PACKET_SIZE := le_packetCount_mul hlen
    have hst := hholds1.store P.receiverCfg env.clk p
    have htotal : (r1.store P.receiverCfg env.clk p (packetOf P.file p)).total = some P.total :=
      hin.total
    obtain ⟨hok, hbad⟩ := ReceiverTransfer.complete_file env dir (total_pos P) hlast hcover
      htotal hkeys hall hst
    rw [h]
    by_cases hio : env.io = .ok
    · rw [hok hio]
      refine ⟨⟨hsame3.transferId, hsame3.remote, hsame3.filename, hsame3.startedAt⟩, hst,
        .inr (.inr ⟨rfl, rfl, ?_⟩), by simp [ReceiverTransfer.completeMessage]⟩
      rw [Dir.entries_saveAtomic_ok, hsame3.filename, if_pos rfl]
    · obtain ⟨e, dir', he⟩ := hbad hio
      rw [he]
      exact ⟨⟨hsame3.transferId, hsame3.remote, hsame3.filename, hsame3.startedAt⟩, hst,
        .inr (.inl ⟨hio, _, rfl⟩), by simp⟩

theorem onContent_safe (hlen : P.file.length ≤ 65535 * SEGMENT_PACKET_SIZE) (env : World)
    {p t : ℕ} {d : Bytes} (hmem : P.contentMessage p t d ∈ L.wire) (h : L.Safe P) :
    (L.onContent P env p t d).Safe P := by
  obtain ⟨-, rfl, -, -, rfl⟩ := h.wire _ _ _ _ hmem
  cases hout : L.receiver.outcome with
  | none =>
    obtain ⟨hsame, hholds, hcases, hsent⟩ :=
      receive_packet env L.dir hlen h.holds (h.window hout)
    refine { sender := h.sender, wire := ?_, filename := hsame.filename.trans h.filename,
             receiverId := hsame.transferId.trans h.receiverId, holds := hholds,
             window := ?_, saved := ?_ }
    · intro i q t d hm
      rcases List.mem_append.mp hm with hm | hm
      · exact h.wire i q t d (List.mem_of_mem_erase hm)
      · exact absurd hm (hsent i q t d)
    · intro hnone
      rcases hcases with hin | ⟨-, e, he⟩ | ⟨hok, -⟩
      · exact .inr hin
      · exact absurd (hnone.symm.trans he) (by simp)
      · exact absurd (hnone.symm.trans hok) (by simp)
    · intro hok
      rcases hcases with ⟨s, c, hin⟩ | ⟨-, e, he⟩ | ⟨-, hbytes, hdir⟩
      · exact absurd (hin.outcome.symm.trans hok) (by simp)
      · exact absurd (he.symm.trans hok) (by simp)
      · exact ⟨hbytes, env.wall, h.filename ▸ hdir⟩
  | some o =>
    -- a finished receiver only repeats its COMPLETE
    have hsame : ∃ sent, L.receiver.onContent P.receiverCfg env L.dir p P.total
        (packetOf P.file p) = (L.receiver, sent, L.dir) ∧
        ∀ i q t d, Message.segmentContents i q t d ∉ sent := by
      cases o with
      | ok u =>
        exact ⟨[L.receiver.completeMessage], by simp only [ReceiverTransfer.onContent, hout],
          by simp [ReceiverTransfer.completeMessage]⟩
      | error e => exact ⟨[], by simp only [ReceiverTransfer.onContent, hout], by simp⟩
    obtain ⟨sent, heq, hsent⟩ := hsame
    simp only [onContent, heq]
    refine { h with wire := ?_ }
    intro i q t d hm
    rcases List.mem_append.mp hm with hm | hm
    · exact h.wire i q t d (List.mem_of_mem_erase hm)
    · exact absurd hm (hsent i q t d)

theorem onReceiverTick_safe (now : ℕ) (clk : Clock) (h : L.Safe P) :
    (L.onReceiverTick P now clk).Safe P := by
  obtain ⟨hprog, hout, hmsg⟩ := ReceiverTransfer.onTick_spec P.receiverCfg L.receiver now clk
  refine { sender := h.sender, wire := ?_, filename := hprog.same.filename.trans h.filename,
           receiverId := hprog.same.transferId.trans h.receiverId, holds := ?_,
           window := ?_, saved := ?_ }
  · intro i q t d hm
    rcases List.mem_append.mp hm with hm | hm
    · exact h.wire i q t d hm
    · rcases hmsg _ hm with hreq | ⟨rg, -, hack⟩
      · simp [ReceiverTransfer.requestMessage] at hreq
      · simp [ReceiverTransfer.ackMessage] at hack
  · intro q d hq
    exact h.holds q d (hprog.packets ▸ hq)
  · intro hnone
    refine hprog.window hnone (h.window ?_)
    rcases hout with heq | ⟨hn, -⟩
    · exact heq.symm.trans hnone
    · exact hn
  · intro hok
    rcases hout with heq | ⟨-, e, he⟩
    · obtain ⟨hbytes, hdir⟩ := h.saved (heq.symm.trans hok)
      exact ⟨hprog.savedBytes.trans hbytes, hdir⟩
    · exact absurd (he.symm.trans hok) (by simp)

/-- Every event of the link keeps it safe. -/
theorem OpenStep.safe (hlen : P.file.length ≤ 65535 * SEGMENT_PACKET_SIZE) {L' : Link}
    {e : LinkEvent} (hstep : OpenStep P L e L') (h : L.Safe P) : L'.Safe P := by
  cases hstep with
  | mk hen =>
    cases e with
    | request clk => exact onRequest_safe clk h
    | senderTick now => exact onSenderTick_safe now h
    | ack clk ackType a b => exact onAck_safe clk ackType a b h
    | content env p t d => exact onContent_safe hlen env hen h
    | receiverTick now clk => exact onReceiverTick_safe now clk h
    | drop m => exact { h with wire := fun i p t d hm => h.wire i p t d (List.mem_of_mem_erase hm) }
    | duplicate m =>
      refine { h with wire := ?_ }
      intro i p t d hm
      rcases List.mem_cons.mp hm with heq | hm
      · exact h.wire i p t d (heq ▸ hen)
      · exact h.wire i p t d hm

end Link

/-- Whatever requests and ACKs drive the senders of a file, and whatever the network
does to the packets they emit: a receiver that ends with Ok has written exactly the
file, and counted its bytes. -/
theorem received_file_intact (P : LinkParams)
    (hlen : P.file.length ≤ 65535 * SEGMENT_PACKET_SIZE) (clk : Clock) (dir : Dir)
    {es : List LinkEvent} {L : Link} (h : Run (Link.OpenStep P) (Link.initial P clk dir) es L)
    (hok : L.receiver.outcome = some (.ok ())) :
    (∃ w, L.dir.entries.lookup P.filename = some (.file P.file true w)) ∧
    L.receiver.savedBytes = some P.file.length := by
  have hsafe : L.Safe P :=
    h.invariant (fun _ _ _ hs hstep => hstep.safe hlen hs) (Link.initial_safe P clk dir)
  exact ⟨(hsafe.saved hok).2, (hsafe.saved hok).1⟩

/-- A file of three packets. -/
def splitLink : LinkParams :=
  ⟨defaultSettings, defaultSettings, 7, unspecifiedEndpoint, unspecifiedEndpoint, "1.mp4",
    List.replicate 1400 1 ++ (List.replicate 1400 2 ++ [3])⟩

instance (P : LinkParams) (L : Link) (e : LinkEvent) : Decidable (L.EnabledOpen P e) := by
  cases e <;> unfold Link.EnabledOpen <;> infer_instance

def Link.openStep? (P : LinkParams) (L : Link) (e : LinkEvent) : Option Link :=
  if L.EnabledOpen P e then some (L.apply P e) else none

theorem Link.OpenStep.of_openStep? {P : LinkParams} {L L' : Link} {e : LinkEvent}
    (h : L.openStep? P e = some L') : Link.OpenStep P L e L' := by
  rw [openStep?, Option.ite_none_right_eq_some] at h
  obtain ⟨hen, heq⟩ := h
  cases heq
  exact .mk hen

/-- The packets come out of order, the last one twice and the first one only when the request for it
is repeated. -/
def splitEvents : List LinkEvent :=
  let env (now : ℕ) : World := ⟨fun _ => millis now, default, .ok, 9⟩
  let content (now p : ℕ) : LinkEvent := .content (env now) p 3 (packetOf splitLink.file p)
  [.request fun _ => 0, .senderTick 0, .duplicate (splitLink.packet 3), content 5 3, content 6 2,
    .drop (splitLink.packet 1), content 7 3, .receiverTick (secs 1) fun _ => 0,
    .ack (fun _ => secs 1) .progress 1 3, .senderTick (secs 2), content 2001 1]

theorem received_file_intact_split :
    ∃ L, Run (Link.OpenStep splitLink)
        (Link.initial splitLink (fun _ => 0) ⟨∅, ["srv"], fun _ => none⟩) splitEvents L ∧
      ∃ w, L.dir.entries.lookup "1.mp4" = some (.file splitLink.file true w) := by
  have hexec : (exec (Link.openStep? splitLink)
      (Link.initial splitLink (fun _ => 0) ⟨∅, ["srv"], fun _ => none⟩) splitEvents).any
      (fun L => L.receiver.outcome = some (.ok ())) = true := by decide +kernel
  obtain ⟨L, hrun, hok⟩ := Run.exists_of_exec (fun _ _ _ => Link.OpenStep.of_openStep?) hexec
  exact ⟨L, hrun, (received_file_intact splitLink (by decide +kernel) _ _ hrun (of_decide_eq_true hok)).1⟩

end Qstream.Transfer

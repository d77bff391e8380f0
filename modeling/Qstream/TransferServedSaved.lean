import Qstream.TransferServedOnce

/-! What a `Served` of the server says about the requester: the file it counts is on the
requester's disk, since a COMPLETE is sent only after the rename. -/
namespace Qstream.Transfer
open Runs

namespace Exchange
variable (id : ℕ) (filename : String) (file : Bytes)

/-- All downloads are of one file under one id, which is not used again while one of its
datagrams is in flight, and that file of the server stays as it is. -/
def Sole (X : Exchange) : ExchangeEvent → Prop
  | .start ids _ name => ids.draw X.requester = id ∧ name = filename ∧ X.wire = []
  | .serverFiles dir => dir.read filename = some file
  | _ => True

/-- The current download of the id has written the whole file. -/
structure SavedWhole (X : Exchange) : Prop where
  counted : (X.receiving id, file.length) ∈ X.saved
  onDisk : ∃ wall, X.requester.dir.entries.lookup filename = some (.file file true wall)
  receiver : ∀ r, X.requester.receivers.lookup id = some r →
    r.savedBytes = some file.length ∧ r.outcome ≠ none

/-- What a datagram in flight may say, if `saved` is what a COMPLETE may stand for. -/
def Proper (saved : Prop) : Message → Prop
  | .segmentRequest i name => i = id ∧ name = filename
  | .segmentContents i p t d =>
    i = id ∧ t = packetCount file.length ∧ 1 ≤ p ∧ p ≤ packetCount file.length ∧
      d = packetOf file p
  | .ack _ ackType _ _ => ackType = .complete → saved
  | _ => True

/-- A receiver of the file. -/
structure Receives (X : Exchange) (r : ReceiverTransfer) : Prop where
  transferId : r.transferId = id
  named : r.filename = filename
  holds : r.Holds file
  window : r.outcome = none → r.Fresh ∨ ∃ s c, r.InRange (packetCount file.length) s c
  saved : r.outcome = some (.ok ()) → X.SavedWhole id filename file

/-- The invariant over both parties and everything in flight. -/
structure Sound (X : Exchange) : Prop where
  files : X.server.dir.read filename = some file
  idle : ∀ i, X.server.receivers.lookup i = none
  quiet : ∀ i, X.requester.senders.lookup i = none
  senders : ∀ i s, X.server.senders.lookup i = some s →
    s.WindowInv ∧ s.file = file ∧ s.transferId = id
  receivers : ∀ i r, X.requester.receivers.lookup i = some r →
    i = id ∧ X.Receives id filename file r
  wire : ∀ x ∈ X.wire, Proper id filename file (X.SavedWhole id filename file) x.2

variable {id filename file} {P : ExchangeParams} {X X' : Exchange}

theorem Proper.mono {saved saved' : Prop} {m : Message} (h : Proper id filename file saved m)
    (hs : saved → saved') : Proper id filename file saved' m := by
  cases m with
  | ack i ackType a b => exact fun hc => hs (h hc)
  | _ => exact h

theorem SavedWhole.of_eq (h : X.SavedWhole id filename file) (hreq : X'.requester = X.requester)
    (hrec : X'.receiving = X.receiving) (hsaved : X'.saved = X.saved) :
    X'.SavedWhole id filename file :=
  ⟨by rw [hrec, hsaved]; exact h.counted, by rw [hreq]; exact h.onDisk,
    by rw [hreq]; exact h.receiver⟩

/-- A requester whose receiver of the id has ended after writing the file. -/
theorem savedWhole_of_receiver {requester : TransferRegistry} {r : ReceiverTransfer}
    (wire : List (ℕ × Message)) {saved : List (ℕ × ℕ)}
    (hr : requester.receivers.lookup id = some r) (hbytes : r.savedBytes = some file.length)
    (hover : r.outcome ≠ none)
    (hdisk : ∃ wall, requester.dir.entries.lookup filename = some (.file file true wall))
    (hcounted : (X.receiving id, file.length) ∈ saved) :
    { X with requester := requester, wire := wire, saved := saved }.SavedWhole id filename file where
  counted := hcounted
  onDisk := hdisk
  receiver u hu := by
    obtain rfl := Option.some.inj (hr.symm.trans hu)
    exact ⟨hbytes, hover⟩

theorem Receives.mono {r : ReceiverTransfer} (h : X.Receives id filename file r)
    (hs : X.SavedWhole id filename file → X'.SavedWhole id filename file) :
    X'.Receives id filename file r := { h with saved := fun ho => hs (h.saved ho) }

theorem initial_sound (requesterDir : Dir) {serverDir : Dir}
    (hfile : serverDir.read filename = some file) :
    (initial requesterDir serverDir).Sound id filename file where
  files := hfile
  idle := by simp [initial, TransferRegistry.new]
  quiet := by simp [initial, TransferRegistry.new]
  senders := by simp [initial, TransferRegistry.new]
  receivers := by simp [initial, TransferRegistry.new]
  wire := by simp [initial]

/-- A step of the server keeps the exchange sound if what it leaves and sends is. -/
theorem Sound.server_step (h : X.Sound id filename file) {server : TransferRegistry}
    {wire : List (ℕ × Message)} (serving : ℕ → ℕ) (served : List (ℕ × ℕ))
    (hfiles : server.dir = X.server.dir) (hidle : ∀ i, server.receivers.lookup i = none)
    (hsenders : ∀ i s, server.senders.lookup i = some s →
      s.WindowInv ∧ s.file = file ∧ s.transferId = id)
    (hwire : ∀ x ∈ wire, x ∈ X.wire ∨ ∀ saved, Proper id filename file saved x.2) :
    { X with server := server, wire := wire, serving := serving, served := served }.Sound
      id filename file where
  files := by rw [hfiles]; exact h.files
  idle := hidle
  quiet := h.quiet
  senders := hsenders
  receivers := fun i r hr =>
    ⟨(h.receivers i r hr).1, (h.receivers i r hr).2.mono fun hs => hs.of_eq rfl rfl rfl⟩
  wire := by
    intro x hx
    rcases hwire x hx with hm | hm
    · exact (h.wire x hm).mono fun hs => hs.of_eq rfl rfl rfl
    · exact hm _

/-- A step of the requester keeps the exchange sound if it keeps what is saved. -/
theorem Sound.requester_step (h : X.Sound id filename file) {requester : TransferRegistry}
    {wire : List (ℕ × Message)} {saved : List (ℕ × ℕ)}
    (hquiet : ∀ i, requester.senders.lookup i = none)
    (hkeep : X.SavedWhole id filename file →
      { X with requester := requester, wire := wire, saved := saved }.SavedWhole id filename file)
    (hreceivers : ∀ i r, requester.receivers.lookup i = some r → i = id ∧
      { X with requester := requester, wire := wire, saved := saved }.Receives id filename file r)
    (hwire : ∀ x ∈ wire, x ∈ X.wire ∨ Proper id filename file
      ({ X with requester := requester, wire := wire, saved := saved }.SavedWhole id filename file)
      x.2) :
    { X with requester := requester, wire := wire, saved := saved }.Sound id filename file where
  files := h.files
  idle := h.idle
  quiet := hquiet
  senders := h.senders
  receivers := hreceivers
  wire := fun x hx => (hwire x hx).elim (fun hm => (h.wire x hm).mono hkeep) fun hm => hm

theorem onStart_sound {ids : TransferRegistry.IdSource} (clk : Clock)
    (hid : ids.draw X.requester = id) (hwire : X.wire = []) (h : X.Sound id filename file) :
    (X.onStart P ids clk filename).Sound id filename file := by
  rcases TransferRegistry.startReceiver_cases P.requesterCfg ids clk X.requester P.serverAddr
    filename with heq | ⟨-, heq⟩
  · simpa only [onStart, heq] using h
  simp only [onStart, heq, hid, hwire, List.nil_append]
  refine { files := h.files, idle := h.idle, quiet := h.quiet, senders := h.senders,
           receivers := ?_, wire := ?_ }
  · intro i r hr
    dsimp only at hr
    rw [HashMap.lookup_insert'] at hr
    split at hr
    next hi =>
      obtain rfl := Option.some.inj hr
      refine ⟨hi, { transferId := rfl, named := rfl, holds := fun p d hp => ?_,
                    window := fun _ => .inl (ReceiverTransfer.new_fresh ..), saved := ?_ }⟩
      · simp [ReceiverTransfer.new] at hp
      · simp [ReceiverTransfer.new]
    next hi => exact absurd (h.receivers i r hr).1 hi
  · intro x hx
    simp only [tagged, List.map_cons, List.map_nil, List.mem_singleton] at hx
    rw [hx]
    exact ⟨rfl, rfl⟩

theorem onRequest_sound (clk : Clock) (admitted : Bool) {k i : ℕ} {name : String}
    (hmem : (k, Message.segmentRequest i name) ∈ X.wire) (h : X.Sound id filename file) :
    (X.onRequest P clk admitted k i name).Sound id filename file := by
  obtain ⟨rfl, rfl⟩ : i = id ∧ name = filename := h.wire _ hmem
  have hreject (retryable : Bool) (serving : ℕ → ℕ) :
      { X with
        server := (X.server.rejectNotFound i P.requesterAddr retryable).1
        wire := X.wire.erase (k, .segmentRequest i name) ++
          tagged (fun _ => k) (X.server.rejectNotFound i P.requesterAddr retryable).2
        serving := serving }.Sound i name file := by
    refine h.server_step serving X.served rfl h.idle h.senders fun x hx => ?_
    rcases mem_wire_cases List.erase_subset hx with hx | ⟨y, hy, rfl⟩
    · exact .inl hx
    · obtain rfl := List.mem_singleton.mp hy
      exact .inr fun _ => trivial
  cases admitted with
  | false => exact hreject true _
  | true =>
    rcases TransferRegistry.serve_cases clk X.server i name P.requesterAddr with
      ⟨-, file', hread, heq⟩ | ⟨-, heq⟩
    · obtain rfl : file = file' := Option.some.inj (h.files.symm.trans hread)
      simp only [onRequest, heq, if_true]
      refine h.server_step _ _ rfl h.idle (fun j s hs => ?_) fun x hx => ?_
      · dsimp only at hs
        rw [HashMap.lookup_insert'] at hs
        split at hs
        next =>
          obtain rfl := Option.some.inj hs
          exact ⟨SenderTransfer.new_windowInv .., rfl, rfl⟩
        next => exact h.senders j s hs
      · rcases mem_wire_cases List.erase_subset hx with hx | ⟨y, hy, -⟩
        · exact .inl hx
        · exact absurd hy List.not_mem_nil
    · simp only [onRequest, heq, if_true]
      exact hreject false _

theorem onAck_sound (clk : Clock) (k i : ℕ) (ackType : AckType) (a b : ℕ)
    (h : X.Sound id filename file) : (X.onAck P clk k i ackType a b).Sound id filename file := by
  have hwire : ∀ x ∈ X.wire.erase (k, .ack i ackType a b),
      x ∈ X.wire ∨ ∀ saved, Proper id filename file saved x.2 :=
    fun x hx => .inl (List.mem_of_mem_erase hx)
  simp only [onAck]
  rcases TransferRegistry.onAck_cases P.serverCfg clk X.server i ackType a b with
    ⟨s, hs, -, heq⟩ | ⟨s, hs, -, heq⟩ | ⟨-, heq⟩
  · rw [heq]
    refine h.server_step X.serving _ rfl h.idle (fun j t ht => ?_) hwire
    dsimp only at ht
    rw [HashMap.lookup_erase'] at ht
    split at ht
    next => cases ht
    next => exact h.senders j t ht
  · rw [heq]
    refine h.server_step X.serving _ rfl h.idle (fun j t ht => ?_) hwire
    dsimp only at ht
    rw [HashMap.lookup_insert'] at ht
    split at ht
    next =>
      obtain rfl := Option.some.inj ht
      obtain ⟨hw, hfile, hid⟩ := h.senders i s hs
      obtain ⟨hi, -, -, hf⟩ := SenderTransfer.onProgress_same P.serverCfg clk s a b
      exact ⟨SenderTransfer.onProgress_windowInv _ _ _ _ hw, hf.trans hfile, hi.trans hid⟩
    next => exact h.senders j t ht
  · rw [heq]
    exact h.server_step X.serving _ rfl h.idle h.senders hwire

/-- The transfer as the link of one sender and one receiver. -/
def asLink (P : ExchangeParams) (id : ℕ) (filename : String) (file : Bytes) : LinkParams :=
  ⟨P.serverCfg, P.requesterCfg, id, P.serverAddr, P.requesterAddr, filename, file⟩

/-- What a sender of the file emits is a packet of it. -/
theorem proper_of_mem_tick {s : SenderTransfer} {now : ℕ} {m : Message} (hw : s.WindowInv)
    (hfile : s.file = file) (hid : s.transferId = id)
    (h : m ∈ (s.tick P.serverCfg now).2.1) (saved : Prop) : Proper id filename file saved m := by
  obtain ⟨p, h1, hN, rfl⟩ :=
    Link.packet_of_mem_tick (P := asLink P id filename file) hw hfile hid h
  exact ⟨rfl, rfl, h1, hN, rfl⟩

theorem onServerTick_sound (w : World) (now : ℕ) (h : X.Sound id filename file) :
    (X.onServerTick P w now).Sound id filename file := by
  refine h.server_step X.serving X.served rfl (TransferRegistry.tick_no_receivers h.idle)
    (fun i s' hs' => ?_) fun x hx => ?_
  · obtain ⟨s, sent, hs, htick⟩ := TransferRegistry.tick_senders hs'
    obtain ⟨hw, hfile, hid⟩ := h.senders i s hs
    obtain ⟨hf, hi, -, -⟩ := SenderTransfer.tick_same htick
    exact ⟨SenderTransfer.tick_windowInv htick hw, hf.trans hfile, hi.trans hid⟩
  · rcases mem_wire_cases (List.Subset.refl _) hx with hx | ⟨y, hy, rfl⟩
    · exact .inl hx
    rcases TransferRegistry.mem_tick_sent hy with ⟨i, s, hs, hsent⟩ | ⟨i, r, hr, -⟩
    · obtain ⟨hw, hfile, hid⟩ := h.senders i s hs
      exact .inr fun saved => proper_of_mem_tick hw hfile hid hsent saved
    · simp [h.idle] at hr

/-- A packet of the file leaves a finished receiver and the disk alone, or moves a receiver in
progress on; if it ends with Ok, the whole file is on the disk. -/
theorem Receives.onContent (hlen : file.length ≤ 65535 * SEGMENT_PACKET_SIZE) (w : World)
    (dir : Dir) (p : ℕ) {r : ReceiverTransfer} (h : X.Receives id filename file r) :
    let res := r.onContent P.requesterCfg w dir p (packetCount file.length) (packetOf file p)
    res.1.Holds file ∧
    (res.1.outcome = none → res.1.Fresh ∨ ∃ s c, res.1.InRange (packetCount file.length) s c) ∧
    ((r.outcome ≠ none ∧ res.1 = r ∧ res.2.2 = dir) ∨
      (r.outcome = none ∧ (res.1.outcome = some (.ok ()) → res.1.savedBytes = some file.length ∧
        ∃ wall, res.2.2.entries.lookup filename = some (.file file true wall)))) := by
  by_cases hout : r.outcome = none
  · obtain ⟨-, hholds, hend, -⟩ := Link.receive_packet (P := asLink P id filename file) w dir
      (p := p) hlen h.holds (h.window hout)
    rw [h.named] at hend
    refine ⟨hholds, fun hnone => ?_, .inr ⟨hout, fun hok => ?_⟩⟩
    · rcases hend with hin | ⟨-, e, he⟩ | ⟨ho, -⟩
      · exact .inr hin
      · exact absurd (hnone.symm.trans he) (by simp)
      · exact absurd (hnone.symm.trans ho) (by simp)
    · rcases hend with ⟨s, c, hin⟩ | ⟨-, e, he⟩ | ⟨-, hbytes, hdisk⟩
      · exact absurd (hin.outcome.symm.trans hok) (by simp)
      · exact absurd (he.symm.trans hok) (by simp)
      · exact ⟨hbytes, w.wall, hdisk⟩
  · obtain ⟨hr, hdir⟩ := @ReceiverTransfer.onContent_ignored P.requesterCfg w r dir p
      (packetCount file.length) (packetOf file p) (.inl (Option.isSome_iff_ne_none.mpr hout))
    intro res
    exact ⟨by rw [hr]; exact h.holds, by rw [hr]; exact h.window, .inl ⟨hout, hr, hdir⟩⟩

theorem newlySaved_of_ok {reg reg' : TransferRegistry} {r r' : ReceiverTransfer} {b : ℕ}
    (hr : reg.receivers.lookup id = some r) (hr' : reg'.receivers.lookup id = some r')
    (hnone : r.outcome = none) (hok : r'.outcome = some (.ok ()))
    (hbytes : r'.savedBytes = some b) : newlySaved reg reg' id = [b] := by
  simp only [newlySaved, hr, hr', hnone, hok, hbytes]
  rfl

theorem onContents_sound (hlen : file.length ≤ 65535 * SEGMENT_PACKET_SIZE) (w : World)
    {k i p t : ℕ} {d : Bytes} (hmem : (k, Message.segmentContents i p t d) ∈ X.wire)
    (h : X.Sound id filename file) :
    (X.onContents P w k i p t d).Sound id filename file := by
  obtain ⟨rfl, rfl, -, -, rfl⟩ : i = id ∧ t = packetCount file.length ∧ 1 ≤ p ∧
    p ≤ packetCount file.length ∧ d = packetOf file p := h.wire _ hmem
  cases hr : X.requester.receivers.lookup i with
  | none =>
    have heq : X.requester.onContent P.requesterCfg w i p (packetCount file.length)
        (packetOf file p) = (X.requester, []) := by
      simp only [TransferRegistry.onContent, hr]
    simp only [onContents, heq]
    refine h.requester_step h.quiet (fun hs => ?_) (fun j r hj => ?_) fun x hx => ?_
    · exact ⟨List.mem_append_left _ hs.counted, hs.onDisk, hs.receiver⟩
    · obtain ⟨rfl, -⟩ := h.receivers j r hj
      exact absurd (hj.symm.trans hr) (by simp)
    · rcases mem_wire_cases List.erase_subset hx with hx | ⟨y, hy, -⟩
      · exact .inl hx
      · exact absurd hy List.not_mem_nil
  | some r =>
    have hrec := (h.receivers i r hr).2
    obtain ⟨hsame, hsent⟩ := ReceiverTransfer.onContent_spec P.requesterCfg w r X.requester.dir p
      (packetCount file.length) (packetOf file p)
    obtain ⟨hholds, hwindow, hcases⟩ := hrec.onContent (P := P) hlen w X.requester.dir p
    simp only [onContents, TransferRegistry.onContent, hr]
    generalize r.onContent P.requesterCfg w X.requester.dir p (packetCount file.length)
      (packetOf file p) = res at hsame hsent hholds hwindow hcases ⊢
    obtain ⟨r', sent, dir'⟩ := res
    dsimp only at hsame hsent hholds hwindow hcases ⊢
    generalize hreq : ({ X.requester with
        dir := dir'
        receivers := X.requester.receivers.insert i r' } : TransferRegistry) = requester
    have hown : requester.receivers.lookup i = some r' := by
      rw [← hreq]
      exact AList.lookup_insert _
    have hkeep (wire : List (ℕ × Message)) (hs : X.SavedWhole i filename file) :
        { X with
          requester := requester
          wire := wire
          saved := X.saved ++ (newlySaved X.requester requester i).map fun bytes =>
            (X.receiving i, bytes) }.SavedWhole i filename file := by
      obtain ⟨hbytes, hover⟩ := hs.receiver r hr
      rcases hcases with ⟨-, rfl, rfl⟩ | ⟨hnone, -⟩
      · exact savedWhole_of_receiver wire hown hbytes hover (by rw [← hreq]; exact hs.onDisk)
          (List.mem_append_left _ hs.counted)
      · exact absurd hnone hover
    have hdone (wire : List (ℕ × Message)) (hok : r'.outcome = some (.ok ())) :
        { X with
          requester := requester
          wire := wire
          saved := X.saved ++ (newlySaved X.requester requester i).map fun bytes =>
            (X.receiving i, bytes) }.SavedWhole i filename file := by
      rcases hcases with ⟨-, rfl, rfl⟩ | ⟨hnone, hwritten⟩
      · exact hkeep wire (hrec.saved hok)
      · obtain ⟨hbytes, hdisk⟩ := hwritten hok
        refine savedWhole_of_receiver wire hown hbytes (by simp [hok])
          (by rw [← hreq]; exact hdisk) ?_
        rw [newlySaved_of_ok hr hown hnone hok hbytes]
        exact List.mem_append_right _ (List.mem_singleton_self _)
    refine h.requester_step (by rw [← hreq]; exact h.quiet) (hkeep _) (fun j u hu => ?_) fun x hx => ?_
    · have hj : j = i := by
        rw [← hreq, HashMap.lookup_insert'] at hu
        split at hu
        next heq => exact heq
        next => exact (h.receivers j u hu).1
      subst hj
      obtain rfl := Option.some.inj (hown.symm.trans hu)
      exact ⟨rfl, { transferId := hsame.transferId.trans hrec.transferId
                    named := hsame.filename.trans hrec.named
                    holds := hholds, window := hwindow, saved := hdone _ }⟩
    · rcases mem_wire_cases List.erase_subset hx with hx | ⟨y, hy, rfl⟩
      · exact .inl hx
      obtain ⟨m, hm, rfl⟩ := List.mem_map.mp hy
      right
      rcases hsent m hm with ⟨rg, rfl⟩ | ⟨rfl, hok⟩
      · exact fun hc => absurd hc (by decide)
      · exact fun _ => hdone _ hok

/-- A step of the requester that sends nothing about the file and leaves the disk alone. -/
theorem Sound.receivers_step (h : X.Sound id filename file) {requester : TransferRegistry}
    {wire : List (ℕ × Message)} (hquiet : ∀ i, requester.senders.lookup i = none)
    (hdir : requester.dir = X.requester.dir)
    (hprog : ∀ i r', requester.receivers.lookup i = some r' →
      ∃ r, X.requester.receivers.lookup i = some r ∧ ReceiverTransfer.SameProgress r r' ∧
        (r'.outcome = r.outcome ∨ ∃ e, r'.outcome = some (.error e)))
    (hwire : ∀ x ∈ wire, x ∈ X.wire ∨ ∀ saved, Proper id filename file saved x.2) :
    { X with requester := requester, wire := wire }.Sound id filename file := by
  have hkeep (hs : X.SavedWhole id filename file) :
      { X with requester := requester, wire := wire }.SavedWhole id filename file := by
    refine ⟨hs.counted, by rw [hdir]; exact hs.onDisk, fun r' hr' => ?_⟩
    obtain ⟨r, hr, hsame, hout⟩ := hprog id r' hr'
    obtain ⟨hbytes, hover⟩ := hs.receiver r hr
    refine ⟨hsame.savedBytes.trans hbytes, ?_⟩
    rcases hout with heq | ⟨e, he⟩
    · rwa [heq]
    · simp [he]
  refine h.requester_step hquiet hkeep (fun i r' hr' => ?_) fun x hx =>
    (hwire x hx).imp_right fun hm => hm _
  obtain ⟨r, hr, hsame, hout⟩ := hprog i r' hr'
  obtain ⟨hi, hrec⟩ := h.receivers i r hr
  refine ⟨hi, { transferId := hsame.same.transferId.trans hrec.transferId
                named := hsame.same.filename.trans hrec.named
                holds := fun q d hq => hrec.holds q d (hsame.packets ▸ hq)
                window := fun hnone => ?_, saved := fun hok => ?_ }⟩
  · refine hsame.window hnone (hrec.window ?_)
    rcases hout with heq | ⟨e, he⟩
    · exact heq.symm.trans hnone
    · exact absurd (hnone.symm.trans he) (by simp)
  · rcases hout with heq | ⟨e, he⟩
    · exact hkeep (hrec.saved (heq.symm.trans hok))
    · exact absurd (hok.symm.trans he) (by simp)

theorem onNotFound_sound (clk : Clock) (k i : ℕ) (availability : Option SegmentAvailability)
    (retryable : Bool) (h : X.Sound id filename file) :
    (X.onNotFound clk k i availability retryable).Sound id filename file := by
  have hrefl (r : ReceiverTransfer) : ReceiverTransfer.SameProgress r r :=
    ⟨.refl r, rfl, rfl, rfl, rfl⟩
  have hsame : (X.requester.onNotFound clk i retryable).1.senders = X.requester.senders ∧
      (X.requester.onNotFound clk i retryable).1.dir = X.requester.dir := by
    unfold TransferRegistry.onNotFound
    split <;> exact ⟨rfl, rfl⟩
  refine h.receivers_step (by rw [hsame.1]; exact h.quiet) hsame.2 (fun j r' hr' => ?_)
    fun x hx => .inl (List.mem_of_mem_erase hx)
  simp only [TransferRegistry.onNotFound] at hr'
  split at hr'
  next r hr =>
    rw [HashMap.lookup_insert'] at hr'
    split at hr'
    next hj =>
      obtain rfl := Option.some.inj hr'
      exact ⟨r, hj ▸ hr, ⟨⟨rfl, rfl, rfl, rfl⟩, rfl, rfl, rfl, rfl⟩, .inr ⟨_, rfl⟩⟩
    next => exact ⟨r', hr', hrefl r', .inl rfl⟩
  next => exact ⟨r', hr', hrefl r', .inl rfl⟩

theorem onRequesterTick_sound (w : World) (now : ℕ) (h : X.Sound id filename file) :
    (X.onRequesterTick P w now).Sound id filename file := by
  refine h.receivers_step (TransferRegistry.tick_no_senders h.quiet) rfl (fun i r' hr' => ?_)
    fun x hx => ?_
  · obtain ⟨r, hr, rfl⟩ := TransferRegistry.tick_receivers hr'
    obtain ⟨hprog, hout, -⟩ :=
      ReceiverTransfer.onTick_spec P.requesterCfg r now fun j => w.clk (j + i)
    exact ⟨r, hr, hprog, hout.imp_right fun he => he.2⟩
  · rcases mem_wire_cases (List.Subset.refl _) hx with hx | ⟨y, hy, rfl⟩
    · exact .inl hx
    right
    rcases TransferRegistry.mem_tick_sent hy with ⟨i, s, hs, -⟩ | ⟨i, r, hr, hsent⟩
    · simp [h.quiet] at hs
    · obtain ⟨-, -, hmsg⟩ := ReceiverTransfer.onTick_spec P.requesterCfg r now fun j => w.clk (j + i)
      obtain ⟨-, hrec⟩ := h.receivers i r hr
      rcases hmsg _ hsent with heq | ⟨rg, -, heq⟩
      · rw [heq]
        exact fun _ => ⟨hrec.transferId, hrec.named⟩
      · rw [heq]
        exact fun _ hc => absurd hc (by decide)

/-- Every event of an exchange of one unchanged file keeps it sound. -/
theorem Step.sound (hlen : file.length ≤ 65535 * SEGMENT_PACKET_SIZE) {e : ExchangeEvent}
    (hstep : Step P X e X') (hsole : X.Sole id filename file e) (h : X.Sound id filename file) :
    X'.Sound id filename file := by
  cases hstep with
  | mk hen =>
    cases e with
    | start ids clk name =>
      obtain ⟨hid, rfl, hwire⟩ := hsole
      exact onStart_sound clk hid hwire h
    | request clk admitted k i name => exact onRequest_sound clk admitted hen h
    | ack clk k i ackType a b => exact onAck_sound clk k i ackType a b h
    | contents w k i p t d => exact onContents_sound hlen w hen h
    | notFound clk k i availability retryable =>
      exact onNotFound_sound clk k i availability retryable h
    | requesterTick w now => exact onRequesterTick_sound w now h
    | serverTick w now => exact onServerTick_sound w now h
    | removeReceiver i =>
      refine h.receivers_step h.quiet rfl (fun j r hr => ?_) fun x hx => .inl hx
      rw [TransferRegistry.removeReceiver, HashMap.lookup_erase'] at hr
      split at hr
      next => cases hr
      next => exact ⟨r, hr, ⟨.refl r, rfl, rfl, rfl, rfl⟩, .inl rfl⟩
    | serverFiles dir =>
      exact { files := hsole, idle := h.idle, quiet := h.quiet, senders := h.senders
              receivers := fun i r hr =>
                ⟨(h.receivers i r hr).1, (h.receivers i r hr).2.mono fun hs => hs.of_eq rfl rfl rfl⟩
              wire := fun x hx => (h.wire x hx).mono fun hs => hs.of_eq rfl rfl rfl }
    | drop k m =>
      exact h.receivers_step h.quiet rfl
        (fun i r hr => ⟨r, hr, ⟨.refl r, rfl, rfl, rfl, rfl⟩, .inl rfl⟩)
        fun x hx => .inl (List.mem_of_mem_erase hx)
    | duplicate k m =>
      refine h.receivers_step h.quiet rfl
        (fun i r hr => ⟨r, hr, ⟨.refl r, rfl, rfl, rfl, rfl⟩, .inl rfl⟩) fun x hx => .inl ?_
      rcases List.mem_cons.mp hx with rfl | hx
      · exact hen
      · exact hx

/-- Only a COMPLETE in flight can make the server record a `Served`, with the length of the
file of its sender. -/
theorem newlyServed_of_step {e : ExchangeEvent} (hstep : Step P X e X') {bytes : ℕ}
    (h : bytes ∈ newlyServed X.server X'.server) :
    ∃ k i a b s, (k, Message.ack i .complete a b) ∈ X.wire ∧
      X.server.senders.lookup i = some s ∧ bytes = s.payloadBytes := by
  have hnone {server : TransferRegistry} (fs : List RegEvent)
      (hevents : server.events = X.server.events ++ fs) (hfs : servedBytes fs = [])
      (hb : bytes ∈ newlyServed X.server server) : False := by
    rw [newlyServed_append fs hevents, hfs] at hb
    exact List.not_mem_nil hb
  have hsame {server : TransferRegistry} (hevents : server.events = X.server.events)
      (hb : bytes ∈ newlyServed X.server server) : False :=
    hnone [] (by rw [hevents, List.append_nil]) rfl hb
  cases hstep with
  | mk hen =>
    cases e with
    | start ids clk name =>
      refine (hsame ?_ h).elim
      rcases TransferRegistry.startReceiver_cases P.requesterCfg ids clk X.requester P.serverAddr
        name with heq | ⟨-, heq⟩
      · simp only [apply, onStart, heq]
      · simp only [apply, onStart, heq]
    | request clk admitted k i name =>
      cases admitted with
      | false => exact (hnone [.notFound P.requesterAddr] rfl rfl h).elim
      | true =>
        rcases TransferRegistry.serve_cases clk X.server i name P.requesterAddr with
          ⟨-, file', -, heq⟩ | ⟨-, heq⟩
        · simp only [apply, onRequest, heq, if_true] at h
          exact (hsame rfl h).elim
        · simp only [apply, onRequest, heq, if_true] at h
          exact (hnone [.notFound P.requesterAddr] rfl rfl h).elim
    | ack clk k i ackType a b =>
      simp only [apply, onAck] at h
      rcases TransferRegistry.onAck_cases P.serverCfg clk X.server i ackType a b with
        ⟨s, hs, rfl, heq⟩ | ⟨s, -, -, heq⟩ | ⟨-, heq⟩
      · rw [heq, newlyServed_append [.served s.remote s.payloadBytes] rfl] at h
        exact ⟨k, i, a, b, s, hen, hs, List.mem_singleton.mp h⟩
      · rw [heq] at h
        exact (hsame rfl h).elim
      · rw [heq] at h
        exact (hsame rfl h).elim
    | serverTick w now =>
      obtain ⟨fs, hevents, hfs⟩ := TransferRegistry.tick_events P.serverCfg w X.server now
      exact (hnone fs hevents hfs h).elim
    | _ => exact (hsame rfl h).elim

/-- Whenever the server of an exchange of one file records `Served`, under whatever schedule,
the requester's receiver has written the whole file before, and the bytes recorded are those it
counted as saved. -/
theorem served_after_saved (P : ExchangeParams) (requesterDir serverDir : Dir) (id : ℕ)
    (filename : String) (file : Bytes) (hlen : file.length ≤ 65535 * SEGMENT_PACKET_SIZE)
    (hfile : serverDir.read filename = some file) {es : List ExchangeEvent} {e : ExchangeEvent}
    (h : Run (guarded (Sole id filename file) (Step P)) (initial requesterDir serverDir) es X)
    (hstep : guarded (Sole id filename file) (Step P) X e X') {bytes : ℕ}
    (hbytes : bytes ∈ newlyServed X.server X'.server) :
    bytes = file.length ∧ (X.receiving id, bytes) ∈ X.saved ∧
    (∃ wall, X.requester.dir.entries.lookup filename = some (.file file true wall)) ∧
    ∀ r, X.requester.receivers.lookup id = some r → r.savedBytes = some bytes := by
  have hsound : X.Sound id filename file :=
    h.invariant (fun _ _ _ hs hst => hst.2.sound hlen hst.1 hs) (initial_sound requesterDir hfile)
  obtain ⟨k, i, a, b, s, hmem, hs, rfl⟩ := newlyServed_of_step hstep.2 hbytes
  have hsaved : X.SavedWhole id filename file := hsound.wire _ hmem rfl
  have heq : s.payloadBytes = file.length := by
    rw [SenderTransfer.payloadBytes, (hsound.senders i s hs).2.1]
  rw [heq]
  exact ⟨rfl, hsaved.counted, hsaved.onDisk, fun r hr => (hsaved.receiver r hr).1⟩

/-- The requester has saved the file and its COMPLETE is in flight. -/
def demoSaved : Exchange := (demoDownload.take 5).foldl (apply demoParams) (initial noFiles oneSegment)

theorem served_after_saved_demo :
    ∃ X', Step demoParams demoSaved (.ack (fun _ => 2) 0 1 .complete 0 0) X' ∧
      newlyServed demoSaved.server X'.server = [3] ∧ (0, 3) ∈ demoSaved.saved := by
  have hrun : Run (guarded (Sole 1 "1.ts" [1, 2, 3]) (Step demoParams))
      (initial noFiles oneSegment) (demoDownload.take 5) demoSaved :=
    .cons ⟨⟨by decide +kernel, rfl, rfl⟩, .mk trivial⟩ (.cons ⟨trivial, .mk (by decide +kernel)⟩
      (.cons ⟨trivial, .mk (by decide +kernel)⟩ (.cons ⟨trivial, .mk trivial⟩
        (.one ⟨trivial, .mk (by decide +kernel)⟩))))
  have hstep : guarded (Sole 1 "1.ts" [1, 2, 3]) (Step demoParams) demoSaved
      (.ack (fun _ => 2) 0 1 .complete 0 0) _ := ⟨trivial, .mk (by decide +kernel)⟩
  have hnew : newlyServed demoSaved.server
      (demoSaved.apply demoParams (.ack (fun _ => 2) 0 1 .complete 0 0)).server = [3] := by
    decide +kernel
  exact ⟨_, hstep.2, hnew,
    (served_after_saved demoParams noFiles oneSegment 1 "1.ts" [1, 2, 3] (by decide)
      (by decide +kernel) hrun hstep (hnew ▸ List.mem_singleton_self 3)).2.1⟩

end Exchange
end Qstream.Transfer

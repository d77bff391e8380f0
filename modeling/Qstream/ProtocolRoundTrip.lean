import Qstream.ProtocolCodec

/-! Decoding what was encoded: every message comes back, but for what the format cannot carry. -/
namespace Qstream
open Text

/-- The fields hold values of their machine types. -/
def SocketAddr.Typed (addr : SocketAddr) : Prop := addr.port < 65536

def SegmentAvailability.Typed (av : SegmentAvailability) : Prop := av.newest < 2 ^ 64

def Message.Typed : Message → Prop
  | .handshakeRequest addr _ | .handshakeResponse addr _ => addr.Typed
  | .segmentRequest transferId _ => transferId < 65536
  | .segmentContents transferId packetNumber totalPackets _ =>
    transferId < 65536 ∧ packetNumber < 65536 ∧ totalPackets < 65536
  | .segmentNotFound transferId availability _ =>
    transferId < 65536 ∧ ∀ av ∈ availability, av.Typed
  | .ack transferId _ nextStart nextCount =>
    transferId < 65536 ∧ nextStart < 65536 ∧ nextCount < 65536
  | .peerlistResponse peers => ∀ entry ∈ peers, entry.1.Typed
  | .pong availability => ∀ av ∈ availability, av.Typed
  | .manifestRequest | .manifestResponse _ | .peerlistRequest | .ping _ _ => True

/-- An address the six-byte format can carry: IPv4 with a port. -/
def SocketAddr.packable (addr : SocketAddr) : Bool :=
  match addr.ip with
  | .v4 _ => addr.port ≠ 0
  | .v6 _ => false

def normEndpoint (addr : SocketAddr) : SocketAddr :=
  if addr.packable then addr else unspecifiedEndpoint

/-- What is left of a message after a round trip. -/
def norm : Message → Message
  | .handshakeRequest claimed name => .handshakeRequest (normEndpoint claimed) name
  | .handshakeResponse observed name => .handshakeResponse (normEndpoint observed) name
  | .peerlistResponse peers => .peerlistResponse (peers.filter fun entry => entry.1.packable)
  | .ack transferId .complete _ _ => .ack transferId .complete 0 0
  | m => m

@[simp] theorem fromU8_code (t : MessageType) : MessageType.fromU8 t.code = some t := by
  cases t <;> rfl

@[simp] theorem AckType.fromU8_code (t : AckType) : AckType.fromU8 t.code = some t := by
  cases t <;> rfl

theorem u16At_toBytes {n i : ℕ} (pre rest : Bytes) (hn : n < 65536) (hi : pre.length = i) :
    u16At (pre ++ (BigEndian.toBytes 2 n ++ rest)) i = .ok n := by
  subst hi
  rw [BigEndian.toBytes_two]
  have h0 : (pre ++ ([UInt8.ofNat (n / 256), UInt8.ofNat n] ++ rest))[pre.length]? =
      some (UInt8.ofNat (n / 256)) := by simp
  have h1 : (pre ++ ([UInt8.ofNat (n / 256), UInt8.ofNat n] ++ rest))[pre.length + 1]? =
      some (UInt8.ofNat n) := by
    rw [List.getElem?_append_right (by omega)]
    simp
  have hread := BigEndian.ofBytes_toBytes_of_lt (w := 2) (n := n) (by omega)
  rw [BigEndian.toBytes_two] at hread
  simp only [u16At, byteAt, h0, h1, bind, Except.bind, pure, Except.pure, hread]

theorem utf8Name_asBytes (name : String) : utf8Name (asBytes name.toList) = .ok name := by
  simp [utf8Name, asBytes_eq, fromUtf8_encodeUtf8]

theorem ipv4At_ipv4Bytes (ip : Ipv4Addr) {port : ℕ} (hport : port < 65536) (rest : Bytes) :
    ipv4At (ipv4Bytes ip port ++ rest) = .ok ⟨.v4 ip, port⟩ := by
  have hread := u16At_toBytes (i := 4) [ip.a, ip.b, ip.c, ip.d] rest hport rfl
  simp only [ipv4At, ipv4Bytes, List.append_assoc, hread]
  rfl

theorem ipv4At_zeros (rest : Bytes) :
    ipv4At (List.replicate 6 0 ++ rest) = .ok unspecifiedEndpoint := rfl

theorem length_endpointBytes (addr : SocketAddr) : (endpointBytes addr).length = 6 := by
  unfold endpointBytes
  split
  · split <;> simp [ipv4Bytes]
  · simp

theorem ipv4At_endpointBytes {addr : SocketAddr} (ht : addr.Typed) (rest : Bytes) :
    ipv4At (endpointBytes addr ++ rest) = .ok (normEndpoint addr) := by
  obtain ⟨ip, port⟩ := addr
  cases ip with
  | v4 ip =>
    by_cases hport : port = 0
    · simpa [endpointBytes, normEndpoint, SocketAddr.packable, hport] using ipv4At_zeros rest
    · simpa [endpointBytes, normEndpoint, SocketAddr.packable, hport] using
        ipv4At_ipv4Bytes ip ht rest
  | v6 ip => exact ipv4At_zeros rest

theorem splitEndpointName_encode {addr : SocketAddr} (ht : addr.Typed) (name : String) :
    splitEndpointName (endpointBytes addr ++ asBytes name.toList) =
      .ok (normEndpoint addr, name) := by
  have hlen := length_endpointBytes addr
  have hdrop : (endpointBytes addr ++ asBytes name.toList).drop 6 = asBytes name.toList := by
    rw [← hlen, List.drop_left]
  have hslice : sliceFrom (endpointBytes addr ++ asBytes name.toList) 6 =
      .ok (asBytes name.toList) := by
    rw [sliceFrom, if_pos (by rw [List.length_append]; omega), hdrop]
  rw [splitEndpointName, if_neg (by rw [List.length_append]; omega), ipv4At_endpointBytes ht,
    hslice]
  simp only [bind, Except.bind, pure, Except.pure, utf8Name_asBytes]

theorem decodeAvailability_encode {availability : Option SegmentAvailability}
    (ht : ∀ av ∈ availability, av.Typed) :
    decodeAvailability (encodeAvailability availability) = .ok availability := by
  cases availability with
  | none => rfl
  | some av =>
    have hnewest : BigEndian.ofBytes (BigEndian.toBytes 8 av.newest) = av.newest :=
      BigEndian.ofBytes_toBytes_of_lt (lt_of_lt_of_eq (ht av rfl) (by norm_num))
    have hmask : BigEndian.ofBytes (BigEndian.toBytes 2 av.mask.toNat) = av.mask.toNat :=
      BigEndian.ofBytes_toBytes_of_lt (lt_of_lt_of_eq av.mask.toNat_lt (by norm_num))
    simp [decodeAvailability, encodeAvailability, sliceTo, sliceFrom, intoArray, bind, Except.bind,
      pure, Except.pure, hnewest, hmask]

theorem length_encodePeers_le (peers : List (SocketAddr × UInt8)) :
    (encodePeers peers).length ≤ 7 * peers.length := by
  induction peers with
  | nil => exact le_rfl
  | cons entry peers ih =>
    have hcons : (encodePeers (entry :: peers)).length =
        (encodePeers [entry]).length + (encodePeers peers).length := by
      simp [encodePeers]
    have hone : (encodePeers [entry]).length ≤ 7 := by
      obtain ⟨⟨ip, port⟩, flags⟩ := entry
      cases ip <;> simp [encodePeers, ipv4Bytes]
    rw [hcons, List.length_cons]
    omega

theorem decodePeerChunks_encodePeers {peers : List (SocketAddr × UInt8)}
    (ht : ∀ entry ∈ peers, entry.1.Typed) :
    7 ∣ (encodePeers peers).length ∧
      decodePeerChunks ((encodePeers peers).length / 7) (encodePeers peers) =
        .ok (peers.filter fun entry => entry.1.packable) := by
  induction peers with
  | nil => exact ⟨⟨0, rfl⟩, rfl⟩
  | cons entry peers ih =>
    obtain ⟨⟨ip, port⟩, flags⟩ := entry
    obtain ⟨hdvd, hrest⟩ := ih fun e he => ht e (List.mem_cons_of_mem _ he)
    have hport : port < 65536 := ht _ List.mem_cons_self
    cases ip with
    | v6 ip => exact ⟨hdvd, by simpa [encodePeers, SocketAddr.packable] using hrest⟩
    | v4 ip =>
      have hcons : encodePeers ((⟨.v4 ip, port⟩, flags) :: peers) =
          ipv4Bytes ip port ++ [flags] ++ encodePeers peers := rfl
      have hlen : (ipv4Bytes ip port ++ [flags]).length = 7 := by simp [ipv4Bytes]
      have hchunks : (ipv4Bytes ip port ++ [flags] ++ encodePeers peers).length / 7 =
          (encodePeers peers).length / 7 + 1 := by
        rw [List.length_append, hlen]
        omega
      have hflags : byteAt (ipv4Bytes ip port ++ [flags]) 6 = .ok flags := by
        rw [byteAt, List.getElem?_append_right (by simp [ipv4Bytes])]
        simp [ipv4Bytes]
      rw [hcons]
      refine ⟨by rw [List.length_append, hlen]; omega, ?_⟩
      rw [hchunks, decodePeerChunks, ← hlen, List.take_left, List.drop_left, hlen,
        ipv4At_ipv4Bytes ip hport, hflags, hrest]
      by_cases h0 : port = 0
      · simp [bind, Except.bind, SocketAddr.packable, h0]
      · simp [bind, Except.bind, pure, Except.pure, SocketAddr.packable, h0]

theorem decodePeers_encodePeers {peers : List (SocketAddr × UInt8)}
    (ht : ∀ entry ∈ peers, entry.1.Typed) :
    decodePeers (encodePeers peers) = .ok (peers.filter fun entry => entry.1.packable) := by
  obtain ⟨hdvd, hchunks⟩ := decodePeerChunks_encodePeers ht
  rw [decodePeers, if_neg (by omega), hchunks]

/-- The payload of a message, under the header fields of that message. -/
theorem decodePayload_payload {m : Message} (ht : m.Typed) :
    decodePayload m.header.1 m.header.2.1 m.header.2.2.1 m.header.2.2.2.1 m.header.2.2.2.2
      m.payload = .ok (norm m) := by
  cases m with
  | handshakeRequest claimed name =>
    simp only [Message.header, Message.payload, decodePayload, splitEndpointName_encode ht]
    rfl
  | handshakeResponse observed name =>
    simp only [Message.header, Message.payload, decodePayload, splitEndpointName_encode ht]
    rfl
  | manifestRequest => rfl
  | manifestResponse data => rfl
  | segmentRequest transferId filename =>
    simp only [Message.header, Message.payload, decodePayload, utf8Name_asBytes]
    rfl
  | segmentContents transferId packetNumber totalPackets data => rfl
  | segmentNotFound transferId availability retryable =>
    simp only [Message.header, Message.payload, decodePayload, decodeAvailability_encode ht.2]
    cases retryable <;> simp [bind, Except.bind, pure, Except.pure, SEGMENT_NOT_READY, norm]
  | ack transferId ackType nextStart nextCount =>
    obtain ⟨-, hstart, hcount⟩ := ht
    cases ackType with
    | complete => rfl
    | progress =>
      have h0 := u16At_toBytes (i := 0) [] (BigEndian.toBytes 2 nextCount) hstart rfl
      have h2 := u16At_toBytes (i := 2) (BigEndian.toBytes 2 nextStart) [] hcount (by simp)
      rw [List.nil_append] at h0
      rw [List.append_nil] at h2
      simp only [Message.header, Message.payload, decodePayload, AckType.fromU8_code, if_true,
        List.length_append, BigEndian.length_toBytes, h0, h2]
      rfl
  | peerlistRequest => rfl
  | peerlistResponse peers =>
    simp only [Message.header, Message.payload, decodePayload, decodePeers_encodePeers ht]
    rfl
  | ping nonce name =>
    have hnonce : BigEndian.ofBytes (BigEndian.toBytes 4 nonce.toNat) = nonce.toNat :=
      BigEndian.ofBytes_toBytes_of_lt (lt_of_lt_of_eq nonce.toNat_lt (by norm_num))
    obtain ⟨b0, b1, b2, b3, hbytes⟩ : ∃ b0 b1 b2 b3,
        BigEndian.toBytes 4 nonce.toNat = [b0, b1, b2, b3] := ⟨_, _, _, _, rfl⟩
    have hlong : ¬ ([b0, b1, b2, b3] ++ asBytes name.toList).length < 4 := by simp
    have hslice : sliceFrom ([b0, b1, b2, b3] ++ asBytes name.toList) 4 =
        .ok (asBytes name.toList) := by simp [sliceFrom]
    rw [hbytes] at hnonce
    simp only [Message.header, Message.payload, decodePayload, hbytes, if_neg hlong, hslice]
    simp [byteAt, bind, Except.bind, pure, Except.pure, hnonce, utf8Name_asBytes, norm]
  | pong availability =>
    simp only [Message.header, Message.payload, decodePayload, decodeAvailability_encode ht]
    rfl

theorem header_lt {m : Message} (ht : m.Typed) :
    m.header.2.2.1 < 65536 ∧ m.header.2.2.2.1 < 65536 ∧ m.header.2.2.2.2 < 65536 := by
  cases m <;> simp_all [Message.header, Message.Typed]

/-- Decoding an encoded message reads its payload under its own header fields. -/
theorem decode_encode_payload {m : Message}
    (hfields : m.header.2.2.1 < 65536 ∧ m.header.2.2.2.1 < 65536 ∧ m.header.2.2.2.2 < 65536)
    (hlen : m.payload.length ≤ 65535) :
    decode (encode m) = decodePayload m.header.1 m.header.2.1 m.header.2.2.1 m.header.2.2.2.1
      m.header.2.2.2.2 m.payload := by
  obtain ⟨messageType, flags, transferId, packetNumber, totalPackets, hheader⟩ :
      ∃ t f i p n, m.header = (t, f, i, p, n) := ⟨_, _, _, _, _, rfl⟩
  have hu16 {n : ℕ} (hn : n < 65536) :
      BigEndian.ofBytes [UInt8.ofNat (n / 256), UInt8.ofNat n] = n := by
    rw [← BigEndian.toBytes_two, BigEndian.ofBytes_toBytes_of_lt (by omega)]
  have hdatagram : encode m = 0x51 :: 0x53 :: 0x54 :: PROTOCOL_VERSION :: messageType.code ::
      flags :: UInt8.ofNat (m.payload.length / 256) :: UInt8.ofNat m.payload.length ::
      UInt8.ofNat (transferId / 256) :: UInt8.ofNat transferId ::
      UInt8.ofNat (packetNumber / 256) :: UInt8.ofNat packetNumber ::
      UInt8.ofNat (totalPackets / 256) :: UInt8.ofNat totalPackets :: m.payload := by
    simp only [encode, hheader, u16_of_lt (show m.payload.length < 65536 by omega),
      BigEndian.toBytes_two]
    rfl
  rw [hheader] at hfields ⊢
  rw [hdatagram, decode_header, if_neg (show ¬ [0x51, 0x53, 0x54] ≠ MAGIC from not_not.mpr rfl),
    if_neg (not_not.mpr rfl),
    hu16 (by omega), hu16 hfields.1, hu16 hfields.2.1, hu16 hfields.2.2, fromU8_code]
  simp

/-- Decoding what was encoded gives the message back, the addresses the format cannot carry
and the range of a final ACK excepted. -/
theorem decode_encode (m : Message) (ht : m.Typed) (hlen : m.payload.length ≤ 65535) :
    decode (encode m) = .ok (norm m) := by
  rw [decode_encode_payload (header_lt ht) hlen]
  exact decodePayload_payload ht

/-- A PING is read with the nonce in its first four bytes. -/
theorem decodePayload_ping {flags : UInt8} {transferId packetNumber totalPackets : ℕ}
    {payload : Bytes} {m : Message}
    (h : decodePayload .ping flags transferId packetNumber totalPackets payload = .ok m) :
    4 ≤ payload.length ∧
      ∃ name, m = .ping (UInt32.ofNat (BigEndian.ofBytes (payload.take 4))) name := by
  simp only [decodePayload] at h
  split at h
  next => cases h
  next hlong =>
    refine ⟨Nat.le_of_not_lt hlong, ?_⟩
    obtain ⟨b0, b1, b2, b3, rest, rfl⟩ : ∃ b0 b1 b2 b3 rest,
        payload = b0 :: b1 :: b2 :: b3 :: rest := by
      match payload, hlong with
      | b0 :: b1 :: b2 :: b3 :: rest, _ => exact ⟨b0, b1, b2, b3, rest, rfl⟩
      | [], h | [_], h | [_, _], h | [_, _, _], h => simp at h
    simp only [byteAt, bind, Except.bind, pure, Except.pure, List.getElem?_cons_zero,
      List.getElem?_cons_succ] at h
    split at h
    next => cases h
    next =>
      split at h
      next => cases h
      next =>
        cases h
        exact ⟨_, rfl⟩

/-- A payload is read as a message of its type. -/
theorem decodePayload_type {messageType : MessageType} {flags : UInt8}
    {transferId packetNumber totalPackets : ℕ} {payload : Bytes} {m : Message}
    (h : decodePayload messageType flags transferId packetNumber totalPackets payload = .ok m) :
    m.header.1 = messageType := by
  have hbind {α : Type} {r : Decoded α} {f : α → Message}
      (hr : (r.bind fun a => .ok (f a)) = .ok m) : ∃ a, m = f a := by
    cases r with
    | error e => cases hr
    | ok a =>
      cases hr
      exact ⟨a, rfl⟩
  cases messageType with
  | manifestRequest => cases h; rfl
  | manifestResponse => cases h; rfl
  | segmentContents => cases h; rfl
  | peerlistRequest => cases h; rfl
  | handshakeRequest =>
    obtain ⟨a, rfl⟩ := hbind h
    rfl
  | handshakeResponse =>
    obtain ⟨a, rfl⟩ := hbind h
    rfl
  | segmentRequest =>
    obtain ⟨a, rfl⟩ := hbind h
    rfl
  | segmentNotFound =>
    obtain ⟨a, rfl⟩ := hbind h
    rfl
  | peerlistResponse =>
    obtain ⟨a, rfl⟩ := hbind h
    rfl
  | pong =>
    obtain ⟨a, rfl⟩ := hbind h
    rfl
  | ack =>
    simp only [decodePayload] at h
    split at h
    next => cases h
    next => cases h; rfl
    next =>
      split at h
      next => cases h
      next =>
        simp only [bind, Except.bind, pure, Except.pure] at h
        split at h
        next => cases h
        next =>
          split at h
          next => cases h
          next => cases h; rfl
  | ping =>
    obtain ⟨-, name, rfl⟩ := decodePayload_ping h
    rfl

/-- What comes back of an encoded message is of its type, and a PING keeps its nonce. -/
theorem decode_encode_type {m m' : Message} (h : decode (encode m) = .ok m') :
    m'.header.1 = m.header.1 ∧
      ∀ nonce name, m = .ping nonce name → ∃ name', m' = .ping nonce name' := by
  obtain ⟨messageType, flags, transferId, packetNumber, totalPackets, hheader⟩ :
      ∃ t f i p n, m.header = (t, f, i, p, n) := ⟨_, _, _, _, _, rfl⟩
  have hdatagram : encode m = 0x51 :: 0x53 :: 0x54 :: PROTOCOL_VERSION :: messageType.code ::
      flags :: UInt8.ofNat (u16 m.payload.length / 256) :: UInt8.ofNat (u16 m.payload.length) ::
      UInt8.ofNat (transferId / 256) :: UInt8.ofNat transferId ::
      UInt8.ofNat (packetNumber / 256) :: UInt8.ofNat packetNumber ::
      UInt8.ofNat (totalPackets / 256) :: UInt8.ofNat totalPackets :: m.payload := by
    simp only [encode, hheader, BigEndian.toBytes_two]
    rfl
  rw [hdatagram, decode_header, if_neg (show ¬ [0x51, 0x53, 0x54] ≠ MAGIC from not_not.mpr rfl),
    if_neg (not_not.mpr rfl), fromU8_code] at h
  simp only at h
  split at h
  next => cases h
  next =>
    refine ⟨by rw [hheader]; exact decodePayload_type h, ?_⟩
    rintro nonce name rfl
    cases hheader
    obtain ⟨hlong, name', rfl⟩ := decodePayload_ping h
    have hnonce : BigEndian.ofBytes (BigEndian.toBytes 4 nonce.toNat) = nonce.toNat :=
      BigEndian.ofBytes_toBytes_of_lt (lt_of_lt_of_eq nonce.toNat_lt (by norm_num))
    have hfour : ((Message.ping nonce name).payload.take (BigEndian.ofBytes
        [UInt8.ofNat (u16 (Message.ping nonce name).payload.length / 256),
          UInt8.ofNat (u16 (Message.ping nonce name).payload.length)])).take 4 =
        BigEndian.toBytes 4 nonce.toNat := by
      rw [List.take_take, min_eq_left (hlong.trans (List.length_take_le _ _))]
      exact List.take_left' (BigEndian.length_toBytes _ _)
    rw [hfour, hnonce]
    exact ⟨name', by simp⟩

/-- An inventory comes back from the wire as it was sent. -/
theorem decode_encode_pong {availability : Option SegmentAvailability}
    (ht : ∀ av ∈ availability, av.Typed) :
    decode (encode (.pong availability)) = .ok (.pong availability) := by
  have hlen : (Message.pong availability).payload.length ≤ 65535 := by
    cases availability with
    | none => exact Nat.zero_le _
    | some av => simp [Message.payload, encodeAvailability]
  rw [decode_encode_payload (header_lt (m := .pong availability) ht) hlen]
  exact decodePayload_payload (m := .pong availability) ht

/-- A peer list with an address that does not survive. -/
theorem decode_encode_peerlist :
    decode (encode (.peerlistResponse
      [(⟨.v4 ⟨203, 0, 113, 7⟩, 54321⟩, PEER_PARENT), (⟨.v4 ⟨203, 0, 113, 8⟩, 0⟩, 0)])) =
      .ok (.peerlistResponse [(⟨.v4 ⟨203, 0, 113, 7⟩, 54321⟩, PEER_PARENT)]) :=
  decode_encode
    (.peerlistResponse
      [(⟨.v4 ⟨203, 0, 113, 7⟩, 54321⟩, PEER_PARENT), (⟨.v4 ⟨203, 0, 113, 8⟩, 0⟩, 0)])
    (by simp [Message.Typed, SocketAddr.Typed]) (by decide)

end Qstream

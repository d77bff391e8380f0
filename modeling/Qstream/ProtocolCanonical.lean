import Qstream.ProtocolRoundTrip

/-! The messages decoding can return, and what is left of them when they are encoded again. -/
namespace Qstream
open Text

/-- Whatever the decoder returns satisfies `Q`. -/
def Yields {α : Type} (Q : α → Prop) (r : Decoded α) : Prop := ∀ a, r = .ok a → Q a

namespace Yields
variable {α β : Type} {P : α → Prop} {Q : β → Prop} {r : Decoded α}

theorem ok {a : α} (h : P a) : Yields P (.ok a) := by
  rintro _ ⟨⟩
  exact h

theorem error {e : DecodeFailure} : Yields P (.error e) := by
  rintro _ ⟨⟩

theorem trivial (r : Decoded α) : Yields (fun _ => True) r := fun _ _ => True.intro

theorem bind {f : α → Decoded β} (h : Yields P r) (hf : ∀ a, P a → Yields Q (f a)) :
    Yields Q (r >>= f) := by
  intro b hb
  cases r with
  | error e => cases hb
  | ok a => exact hf a (h a rfl) b hb

end Yields

/-- The six-byte endpoint of an encoded handshake has no address without a port. -/
def zeroPortless : Message → Message
  | .handshakeRequest claimed name =>
    .handshakeRequest (if claimed.port = 0 then unspecifiedEndpoint else claimed) name
  | .handshakeResponse observed name =>
    .handshakeResponse (if observed.port = 0 then unspecifiedEndpoint else observed) name
  | m => m

/-- An endpoint as it is read from six bytes. -/
def SocketAddr.Ipv4Typed (addr : SocketAddr) : Prop := addr.Typed ∧ ∃ ip, addr.ip = .v4 ip

/-- What is known of a decoded message. -/
structure Message.Received (m : Message) : Prop where
  typed : m.Typed
  short : m.payload.length ≤ 65535
  same : norm m = zeroPortless m

theorem ofBytes_two_lt (hi lo : UInt8) : BigEndian.ofBytes [hi, lo] < 65536 := by
  have := hi.toNat_lt
  have := lo.toNat_lt
  simp only [BigEndian.ofBytes, List.foldl_cons, List.foldl_nil]
  omega

theorem u16At_yields (bytes : Bytes) (i : ℕ) : Yields (· < 65536) (u16At bytes i) :=
  (Yields.trivial _).bind fun hi _ => (Yields.trivial _).bind fun lo _ => .ok (ofBytes_two_lt hi lo)

theorem ipv4At_yields (bytes : Bytes) : Yields SocketAddr.Ipv4Typed (ipv4At bytes) :=
  (Yields.trivial _).bind fun _ _ => (Yields.trivial _).bind fun _ _ =>
    (Yields.trivial _).bind fun _ _ => (Yields.trivial _).bind fun _ _ =>
      (u16At_yields bytes 4).bind fun _ hport => .ok ⟨hport, _, rfl⟩

theorem utf8Name_yields (payload : Bytes) :
    Yields (fun name => asBytes name.toList = payload) (utf8Name payload) := by
  unfold utf8Name
  split
  next s hs =>
    refine .ok ?_
    rw [String.toList_ofList, asBytes_eq, ← fromUtf8_eq_some.mp hs]
  next => exact .error

theorem sliceFrom_yields (bytes : Bytes) (n : ℕ) :
    Yields (fun rest => n ≤ bytes.length ∧ rest = bytes.drop n) (sliceFrom bytes n) := by
  unfold sliceFrom
  split
  next h => exact .ok ⟨h, rfl⟩
  next => exact .error

theorem splitEndpointName_yields (payload : Bytes) :
    Yields (fun e => e.1.Ipv4Typed ∧ 6 + (asBytes e.2.toList).length = payload.length)
      (splitEndpointName payload) := by
  unfold splitEndpointName
  split
  next => exact .error
  next hlong =>
    refine (ipv4At_yields payload).bind fun addr haddr => ?_
    refine (sliceFrom_yields payload 6).bind fun rest hrest => ?_
    refine (utf8Name_yields rest).bind fun name hname => .ok ⟨haddr, ?_⟩
    rw [hname, hrest.2, List.length_drop]
    omega

theorem intoArray_yields (bytes : Bytes) (n : ℕ) :
    Yields (fun a => a.length = n) (intoArray bytes n) := by
  unfold intoArray
  split
  next h => exact .ok h
  next => exact .error

theorem decodeAvailability_yields (payload : Bytes) :
    Yields (fun availability => ∀ av ∈ availability, av.Typed) (decodeAvailability payload) := by
  unfold decodeAvailability
  split
  next => exact .ok fun av hav => by cases hav
  next =>
  split
  next =>
    refine (Yields.trivial _).bind fun first _ => ?_
    refine (intoArray_yields first 8).bind fun newest hnewest => ?_
    refine (Yields.trivial _).bind fun last _ => (Yields.trivial _).bind fun mask _ => .ok ?_
    rintro av ⟨⟩
    have hlt := BigEndian.ofBytes_lt newest
    rw [hnewest] at hlt
    exact hlt
  next => exact .error

theorem decodePeerChunks_yields (n : ℕ) (payload : Bytes) :
    Yields (fun peers => peers.length ≤ n ∧ ∀ entry ∈ peers, entry.1.Typed ∧ entry.1.packable)
      (decodePeerChunks n payload) := by
  induction n generalizing payload with
  | zero => exact .ok ⟨le_rfl, fun entry he => by cases he⟩
  | succ n ih =>
    refine (ipv4At_yields (payload.take 7)).bind fun peer hpeer => ?_
    split
    next hport =>
      refine (Yields.trivial _).bind fun flags _ => ?_
      refine (ih (payload.drop 7)).bind fun rest hrest => .ok ⟨Nat.succ_le_succ hrest.1, ?_⟩
      intro entry he
      rcases List.mem_cons.mp he with rfl | he
      · obtain ⟨htyped, ip, hip⟩ := hpeer
        exact ⟨htyped, by simp [SocketAddr.packable, hip, hport]⟩
      · exact hrest.2 entry he
    next =>
      intro peers hpeers
      obtain ⟨hlen, hall⟩ := ih (payload.drop 7) peers hpeers
      exact ⟨hlen.trans (Nat.le_succ n), hall⟩

theorem length_encodeAvailability_le (availability : Option SegmentAvailability) :
    (encodeAvailability availability).length ≤ 10 := by
  cases availability <;> simp [encodeAvailability]

theorem normEndpoint_of_ipv4 {addr : SocketAddr} (h : addr.Ipv4Typed) :
    normEndpoint addr = if addr.port = 0 then unspecifiedEndpoint else addr := by
  obtain ⟨-, ip, hip⟩ := h
  by_cases hport : addr.port = 0 <;> simp [normEndpoint, SocketAddr.packable, hip, hport]

/-- Every payload that is accepted gives a message whose fields fit their types, whose own
payload is no longer than the one read, and that loses nothing but an address without a port. -/
theorem decodePayload_yields (messageType : MessageType) (flags : UInt8)
    {transferId packetNumber totalPackets : ℕ} {payload : Bytes} (hid : transferId < 65536)
    (hpacket : packetNumber < 65536) (htotal : totalPackets < 65536)
    (hlen : payload.length ≤ 65535) :
    Yields Message.Received
      (decodePayload messageType flags transferId packetNumber totalPackets payload) := by
  cases messageType with
  | handshakeRequest =>
    refine (splitEndpointName_yields payload).bind fun e he => .ok ⟨he.1.1, ?_, ?_⟩
    · rw [Message.payload, List.length_append, length_endpointBytes, he.2]
      exact hlen
    · rw [norm, normEndpoint_of_ipv4 he.1]
      rfl
  | handshakeResponse =>
    refine (splitEndpointName_yields payload).bind fun e he => .ok ⟨he.1.1, ?_, ?_⟩
    · rw [Message.payload, List.length_append, length_endpointBytes, he.2]
      exact hlen
    · rw [norm, normEndpoint_of_ipv4 he.1]
      rfl
  | manifestRequest => exact .ok ⟨True.intro, Nat.zero_le _, rfl⟩
  | manifestResponse => exact .ok ⟨True.intro, hlen, rfl⟩
  | segmentRequest =>
    refine (utf8Name_yields payload).bind fun name hname => .ok ⟨hid, ?_, rfl⟩
    rw [Message.payload, hname]
    exact hlen
  | segmentContents => exact .ok ⟨⟨hid, hpacket, htotal⟩, hlen, rfl⟩
  | segmentNotFound =>
    refine (decodeAvailability_yields payload).bind fun av hav => .ok ⟨⟨hid, hav⟩, ?_, rfl⟩
    exact (length_encodeAvailability_le av).trans (by decide)
  | ack =>
    simp only [decodePayload]
    split
    next => exact .error
    next => exact .ok ⟨⟨hid, by decide, by decide⟩, Nat.zero_le _, rfl⟩
    next =>
      split
      next => exact .error
      next =>
        refine (u16At_yields payload 0).bind fun start hstart => ?_
        refine (u16At_yields payload 2).bind fun count hcount => .ok ⟨⟨hid, hstart, hcount⟩, ?_, rfl⟩
        simp [Message.payload]
  | peerlistRequest => exact .ok ⟨True.intro, Nat.zero_le _, rfl⟩
  | peerlistResponse =>
    have hpeers : Yields (fun peers => peers.length ≤ payload.length / 7 ∧
        ∀ entry ∈ peers, entry.1.Typed ∧ entry.1.packable) (decodePeers payload) := by
      unfold decodePeers
      split
      next => exact .error
      next => exact decodePeerChunks_yields _ payload
    refine hpeers.bind fun peers h => .ok ⟨fun entry he => (h.2 entry he).1, ?_, ?_⟩
    · have hle := length_encodePeers_le peers
      have hfew := h.1
      simp only [Message.payload]
      omega
    · rw [norm, List.filter_eq_self.mpr fun entry he => (h.2 entry he).2]
      rfl
  | ping =>
    simp only [decodePayload]
    split
    next => exact .error
    next =>
      refine (Yields.trivial _).bind fun _ _ => (Yields.trivial _).bind fun _ _ =>
        (Yields.trivial _).bind fun _ _ => (Yields.trivial _).bind fun _ _ => ?_
      refine (sliceFrom_yields payload 4).bind fun rest hrest => ?_
      refine (utf8Name_yields rest).bind fun name hname => .ok ⟨True.intro, ?_, rfl⟩
      rw [Message.payload, List.length_append, BigEndian.length_toBytes, hname, hrest.2,
        List.length_drop]
      omega
  | pong =>
    refine (decodeAvailability_yields payload).bind fun av hav => .ok ⟨hav, ?_, rfl⟩
    exact (length_encodeAvailability_le av).trans (by decide)

theorem decode_yields (d : Bytes) : Yields Message.Received (decode d) := by
  by_cases hheader : d.length < HEADER_SIZE
  · rw [decode, if_pos hheader]
    exact .error
  obtain ⟨m0, m1, m2, v, c, f, l1, l0, t1, t0, p1, p0, n1, n0, rest, rfl⟩ :=
    exists_header (Nat.le_of_not_lt hheader)
  rw [decode_header]
  split
  next => exact .error
  split
  next => exact .error
  split
  next => exact .error
  split
  next => exact .error
  have hdeclared := ofBytes_two_lt l1 l0
  refine decodePayload_yields _ f (ofBytes_two_lt t1 t0) (ofBytes_two_lt p1 p0)
    (ofBytes_two_lt n1 n0) ?_
  rw [List.length_take]
  omega

/-- A decoded message that is encoded and decoded again comes back, but for the address of a
handshake endpoint without a port. -/
theorem decode_encode_decode {d : Bytes} {m : Message} (h : decode d = .ok m) :
    decode (encode m) = .ok (zeroPortless m) := by
  have hm := decode_yields d m h
  rw [decode_encode_payload (header_lt hm.typed) hm.short, decodePayload_payload hm.typed, hm.same]

/-- A handshake request that claims 1.2.3.4 without a port. -/
def portlessClaim : Bytes :=
  [0x51, 0x53, 0x54, 0x03, 0x01, 0, 0, 6, 0, 0, 0, 0, 0, 0, 1, 2, 3, 4, 0, 0]

theorem portlessClaim_loses_address :
    decode portlessClaim = .ok (.handshakeRequest ⟨.v4 ⟨1, 2, 3, 4⟩, 0⟩ "") ∧
    decode (encode (.handshakeRequest ⟨.v4 ⟨1, 2, 3, 4⟩, 0⟩ "")) ≠
      .ok (.handshakeRequest ⟨.v4 ⟨1, 2, 3, 4⟩, 0⟩ "") := by
  decide +kernel

/-- The same handshake with a port and a name comes back whole. -/
theorem decode_encode_claim :
    decode (encode (.handshakeRequest ⟨.v4 ⟨1, 2, 3, 4⟩, 258⟩ "a")) =
      .ok (.handshakeRequest ⟨.v4 ⟨1, 2, 3, 4⟩, 258⟩ "a") :=
  decode_encode_decode (d := [0x51, 0x53, 0x54, 0x03, 0x01, 7, 0, 7, 0, 9, 0, 0, 0, 0,
    1, 2, 3, 4, 1, 2, 97]) (by decide +kernel)

end Qstream

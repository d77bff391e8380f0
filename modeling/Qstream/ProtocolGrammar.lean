import Qstream.ProtocolCodec

/-! The datagrams the decoder accepts: the grammar of the wire format, and that decoding
settles every byte string by it, without an index or a slice out of range. -/
namespace Qstream
open Text

def IsUtf8 (bytes : Bytes) : Prop := ∃ s : List Char, bytes = encodeUtf8 s

/-- The payloads of a message type. -/
def PayloadFits (messageType : MessageType) (flags : UInt8) (payload : Bytes) : Prop :=
  match messageType with
  | .handshakeRequest | .handshakeResponse => 6 ≤ payload.length ∧ IsUtf8 (payload.drop 6)
  | .segmentRequest => IsUtf8 payload
  | .segmentNotFound | .pong => payload.length = 0 ∨ payload.length = 10
  | .ack => flags = 0 ∧ payload.length = 4 ∨ flags = 4
  | .peerlistResponse => 7 ∣ payload.length
  | .ping => 4 ≤ payload.length ∧ IsUtf8 (payload.drop 4)
  | .manifestRequest | .manifestResponse | .segmentContents | .peerlistRequest => True

/-- The payload length a datagram declares. -/
def dataLength (d : Bytes) : ℕ := BigEndian.ofBytes ((d.drop 6).take 2)

/-- The bytes of a datagram that belong to its message. -/
def messageLength (d : Bytes) : ℕ := HEADER_SIZE + dataLength d

/-- The grammar of datagrams, version 3. -/
structure InGrammar (d : Bytes) : Prop where
  header : HEADER_SIZE ≤ d.length
  magic : d.take 3 = MAGIC
  version : d[3]? = some PROTOCOL_VERSION
  complete : messageLength d ≤ d.length
  payload : ∃ messageType flags, d[4]? = some messageType.code ∧ d[5]? = some flags ∧
    PayloadFits messageType flags ((d.drop HEADER_SIZE).take (dataLength d))

/-- A decoder that accepts if and only if `P`, and reports an error otherwise. -/
def Settles {α : Type} (P : Prop) (r : Decoded α) : Prop :=
  (P ∧ ∃ a, r = .ok a) ∨ (¬ P ∧ ∃ e, r = .error (.error e))

namespace Settles
variable {α β : Type} {P Q : Prop}

theorem ok {a : α} (h : P) : Settles P (.ok a : Decoded α) := .inl ⟨h, a, rfl⟩

theorem error {e : ProtocolError} (h : ¬ P) : Settles P (.error (.error e) : Decoded α) :=
  .inr ⟨h, e, rfl⟩

theorem congr {r : Decoded α} (hPQ : P ↔ Q) (h : Settles P r) : Settles Q r := by
  rwa [propext hPQ] at h

/-- A decoder that goes on with a total function. -/
theorem map {r : Decoded α} {f : α → Decoded β} (h : Settles P r) (hf : ∀ a, ∃ b, f a = .ok b) :
    Settles P (r >>= f) := by
  rcases h with ⟨hP, a, rfl⟩ | ⟨hP, e, rfl⟩
  · obtain ⟨b, hb⟩ := hf a
    exact .inl ⟨hP, b, hb⟩
  · exact .inr ⟨hP, e, rfl⟩

theorem ok_iff {r : Decoded α} (h : Settles P r) : (∃ a, r = .ok a) ↔ P := by
  rcases h with ⟨hP, a, rfl⟩ | ⟨hP, e, rfl⟩
  · exact iff_of_true ⟨a, rfl⟩ hP
  · exact iff_of_false (by simp) hP

theorem ne_outOfRange {r : Decoded α} (h : Settles P r) : r ≠ .error .outOfRange := by
  rcases h with ⟨-, a, rfl⟩ | ⟨-, e, rfl⟩ <;> simp

theorem rejects {r : Decoded α} (h : Settles P r) (hP : ¬ P) : ∃ e, r = .error (.error e) := by
  rcases h with ⟨h, -⟩ | ⟨-, h⟩
  · exact absurd h hP
  · exact h

end Settles

theorem byteAt_ok (bytes : Bytes) (i : ℕ) (h : i < bytes.length) : ∃ b, byteAt bytes i = .ok b := by
  rw [byteAt, List.getElem?_eq_getElem h]
  exact ⟨_, rfl⟩

theorem u16At_ok (bytes : Bytes) (i : ℕ) (h : i + 1 < bytes.length) : ∃ n, u16At bytes i = .ok n := by
  obtain ⟨hi, hhi⟩ := byteAt_ok bytes i (by omega)
  obtain ⟨lo, hlo⟩ := byteAt_ok bytes (i + 1) h
  exact ⟨_, by rw [u16At, hhi, hlo]; rfl⟩

theorem ipv4At_ok (bytes : Bytes) (h : 6 ≤ bytes.length) : ∃ addr, ipv4At bytes = .ok addr := by
  obtain ⟨a, ha⟩ := byteAt_ok bytes 0 (by omega)
  obtain ⟨b, hb⟩ := byteAt_ok bytes 1 (by omega)
  obtain ⟨c, hc⟩ := byteAt_ok bytes 2 (by omega)
  obtain ⟨d, hd⟩ := byteAt_ok bytes 3 (by omega)
  obtain ⟨port, hport⟩ := u16At_ok bytes 4 (by omega)
  exact ⟨_, by rw [ipv4At, ha, hb, hc, hd, hport]; rfl⟩

theorem utf8Name_settles (payload : Bytes) : Settles (IsUtf8 payload) (utf8Name payload) := by
  unfold utf8Name
  split
  next s hs => exact .ok ⟨s, fromUtf8_eq_some.mp hs⟩
  next hs =>
    refine .error ?_
    rintro ⟨s, rfl⟩
    rw [fromUtf8_encodeUtf8] at hs
    cases hs

theorem decodeAvailability_settles (payload : Bytes) :
    Settles (payload.length = 0 ∨ payload.length = 10) (decodeAvailability payload) := by
  unfold decodeAvailability
  split
  next h0 => exact .ok (.inl h0)
  next h0 =>
  split
  next h10 =>
    have hto : sliceTo payload 8 = .ok (payload.take 8) := if_pos (by omega)
    have hfrom : sliceFrom payload 8 = .ok (payload.drop 8) := if_pos (by omega)
    have hnewest : intoArray (payload.take 8) 8 = .ok (payload.take 8) :=
      if_pos (by rw [List.length_take]; omega)
    have hmask : intoArray (payload.drop 8) 2 = .ok (payload.drop 8) :=
      if_pos (by rw [List.length_drop]; omega)
    simp only [hto, hfrom, bind, Except.bind, pure, Except.pure, hnewest, hmask]
    exact .ok (.inr h10)
  next h10 => exact .error (by simp [h0, h10])

theorem splitEndpointName_settles (payload : Bytes) :
    Settles (6 ≤ payload.length ∧ IsUtf8 (payload.drop 6)) (splitEndpointName payload) := by
  unfold splitEndpointName
  split
  next hshort => exact .error (by omega)
  next hlong =>
    obtain ⟨addr, haddr⟩ := ipv4At_ok payload (Nat.le_of_not_lt hlong)
    have hfrom : sliceFrom payload 6 = .ok (payload.drop 6) := if_pos (by omega)
    rw [haddr, hfrom]
    exact ((utf8Name_settles (payload.drop 6)).map fun name => ⟨_, rfl⟩).congr
      ⟨fun h => ⟨by omega, h⟩, And.right⟩

theorem decodePeerChunks_ok (n : ℕ) (payload : Bytes) (h : 7 * n ≤ payload.length) :
    ∃ peers, decodePeerChunks n payload = .ok peers := by
  induction n generalizing payload with
  | zero => exact ⟨[], rfl⟩
  | succ n ih =>
    have hchunk : (payload.take 7).length = 7 := by rw [List.length_take]; omega
    obtain ⟨rest, hrest⟩ := ih (payload.drop 7) (by rw [List.length_drop]; omega)
    obtain ⟨addr, haddr⟩ := ipv4At_ok (payload.take 7) (by omega)
    obtain ⟨flags, hflags⟩ := byteAt_ok (payload.take 7) 6 (by omega)
    rw [decodePeerChunks, haddr, hflags, hrest]
    by_cases hport : addr.port ≠ 0
    · exact ⟨(addr, flags) :: rest, by simp [bind, Except.bind, pure, Except.pure, hport]⟩
    · exact ⟨rest, by simp [bind, Except.bind, hport]⟩

theorem decodePeers_settles (payload : Bytes) :
    Settles (7 ∣ payload.length) (decodePeers payload) := by
  unfold decodePeers
  split
  next hrest => exact .error (by omega)
  next hrest =>
    obtain ⟨peers, hpeers⟩ := decodePeerChunks_ok (payload.length / 7) payload (by omega)
    rw [hpeers]
    exact .ok (by omega)

theorem AckType.fromU8_cases (v : UInt8) :
    v = 0 ∧ AckType.fromU8 v = some .progress ∨ v = 4 ∧ AckType.fromU8 v = some .complete ∨
      v ≠ 0 ∧ v ≠ 4 ∧ AckType.fromU8 v = none := by
  by_cases h0 : v = 0
  · exact .inl ⟨h0, by simp [AckType.fromU8, h0]⟩
  by_cases h4 : v = 4
  · exact .inr (.inl ⟨h4, by simp [AckType.fromU8, h4]⟩)
  · exact .inr (.inr ⟨h0, h4, by simp [AckType.fromU8, h0, h4]⟩)

/-- Every payload is accepted or refused by the grammar of its message type. -/
theorem decodePayload_settles (messageType : MessageType) (flags : UInt8)
    (transferId packetNumber totalPackets : ℕ) (payload : Bytes) :
    Settles (PayloadFits messageType flags payload)
      (decodePayload messageType flags transferId packetNumber totalPackets payload) := by
  cases messageType with
  | handshakeRequest => exact (splitEndpointName_settles payload).map fun a => ⟨_, rfl⟩
  | handshakeResponse => exact (splitEndpointName_settles payload).map fun a => ⟨_, rfl⟩
  | manifestRequest => exact .ok trivial
  | manifestResponse => exact .ok trivial
  | segmentRequest => exact (utf8Name_settles payload).map fun a => ⟨_, rfl⟩
  | segmentContents => exact .ok trivial
  | segmentNotFound => exact (decodeAvailability_settles payload).map fun a => ⟨_, rfl⟩
  | ack =>
    unfold decodePayload PayloadFits
    rcases AckType.fromU8_cases flags with ⟨rfl, hack⟩ | ⟨rfl, hack⟩ | ⟨h0, h4, hack⟩
    · simp only [hack]
      split
      next hlen => exact .error (by simp [hlen])
      next hlen =>
        obtain ⟨start, hstart⟩ := u16At_ok payload 0 (by omega)
        obtain ⟨count, hcount⟩ := u16At_ok payload 2 (by omega)
        rw [hstart, hcount]
        exact .ok (.inl ⟨trivial, by omega⟩)
    · simp only [hack]
      exact .ok (.inr trivial)
    · simp only [hack]
      exact .error (by simp [h0, h4])
  | peerlistRequest => exact .ok trivial
  | peerlistResponse => exact (decodePeers_settles payload).map fun a => ⟨_, rfl⟩
  | ping =>
    simp only [decodePayload, PayloadFits]
    split
    next hshort => exact .error (by omega)
    next hlong =>
      obtain ⟨a, ha⟩ := byteAt_ok payload 0 (by omega)
      obtain ⟨b, hb⟩ := byteAt_ok payload 1 (by omega)
      obtain ⟨c, hc⟩ := byteAt_ok payload 2 (by omega)
      obtain ⟨d, hd⟩ := byteAt_ok payload 3 (by omega)
      have hfrom : sliceFrom payload 4 = .ok (payload.drop 4) := if_pos (by omega)
      rw [ha, hb, hc, hd, hfrom]
      exact ((utf8Name_settles (payload.drop 4)).map fun name => ⟨_, rfl⟩).congr
        ⟨fun h => ⟨by omega, h⟩, And.right⟩
  | pong => exact (decodeAvailability_settles payload).map fun a => ⟨_, rfl⟩

theorem MessageType.fromU8_eq_some {code : UInt8} {t : MessageType} :
    MessageType.fromU8 code = some t ↔ code = t.code := by
  have peel {c : UInt8} {a : MessageType} {r : Option MessageType}
      (h : (if code = c then some a else r) = some t) (hc : c = a.code) :
      code = t.code ∨ r = some t := by
    split at h
    next hcode =>
      obtain rfl := Option.some.inj h
      exact .inl (hcode.trans hc)
    next => exact .inr h
  constructor
  · intro h
    unfold MessageType.fromU8 at h
    -- one turn for each message type
    iterate 12
      rcases peel h rfl with h | h
      · exact h
    cases h
  · rintro rfl
    cases t <;> rfl

/-- Every byte string is accepted or refused by the grammar. -/
theorem decode_settles (d : Bytes) : Settles (InGrammar d) (decode d) := by
  by_cases hheader : d.length < HEADER_SIZE
  · rw [decode, if_pos hheader]
    exact .error fun hd => absurd hd.header (by omega)
  obtain ⟨m0, m1, m2, v, c, f, l1, l0, t1, t0, p1, p0, n1, n0, rest, rfl⟩ :=
    exists_header (Nat.le_of_not_lt hheader)
  rw [decode_header]
  split
  next hmagic => exact .error fun hd => hmagic hd.magic
  next hmagic =>
  split
  next hversion => exact .error fun hd => hversion (Option.some.inj hd.version)
  next hversion =>
  cases htype : MessageType.fromU8 c with
  | none =>
    refine .error fun hd => ?_
    obtain ⟨t, -, hcode, -⟩ := hd.payload
    rw [MessageType.fromU8_eq_some.mpr (Option.some.inj hcode)] at htype
    cases htype
  | some t =>
    have hdeclared : dataLength (m0 :: m1 :: m2 :: v :: c :: f :: l1 :: l0 :: t1 :: t0 :: p1 :: p0 ::
        n1 :: n0 :: rest) = BigEndian.ofBytes [l1, l0] := rfl
    simp only
    split
    next hshort =>
      refine .error fun hd => ?_
      have hcomplete := hd.complete
      simp only [messageLength, hdeclared, HEADER_SIZE, List.length_cons] at hcomplete
      omega
    next hlong =>
      refine (decodePayload_settles ..).congr ⟨fun hp => ?_, fun hd => ?_⟩
      · refine ⟨Nat.le_of_not_lt hheader, not_not.mp hmagic, congrArg some (not_not.mp hversion),
          ?_, t, f, congrArg some (MessageType.fromU8_eq_some.mp htype), rfl, hp⟩
        simp only [messageLength, hdeclared, HEADER_SIZE, List.length_cons]
        omega
      · obtain ⟨t', f', hcode, hflags, hp⟩ := hd.payload
        rw [MessageType.fromU8_eq_some.mpr (Option.some.inj hcode)] at htype
        obtain rfl := Option.some.inj htype
        obtain rfl := Option.some.inj hflags
        exact hp

/-- Datagrams that agree on the bytes of one message decode alike. -/
theorem decode_congr {d d' : Bytes}
    (h : d'.take (messageLength d) = d.take (messageLength d)) : decode d' = decode d := by
  by_cases hshort : d.length < messageLength d
  · have hd : d'.take (messageLength d) = d := by rw [h, List.take_of_length_le (by omega)]
    have hlen := congrArg List.length hd
    rw [List.length_take] at hlen
    rw [← hd, List.take_of_length_le (by omega)]
  have hlength := congrArg List.length h
  simp only [List.length_take, messageLength] at hlength hshort
  obtain ⟨m0, m1, m2, v, c, f, l1, l0, t1, t0, p1, p0, n1, n0, rest, rfl⟩ :=
    exists_header (d := d) (by omega)
  obtain ⟨m0', m1', m2', v', c', f', l1', l0', t1', t0', p1', p0', n1', n0', rest', rfl⟩ :=
    exists_header (d := d') (by omega)
  have hlen : messageLength (m0 :: m1 :: m2 :: v :: c :: f :: l1 :: l0 :: t1 :: t0 :: p1 :: p0 ::
      n1 :: n0 :: rest) = BigEndian.ofBytes [l1, l0] + 14 := Nat.add_comm _ _
  simp only [hlen, List.take_succ_cons, List.cons.injEq] at h
  obtain ⟨rfl, rfl, rfl, rfl, rfl, rfl, rfl, rfl, rfl, rfl, rfl, rfl, rfl, rfl, hrest⟩ := h
  have hrestlen := congrArg List.length hrest
  simp only [messageLength, HEADER_SIZE] at hlen
  simp only [List.length_take] at hrestlen
  simp only [List.length_cons, HEADER_SIZE] at hlength hshort
  have hlong : ¬ rest.length < BigEndian.ofBytes [l1', l0'] := by omega
  have hlong' : ¬ rest'.length < BigEndian.ofBytes [l1', l0'] := by omega
  rw [decode_header, decode_header, hrest]
  simp only [if_neg hlong, if_neg hlong']

/-- A cut datagram declares the same length if it holds a header. -/
theorem not_inGrammar_take {d : Bytes} {n : ℕ} (hn : n < messageLength d) :
    ¬ InGrammar (d.take n) := by
  intro hcut
  have hheader := hcut.header
  have hcomplete := hcut.complete
  have hlen : (d.take n).length ≤ n := List.length_take_le n d
  have hsame : dataLength (d.take n) = dataLength d := by
    unfold HEADER_SIZE at hheader
    rw [dataLength, dataLength, List.drop_take, List.take_take, min_eq_left (by omega)]
  simp only [messageLength, hsame] at hcomplete hn
  omega

/-- The decoder accepts exactly the grammar; it never panics, it reads nothing after the
message, and it rejects every message cut short. -/
theorem decode_accepts (d : Bytes) :
    ((∃ m, decode d = .ok m) ↔ InGrammar d) ∧ decode d ≠ .error .outOfRange ∧
      (∀ d', d'.take (messageLength d) = d.take (messageLength d) → decode d' = decode d) ∧
      ∀ n < messageLength d, ∃ e, decode (d.take n) = .error (.error e) :=
  ⟨(decode_settles d).ok_iff, (decode_settles d).ne_outOfRange, fun _ => decode_congr,
    fun n hn => (decode_settles (d.take n)).rejects (not_inGrammar_take hn)⟩

end Qstream

import Qstream.BigEndian
import Qstream.TextUtf8

/-! The wire format: every datagram is one message, a fixed header of 14 bytes and a payload.
An index or a slice out of range, which makes the program panic, is an outcome of its own. -/
namespace Qstream
open Text

def MAGIC : Bytes := [0x51, 0x53, 0x54]
def PROTOCOL_VERSION : UInt8 := 0x03
def HEADER_SIZE : ℕ := 14

/-- Temporary source admission limit. -/
def SEGMENT_NOT_READY : UInt8 := 0x01

inductive MessageType
  | handshakeRequest
  | handshakeResponse
  | manifestRequest
  | manifestResponse
  | segmentRequest
  | segmentContents
  | segmentNotFound
  | ack
  | peerlistRequest
  | peerlistResponse
  | ping
  | pong
  deriving DecidableEq, Repr

def MessageType.code : MessageType → UInt8
  | handshakeRequest => 0x01
  | handshakeResponse => 0x02
  | manifestRequest => 0x20
  | manifestResponse => 0x21
  | segmentRequest => 0x30
  | segmentContents => 0x31
  | segmentNotFound => 0x32
  | ack => 0x40
  | peerlistRequest => 0x50
  | peerlistResponse => 0x51
  | ping => 0x60
  | pong => 0x61

def MessageType.fromU8 (code : UInt8) : Option MessageType :=
  if code = 0x01 then some handshakeRequest
  else if code = 0x02 then some handshakeResponse
  else if code = 0x20 then some manifestRequest
  else if code = 0x21 then some manifestResponse
  else if code = 0x30 then some segmentRequest
  else if code = 0x31 then some segmentContents
  else if code = 0x32 then some segmentNotFound
  else if code = 0x40 then some ack
  else if code = 0x50 then some peerlistRequest
  else if code = 0x51 then some peerlistResponse
  else if code = 0x60 then some ping
  else if code = 0x61 then some pong
  else none

def AckType.code : AckType → UInt8
  | progress => 0x00
  | complete => 0x04

def AckType.fromU8 (v : UInt8) : Option AckType :=
  if v = 0x00 then some progress else if v = 0x04 then some complete else none

inductive ProtocolError
  | truncatedHeader (len : ℕ)
  | badMagic (got : Bytes)
  | badVersion (got : UInt8)
  | unknownMessageType (code : UInt8)
  | truncatedPayload (declared actual : ℕ)
  | invalidUtf8
  | badAckFlags (got : UInt8)
  | badAckPayload (len : ℕ)
  | badPeerlistPayload (len : ℕ)
  | badAvailabilityPayload (len : ℕ)
  deriving DecidableEq, Repr

/-- How decoding fails: with an error the caller gets, or in a panic. -/
inductive DecodeFailure
  | error (e : ProtocolError)
  | outOfRange
  deriving DecidableEq, Repr

abbrev Decoded (α : Type) := Except DecodeFailure α

/-- `bytes[i]`. -/
def byteAt (bytes : Bytes) (i : ℕ) : Decoded UInt8 :=
  match bytes[i]? with
  | some b => .ok b
  | none => .error .outOfRange

/-- `bytes[n..]`. -/
def sliceFrom (bytes : Bytes) (n : ℕ) : Decoded Bytes :=
  if n ≤ bytes.length then .ok (bytes.drop n) else .error .outOfRange

/-- `bytes[..n]`. -/
def sliceTo (bytes : Bytes) (n : ℕ) : Decoded Bytes :=
  if n ≤ bytes.length then .ok (bytes.take n) else .error .outOfRange

/-- `bytes.try_into().unwrap()` for an array of `n` bytes. -/
def intoArray (bytes : Bytes) (n : ℕ) : Decoded Bytes :=
  if bytes.length = n then .ok bytes else .error .outOfRange

/-- `u16::from_be_bytes([bytes[i], bytes[i + 1]])`. -/
def u16At (bytes : Bytes) (i : ℕ) : Decoded ℕ := do
  let hi ← byteAt bytes i
  let lo ← byteAt bytes (i + 1)
  return BigEndian.ofBytes [hi, lo]

def utf8Name (payload : Bytes) : Decoded String :=
  match fromUtf8 payload with
  | some s => .ok (String.ofList s)
  | none => .error (.error .invalidUtf8)

def encodeAvailability : Option SegmentAvailability → Bytes
  | none => []
  | some av => BigEndian.toBytes 8 av.newest ++ BigEndian.toBytes 2 av.mask.toNat

def decodeAvailability (payload : Bytes) : Decoded (Option SegmentAvailability) :=
  if payload.length = 0 then .ok none
  else if payload.length = 10 then do
    let newest ← intoArray (← sliceTo payload 8) 8
    let mask ← intoArray (← sliceFrom payload 8) 2
    return some ⟨BigEndian.ofBytes newest, UInt16.ofNat (BigEndian.ofBytes mask)⟩
  else .error (.error (.badAvailabilityPayload payload.length))

/-- An IPv4 address and a port in six bytes. -/
def ipv4Bytes (ip : Ipv4Addr) (port : ℕ) : Bytes :=
  [ip.a, ip.b, ip.c, ip.d] ++ BigEndian.toBytes 2 port

/-- Anything but IPv4, and port 0, become all zeros. -/
def endpointBytes (addr : SocketAddr) : Bytes :=
  match addr.ip with
  | .v4 ip => if addr.port ≠ 0 then ipv4Bytes ip addr.port else List.replicate 6 0
  | .v6 _ => List.replicate 6 0

/-- The six bytes an IPv4 address and a port are read from. -/
def ipv4At (bytes : Bytes) : Decoded SocketAddr := do
  let ip : Ipv4Addr := ⟨← byteAt bytes 0, ← byteAt bytes 1, ← byteAt bytes 2, ← byteAt bytes 3⟩
  let port ← u16At bytes 4
  return ⟨.v4 ip, port⟩

/-- The rest of the payload after the endpoint is the name. -/
def splitEndpointName (payload : Bytes) : Decoded (SocketAddr × String) :=
  if payload.length < 6 then .error (.error (.truncatedPayload (u16 payload.length) 0))
  else do
    let addr ← ipv4At payload
    let name ← utf8Name (← sliceFrom payload 6)
    return (addr, name)

def encodePeers (peers : List (SocketAddr × UInt8)) : Bytes :=
  peers.flatMap fun (peer, flags) => match peer.ip with
    | .v4 ip => ipv4Bytes ip peer.port ++ [flags]
    | .v6 _ => []

/-- The loop over `n` chunks of seven bytes; entries with port 0 are skipped. -/
def decodePeerChunks : ℕ → Bytes → Decoded (List (SocketAddr × UInt8))
  | 0, _ => .ok []
  | n + 1, payload => do
    let chunk := payload.take 7
    let peer ← ipv4At chunk
    if peer.port ≠ 0 then do
      let flags ← byteAt chunk 6
      return (peer, flags) :: (← decodePeerChunks n (payload.drop 7))
    else decodePeerChunks n (payload.drop 7)

def decodePeers (payload : Bytes) : Decoded (List (SocketAddr × UInt8)) :=
  if payload.length % 7 ≠ 0 then .error (.error (.badPeerlistPayload payload.length))
  else decodePeerChunks (payload.length / 7) payload

/-- The header fields of a message: its type, the flags, the transfer id, the packet number
and the total. -/
def Message.header : Message → MessageType × UInt8 × ℕ × ℕ × ℕ
  | handshakeRequest .. => (.handshakeRequest, 0, 0, 0, 0)
  | handshakeResponse .. => (.handshakeResponse, 0, 0, 0, 0)
  | manifestRequest => (.manifestRequest, 0, 0, 0, 0)
  | manifestResponse .. => (.manifestResponse, 0, 0, 0, 0)
  | segmentRequest transferId _ => (.segmentRequest, 0, transferId, 0, 0)
  | segmentContents transferId packetNumber totalPackets _ =>
    (.segmentContents, 0, transferId, packetNumber, totalPackets)
  | segmentNotFound transferId _ retryable =>
    (.segmentNotFound, if retryable then SEGMENT_NOT_READY else 0, transferId, 0, 0)
  | ack transferId ackType _ _ => (.ack, ackType.code, transferId, 0, 0)
  | peerlistRequest => (.peerlistRequest, 0, 0, 0, 0)
  | peerlistResponse .. => (.peerlistResponse, 0, 0, 0, 0)
  | ping .. => (.ping, 0, 0, 0, 0)
  | pong .. => (.pong, 0, 0, 0, 0)

def Message.payload : Message → Bytes
  | handshakeRequest claimed name => endpointBytes claimed ++ asBytes name.toList
  | handshakeResponse observed name => endpointBytes observed ++ asBytes name.toList
  | manifestRequest => []
  | manifestResponse data => data
  | segmentRequest _ filename => asBytes filename.toList
  | segmentContents _ _ _ data => data
  | segmentNotFound _ availability _ => encodeAvailability availability
  | ack _ ackType nextStart nextCount =>
    if ackType = .progress then BigEndian.toBytes 2 nextStart ++ BigEndian.toBytes 2 nextCount
    else []
  | peerlistRequest => []
  | peerlistResponse peers => encodePeers peers
  | ping nonce name => BigEndian.toBytes 4 nonce.toNat ++ asBytes name.toList
  | pong availability => encodeAvailability availability

/-- A message as a datagram, header and payload. -/
def encode (message : Message) : Bytes :=
  let (messageType, flags, transferId, packetNumber, totalPackets) := message.header
  let payload := message.payload
  MAGIC ++ [PROTOCOL_VERSION, messageType.code, flags] ++
    BigEndian.toBytes 2 (u16 payload.length) ++ BigEndian.toBytes 2 transferId ++
    BigEndian.toBytes 2 packetNumber ++ BigEndian.toBytes 2 totalPackets ++ payload

/-- The message of a type, from the header fields and the payload. -/
def decodePayload (messageType : MessageType) (flags : UInt8)
    (transferId packetNumber totalPackets : ℕ) (payload : Bytes) : Decoded Message :=
  match messageType with
  | .handshakeRequest => do
    let (claimed, name) ← splitEndpointName payload
    return .handshakeRequest claimed name
  | .handshakeResponse => do
    let (observed, name) ← splitEndpointName payload
    return .handshakeResponse observed name
  | .manifestRequest => .ok .manifestRequest
  | .manifestResponse => .ok (.manifestResponse payload)
  | .segmentRequest => do return .segmentRequest transferId (← utf8Name payload)
  | .segmentContents => .ok (.segmentContents transferId packetNumber totalPackets payload)
  | .segmentNotFound => do
    return .segmentNotFound transferId (← decodeAvailability payload)
      (flags &&& SEGMENT_NOT_READY ≠ 0)
  | .ack =>
    match AckType.fromU8 flags with
    | none => .error (.error (.badAckFlags flags))
    | some .complete => .ok (.ack transferId .complete 0 0)
    | some .progress =>
      if payload.length ≠ 4 then .error (.error (.badAckPayload payload.length))
      else do return .ack transferId .progress (← u16At payload 0) (← u16At payload 2)
  | .peerlistRequest => .ok .peerlistRequest
  | .peerlistResponse => do return .peerlistResponse (← decodePeers payload)
  | .ping =>
    if payload.length < 4 then .error (.error (.truncatedPayload (u16 payload.length) 0))
    else do
      let nonce := BigEndian.ofBytes
        [← byteAt payload 0, ← byteAt payload 1, ← byteAt payload 2, ← byteAt payload 3]
      let name ← utf8Name (← sliceFrom payload 4)
      return .ping (UInt32.ofNat nonce) name
  | .pong => do return .pong (← decodeAvailability payload)

/-- A datagram as a message: magic, version and lengths are checked first. -/
def decode (datagram : Bytes) : Decoded Message :=
  if datagram.length < HEADER_SIZE then
    .error (.error (.truncatedHeader datagram.length))
  else do
    let magic := [← byteAt datagram 0, ← byteAt datagram 1, ← byteAt datagram 2]
    if magic ≠ MAGIC then .error (.error (.badMagic magic))
    else do
      let version ← byteAt datagram 3
      if version ≠ PROTOCOL_VERSION then .error (.error (.badVersion version))
      else do
        let code ← byteAt datagram 4
        match MessageType.fromU8 code with
        | none => .error (.error (.unknownMessageType code))
        | some messageType => do
          let flags ← byteAt datagram 5
          let dataLength ← u16At datagram 6
          let transferId ← u16At datagram 8
          let packetNumber ← u16At datagram 10
          let totalPackets ← u16At datagram 12
          let payload ← sliceFrom datagram HEADER_SIZE
          if payload.length < dataLength then
            .error (.error (.truncatedPayload (u16 dataLength) payload.length))
          else do
            let payload ← sliceTo payload dataLength
            decodePayload messageType flags transferId packetNumber totalPackets payload

theorem exists_header {d : Bytes} (h : HEADER_SIZE ≤ d.length) :
    ∃ m0 m1 m2 v c f l1 l0 t1 t0 p1 p0 n1 n0 rest,
      d = m0 :: m1 :: m2 :: v :: c :: f :: l1 :: l0 :: t1 :: t0 :: p1 :: p0 :: n1 :: n0 :: rest := by
  unfold HEADER_SIZE at h
  match d, h with
  | m0 :: m1 :: m2 :: v :: c :: f :: l1 :: l0 :: t1 :: t0 :: p1 :: p0 :: n1 :: n0 :: rest, _ =>
    exact ⟨m0, m1, m2, v, c, f, l1, l0, t1, t0, p1, p0, n1, n0, rest, rfl⟩

/-- What decoding does with a datagram that holds a header. -/
theorem decode_header (m0 m1 m2 v c f l1 l0 t1 t0 p1 p0 n1 n0 : UInt8) (rest : Bytes) :
    decode (m0 :: m1 :: m2 :: v :: c :: f :: l1 :: l0 :: t1 :: t0 :: p1 :: p0 :: n1 :: n0 :: rest) =
      if [m0, m1, m2] ≠ MAGIC then .error (.error (.badMagic [m0, m1, m2]))
      else if v ≠ PROTOCOL_VERSION then .error (.error (.badVersion v))
      else match MessageType.fromU8 c with
        | none => .error (.error (.unknownMessageType c))
        | some messageType =>
          if rest.length < BigEndian.ofBytes [l1, l0] then
            .error (.error (.truncatedPayload (u16 (BigEndian.ofBytes [l1, l0])) rest.length))
          else decodePayload messageType f (BigEndian.ofBytes [t1, t0])
            (BigEndian.ofBytes [p1, p0]) (BigEndian.ofBytes [n1, n0])
            (rest.take (BigEndian.ofBytes [l1, l0])) := by
  have hlen : ¬ (rest.length + 1 + 1 + 1 + 1 + 1 + 1 + 1 + 1 + 1 + 1 + 1 + 1 + 1 + 1 <
    HEADER_SIZE) := by unfold HEADER_SIZE; omega
  simp only [decode, List.length_cons, if_neg hlen]
  simp only [byteAt, u16At, sliceFrom, sliceTo, bind, Except.bind, pure, Except.pure, HEADER_SIZE,
    List.getElem?_cons_zero, List.getElem?_cons_succ, List.length_cons, List.drop_succ_cons,
    List.drop_zero]
  split
  next => rfl
  next =>
  split
  next => rfl
  next =>
  cases MessageType.fromU8 c with
  | none => rfl
  | some messageType =>
    simp only [show 14 ≤ rest.length + 1 + 1 + 1 + 1 + 1 + 1 + 1 + 1 + 1 + 1 + 1 + 1 + 1 + 1 by omega,
      if_true]
    split
    next => rfl
    next hle => rw [if_pos (Nat.le_of_not_lt hle)]

end Qstream

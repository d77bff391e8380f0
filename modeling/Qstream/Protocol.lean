import Mathlib

/-! The vocabulary of the wire protocol: addresses, clock readings and the
twelve message kinds, with the constants of `protocol.rs`. -/
namespace Qstream

abbrev Bytes := List UInt8

/-- The readings `Instant::now()` returns one after another during one call.
Instants and durations are natural numbers of nanoseconds. -/
abbrev Clock := ℕ → ℕ

def millis (n : ℕ) : ℕ := n * 1000000

def secs (n : ℕ) : ℕ := n * 1000000000

/-- The cast `as u16`. -/
def u16 (n : ℕ) : ℕ := n % 65536

theorem u16_of_lt {n : ℕ} (h : n < 65536) : u16 n = n := Nat.mod_eq_of_lt h

structure Ipv4Addr where
  a : UInt8
  b : UInt8
  c : UInt8
  d : UInt8
  deriving DecidableEq, Repr

def Ipv4Addr.isLoopback (ip : Ipv4Addr) : Bool := ip.a = 127

/-- RFC 1918: 10/8, 172.16/12 and 192.168/16. -/
def Ipv4Addr.isPrivate (ip : Ipv4Addr) : Bool :=
  ip.a = 10 ∨ (ip.a = 172 ∧ 16 ≤ ip.b ∧ ip.b ≤ 31) ∨ (ip.a = 192 ∧ ip.b = 168)

inductive IpAddr
  | v4 (ip : Ipv4Addr)
  | v6 (ip : BitVec 128)
  deriving DecidableEq, Repr

def isLoopback6 (ip : BitVec 128) : Bool := ip = 1

/-- fe80::/10. -/
def isUnicastLinkLocal (ip : BitVec 128) : Bool := ip >>> 118 = 0x3FA

structure SocketAddr where
  ip : IpAddr
  port : ℕ
  deriving DecidableEq, Repr

namespace SocketAddr

/-- The order of addresses: IPv4 before IPv6, then by address, then by port. -/
def sortKey (a : SocketAddr) : ℕ :=
  match a.ip with
  | .v4 ip => ((((ip.a.toNat * 256 + ip.b.toNat) * 256) + ip.c.toNat) * 256 + ip.d.toNat) * 65536 +
      a.port
  | .v6 ip => 2 ^ 64 + ip.toNat * 65536 + a.port

end SocketAddr

/-- The endpoint a node claims when it has no mapping: 0.0.0.0:0. -/
def unspecifiedEndpoint : SocketAddr := ⟨.v4 ⟨0, 0, 0, 0⟩, 0⟩

/-- Number of recent segment positions represented by an availability mask. -/
def AVAILABILITY_MASK_BITS : ℕ := 16

def PEER_UPNP_MAPPED : UInt8 := 0x01
def PEER_SAME_IP : UInt8 := 0x02
def PEER_PARENT : UInt8 := 0x04

inductive AckType
  | progress
  | complete
  deriving DecidableEq, Repr

/-- Compact recent segment inventory: bit 0 of `mask` represents `newest`, bit 1
`newest - 1`, and so on. -/
structure SegmentAvailability where
  newest : ℕ
  mask : UInt16
  deriving DecidableEq, Repr

def SegmentAvailability.bit (av : SegmentAvailability) (i : ℕ) : Bool :=
  av.mask.toNat.testBit i

/-- Whether the inventory covers `segment` and says it exists. -/
def SegmentAvailability.contains (av : SegmentAvailability) (segment : ℕ) : Option Bool :=
  if segment > av.newest then none
  else if av.newest - segment ≥ AVAILABILITY_MASK_BITS then none
  else some (av.bit (av.newest - segment))

inductive Message
  | handshakeRequest (claimed : SocketAddr) (name : String)
  | handshakeResponse (observed : SocketAddr) (name : String)
  | manifestRequest
  | manifestResponse (data : Bytes)
  | segmentRequest (transferId : ℕ) (filename : String)
  | segmentContents (transferId packetNumber totalPackets : ℕ) (data : Bytes)
  | segmentNotFound (transferId : ℕ) (availability : Option SegmentAvailability)
      (retryable : Bool)
  | ack (transferId : ℕ) (ackType : AckType) (nextStart nextCount : ℕ)
  | peerlistRequest
  | peerlistResponse (peers : List (SocketAddr × UInt8))
  | ping (nonce : UInt32) (name : String)
  | pong (availability : Option SegmentAvailability)
  deriving DecidableEq, Repr

end Qstream

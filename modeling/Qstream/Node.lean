import Qstream.TransferRegistry

/-! A node's state and what it knows about its peers: liveness, quality, paths and
segment inventories. The socket, the fault injection on what is sent, and the figures
that only the statistics pages show are left out. -/
namespace Qstream
open Transfer

def PING_INTERVAL : ℕ := secs 10
def BEACON_INTERVAL : ℕ := secs 5
/-- A path counts as fresh while a PONG was received within this window. -/
def PATH_FRESH : ℕ := secs 30
def MISSING_TTL : ℕ := secs 15
def AVAILABILITY_TTL : ℕ := secs 15

inductive Role
  | master
  | peer
  deriving DecidableEq, Repr

structure PeerInfo where
  name : String
  lastSeen : ℕ
  deriving DecidableEq, Repr

/-- What a peer is called: the name it announced, or its address. -/
inductive PeerLabel
  | name (s : String)
  | address (a : SocketAddr)
  deriving DecidableEq, Repr

/-- How a pull from a peer ended. -/
inductive PullResult
  | ok
  | notFound
  | retryableNotFound
  | timeout
  | other
  deriving DecidableEq, Repr

/-- Quality bookkeeping for one peer. -/
structure PeerStat where
  name : PeerLabel
  pulls : UInt32
  downloadedBytes : UInt64
  nfPulls : UInt32
  timeouts : UInt32
  otherFails : UInt32
  served : UInt32
  nfServed : UInt32
  senderFails : UInt32
  uploadedBytes : UInt64
  latencyMs : ℕ
  score : ℕ
  lastSeen : ℕ
  deriving DecidableEq, Repr

def PeerStat.new (name : PeerLabel) (now : ℕ) : PeerStat :=
  ⟨name, 0, 0, 0, 0, 0, 0, 0, 0, 0, 0, 50, now⟩

def PeerStat.adjust (s : PeerStat) (delta : ℤ) : PeerStat :=
  { s with score := (max 0 (min 100 ((s.score : ℤ) + delta))).toNat }

structure PathState where
  lastPing : ℕ
  lastPong : Option ℕ
  lan : Bool
  deriving DecidableEq, Repr

def PathState.fresh (p : PathState) (now : ℕ) : Bool :=
  p.lastPong.any fun t => now - t < PATH_FRESH

/-- The settings a node takes from its environment. -/
structure NodeSettings where
  transfer : Settings
  originSeeders : ℕ
  retentionSecs : ℕ
  deriving DecidableEq, Repr

structure Node where
  name : String
  role : Role
  /-- The manifest's file name in the segment root. -/
  manifestName : String
  registry : TransferRegistry
  peers : HashMap SocketAddr PeerInfo
  peerStats : HashMap SocketAddr PeerStat
  myPublic : Option SocketAddr
  claimed : Option SocketAddr
  beaconNonce : UInt32
  claims : HashMap SocketAddr SocketAddr
  paths : HashMap SocketAddr PathState
  availability : HashMap SocketAddr (SegmentAvailability × ℕ)
  missingSegments : HashMap (SocketAddr × ℕ) ℕ
  originSeeders : HashMap String (Finset SocketAddr)
  originSeedAssignments : ℕ
  originSeedDenials : ℕ
  localAddr : SocketAddr
  nextPing : ℕ
  nextBeacon : ℕ
  nextPrune : ℕ
  downloadedTotal : UInt64
  downloadedBytes : UInt64
  servedTotal : UInt64
  servedBytes : UInt64

/-- A globally reachable endpoint: neither loopback nor private. -/
def remotePublic (addr : SocketAddr) : Bool :=
  match addr.ip with
  | .v4 ip => ¬ ip.isLoopback ∧ ¬ ip.isPrivate
  | .v6 ip => ¬ isLoopback6 ip ∧ ¬ isUnicastLinkLocal ip

def isLanSource (addr : SocketAddr) : Bool :=
  match addr.ip with
  | .v4 ip => ip.isPrivate ∨ ip.isLoopback
  | .v6 ip => isLoopback6 ip ∨ isUnicastLinkLocal ip

def sameIp4 (a b : SocketAddr) : Bool :=
  match a.ip, b.ip with
  | .v4 x, .v4 y => x = y
  | _, _ => false

def seedLeaseAllowed (seeders : Finset SocketAddr) (peer : SocketAddr) (limit : ℕ) : Bool :=
  peer ∈ seeders ∨ seeders.card < limit

namespace Node

def new (clk : Clock) (name : String) (role : Role) (manifestName : String) (dir : Dir)
    (localAddr : SocketAddr) (beaconNonce : UInt32) : Node where
  name := name
  role := role
  manifestName := manifestName
  registry := .new dir
  peers := ∅
  peerStats := ∅
  myPublic := none
  claimed := none
  beaconNonce := beaconNonce
  claims := ∅
  paths := ∅
  availability := ∅
  missingSegments := ∅
  originSeeders := ∅
  originSeedAssignments := 0
  originSeedDenials := 0
  localAddr := localAddr
  nextPing := clk 0 + PING_INTERVAL
  nextBeacon := clk 1 + BEACON_INTERVAL
  nextPrune := clk 2 + secs 30
  downloadedTotal := 0
  downloadedBytes := 0
  servedTotal := 0
  servedBytes := 0

def withDir (n : Node) (dir : Dir) : Node := { n with registry := { n.registry with dir := dir } }

def addReceiver (n : Node) (id : ℕ) (r : ReceiverTransfer) : Node :=
  { n with registry := { n.registry with receivers := n.registry.receivers.insert id r } }

def isLanPath (n : Node) (addr : SocketAddr) : Bool := (n.paths.lookup addr).any fun p => p.lan

def pathFresh (n : Node) (addr : SocketAddr) (now : ℕ) : Bool :=
  (n.paths.lookup addr).any fun p => p.fresh now

/-- Record a peer's recent segment inventory: its positive bits withdraw the negative
answers they contradict. -/
def recordAvailability (n : Node) (clk : Clock) (peer : SocketAddr)
    (av : SegmentAvailability) : Node :=
  let missing := (List.range AVAILABILITY_MASK_BITS).foldl (fun m number =>
    if av.bit number then m.erase (peer, av.newest - number) else m) n.missingSegments
  { n with missingSegments := missing, availability := n.availability.insert peer (av, clk 0) }

/-- Record an exact negative answer for a requested segment. -/
def recordMissing (n : Node) (clk : Clock) (peer : SocketAddr) (filename : String) : Node :=
  match segmentNumber filename with
  | some number =>
    { n with missingSegments := n.missingSegments.insert (peer, number) (clk 0 + MISSING_TTL) }
  | none => n

/-- A fresh inventory answer for `filename`, when one is known. -/
def peerAvailability (n : Node) (peer : SocketAddr) (filename : String) (now : ℕ) :
    Option Bool := do
  let number ← segmentNumber filename
  if (n.missingSegments.lookup (peer, number)).any fun expiresAt => now < expiresAt then
    return false
  let (availability, observedAt) ← n.availability.lookup peer
  if now - observedAt > AVAILABILITY_TTL then none
  else availability.contains number

def peerMayHave (n : Node) (peer : SocketAddr) (filename : String) (now : ℕ) : Bool :=
  n.peerAvailability peer filename now ≠ some false

/-- The best address to reach a peer at: a LAN path of a peer of the same name. -/
def effectiveAddr (n : Node) (ord : HashOrder) (addr : SocketAddr) : SocketAddr :=
  match n.peers.lookup addr with
  | some known =>
    match (ord.iter n.peers).find? fun (a, info) =>
        info.name = known.name ∧ a ≠ addr ∧ n.isLanPath a with
    | some (a, _) => a
    | none => addr
  | none => addr

/-- Decide whether the master may seed `filename` to `peer`. -/
def originSeedAllowed (n : Node) (cfg : NodeSettings) (clk : Clock) (filename : String)
    (peer : SocketAddr) : Node × Bool :=
  if n.role ≠ .master ∨ ¬ n.registry.hasSegment filename then (n, true)
  else
    let seeders := ((n.originSeeders.lookup filename).getD ∅).filter fun c =>
      c ∈ n.peers ∧ n.pathFresh c (clk 0) ∧ n.peerAvailability c filename (clk 0) ≠ some false
    let reachable := seeders.filter fun c => remotePublic c = remotePublic peer
    let leased : Node := { n with
      originSeeders := n.originSeeders.insert filename (insert peer seeders)
      originSeedAssignments := n.originSeedAssignments + 1 }
    if seedLeaseAllowed reachable peer cfg.originSeeders then
      if peer ∈ seeders then
        ({ n with originSeeders := n.originSeeders.insert filename seeders }, true)
      else (leased, true)
    else
      let peerSourceExists := n.peers.keys.any fun c =>
        c ≠ peer ∧ remotePublic c = remotePublic peer ∧ n.pathFresh c (clk 1) ∧
          n.peerAvailability c filename (clk 1) = some true
      if ¬ peerSourceExists then (leased, true)
      else ({ n with
        originSeeders := n.originSeeders.insert filename seeders
        originSeedDenials := n.originSeedDenials + 1 }, false)

/-- Remove seed leases of peers that have left the registry. -/
def pruneOriginSeeders (n : Node) : Node :=
  { n with originSeeders := (n.originSeeders.mapVal fun _ seeders =>
      seeders.filter fun p => p ∈ n.peers).retain fun _ seeders => seeders ≠ ∅ }

def recordPong (n : Node) (src : SocketAddr) (now : ℕ) : Node :=
  { n with paths := (n.paths.orInsert src ⟨now, none, false⟩).modify src fun p =>
      { p with lastPong := some now, lastPing := now } }

def registerPeer (n : Node) (clk : Clock) (addr : SocketAddr) (name : String) : Node :=
  { n with
    peers := n.peers.insert addr ⟨name, clk 1⟩
    peerStats := n.peerStats.orInsert addr (.new (.name name) (clk 2))
    paths := n.paths.orInsert addr ⟨clk 3, none, false⟩ }

def touchPeer (n : Node) (clk : Clock) (addr : SocketAddr) : Node :=
  { n with
    peers := n.peers.modify addr fun info => { info with lastSeen := clk 0 }
    peerStats := n.peerStats.modify addr fun stat => { stat with lastSeen := clk 1 } }

def removePeer (n : Node) (addr : SocketAddr) : Node := { n with peers := n.peers.erase addr }

/-- Drop peers not heard from in `ttl`. -/
def prunePeers (n : Node) (ttl now : ℕ) : Node :=
  { n with peers := n.peers.retain fun _ info => ¬ (now - info.lastSeen ≥ ttl) }

def peerLabel (n : Node) (peer : SocketAddr) : PeerLabel :=
  match n.peers.lookup peer with
  | some info => .name info.name
  | none => .address peer

/-- Record how a pull from `peer` ended. -/
def recordPull (n : Node) (clk : Clock) (peer : SocketAddr) (result : PullResult)
    (latencyMs : Option ℕ) (bytes : ℕ) : Node :=
  let stats := (n.peerStats.orInsert peer (.new (n.peerLabel peer) (clk 0))).modify peer
    fun stat => { stat with lastSeen := clk 1 }
  match result with
  | .ok =>
    { n with
      peerStats := stats.modify peer fun stat =>
        let stat := { stat with pulls := stat.pulls + 1 }.adjust 2
        let latency := match latencyMs with
          | some ms =>
            if stat.latencyMs = 0 then u32 ms else u32 (stat.latencyMs * 3 + u32 ms) / 4
          | none => stat.latencyMs
        { stat with latencyMs := latency, downloadedBytes := stat.downloadedBytes + .ofNat bytes }
      downloadedTotal := n.downloadedTotal + 1
      downloadedBytes := n.downloadedBytes + .ofNat bytes }
  | .notFound =>
    { n with peerStats := stats.modify peer fun stat => { stat with nfPulls := stat.nfPulls + 1 } }
  | .retryableNotFound => { n with peerStats := stats }
  | .timeout =>
    { n with peerStats := stats.modify peer fun stat =>
        { stat with timeouts := stat.timeouts + 1 }.adjust (-10) }
  | .other =>
    { n with peerStats := stats.modify peer fun stat =>
        { stat with otherFails := stat.otherFails + 1 }.adjust (-3) }

/-- Record how a serve ended. -/
def recordServe (n : Node) (clk : Clock) (event : RegEvent) : Node :=
  let entry (peer : SocketAddr) : HashMap SocketAddr PeerStat :=
    n.peerStats.orInsert peer (.new (n.peerLabel peer) (clk 0))
  match event with
  | .served src bytes =>
    { n with
      peerStats := (entry src).modify src fun stat =>
        let stat := { stat with served := stat.served + 1 }.adjust 2
        { stat with uploadedBytes := stat.uploadedBytes + .ofNat bytes }
      servedTotal := n.servedTotal + 1
      servedBytes := n.servedBytes + .ofNat bytes }
  | .notFound src =>
    { n with peerStats := (entry src).modify src fun stat =>
        { stat with nfServed := stat.nfServed + 1 } }
  | .senderFailed src =>
    { n with peerStats := (entry src).modify src fun stat =>
        { stat with senderFails := stat.senderFails + 1 }.adjust (-5) }

end Node
end Qstream

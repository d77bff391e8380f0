import Qstream.Node

/-! The node's two entry points: its timers, and the dispatch of one datagram. -/
namespace Qstream
open Transfer Text

/-- What the caller of `handle` may want to react to. -/
inductive Event
  | handshakeResponse (src : SocketAddr) (name : String)
  | manifestResponse (data : Bytes)
  | peerlistResponse (peers : List (SocketAddr × UInt8))
  | none
  deriving DecidableEq, Repr

def MAX_ADVERTISED_PEERS : ℕ := 16
def PARENT_COUNT : ℕ := 2

namespace Node

def pongMessage (n : Node) : Message := .pong n.registry.segmentAvailability

def pingMessage (n : Node) : Message := .ping n.beaconNonce n.name

/-- Push the current store inventory to all known peers. -/
def announceAvailability (n : Node) (ord : HashOrder) : Outbox :=
  (ord.iter n.peers).map fun (a, _) => (n.pongMessage, a)

/-- PING every known peer and, as a peer, the local network. -/
def pingCycle (n : Node) (ord : HashOrder) (now : ℕ) : Node × Outbox :=
  let (n1, pings) : Node × Outbox :=
    if now ≥ n.nextPing then
      ({ n with
          nextPing := now + PING_INTERVAL
          paths := n.peers.keys.foldl (fun m a => m.orInsert a ⟨now, none, false⟩) n.paths },
        (ord.iter n.peers).map fun (a, _) => (n.pingMessage, a))
    else (n, [])
  if n1.role = .peer ∧ now ≥ n1.nextBeacon then
    ({ n1 with nextBeacon := now + BEACON_INTERVAL },
      pings ++ [(n.pingMessage, ⟨.v4 ⟨255, 255, 255, 255⟩, n.localAddr.port⟩)])
  else (n1, pings)

/-- Whether a file's age has reached `retention`; one from the future has no age. -/
def reachedAge (retention wall : ℕ) : FileEntry → Bool
  | .file _ _ modified => modified ≤ wall ∧ wall - modified ≥ retention
  | .directory => false

/-- A file `prune_segments` deletes: a segment or temporary file that the manifest does
not name and that has reached the retention age. -/
def prunable (playlist : List String) (retention wall : ℕ) (name : String) (e : FileEntry) : Bool :=
  let isSegment : Bool := startsWith "seg_".toList name.toList ∧ ".ts".toList <:+ name.toList
  let isTmp : Bool := ".tmp".toList <:+ name.toList
  (isSegment ∨ isTmp) ∧ name ∉ playlist ∧ reachedAge retention wall e

/-- Delete segments that rolled out of the playlist; true when any was deleted. -/
def pruneSegments (n : Node) (cfg : NodeSettings) (w : World) (now : ℕ) : Node × Bool :=
  if cfg.retentionSecs = 0 ∨ now < n.nextPrune then (n, false)
  else
    let n1 : Node := { n with nextPrune := now + secs 30 }
    let playlist := parseManifest ((n.registry.dir.read n.manifestName).getD [])
    let gone := prunable playlist (secs cfg.retentionSecs) w.wall
    if w.io = .ok then
      let dir := n.registry.dir
      (n1.withDir { dir with entries := dir.entries.retain fun name e => ¬ gone name e },
        dir.entries.pairs.any fun (name, e) => gone name e)
    else (n1, false)

/-- Advance the transfers, turn serve outcomes into statistics, ping and prune. -/
def tick (n : Node) (cfg : NodeSettings) (w : World) (now : ℕ) : Node × Outbox :=
  let (reg, sent) := n.registry.tick cfg.transfer w now
  let n1 : Node := { n with registry := { reg with events := [] } }
  let n2 := reg.events.foldl (fun n e => n.recordServe w.clk e) n1
  let (n3, pings) := n2.pingCycle w.ord now
  let (n4, removed) := n3.pruneOriginSeeders.pruneSegments cfg w now
  (n4, sent ++ pings ++ if removed then n4.announceAvailability w.ord else [])

def servedBy (n : Node) (a : SocketAddr) : ℕ :=
  match n.peerStats.lookup a with
  | some s => s.served.toNat
  | none => 0

/-- The known peers a requester may be told of, those that served least first. -/
def advertisable (n : Node) (src : SocketAddr) : List SocketAddr :=
  (n.peers.keys.filter fun p => p ≠ src ∧ ¬ (remotePublic src ∧ ¬ remotePublic p)).mergeSort
    fun a b => n.servedBy a < n.servedBy b ∨
      (n.servedBy a = n.servedBy b ∧ a.sortKey ≤ b.sortKey)

def peerFlags (n : Node) (src : SocketAddr) (parents : List SocketAddr) (p : SocketAddr) : UInt8 :=
  (if n.claims.lookup p = some p then PEER_UPNP_MAPPED else 0) |||
  (if sameIp4 p src then PEER_SAME_IP else 0) |||
  (if p ∈ parents then PEER_PARENT else 0)

def peerlistMessage (n : Node) (src : SocketAddr) : Message :=
  let candidates := n.advertisable src
  let parents := candidates.take PARENT_COUNT
  .peerlistResponse ((candidates.take MAX_ADVERTISED_PEERS).map fun p =>
    (p, n.peerFlags src parents p))

/-- First contact by PING registers the sender, on a LAN path when it is private. -/
def discover (n : Node) (clk : Clock) (src : SocketAddr) (name : String) : Node :=
  if src ∉ n.peers ∧ name ≠ "" then
    let n1 := n.registerPeer clk src name
    if isLanSource src then
      { n1 with paths := n1.paths.modify src fun p => { p with lan := true } }
    else n1
  else n

/-- Handle one decoded datagram. -/
def handle (n : Node) (cfg : NodeSettings) (w : World) (m : Message) (src : SocketAddr) :
    Node × Outbox × Event :=
  let n := n.touchPeer w.clk src
  let w := w.after 2
  match m with
  | .handshakeRequest claimed name =>
    let n1 := n.registerPeer w.clk src name
    ({ n1 with claims := n1.claims.insert src claimed },
      [(.handshakeResponse src n.name, src)], .none)
  | .handshakeResponse observed name =>
    ({ n with myPublic := some observed }, [], .handshakeResponse src name)
  | .ping nonce name =>
    -- our own broadcast comes back to our socket
    if nonce = n.beaconNonce ∨ src = n.localAddr then (n, [], .none)
    else
      let n1 := n.discover w.clk src name
      (n1, [(n1.pongMessage, src)], .none)
  | .pong availability =>
    let n1 := n.recordPong src (w.clk 0)
    match availability with
    | some av => (n1.recordAvailability (w.after 1).clk src av, [], .none)
    | none => (n1, [], .none)
  | .manifestRequest =>
    (n, [(.manifestResponse ((n.registry.dir.read n.manifestName).getD []), src)], .none)
  | .manifestResponse data => (n, [], .manifestResponse data)
  | .peerlistRequest => (n, [(n.peerlistMessage src, src)], .none)
  | .peerlistResponse peers => (n, [], .peerlistResponse peers)
  | .segmentRequest transferId filename =>
    let (n1, allowed) := n.originSeedAllowed cfg w.clk filename src
    let (reg, sent) :=
      if allowed then n1.registry.serve (w.after 2).clk transferId filename src
      else n1.registry.rejectNotFound transferId src true
    ({ n1 with registry := reg }, sent, .none)
  | .segmentContents transferId packetNumber totalPackets data =>
    let (reg, sent) :=
      n.registry.onContent cfg.transfer w transferId packetNumber totalPackets data
    ({ n with registry := reg }, sent, .none)
  | .segmentNotFound transferId availability retryable =>
    let n1 := match availability with
      | some av => n.recordAvailability w.clk src av
      | none => n
    let (reg, failed) := n1.registry.onNotFound (w.after 1).clk transferId retryable
    let n2 : Node := { n1 with registry := reg }
    match failed with
    | some (filename, false) => (n2.recordMissing (w.after 2).clk src filename, [], .none)
    | _ => (n2, [], .none)
  | .ack transferId ackType nextStart nextCount =>
    ({ n with
        registry := n.registry.onAck cfg.transfer w.clk transferId ackType nextStart nextCount },
      [], .none)

/-- The responses that `handle` leaves to its caller. -/
def eventOf (src : SocketAddr) : Message → Event
  | .handshakeResponse _ name => .handshakeResponse src name
  | .manifestResponse data => .manifestResponse data
  | .peerlistResponse peers => .peerlistResponse peers
  | _ => .none

theorem handle_event (n : Node) (cfg : NodeSettings) (w : World) (m : Message)
    (src : SocketAddr) : (n.handle cfg w m src).2.2 = eventOf src m := by
  cases m with
  | ping nonce name =>
    simp only [handle]
    split <;> rfl
  | pong av => cases av <;> rfl
  | segmentNotFound id av retryable =>
    simp only [handle]
    split <;> rfl
  | _ => rfl

/-! Only datagrams, timeouts and explicit removal change the set of known peers: no
datagram removes one, and the timers leave it alone. -/

variable {n : Node} {a : SocketAddr}

@[simp] theorem recordServe_peers (n : Node) (clk : Clock) (e : RegEvent) :
    (n.recordServe clk e).peers = n.peers := by
  cases e <;> rfl

@[simp] theorem recordPull_peers (n : Node) (clk : Clock) (p : SocketAddr) (res : PullResult)
    (latency : Option ℕ) (bytes : ℕ) : (n.recordPull clk p res latency bytes).peers = n.peers := by
  cases res <;> rfl

/-- A projection that reads neither the paths nor the times of pings. -/
theorem pingCycle_proj {α : Type*} (proj : Node → α)
    (hproj : ∀ (n : Node) ping paths beacon,
      proj { n with nextPing := ping, paths := paths, nextBeacon := beacon } = proj n)
    (n : Node) (ord : HashOrder) (now : ℕ) : proj (n.pingCycle ord now).1 = proj n := by
  simp only [pingCycle]
  split <;> split <;> exact hproj n _ _ _

/-- A projection that reads neither the registry nor the time of pruning. -/
theorem pruneSegments_proj {α : Type*} (proj : Node → α)
    (hproj : ∀ (n : Node) prune reg, proj { n with nextPrune := prune, registry := reg } = proj n)
    (n : Node) (cfg : NodeSettings) (w : World) (now : ℕ) :
    proj (n.pruneSegments cfg w now).1 = proj n := by
  simp only [pruneSegments]
  split
  · rfl
  · split <;> exact hproj n _ _

@[simp] theorem pingCycle_peers (n : Node) (ord : HashOrder) (now : ℕ) :
    (n.pingCycle ord now).1.peers = n.peers :=
  pingCycle_proj (·.peers) (fun _ _ _ _ => rfl) n ord now

@[simp] theorem pruneSegments_peers (n : Node) (cfg : NodeSettings) (w : World) (now : ℕ) :
    (n.pruneSegments cfg w now).1.peers = n.peers :=
  pruneSegments_proj (·.peers) (fun _ _ _ => rfl) n cfg w now

/-- A projection that recording serves does not change. -/
theorem foldl_recordServe {α : Type*} (proj : Node → α)
    (hproj : ∀ n clk e, proj (recordServe n clk e) = proj n) (n : Node) (clk : Clock)
    (es : List RegEvent) : proj (es.foldl (fun n e => n.recordServe clk e) n) = proj n := by
  induction es generalizing n with
  | nil => rfl
  | cons e es ih => rw [List.foldl_cons, ih, hproj]

theorem foldl_recordServe_peers (n : Node) (clk : Clock) (es : List RegEvent) :
    (es.foldl (fun n e => n.recordServe clk e) n).peers = n.peers :=
  foldl_recordServe (·.peers) recordServe_peers n clk es

/-- A projection that a tick does not change. -/
theorem tick_proj {α : Type*} (proj : Node → α)
    (hreg : ∀ (n : Node) reg, proj { n with registry := reg } = proj n)
    (hserve : ∀ n clk e, proj (recordServe n clk e) = proj n)
    (hping : ∀ (n : Node) ping paths beacon,
      proj { n with nextPing := ping, paths := paths, nextBeacon := beacon } = proj n)
    (hseeders : ∀ n, proj (pruneOriginSeeders n) = proj n)
    (hprune : ∀ (n : Node) prune reg, proj { n with nextPrune := prune, registry := reg } = proj n)
    (n : Node) (cfg : NodeSettings) (w : World) (now : ℕ) :
    proj (n.tick cfg w now).1 = proj n := by
  simp only [tick]
  rw [pruneSegments_proj proj hprune, hseeders, pingCycle_proj proj hping,
    foldl_recordServe proj hserve, hreg]

@[simp] theorem tick_peers (n : Node) (cfg : NodeSettings) (w : World) (now : ℕ) :
    (n.tick cfg w now).1.peers = n.peers := by
  simp only [tick, pruneSegments_peers, pruneOriginSeeders, pingCycle_peers,
    foldl_recordServe_peers]

theorem mem_registerPeer {clk : Clock} {b : SocketAddr} {name : String} :
    a ∈ (n.registerPeer clk b name).peers ↔ a = b ∨ a ∈ n.peers := AList.mem_insert _

theorem mem_touchPeer {clk : Clock} {b : SocketAddr} :
    a ∈ (n.touchPeer clk b).peers ↔ a ∈ n.peers := HashMap.mem_modify

theorem mem_discover {clk : Clock} {b : SocketAddr} {name : String} (h : a ∈ n.peers) :
    a ∈ (n.discover clk b name).peers := by
  unfold discover
  split
  · split <;> exact mem_registerPeer.mpr (.inr h)
  · exact h

theorem originSeedAllowed_peers (n : Node) (cfg : NodeSettings) (clk : Clock) (filename : String)
    (p : SocketAddr) : (n.originSeedAllowed cfg clk filename p).1.peers = n.peers := by
  simp only [originSeedAllowed]
  split
  · rfl
  split
  · split <;> rfl
  · split <;> rfl

/-- Handling a datagram forgets no peer. -/
theorem mem_handle (cfg : NodeSettings) (w : World) (m : Message) (src : SocketAddr)
    (h : a ∈ n.peers) : a ∈ (n.handle cfg w m src).1.peers := by
  have ht : a ∈ (n.touchPeer w.clk src).peers := mem_touchPeer.mpr h
  cases m with
  | handshakeRequest claimed name => exact mem_registerPeer.mpr (.inr ht)
  | ping nonce name =>
    simp only [handle]
    split
    · exact ht
    · exact mem_discover ht
  | pong av => cases av <;> exact ht
  | segmentRequest id filename =>
    simp only [handle, originSeedAllowed_peers]
    exact ht
  | segmentNotFound id av retryable =>
    simp only [handle]
    split
    · rename_i filename hf
      cases av <;> (unfold recordMissing; split <;> exact ht)
    · cases av <;> exact ht
  | _ => exact ht

end Node
end Qstream

import Qstream.NodeAnswers
import Qstream.TransferExchange

/-! What the node's two entry points do to its registry, and what they send. -/
namespace Qstream
open Transfer Text

/-- A message of the kinds that answer a datagram. -/
inductive Message.Reply : Message → Prop
  | handshakeResponse (observed : SocketAddr) (name : String) :
    Reply (.handshakeResponse observed name)
  | manifestResponse (data : Bytes) : Reply (.manifestResponse data)
  | segmentNotFound (transferId : ℕ) (availability : Option SegmentAvailability)
    (retryable : Bool) : Reply (.segmentNotFound transferId availability retryable)
  | ack (transferId : ℕ) (ackType : AckType) (nextStart nextCount : ℕ) :
    Reply (.ack transferId ackType nextStart nextCount)
  | peerlistResponse (peers : List (SocketAddr × UInt8)) : Reply (.peerlistResponse peers)
  | pong (availability : Option SegmentAvailability) : Reply (.pong availability)

namespace Transfer.TransferRegistry

theorem mem_rejectNotFound {reg : TransferRegistry} {id : ℕ} {src : SocketAddr} {retryable : Bool}
    {x : Message × SocketAddr} (h : x ∈ (reg.rejectNotFound id src retryable).2) : x.1.Reply := by
  obtain rfl := List.mem_singleton.mp h
  exact .segmentNotFound _ _ _

theorem mem_serve {reg : TransferRegistry} {clk : Clock} {id : ℕ} {filename : String}
    {src : SocketAddr} {x : Message × SocketAddr} (h : x ∈ (reg.serve clk id filename src).2) :
    x.1.Reply := by
  rcases serve_cases clk reg id filename src with ⟨-, file, -, heq⟩ | ⟨-, heq⟩
  · rw [heq] at h
    cases h
  · rw [heq] at h
    exact mem_rejectNotFound h

theorem mem_onContent {cfg : Settings} {w : World} {reg : TransferRegistry} {id p t : ℕ} {d : Bytes}
    {x : Message × SocketAddr} (h : x ∈ (reg.onContent cfg w id p t d).2) : x.1.Reply := by
  unfold onContent at h
  split at h
  next r hr =>
    obtain ⟨m, hm, rfl⟩ := List.mem_map.mp h
    rcases (ReceiverTransfer.onContent_spec cfg w r reg.dir p t d).2 m hm with ⟨rg, rfl⟩ | ⟨rfl, -⟩
    · exact .ack _ _ _ _
    · exact .ack _ _ _ _
  next => cases h

end Transfer.TransferRegistry

namespace Node
variable {n : Node} {cfg : NodeSettings} {w : World} {x : Message × SocketAddr}

/-- A datagram is answered to its source. -/
theorem mem_handle_sent {m : Message} {src : SocketAddr} (h : x ∈ (n.handle cfg w m src).2.1) :
    x.1.Reply := by
  cases m with
  | handshakeRequest claimed name =>
    obtain rfl := List.mem_singleton.mp h
    exact .handshakeResponse _ _
  | handshakeResponse observed name => cases h
  | manifestRequest =>
    obtain rfl := List.mem_singleton.mp h
    exact .manifestResponse _
  | manifestResponse data => cases h
  | segmentRequest id filename =>
    simp only [handle] at h
    split at h
    · exact TransferRegistry.mem_serve h
    · exact TransferRegistry.mem_rejectNotFound h
  | segmentContents id p t d => exact TransferRegistry.mem_onContent h
  | segmentNotFound id av retryable =>
    simp only [handle] at h
    split at h <;> cases h
  | ack id ackType a b => cases h
  | peerlistRequest =>
    obtain rfl := List.mem_singleton.mp h
    exact .peerlistResponse _
  | peerlistResponse peers => cases h
  | ping nonce name =>
    simp only [handle] at h
    split at h
    · cases h
    · obtain rfl := List.mem_singleton.mp h
      exact .pong _
  | pong av => cases av <;> cases h

/-- The registry after a datagram. -/
theorem handle_registry (n : Node) (cfg : NodeSettings) (w : World) (m : Message)
    (src : SocketAddr) :
    (n.handle cfg w m src).1.registry =
      match m with
      | .segmentRequest id filename =>
        if n.admission cfg (w.after 2).clk filename src = .denied then
          (n.registry.rejectNotFound id src true).1
        else (n.registry.serve (w.after 4).clk id filename src).1
      | .segmentContents id p t d => (n.registry.onContent cfg.transfer (w.after 2) id p t d).1
      | .segmentNotFound id _ retryable =>
        (n.registry.onNotFound (w.after 3).clk id retryable).1
      | .ack id ackType a b => n.registry.onAck cfg.transfer (w.after 2).clk id ackType a b
      | _ => n.registry := by
  cases m with
  | segmentRequest id filename =>
    have hresult := originSeedAllowed_result (n.touchPeer w.clk src) cfg (w.after 2).clk filename src
    rw [admission_touchPeer] at hresult
    have hreg : ((n.touchPeer w.clk src).originSeedAllowed cfg (w.after 2).clk filename src).1.registry =
        n.registry := originSeedAllowed_registry _ _ _ _ _
    simp only [handle, hreg]
    by_cases hdenied : n.admission cfg (w.after 2).clk filename src = .denied
    · rw [if_pos hdenied, if_neg fun h => hresult.mp h hdenied]
    · rw [if_neg hdenied, if_pos (hresult.mpr hdenied)]
      rfl
  | ping nonce name =>
    simp only [handle]
    split
    · rfl
    · unfold discover
      split
      · split <;> rfl
      · rfl
  | pong av => cases av <;> rfl
  | segmentNotFound id av retryable =>
    have hrecord (n : Node) (clk : Clock) (p : SocketAddr) (f : String) :
        (n.recordMissing clk p f).registry = n.registry := by
      unfold recordMissing
      split <;> rfl
    simp only [handle]
    split
    · rw [hrecord]
      cases av <;> rfl
    · cases av <;> rfl
  | _ => rfl

/-- What a node is started with and keeps. -/
def self (n : Node) : String × Role × String × UInt32 × SocketAddr :=
  (n.name, n.role, n.manifestName, n.beaconNonce, n.localAddr)

theorem handle_self (n : Node) (cfg : NodeSettings) (w : World) (m : Message) (src : SocketAddr) :
    (n.handle cfg w m src).1.self = n.self := by
  cases m with
  | segmentRequest id filename =>
    have hself : ((n.touchPeer w.clk src).originSeedAllowed cfg (w.after 2).clk filename src).1.self =
        n.self := by
      rw [originSeedAllowed_eq]
      cases (n.touchPeer w.clk src).admission cfg (w.after 2).clk filename src <;> rfl
    exact hself
  | ping nonce name =>
    simp only [handle]
    split
    · rfl
    · unfold discover
      split
      · split <;> rfl
      · rfl
  | pong av => cases av <;> rfl
  | segmentNotFound id av retryable =>
    simp only [handle]
    split
    · unfold recordMissing
      split <;> cases av <;> rfl
    · cases av <;> rfl
  | _ => rfl

/-! What the timers do to the node. -/

/-- The segment root after the timers. -/
def prunedDir (n : Node) (cfg : NodeSettings) (w : World) (now : ℕ) : Dir :=
  if cfg.retentionSecs = 0 ∨ now < n.nextPrune ∨ w.io ≠ .ok then n.registry.dir
  else
    { n.registry.dir with
      entries := n.registry.dir.entries.retain fun name e =>
        ¬ prunable (parseManifest ((n.registry.dir.read n.manifestName).getD []))
          (secs cfg.retentionSecs) w.wall name e }

theorem pingCycle_same (n : Node) (ord : HashOrder) (now : ℕ) :
    (n.pingCycle ord now).1.registry = n.registry ∧
      (n.pingCycle ord now).1.nextPrune = n.nextPrune ∧
      (n.pingCycle ord now).1.manifestName = n.manifestName := by
  simp only [pingCycle]
  split <;> split <;> exact ⟨rfl, rfl, rfl⟩

theorem mem_pingCycle {ord : HashOrder} {now : ℕ} (h : x ∈ (n.pingCycle ord now).2) :
    x.1 = n.pingMessage := by
  have hmap {l : List (SocketAddr × PeerInfo)} {g : SocketAddr × PeerInfo → Message × SocketAddr}
      (hg : ∀ e, (g e).1 = n.pingMessage) (hx : x ∈ l.map g) : x.1 = n.pingMessage := by
    obtain ⟨e, -, rfl⟩ := List.mem_map.mp hx
    exact hg e
  simp only [pingCycle] at h
  split at h <;> split at h
  · rcases List.mem_append.mp h with hx | hx
    · exact hmap (fun _ => rfl) hx
    · obtain rfl := List.mem_singleton.mp hx
      rfl
  · exact hmap (fun _ => rfl) h
  · obtain rfl := List.mem_singleton.mp h
    rfl
  · cases h

theorem pruneSegments_registry (n : Node) (cfg : NodeSettings) (w : World) (now : ℕ) :
    (n.pruneSegments cfg w now).1.registry =
      { n.registry with dir := n.prunedDir cfg w now } := by
  unfold pruneSegments prunedDir
  by_cases hidle : cfg.retentionSecs = 0 ∨ now < n.nextPrune
  · rw [if_pos hidle, if_pos (hidle.imp_right .inl)]
  by_cases hio : w.io = .ok
  · have hguard : ¬ (cfg.retentionSecs = 0 ∨ now < n.nextPrune ∨ w.io ≠ .ok) := by tauto
    simp only [if_neg hidle, if_pos hio, if_neg hguard]
    rfl
  · have hguard : cfg.retentionSecs = 0 ∨ now < n.nextPrune ∨ w.io ≠ .ok := .inr (.inr hio)
    simp only [if_neg hidle, if_neg hio, if_pos hguard]

theorem tick_registry (n : Node) (cfg : NodeSettings) (w : World) (now : ℕ) :
    (n.tick cfg w now).1.registry =
      { (n.registry.tick cfg.transfer w now).1 with
        events := [], dir := n.prunedDir cfg w now } := by
  have hserve {α : Type} (proj : Node → α) (hproj : ∀ n clk e, proj (recordServe n clk e) = proj n) :=
    foldl_recordServe proj hproj { n with
      registry := { (n.registry.tick cfg.transfer w now).1 with events := [] } } w.clk
      (n.registry.tick cfg.transfer w now).1.events
  have hreg := hserve (·.registry) fun n clk e => by cases e <;> rfl
  have hprune := hserve (·.nextPrune) fun n clk e => by cases e <;> rfl
  have hname := hserve (·.manifestName) fun n clk e => by cases e <;> rfl
  have hping := fun m : Node => pingCycle_same m w.ord now
  simp only [tick, pruneSegments_registry]
  simp only [prunedDir, pruneOriginSeeders, (hping _).1, (hping _).2.1, (hping _).2.2, hreg, hprune,
    hname]
  rfl

/-- The timers send for the transfers, ping and announce the inventory. -/
theorem mem_tick (now : ℕ) (h : x ∈ (n.tick cfg w now).2) :
    x ∈ (n.registry.tick cfg.transfer w now).2 ∨ x.1 = n.pingMessage ∨ ∃ av, x.1 = .pong av := by
  have hserve {α : Type} (proj : Node → α) (hproj : ∀ n clk e, proj (recordServe n clk e) = proj n) :=
    foldl_recordServe proj hproj { n with
      registry := { (n.registry.tick cfg.transfer w now).1 with events := [] } } w.clk
      (n.registry.tick cfg.transfer w now).1.events
  have hnonce := hserve (·.beaconNonce) fun n clk e => by cases e <;> rfl
  have hname := hserve (·.name) fun n clk e => by cases e <;> rfl
  simp only [tick, List.mem_append] at h
  rcases h with (hreg | hping) | hannounce
  · exact .inl hreg
  · exact .inr (.inl ((mem_pingCycle hping).trans (congrArg₂ Message.ping hnonce hname)))
  · refine .inr (.inr ?_)
    split at hannounce
    · obtain ⟨_, -, rfl⟩ := List.mem_map.mp hannounce
      exact ⟨_, rfl⟩
    · cases hannounce

theorem tick_self (n : Node) (cfg : NodeSettings) (w : World) (now : ℕ) :
    (n.tick cfg w now).1.self = n.self :=
  tick_proj self (fun _ _ => rfl) (fun n clk e => by cases e <;> rfl) (fun _ _ _ _ => rfl)
    (fun _ => rfl) (fun _ _ _ => rfl) n cfg w now

end Node

/-- What happens to a master: its loop handles a datagram or runs the timers, and the files
of its segment root change. -/
inductive NodeEvent
  | datagram (w : World) (m : Message) (src : SocketAddr)
  | tick (w : World) (now : ℕ)
  | files (dir : Dir)

namespace Node

def apply (cfg : NodeSettings) (n : Node) : NodeEvent → Node × Outbox
  | .datagram w m src => ((n.handle cfg w m src).1, (n.handle cfg w m src).2.1)
  | .tick w now => n.tick cfg w now
  | .files dir => (n.withDir dir, [])

inductive Step (cfg : NodeSettings) : Node → NodeEvent → Node → Prop
  | mk (n : Node) (e : NodeEvent) : Step cfg n e (n.apply cfg e).1

theorem Step.self_eq {cfg : NodeSettings} {n n' : Node} {e : NodeEvent} (h : Step cfg n e n') :
    n'.self = n.self := by
  cases h with
  | mk =>
    cases e with
    | datagram w m src => exact handle_self n cfg w m src
    | tick w now => exact tick_self n cfg w now
    | files dir => rfl

end Node
end Qstream

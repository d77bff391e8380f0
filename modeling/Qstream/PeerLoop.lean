import Qstream.PeerFill
import Qstream.Runs

/-! The peer's event loop. Its steps are also given one by one, so that they can be taken
in any order; one turn of the loop is a run of them. -/
namespace Qstream
open Transfer Runs

def HANDSHAKE_TIMEOUT : ℕ := secs 3
def MANIFEST_POLL_INTERVAL : ℕ := secs 2
def POLL_JITTER_MS : ℕ := 1000
def MANIFEST_RESPONSE_TIMEOUT : ℕ := secs 3
def PEERLIST_POLL_INTERVAL : ℕ := secs 5
def PEER_TTL : ℕ := secs 600

structure Peer where
  node : Node
  sched : Scheduler
  handshakeDone : Bool
  nextHandshakeRetry : ℕ
  pollTimeout : Option ℕ
  pendingHandshakes : HashMap SocketAddr ℕ
  nextPoll : ℕ
  nextPeerlist : ℕ

/-- The jitter before a poll, and the next state of the generator. -/
def jitter (bound : ℕ) (rng : UInt64) : ℕ × UInt64 :=
  let (x, rng') := Rng.next rng
  (millis (x.toNat % bound), rng')

namespace Peer
variable (P : PeerConfig)

/-- The state `run` enters its loop with; the derived playlist of an earlier run is gone. -/
def initial (w : World) (dir : Dir) (nonce : UInt32) (claimed : Option SocketAddr)
    (seed : UInt64) : Peer :=
  let (j1, rng1) := jitter POLL_JITTER_MS seed
  let (j2, rng2) := jitter (2 * POLL_JITTER_MS) rng1
  { node := { Node.new (w.after 3).clk P.name .peer LIVE_MANIFEST
                (dir.removeFile PLAYBACK_MANIFEST) P.localAddr nonce with claimed := claimed }
    sched := .new rng2
    handshakeDone := false
    nextHandshakeRetry := w.clk 0 + HANDSHAKE_TIMEOUT
    pollTimeout := none
    pendingHandshakes := ∅
    nextPoll := w.clk 1 + j1
    nextPeerlist := w.clk 2 + j2 }

def handshakeMessage (S : Peer) : Message :=
  .handshakeRequest (S.node.claimed.getD unspecifiedEndpoint) P.name

/-- A HANDSHAKE_RESPONSE from `src`. -/
def onHandshake (S : Peer) (clk : Clock) (src : SocketAddr) (name : String) : Peer :=
  let S := { S with node := S.node.registerPeer clk src name }
  let S := if src = P.bootstrap ∧ ¬ S.handshakeDone then
      { S with handshakeDone := true, nextPoll := clk 4, nextPeerlist := clk 5 }
    else S
  { S with pendingHandshakes := S.pendingHandshakes.erase src }

/-- A MANIFEST_RESPONSE; `w` and `refresh` decide about the files written for the
manifest and for the playlist. A file that cannot be written ends the process. -/
def onManifest (S : Peer) (w refresh : World) (data : Bytes) : Except String Peer :=
  if data = [] then .ok { S with pollTimeout := none }
  else
    match writeManifest w S.node.registry.dir data with
    | (_, .error e) => .error e
    | (dir, .ok false) => .ok { S with node := S.node.withDir dir, pollTimeout := none }
    | (dir, .ok true) =>
      let sched := syncQueue w.clk dir data S.sched
      match refreshPlaybackManifest refresh dir P.playbackHoldback with
      | (_, .error e) => .error e
      | (dir', .ok _) =>
        .ok { S with node := S.node.withDir dir', sched := sched, pollTimeout := none }

/-- One entry of a peerlist: perhaps a parent, perhaps a peer to shake hands with. -/
def onPeerlistEntry (now : ℕ) (S : Peer) (e : SocketAddr × UInt8) : Peer :=
  let (peer, flags) := e
  if peer = P.localAddr ∨ peer.port = 0 then S
  else if S.node.myPublic.any remotePublic ∧ ¬ remotePublic peer then S
  else if flags &&& PEER_SAME_IP ≠ 0 ∧ S.node.myPublic.map remotePublic = some true then S
  else
    let S := if flags &&& PEER_PARENT ≠ 0 then
        { S with sched := { S.sched with parents := insert peer S.sched.parents } }
      else S
    if peer ∈ S.node.peers ∨ peer ∈ S.pendingHandshakes then S
    else { S with pendingHandshakes := S.pendingHandshakes.insert peer (now + HANDSHAKE_TIMEOUT) }

def onPeerlist (S : Peer) (now : ℕ) (peers : List (SocketAddr × UInt8)) : Peer :=
  peers.foldl (onPeerlistEntry P now) { S with sched := { S.sched with parents := ∅ } }

/-- The handshakes sent for a peerlist: one for each address that became pending. -/
def peerlistHandshakes (S S' : Peer) : Outbox :=
  (S'.pendingHandshakes.keys.filter fun a => a ∉ S.pendingHandshakes).map fun a =>
    (S'.handshakeMessage P, a)

/-- Receive and dispatch one datagram. -/
def receive (S : Peer) (w refresh : World) (m : Message) (src : SocketAddr) :
    Except String (Peer × Outbox) :=
  let (node, sent, event) := S.node.handle P.settings (w.after 1) m src
  let S := { S with node := node }
  match event with
  | .handshakeResponse src name => .ok (S.onHandshake P (w.after 32).clk src name, sent)
  | .manifestResponse data => (S.onManifest P (w.after 32) refresh data).map fun S' => (S', sent)
  | .peerlistResponse peers =>
    let S' := S.onPeerlist P (w.clk 0) peers
    .ok (S', sent ++ peerlistHandshakes P S S')
  | .none => .ok (S, sent)

def onTick (S : Peer) (w : World) (now : ℕ) : Peer × Outbox :=
  let (node, sent) := S.node.tick P.settings w now
  ({ S with node := node }, sent)

def prunePeers (S : Peer) (now : ℕ) : Peer := { S with node := S.node.prunePeers PEER_TTL now }

/-- Keep retrying the bootstrap handshake until it lands. -/
def retryHandshake (S : Peer) (now : ℕ) : Peer × Outbox :=
  if ¬ S.handshakeDone ∧ now ≥ S.nextHandshakeRetry then
    ({ S with nextHandshakeRetry := now + HANDSHAKE_TIMEOUT },
      [(S.handshakeMessage P, P.bootstrap)])
  else (S, [])

/-- Discovered peers that did not answer are dropped. -/
def expirePending (S : Peer) (now : ℕ) : Peer :=
  let expired := S.pendingHandshakes.pairs.filter fun e => now ≥ e.2
  { S with
    node := expired.foldl (fun n e => n.removePeer e.1) S.node
    pendingHandshakes := S.pendingHandshakes.retain fun _ deadline => ¬ now ≥ deadline }

def pollManifest (S : Peer) (now : ℕ) : Peer × Outbox :=
  let (S, sent) : Peer × Outbox :=
    if now ≥ S.nextPoll then
      let (j, rng) := jitter POLL_JITTER_MS S.sched.rng
      ({ S with
          sched := { S.sched with rng := rng }
          nextPoll := now + MANIFEST_POLL_INTERVAL + j
          pollTimeout := some (now + MANIFEST_RESPONSE_TIMEOUT) },
        [(.manifestRequest, P.bootstrap)])
    else (S, [])
  if S.pollTimeout.any fun t => now ≥ t then ({ S with pollTimeout := none }, sent) else (S, sent)

def pollPeerlist (S : Peer) (now : ℕ) : Peer × Outbox :=
  if now ≥ S.nextPeerlist then
    let (j, rng) := jitter (2 * POLL_JITTER_MS) S.sched.rng
    ({ S with
        sched := { S.sched with rng := rng }
        nextPeerlist := now + PEERLIST_POLL_INTERVAL + j },
      [(.peerlistRequest, P.bootstrap)])
  else (S, [])

def reap (S : Peer) (w : World) (now : ℕ) (f : Finished) : Peer × Outbox :=
  let (node, sched, sent) := reapJob P w now f S.node S.sched
  ({ S with node := node, sched := sched }, sent)

def fillOne (S : Peer) (ids : TransferRegistry.IdSource) (w : World) : Peer × Outbox :=
  let (node, sched, sent, _) := fillStep P ids w S.node S.sched
  ({ S with node := node, sched := sched }, sent)

end Peer

inductive PeerEvent
  | datagram (w refresh : World) (m : Message) (src : SocketAddr)
  | tick (w : World) (now : ℕ)
  | prunePeers (now : ℕ)
  | retryHandshake (now : ℕ)
  | expirePending (now : ℕ)
  | pollManifest (now : ℕ)
  | pollPeerlist (now : ℕ)
  | reap (w : World) (now : ℕ) (f : Finished)
  | fill (ids : TransferRegistry.IdSource) (w : World)

/-- A timer of the loop itself. -/
def PeerEvent.Quiet : PeerEvent → Prop
  | .prunePeers _ | .retryHandshake _ | .expirePending _ | .pollManifest _ | .pollPeerlist _ => True
  | .datagram .. | .tick .. | .reap .. | .fill .. => False

namespace Peer
variable (P : PeerConfig)

def apply (S : Peer) : PeerEvent → Except String (Peer × Outbox)
  | .datagram w refresh m src => S.receive P w refresh m src
  | .tick w now => .ok (S.onTick P w now)
  | .prunePeers now => .ok (S.prunePeers now, [])
  | .retryHandshake now => .ok (S.retryHandshake P now)
  | .expirePending now => .ok (S.expirePending now, [])
  | .pollManifest now => .ok (S.pollManifest P now)
  | .pollPeerlist now => .ok (S.pollPeerlist P now)
  | .reap w now f => .ok (S.reap P w now f)
  | .fill ids w => .ok (S.fillOne P ids w)

/-- Job `f` is active and what it says of its receiver is so. -/
def IsFinished (S : Peer) (f : Finished) : Prop :=
  S.sched.active.lookup f.id = some f.job ∧
  ∃ r, S.node.registry.receivers.lookup f.id = some r ∧ finishedOf f.id f.job r = some f

def Enabled (S : Peer) : PeerEvent → Prop
  | .reap _ _ f => S.IsFinished f
  | _ => True

/-- One step of the loop, taken at any moment. -/
inductive Step : Peer → PeerEvent → Peer → Prop
  | mk {S S' : Peer} {e : PeerEvent} {sent : Outbox} (hen : S.Enabled e)
      (h : S.apply P e = .ok (S', sent)) : Step S e S'

instance (S : Peer) (f : Finished) : Decidable (S.IsFinished f) :=
  decidable_of_iff (S.sched.active.lookup f.id = some f.job ∧
    (S.node.registry.receivers.lookup f.id).bind (finishedOf f.id f.job) = some f)
    (and_congr_right fun _ => Option.bind_eq_some_iff)

instance (S : Peer) (e : PeerEvent) : Decidable (S.Enabled e) :=
  match e with
  | .reap _ _ f => inferInstanceAs (Decidable (S.IsFinished f))
  | .datagram .. | .tick .. | .prunePeers _ | .retryHandshake _ | .expirePending _
  | .pollManifest _ | .pollPeerlist _ | .fill .. => .isTrue trivial

theorem ok_of_toOption {α ε : Type} {x : Except ε α} {a : α} (h : x.toOption = some a) :
    x = .ok a := by
  cases x with
  | error e => cases h
  | ok b => exact congrArg Except.ok (Option.some.inj h)

/-- The step as a function, for events of which it is defined. -/
def step? (S : Peer) (e : PeerEvent) : Option Peer :=
  if S.Enabled e then (S.apply P e).toOption.map Prod.fst else none

variable {P} in
theorem Step.of_step? {S S' : Peer} {e : PeerEvent} (h : S.step? P e = some S') :
    Step P S e S' := by
  simp only [step?, Option.ite_none_right_eq_some, Option.map_eq_some_iff] at h
  obtain ⟨hen, r, hok, rfl⟩ := h
  exact .mk hen (ok_of_toOption hok)

/-- What is computed of the end of a run, and of its guards. -/
theorem exists_run (S : Peer) (es : List PeerEvent) (p : Peer → Bool)
    (h : (exec (step? P) S es).any p = true) : ∃ S', Run (Step P) S es S' ∧ p S' = true :=
  Run.exists_of_exec (fun _ _ _ hstep => .of_step? hstep) h

theorem exists_guarded_run (C : Peer → PeerEvent → Prop) [∀ S e, Decidable (C S e)] (S : Peer)
    (es : List PeerEvent) (p : Peer → Bool)
    (h : (exec (fun S e => if C S e then S.step? P e else none) S es).any p = true) :
    ∃ S', Run (guarded C (Step P)) S es S' ∧ p S' = true := by
  refine Run.exists_of_exec (fun S e S' hstep => ?_) h
  split at hstep
  · exact ⟨‹_›, .of_step? hstep⟩
  · cases hstep

/-! Retrying and polling leave all but timers and the generator alone. -/

theorem retryHandshake_spec (S : Peer) (now : ℕ) :
    (S.retryHandshake P now).1.node = S.node ∧
    (S.retryHandshake P now).1.handshakeDone = S.handshakeDone ∧
    (S.retryHandshake P now).1.pendingHandshakes = S.pendingHandshakes ∧
    (S.retryHandshake P now).1.sched = S.sched := by
  unfold retryHandshake
  split <;> exact ⟨rfl, rfl, rfl, rfl⟩

theorem pollManifest_spec (S : Peer) (now : ℕ) :
    (S.pollManifest P now).1.node = S.node ∧
    (S.pollManifest P now).1.handshakeDone = S.handshakeDone ∧
    (S.pollManifest P now).1.pendingHandshakes = S.pendingHandshakes ∧
    ∃ rng, (S.pollManifest P now).1.sched = { S.sched with rng := rng } := by
  rcases hj : jitter POLL_JITTER_MS S.sched.rng with ⟨j, rng⟩
  simp only [pollManifest, hj]
  by_cases hp : now ≥ S.nextPoll
  · simp only [if_pos hp]
    split <;> exact ⟨rfl, rfl, rfl, rng, rfl⟩
  · simp only [if_neg hp]
    split <;> exact ⟨rfl, rfl, rfl, S.sched.rng, rfl⟩

theorem pollPeerlist_spec (S : Peer) (now : ℕ) :
    (S.pollPeerlist P now).1.node = S.node ∧
    (S.pollPeerlist P now).1.handshakeDone = S.handshakeDone ∧
    (S.pollPeerlist P now).1.pendingHandshakes = S.pendingHandshakes ∧
    ∃ rng, (S.pollPeerlist P now).1.sched = { S.sched with rng := rng } := by
  rcases hj : jitter (2 * POLL_JITTER_MS) S.sched.rng with ⟨j, rng⟩
  simp only [pollPeerlist, hj]
  by_cases hp : now ≥ S.nextPeerlist
  · simp only [if_pos hp]
    exact ⟨trivial, trivial, trivial, rng, rfl⟩
  · simp only [if_neg hp]
    exact ⟨trivial, trivial, trivial, S.sched.rng, rfl⟩

/-- Removing peers leaves alone whatever the removal of one of them does. -/
theorem foldl_removePeer_same {α : Type*} (proj : Node → α)
    (hproj : ∀ n p, proj (n.removePeer p) = proj n) (l : List (SocketAddr × ℕ)) (n : Node) :
    proj (l.foldl (fun n e => n.removePeer e.1) n) = proj n := by
  induction l generalizing n with
  | nil => rfl
  | cons e l ih => rw [List.foldl_cons, ih, hproj]

theorem fst_of_ok {α β ε : Type} {r : α × β} {a : α} {b : β}
    (h : (Except.ok r : Except ε (α × β)) = .ok (a, b)) : a = r.1 := by
  cases h
  rfl

theorem snd_of_ok {α β ε : Type} {r : α × β} {a : α} {b : β}
    (h : (Except.ok r : Except ε (α × β)) = .ok (a, b)) : b = r.2 := by
  cases h
  rfl

/-- The loop's own timers leave the scheduler alone but for its generator. -/
theorem apply_quiet_sched {S S' : Peer} {e : PeerEvent} {sent : Outbox}
    (h : S.apply P e = .ok (S', sent)) (hquiet : e.Quiet) :
    ∃ rng, S'.sched = { S.sched with rng := rng } := by
  cases e with
  | prunePeers now =>
    obtain rfl := fst_of_ok h
    exact ⟨S.sched.rng, rfl⟩
  | retryHandshake now =>
    obtain rfl := fst_of_ok h
    exact ⟨S.sched.rng, (retryHandshake_spec P S now).2.2.2⟩
  | expirePending now =>
    obtain rfl := fst_of_ok h
    exact ⟨S.sched.rng, rfl⟩
  | pollManifest now =>
    obtain rfl := fst_of_ok h
    exact (pollManifest_spec P S now).2.2.2
  | pollPeerlist now =>
    obtain rfl := fst_of_ok h
    exact (pollPeerlist_spec P S now).2.2.2
  | datagram | tick | reap | fill => exact hquiet.elim

/-- They leave alone what pruning or removing a peer leaves alone. -/
theorem apply_quiet_node {α : Type*} (proj : Node → α)
    (hremove : ∀ n p, proj (Node.removePeer n p) = proj n)
    (hprune : ∀ n ttl now, proj (Node.prunePeers n ttl now) = proj n) {S S' : Peer} {e : PeerEvent}
    {sent : Outbox} (h : S.apply P e = .ok (S', sent)) (hquiet : e.Quiet) :
    proj S'.node = proj S.node := by
  cases e with
  | prunePeers now =>
    obtain rfl := fst_of_ok h
    exact hprune S.node PEER_TTL now
  | retryHandshake now =>
    obtain rfl := fst_of_ok h
    rw [(retryHandshake_spec P S now).1]
  | expirePending now =>
    obtain rfl := fst_of_ok h
    exact foldl_removePeer_same proj hremove _ _
  | pollManifest now =>
    obtain rfl := fst_of_ok h
    rw [(pollManifest_spec P S now).1]
  | pollPeerlist now =>
    obtain rfl := fst_of_ok h
    rw [(pollPeerlist_spec P S now).1]
  | datagram | tick | reap | fill => exact hquiet.elim

theorem apply_quiet_registry {S S' : Peer} {e : PeerEvent} {sent : Outbox}
    (h : S.apply P e = .ok (S', sent)) (hquiet : e.Quiet) :
    S'.node.registry = S.node.registry :=
  apply_quiet_node P (·.registry) (fun _ _ => rfl) (fun _ _ _ => rfl) h hquiet

/-- What one turn of the loop gets from outside. -/
structure Turn where
  datagram : Option (World × World × Message × SocketAddr)
  tickWorld : World
  reapWorld : World
  fillWorld : World
  ids : TransferRegistry.IdSource
  now : ℕ

/-- The timers of one turn, in the order of the loop. -/
def timers (S : Peer) (T : Turn) : Peer × Outbox :=
  let (S, sent1) := S.onTick P T.tickWorld T.now
  let S := S.prunePeers T.now
  let (S, sent2) := S.retryHandshake P T.now
  let S := S.expirePending T.now
  let (S, sent3) := S.pollManifest P T.now
  let (S, sent4) := S.pollPeerlist P T.now
  (S, sent1 ++ sent2 ++ sent3 ++ sent4)

/-- Collect the finished downloads and fill the free slots. -/
def schedule (S : Peer) (T : Turn) : Peer × Outbox :=
  let (node, sched, sent) := scheduleJobs P T.ids T.reapWorld T.fillWorld T.now S.node S.sched
  ({ S with node := node, sched := sched }, sent)

/-- The body of the loop. -/
def turn (S : Peer) (T : Turn) : Except String (Peer × Outbox) := do
  let (S, sent) ← match T.datagram with
    | some (w, refresh, m, src) => S.receive P w refresh m src
    | none => .ok (S, [])
  let (S, sent1) := S.timers P T
  let (S, sent2) := S.schedule P T
  return (S, sent ++ sent1 ++ sent2)

end Peer

def emptyDir : Dir := ⟨∅, ["srv"], fun _ => none⟩

def demoStart (dir : Dir) : Peer := .initial demoConfig (demoWorld 0) dir 1 none 1

end Qstream

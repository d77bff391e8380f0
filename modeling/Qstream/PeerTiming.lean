import Qstream.Fault
import Qstream.PeerSends
import Qstream.PeerSlots
import Qstream.Periodic

/-! When the event loops wake up, and that a peer's loop never falls silent. -/
namespace Qstream
open Transfer Runs Periodic

namespace Transfer.TransferRegistry

/-- The earliest deadline of a transfer. -/
def nextDeadline (reg : TransferRegistry) : Option ℕ :=
  (reg.senders.pairs.map (fun e => e.2.deadline) ++
    reg.receivers.pairs.map fun e => e.2.deadline).min?

end Transfer.TransferRegistry

namespace Node

/-- When the node wants to be woken: for a transfer, or to release a datagram. -/
def nextDeadline {ρ δ : Type*} [RandomSource ρ] (n : Node) (fault : FaultInjector ρ δ) (now : ℕ) :
    Option ℕ :=
  match n.registry.nextDeadline, fault.nextDeadline now with
  | some a, some b => some (min a b)
  | a, b => a.or b

/-- When the node pings next, and when it beacons next. -/
def pings (n : Node) : ℕ × ℕ := (n.nextPing, n.nextBeacon)

theorem handle_pings (n : Node) (cfg : NodeSettings) (w : World) (m : Message) (src : SocketAddr) :
    (n.handle cfg w m src).1.pings = n.pings := by
  cases m with
  | segmentRequest id filename =>
    have hpings : ((n.touchPeer w.clk src).originSeedAllowed cfg (w.after 2).clk filename src).1.pings =
        n.pings := by
      rw [originSeedAllowed_eq]
      cases (n.touchPeer w.clk src).admission cfg (w.after 2).clk filename src <;> rfl
    exact hpings
  | ping nonce name =>
    simp only [handle]
    split
    · rfl
    · unfold discover
      split
      · split <;> rfl
      · rfl
  | pong av => cases av <;> rfl
  | segmentNotFound id av retryable =>
    simp only [handle]
    split
    · unfold recordMissing
      split <;> cases av <;> rfl
    · cases av <;> rfl
  | _ => rfl

/-- The beacon to the local network. -/
def beacon (n : Node) : Message × SocketAddr :=
  (n.pingMessage, ⟨.v4 ⟨255, 255, 255, 255⟩, n.localAddr.port⟩)

theorem pingMessage_of_self {n n' : Node} (h : n'.self = n.self) :
    n'.pingMessage = n.pingMessage :=
  congrArg (fun x : String × Role × String × UInt32 × SocketAddr => Message.ping x.2.2.2.1 x.1) h

theorem beacon_of_self {n n' : Node} (h : n'.self = n.self) : n'.beacon = n.beacon := by
  have hport : n'.localAddr.port = n.localAddr.port :=
    congrArg (fun x : String × Role × String × UInt32 × SocketAddr => x.2.2.2.2.port) h
  rw [beacon, beacon, pingMessage_of_self h, hport]

theorem role_of_self {n n' : Node} (h : n'.self = n.self) : n'.role = n.role :=
  congrArg (fun x : String × Role × String × UInt32 × SocketAddr => x.2.1) h

/-- One look at the two timers of the pings. -/
theorem pingCycle_looked (n : Node) (ord : HashOrder) (now : ℕ) (hrole : n.role = .peer) :
    Looked PING_INTERVAL now (∀ a ∈ n.peers, (n.pingMessage, a) ∈ (n.pingCycle ord now).2)
      n.nextPing (n.pingCycle ord now).1.nextPing ∧
    Looked BEACON_INTERVAL now (n.beacon ∈ (n.pingCycle ord now).2)
      n.nextBeacon (n.pingCycle ord now).1.nextBeacon := by
  have hpings : ∀ a ∈ n.peers, (n.pingMessage, a) ∈
      (ord.iter n.peers).map fun e => (n.pingMessage, e.1) := by
    intro a ha
    obtain ⟨info, hinfo⟩ := HashMap.mem_iff_lookup.mp ha
    exact List.mem_map.mpr ⟨(a, info), HashOrder.mem_iter.mpr hinfo, rfl⟩
  by_cases hping : now ≥ n.nextPing <;> by_cases hbeacon : now ≥ n.nextBeacon <;>
    simp only [pingCycle, hping, hbeacon, hrole, if_true, if_false, and_self, and_false]
  · exact ⟨.due (fun a ha => List.mem_append_left _ (hpings a ha)) le_rfl,
      .due (List.mem_append_right _ (List.mem_singleton_self _)) le_rfl⟩
  · exact ⟨.due hpings le_rfl, .early (Nat.lt_of_not_le hbeacon)⟩
  · exact ⟨.early (Nat.lt_of_not_le hping), .due (List.mem_append_right _ (List.mem_singleton_self _)) le_rfl⟩
  · exact ⟨.early (Nat.lt_of_not_le hping), .early (Nat.lt_of_not_le hbeacon)⟩

/-- The timers look at the pings once. -/
theorem tick_looked (n : Node) (cfg : NodeSettings) (w : World) (now : ℕ) (hrole : n.role = .peer) :
    Looked PING_INTERVAL now (∀ a ∈ n.peers, (n.pingMessage, a) ∈ (n.tick cfg w now).2)
      n.nextPing (n.tick cfg w now).1.nextPing ∧
    Looked BEACON_INTERVAL now (n.beacon ∈ (n.tick cfg w now).2)
      n.nextBeacon (n.tick cfg w now).1.nextBeacon := by
  simp only [tick]
  have hserve {α : Type} (proj : Node → α) (hproj : ∀ n clk e, proj (recordServe n clk e) = proj n) :=
    foldl_recordServe proj hproj { n with
      registry := { (n.registry.tick cfg.transfer w now).1 with events := [] } } w.clk
      (n.registry.tick cfg.transfer w now).1.events
  generalize List.foldl _ _ _ = n2 at hserve ⊢
  have hself : n2.self = n.self := hserve self fun n clk e => by cases e <;> rfl
  have hpings : n2.pings = n.pings := hserve pings fun n clk e => by cases e <;> rfl
  have hpeers : n2.peers = n.peers := hserve (·.peers) recordServe_peers
  have hmessage : n2.pingMessage = n.pingMessage := pingMessage_of_self hself
  have hbeacon : n2.beacon = n.beacon := beacon_of_self hself
  have hpruned : ∀ m : Node, (m.pruneOriginSeeders.pruneSegments cfg w now).1.pings = m.pings :=
    fun m => pruneSegments_proj pings (fun _ _ _ => rfl) _ cfg w now
  obtain ⟨hping, hbeac⟩ := pingCycle_looked n2 w.ord now ((role_of_self hself).trans hrole)
  rw [hpeers, hmessage] at hping
  rw [hbeacon] at hbeac
  have hpruned := hpruned (n2.pingCycle w.ord now).1
  have h1 := congrArg Prod.fst hpruned
  have h2 := congrArg Prod.snd hpruned
  have h3 := congrArg Prod.fst hpings
  have h4 := congrArg Prod.snd hpings
  dsimp only [pings] at h1 h2 h3 h4
  rw [h1, h2, ← h3, ← h4]
  exact ⟨hping.mono fun h a ha => List.mem_append_left _ (List.mem_append_right _ (h a ha)),
    hbeac.mono fun h => List.mem_append_left _ (List.mem_append_right _ h)⟩

end Node

/-- How long the socket waits: until the deadline, or as short as it can. -/
def socketTimeout (deadline : Option ℕ) (now : ℕ) : Option ℕ :=
  deadline.map fun d => if d - now = 0 then 1 else d - now

/-- What a peer sends again and again. -/
inductive Beat
  | handshake
  | manifest
  | peerlist
  | ping (a : SocketAddr)
  | beacon

namespace Beat

def Is (P : PeerConfig) (n : Node) (x : Message × SocketAddr) : Beat → Prop
  | handshake => ∃ claimed, x = (.handshakeRequest claimed P.name, P.bootstrap)
  | manifest => x = (.manifestRequest, P.bootstrap)
  | peerlist => x = (.peerlistRequest, P.bootstrap)
  | ping a => x = (n.pingMessage, a)
  | beacon => x = n.beacon

theorem Is.of_self {P : PeerConfig} {n n' : Node} {x : Message × SocketAddr} {b : Beat} (h : b.Is P n' x)
    (hself : n'.self = n.self) : b.Is P n x := by
  cases b with
  | ping a => exact h.trans (congrArg (·, a) (Node.pingMessage_of_self hself))
  | beacon => exact h.trans (Node.beacon_of_self hself)
  | _ => exact h

/-- When it is due. -/
def due (S : Peer) : Beat → ℕ
  | handshake => S.nextHandshakeRetry
  | manifest => S.nextPoll
  | peerlist => S.nextPeerlist
  | ping _ => S.node.nextPing
  | beacon => S.node.nextBeacon

/-- How far ahead it is set. -/
def limit : Beat → ℕ
  | handshake => HANDSHAKE_TIMEOUT
  | manifest => secs 3
  | peerlist => secs 7
  | ping _ => PING_INTERVAL
  | beacon => BEACON_INTERVAL

/-- How long it may take until it is sent: the loop does not wake up for a ping. -/
def within (b : Beat) : ℕ :=
  match b with
  | ping _ | beacon => b.limit + secs 3
  | _ => b.limit

/-- A handshake is repeated until the bootstrap answers, and only known peers are pinged. -/
def Expected (S : Peer) : Beat → Prop
  | handshake => S.handshakeDone = false
  | ping a => a ∈ S.node.peers
  | _ => True

end Beat

namespace Peer
variable {P : PeerConfig} {S S' : Peer} {T : Peer.Turn} {sent : Outbox} {now : ℕ}

/-- The deadlines of the loop. -/
def deadlines {ρ δ : Type*} [RandomSource ρ] (S : Peer) (fault : FaultInjector ρ δ) (now : ℕ) :
    List ℕ :=
  (S.node.nextDeadline fault now).toList ++ S.pendingHandshakes.pairs.map Prod.snd ++
    (if S.handshakeDone then [] else [S.nextHandshakeRetry]) ++ [S.nextPoll, S.nextPeerlist] ++
    S.pollTimeout.toList

theorem jitter_le {ms j : ℕ} {rng rng' : UInt64} (h : jitter ms rng = (j, rng')) (hms : 0 < ms) :
    j ≤ millis ms := by
  obtain rfl : (jitter ms rng).1 = j := congrArg Prod.fst h
  simp only [jitter, millis]
  exact Nat.mul_le_mul_right _ (Nat.mod_lt _ hms).le

theorem retryHandshake_looked (P : PeerConfig)
    (hnear : S.nextHandshakeRetry ≤ now + HANDSHAKE_TIMEOUT) :
    Looked HANDSHAKE_TIMEOUT now (S.handshakeDone = false →
        (S.handshakeMessage P, P.bootstrap) ∈ (S.retryHandshake P now).2)
      S.nextHandshakeRetry (S.retryHandshake P now).1.nextHandshakeRetry := by
  unfold retryHandshake
  split
  next => exact .due (fun _ => List.mem_singleton_self _) le_rfl
  next hnot =>
    by_cases hdone : S.handshakeDone = false
    · exact .early (Nat.lt_of_not_le fun hdue => hnot ⟨by simp [hdone], hdue⟩)
    · exact .due (fun h => absurd h hdone) hnear

theorem pollManifest_looked (P : PeerConfig) (S : Peer) (now : ℕ) :
    Looked (secs 3) now ((.manifestRequest, P.bootstrap) ∈ (S.pollManifest P now).2)
      S.nextPoll (S.pollManifest P now).1.nextPoll := by
  rcases hj : jitter POLL_JITTER_MS S.sched.rng with ⟨j, rng⟩
  have hjitter := jitter_le hj (Nat.succ_pos _)
  have hnear : now + MANIFEST_POLL_INTERVAL + j ≤ now + secs 3 := by
    simp only [MANIFEST_POLL_INTERVAL, secs, millis, POLL_JITTER_MS] at hjitter ⊢
    omega
  simp only [pollManifest, hj]
  by_cases hdue : now ≥ S.nextPoll
  · simp only [if_pos hdue]
    split
    · exact .due (List.mem_singleton_self _) hnear
    · exact .due (List.mem_singleton_self _) hnear
  · simp only [if_neg hdue]
    split
    · exact .early (Nat.lt_of_not_le hdue)
    · exact .early (Nat.lt_of_not_le hdue)

/-- The answer to a manifest request is not given up: the next request comes first. -/
theorem pollManifest_timeout (P : PeerConfig)
    (h : ∀ t ∈ S.pollTimeout, S.nextPoll ≤ t ∨ S.nextPoll ≤ now) :
    (∀ t ∈ (S.pollManifest P now).1.pollTimeout,
      (S.pollManifest P now).1.nextPoll ≤ t ∧ now < t) ∧
    ((S.pollManifest P now).1.pollTimeout = none → S.pollTimeout = none) := by
  rcases hj : jitter POLL_JITTER_MS S.sched.rng with ⟨j, rng⟩
  have hjitter := jitter_le hj (Nat.succ_pos _)
  have hnear : now + MANIFEST_POLL_INTERVAL + j ≤ now + MANIFEST_RESPONSE_TIMEOUT ∧
      now < now + MANIFEST_RESPONSE_TIMEOUT := by
    simp only [MANIFEST_POLL_INTERVAL, MANIFEST_RESPONSE_TIMEOUT, secs, millis,
      POLL_JITTER_MS] at hjitter ⊢
    omega
  -- numbers this large are not to be unfolded
  obtain ⟨timeout, htimeout⟩ : ∃ t, MANIFEST_RESPONSE_TIMEOUT = t := ⟨_, rfl⟩
  obtain ⟨interval, hinterval⟩ : ∃ t, MANIFEST_POLL_INTERVAL = t := ⟨_, rfl⟩
  rw [htimeout, hinterval] at hnear
  simp only [pollManifest, hj, htimeout, hinterval]
  by_cases hdue : now ≥ S.nextPoll
  · have hkept : ¬ (some (now + timeout)).any (fun t => decide (now ≥ t)) = true := fun hany =>
      Nat.not_le_of_lt hnear.2 (of_decide_eq_true hany)
    simp only [if_pos hdue, if_neg hkept]
    refine ⟨fun t ht => ?_, fun hnone => by cases hnone⟩
    obtain rfl := Option.some.inj ht
    exact hnear
  · have hwait : ∀ t ∈ S.pollTimeout, S.nextPoll ≤ t ∧ now < t := fun t ht =>
      have hpoll := (h t ht).resolve_right hdue
      ⟨hpoll, (Nat.lt_of_not_le hdue).trans_le hpoll⟩
    have hkept : (S.pollTimeout.any fun t => now ≥ t) = false := by
      refine Bool.eq_false_iff.mpr fun hany => ?_
      obtain ⟨t, ht, hle⟩ := (Option.any_eq_true ..).mp hany
      exact Nat.not_le_of_lt (hwait t ht).2 (of_decide_eq_true hle)
    simp only [if_neg hdue, hkept, Bool.false_eq_true, if_false]
    exact ⟨hwait, id⟩

theorem pollPeerlist_looked (P : PeerConfig) (S : Peer) (now : ℕ) :
    Looked (secs 7) now ((.peerlistRequest, P.bootstrap) ∈ (S.pollPeerlist P now).2)
      S.nextPeerlist (S.pollPeerlist P now).1.nextPeerlist := by
  rcases hj : jitter (2 * POLL_JITTER_MS) S.sched.rng with ⟨j, rng⟩
  have hjitter := jitter_le hj (Nat.succ_pos _)
  have hnear : now + PEERLIST_POLL_INTERVAL + j ≤ now + secs 7 := by
    simp only [PEERLIST_POLL_INTERVAL, secs, millis, POLL_JITTER_MS] at hjitter ⊢
    omega
  simp only [pollPeerlist, hj]
  by_cases hdue : now ≥ S.nextPeerlist
  · simp only [if_pos hdue]
    exact .due (List.mem_singleton_self _) hnear
  · simp only [if_neg hdue]
    exact .early (Nat.lt_of_not_le hdue)

theorem retryHandshake_timers (P : PeerConfig) (S : Peer) (now : ℕ) :
    (S.retryHandshake P now).1.nextPoll = S.nextPoll ∧
    (S.retryHandshake P now).1.nextPeerlist = S.nextPeerlist ∧
    (S.retryHandshake P now).1.pollTimeout = S.pollTimeout := by
  unfold retryHandshake
  split <;> exact ⟨rfl, rfl, rfl⟩

theorem pollManifest_timers (P : PeerConfig) (S : Peer) (now : ℕ) :
    (S.pollManifest P now).1.nextHandshakeRetry = S.nextHandshakeRetry ∧
    (S.pollManifest P now).1.nextPeerlist = S.nextPeerlist := by
  rcases hj : jitter POLL_JITTER_MS S.sched.rng with ⟨j, rng⟩
  simp only [pollManifest, hj]
  by_cases hdue : now ≥ S.nextPoll
  · simp only [if_pos hdue]
    split <;> exact ⟨rfl, rfl⟩
  · simp only [if_neg hdue]
    split <;> exact ⟨rfl, rfl⟩

theorem pollPeerlist_timers (P : PeerConfig) (S : Peer) (now : ℕ) :
    (S.pollPeerlist P now).1.nextHandshakeRetry = S.nextHandshakeRetry ∧
    (S.pollPeerlist P now).1.nextPoll = S.nextPoll ∧
    (S.pollPeerlist P now).1.pollTimeout = S.pollTimeout := by
  rcases hj : jitter (2 * POLL_JITTER_MS) S.sched.rng with ⟨j, rng⟩
  simp only [pollPeerlist, hj]
  split <;> exact ⟨rfl, rfl, rfl⟩

/-- The timers of a turn look at every beat. -/
theorem timers_looked (hrole : S.node.role = .peer) (b : Beat)
    (hnear : b.due S ≤ T.now + b.limit) :
    Looked b.limit T.now (b.Expected S → ∃ x ∈ (S.timers P T).2, b.Is P S.node x)
      (b.due S) (b.due (S.timers P T).1) := by
  obtain ⟨hping, hbeacon⟩ := Node.tick_looked S.node P.settings T.tickWorld T.now hrole
  simp only [timers]
  generalize hS2 : (S.onTick P T.tickWorld T.now).1.prunePeers T.now = S2
  generalize hS3 : (S2.retryHandshake P T.now).1.expirePending T.now = S3
  obtain ⟨hpoll3, hlist3, -⟩ := retryHandshake_timers P S2 T.now
  obtain ⟨hretry4, hlist4⟩ := pollManifest_timers P S3 T.now
  obtain ⟨hretry5, hpoll5, -⟩ := pollPeerlist_timers P (S3.pollManifest P T.now).1 T.now
  have hnode (proj : Node → ℕ) (hproj : ∀ n a, proj (Node.removePeer n a) = proj n) :
      proj ((S3.pollManifest P T.now).1.pollPeerlist P T.now).1.node = proj S2.node := by
    rw [(pollPeerlist_spec P _ T.now).1, (pollManifest_spec P S3 T.now).1, ← hS3]
    exact (foldl_removePeer_same proj hproj _ _).trans
      (congrArg proj (retryHandshake_spec P S2 T.now).1)
  cases b with
  | handshake =>
    have hnear2 : S2.nextHandshakeRetry ≤ T.now + HANDSHAKE_TIMEOUT := by
      rw [← hS2]
      exact hnear
    have hlook := retryHandshake_looked P hnear2
    simp only [Beat.due, Beat.limit, Beat.Expected, hretry5, hretry4] at hnear ⊢
    rw [← hS3]
    rw [← hS2] at hlook ⊢
    exact hlook.mono fun hsent hdone => ⟨_, List.mem_append_left _ (List.mem_append_left _
      (List.mem_append_right _ (hsent hdone))), _, rfl⟩
  | manifest =>
    have hlook := pollManifest_looked P S3 T.now
    have hpoll : S3.nextPoll = S.nextPoll := by rw [← hS3, ← hS2] at *; exact hpoll3
    rw [hpoll, ← hpoll5] at hlook
    exact hlook.mono fun hsent _ =>
      ⟨_, List.mem_append_left _ (List.mem_append_right _ hsent), rfl⟩
  | peerlist =>
    have hlook := pollPeerlist_looked P (S3.pollManifest P T.now).1 T.now
    have hlist : S3.nextPeerlist = S.nextPeerlist := by rw [← hS3, ← hS2] at *; exact hlist3
    rw [hlist4, hlist] at hlook
    exact hlook.mono fun hsent _ => ⟨_, List.mem_append_right _ hsent, rfl⟩
  | ping a =>
    simp only [Beat.due, hnode (·.nextPing) fun _ _ => rfl]
    rw [← hS2]
    refine hping.mono fun hsent ha => ⟨_, ?_, rfl⟩
    exact List.mem_append_left _ (List.mem_append_left _ (List.mem_append_left _ (hsent a ha)))
  | beacon =>
    simp only [Beat.due, hnode (·.nextBeacon) fun _ _ => rfl]
    rw [← hS2]
    refine hbeacon.mono fun hsent _ => ⟨_, ?_, rfl⟩
    exact List.mem_append_left _ (List.mem_append_left _ (List.mem_append_left _ hsent))

/-- The clock readings of the turn come before its timers. -/
def Turn.Timely (T : Turn) : Prop := ∀ d ∈ T.datagram, ∀ i, d.1.clk i ≤ T.now

/-- The timers of the loop itself, and whether the bootstrap has answered. -/
def timing (S : Peer) : Bool × ℕ × ℕ × ℕ :=
  (S.handshakeDone, S.nextHandshakeRetry, S.nextPoll, S.nextPeerlist)

theorem onManifest_timing {w refresh : World} {data : Bytes}
    (h : S.onManifest P w refresh data = .ok S') :
    S'.timing = S.timing ∧ S'.pollTimeout = none := by
  unfold onManifest at h
  split at h
  · cases h
    exact ⟨rfl, rfl⟩
  split at h
  · cases h
  · cases h
    exact ⟨rfl, rfl⟩
  split at h
  · cases h
  · cases h
    exact ⟨rfl, rfl⟩

theorem onPeerlist_timing (S : Peer) (now : ℕ) (peers : List (SocketAddr × UInt8)) :
    (S.onPeerlist P now peers).timing = S.timing ∧
      (S.onPeerlist P now peers).pollTimeout = S.pollTimeout := by
  have hentry (S : Peer) (e : SocketAddr × UInt8) :
      (onPeerlistEntry P now S e).timing = S.timing ∧
        (onPeerlistEntry P now S e).pollTimeout = S.pollTimeout := by
    unfold onPeerlistEntry
    dsimp only
    split
    · exact ⟨rfl, rfl⟩
    split
    · exact ⟨rfl, rfl⟩
    split
    · exact ⟨rfl, rfl⟩
    split <;> split <;> exact ⟨rfl, rfl⟩
  have hfold (S : Peer) : (peers.foldl (onPeerlistEntry P now) S).timing = S.timing ∧
      (peers.foldl (onPeerlistEntry P now) S).pollTimeout = S.pollTimeout := by
    induction peers generalizing S with
    | nil => exact ⟨rfl, rfl⟩
    | cons e peers ih =>
      exact ⟨(ih _).1.trans (hentry S e).1, (ih _).2.trans (hentry S e).2⟩
  exact hfold _

/-- A datagram leaves the timers alone, or it is the bootstrap's answer and makes the polls due.
Only a manifest ends the wait for one. -/
theorem receive_timing {w refresh : World} {m : Message} {src : SocketAddr}
    (h : S.receive P w refresh m src = .ok (S', sent)) :
    (S'.timing = S.timing ∨ S'.timing = (true, S.nextHandshakeRetry, w.clk 36, w.clk 37)) ∧
    (S'.pollTimeout = S.pollTimeout ∨
      S'.pollTimeout = none ∧ ∃ data, m = .manifestResponse data) := by
  have hhandled (n : Node) : { S with node := n }.timing = S.timing := rfl
  rcases receive_cases h with ⟨name, rfl⟩ | ⟨data, hm, -, hman⟩ | ⟨peers, rfl⟩ | rfl
  · simp only [onHandshake]
    split
    · exact ⟨.inr rfl, .inl rfl⟩
    · exact ⟨.inl rfl, .inl rfl⟩
  · obtain ⟨htiming, hnone⟩ := onManifest_timing hman
    exact ⟨.inl (htiming.trans (hhandled _)), .inr ⟨hnone, data, hm⟩⟩
  · obtain ⟨htiming, hkept⟩ := onPeerlist_timing (P := P) { S with
      node := (S.node.handle P.settings (w.after 1) m src).1 } (w.clk 0) peers
    exact ⟨.inl (htiming.trans (hhandled _)), .inl hkept⟩
  · exact ⟨.inl rfl, .inl rfl⟩

/-- A datagram leaves a timer alone or makes it due. -/
theorem received_due {S1 : Peer} (h : S.received P T = .ok (S1, sent)) (htimely : T.Timely)
    (b : Beat) : b.due S1 = b.due S ∨ b.due S1 ≤ T.now := by
  unfold received at h
  split at h
  next w refresh m src hdatagram =>
    have hclk : ∀ i, w.clk i ≤ T.now := htimely _ hdatagram
    have hpings : S1.node.pings = S.node.pings := by
      rw [receive_node h, ← Node.handle_pings S.node P.settings (w.after 1) m src]
      cases m <;> rfl
    have htiming := (receive_timing h).1
    simp only [timing, Prod.mk.injEq] at htiming
    cases b with
    | ping a => exact .inl (congrArg Prod.fst hpings)
    | beacon => exact .inl (congrArg Prod.snd hpings)
    | handshake => exact .inl (htiming.elim (·.2.1) (·.2.1))
    | manifest => exact htiming.imp (·.2.2.1) fun h => h.2.2.1.trans_le (hclk _)
    | peerlist => exact htiming.imp (·.2.2.2) fun h => h.2.2.2.trans_le (hclk _)
  next =>
    cases h
    exact .inl rfl

/-- What neither collecting nor starting downloads touches, their schedule leaves alone. -/
theorem schedule_keeps {α : Type*} (proj : Peer → α)
    (hreap : ∀ S w now f, proj (Peer.reap P S w now f).1 = proj S)
    (hfill : ∀ S ids w, proj (Peer.fillOne P S ids w).1 = proj S) (S : Peer) (T : Turn) :
    proj (S.schedule P T).1 = proj S := by
  have hreapAll (fs : List Finished) (w : World) (S : Peer) : proj { S with
      node := (reapAll P w T.now fs S.node S.sched).1
      sched := (reapAll P w T.now fs S.node S.sched).2.1 } = proj S := by
    induction fs generalizing w S with
    | nil => rfl
    | cons f fs ih => exact (ih (w.after 8) (S.reap P w T.now f).1).trans (hreap S w T.now f)
  have hfillLoop (k : ℕ) (w : World) (S : Peer) : proj { S with
      node := (fillLoop P T.ids k w S.node S.sched).1
      sched := (fillLoop P T.ids k w S.node S.sched).2.1 } = proj S := by
    induction k generalizing w S with
    | zero => rfl
    | succ k ih =>
      have hone := hfill S T.ids w
      rcases hres : fillStep P T.ids w S.node S.sched with ⟨n1, s1, sent, go⟩
      simp only [fillOne, hres] at hone
      cases go with
      | false => simpa only [fillLoop, hres] using hone
      | true => simpa only [fillLoop, hres] using (ih (w.after 2) _).trans hone
  exact (hfillLoop _ T.fillWorld _).trans (hreapAll _ T.reapWorld S)

theorem schedule_due (S : Peer) (T : Turn) (b : Beat) :
    b.due (S.schedule P T).1 = b.due S := by
  refine schedule_keeps (Beat.due · b) (fun S w now f => ?_) (fun S ids w => ?_) S T
  · have hpings : (S.reap P w now f).1.node.pings = S.node.pings :=
      reapJob_same Node.pings (fun _ _ _ res _ _ => by cases res <;> rfl) (fun _ _ => rfl)
        (fun _ _ => rfl) w now f S.node S.sched
    cases b with
    | ping a => exact congrArg Prod.fst hpings
    | beacon => exact congrArg Prod.snd hpings
    | _ => rfl
  · unfold fillOne
    rcases fillStep_cases P ids w S.node S.sched with
      ⟨rng, hstep⟩ | ⟨f, rest, peer, rng, r, -, -, -, -, hstep⟩
    · rw [hstep]
      cases b <;> rfl
    · rw [hstep]
      cases b <;> rfl

/-- A turn is the receipt of its datagram, its timers and the schedule. -/
theorem turn_parts (h : S.turn P T = .ok (S', sent)) : ∃ S1 sent1,
    S.received P T = .ok (S1, sent1) ∧ S' = ((S1.timers P T).1.schedule P T).1 ∧
    (S1.timers P T).2 ⊆ sent := by
  have hturn : S.turn P T = (S.received P T).bind fun r =>
      .ok (((r.1.timers P T).1.schedule P T).1,
        r.2 ++ (r.1.timers P T).2 ++ ((r.1.timers P T).1.schedule P T).2) := by
    unfold turn received
    cases T.datagram <;> rfl
  rw [hturn] at h
  cases hrecv : S.received P T with
  | error e =>
    rw [hrecv] at h
    cases h
  | ok r =>
    rw [hrecv] at h
    obtain ⟨rfl, rfl⟩ := Prod.mk.inj (Except.ok.inj h)
    exact ⟨r.1, r.2, rfl, rfl, fun x hx => List.mem_append_left _ (List.mem_append_right _ hx)⟩

/-- A datagram leaves a node itself and forgets no peer. -/
theorem received_node {S1 : Peer} (h : S.received P T = .ok (S1, sent)) :
    S1.node.self = S.node.self ∧ ∀ a ∈ S.node.peers, a ∈ S1.node.peers := by
  unfold received at h
  split at h
  next w refresh m src hdatagram =>
    have hstep : Step P S (.datagram w refresh m src) S1 := .mk trivial h
    refine ⟨hstep.self_eq, fun a ha => ?_⟩
    have hmem := Node.mem_handle P.settings (w.after 1) m src ha
    rw [receive_node h]
    cases m with
    | handshakeResponse observed name => exact Node.mem_registerPeer.mpr (.inr hmem)
    | _ => exact hmem
  next =>
    cases h
    exact ⟨rfl, fun _ h => h⟩

/-- A manifest request is given up for another one, or for the manifest. -/
theorem turn_pollTimeout (h : S.turn P T = .ok (S', sent)) (htimely : T.Timely)
    (hwait : ∀ t ∈ S.pollTimeout, S.nextPoll ≤ t) :
    (∀ t ∈ S'.pollTimeout, S'.nextPoll ≤ t ∧ T.now < t) ∧
    (S'.pollTimeout = none → S.pollTimeout = none ∨
      ∃ w refresh data src, T.datagram = some (w, refresh, .manifestResponse data, src)) := by
  obtain ⟨S1, sent1, hrecv, rfl, -⟩ := turn_parts h
  have htimeout : (S1.pollTimeout = S.pollTimeout ∨ S1.pollTimeout = none ∧
      ∃ w refresh data src, T.datagram = some (w, refresh, .manifestResponse data, src)) := by
    unfold received at hrecv
    split at hrecv
    next w refresh m src hdatagram =>
      refine (receive_timing hrecv).2.imp_right fun ⟨hnone, data, hm⟩ => ⟨hnone, ?_⟩
      exact ⟨w, refresh, data, src, hm ▸ hdatagram⟩
    next =>
      cases hrecv
      exact .inl rfl
  have hwait1 : ∀ t ∈ S1.pollTimeout, S1.nextPoll ≤ t ∨ S1.nextPoll ≤ T.now := by
    intro t ht
    rcases htimeout with heq | ⟨hnone, -⟩
    · rcases received_due hrecv htimely .manifest with hdue | hdue
      · exact .inl (hdue.trans_le (hwait t (heq ▸ ht)))
      · exact .inr hdue
    · rw [hnone] at ht
      cases ht
  have hkept {α : Type} (proj : Peer → α) (hproj : ∀ S n s, proj { S with node := n, sched := s } =
      proj S) : proj ((S1.timers P T).1.schedule P T).1 = proj (S1.timers P T).1 :=
    schedule_keeps proj (fun S w now f => hproj S _ _) (fun S ids w => hproj S _ _) _ T
  rw [hkept (·.pollTimeout) fun _ _ _ => rfl, hkept (·.nextPoll) fun _ _ _ => rfl]
  simp only [timers, (pollPeerlist_timers P _ T.now).2.1, (pollPeerlist_timers P _ T.now).2.2]
  generalize hS2 : (S1.onTick P T.tickWorld T.now).1.prunePeers T.now = S2
  obtain ⟨hpoll, -, htimeout2⟩ := retryHandshake_timers P S2 T.now
  have hS1 : S2.pollTimeout = S1.pollTimeout ∧ S2.nextPoll = S1.nextPoll := hS2 ▸ ⟨rfl, rfl⟩
  obtain ⟨hahead, hnone⟩ := @pollManifest_timeout
    ((S2.retryHandshake P T.now).1.expirePending T.now) T.now P fun t ht => by
      have hpoll' := hpoll.trans hS1.2
      rw [← hpoll'] at hwait1
      exact hwait1 t ((htimeout2.trans hS1.1) ▸ ht)
  refine ⟨hahead, fun hlost => ?_⟩
  have hlost1 : S1.pollTimeout = none := (htimeout2.trans hS1.1).symm.trans (hnone hlost)
  rcases htimeout with heq | ⟨-, hdatagram⟩
  · exact .inl (heq ▸ hlost1)
  · exact .inr hdatagram

theorem timers_handshakeDone (P : PeerConfig) (S : Peer) (T : Turn) :
    (S.timers P T).1.handshakeDone = S.handshakeDone := by
  simp only [timers, pollPeerlist_spec, pollManifest_spec, expirePending, retryHandshake_spec]
  rfl

/-- Every turn looks at every beat. -/
theorem turn_looked (h : S.turn P T = .ok (S', sent)) (htimely : T.Timely)
    (hrole : S.node.role = .peer) (b : Beat) (hnear : b.due S ≤ T.now + b.limit) :
    Looked b.limit T.now (b.Expected S → b.Expected S' → ∃ x ∈ sent, b.Is P S.node x)
      (b.due S) (b.due S') := by
  obtain ⟨S1, sent1, hrecv, rfl, hsent⟩ := turn_parts h
  obtain ⟨hself, hpeers⟩ := received_node hrecv
  have hdue := received_due hrecv htimely b
  have hexpected : b.Expected S → b.Expected ((S1.timers P T).1.schedule P T).1 →
      b.Expected S1 := by
    intro hbefore hafter
    cases b with
    | handshake =>
      have hdone := schedule_keeps (P := P) (·.handshakeDone) (fun _ _ _ _ => rfl)
        (fun S ids w => rfl) (S1.timers P T).1 T
      exact (hdone.trans (timers_handshakeDone P S1 T)).symm.trans hafter
    | ping a => exact hpeers a hbefore
    | _ => trivial
  have hlook := timers_looked (P := P) (S := S1) (T := T)
    ((Node.role_of_self hself).trans hrole) b (by omega)
  have hlook : Looked b.limit T.now (b.Expected S →
      b.Expected ((S1.timers P T).1.schedule P T).1 → ∃ x ∈ sent, b.Is P S.node x)
      (b.due S1) (b.due (S1.timers P T).1) := hlook.mono fun hact hbefore hafter =>
    (hact (hexpected hbefore hafter)).imp fun x hx => ⟨hsent hx.1, hx.2.of_self hself⟩
  rw [schedule_due]
  generalize b.due S1 = due1 at hlook hdue
  generalize b.due (S1.timers P T).1 = due2 at hlook ⊢
  cases hlook with
  | due hact hnext => exact .due hact hnext
  | early hearly =>
    rw [← hdue.resolve_right (Nat.not_le_of_lt hearly)]
    exact .early hearly

end Peer

/-- A peer in its loop, and when its timers ran last. -/
structure Awake where
  peer : Peer
  now : ℕ

/-- One round of the loop: when it computes the timeout of the socket, with which injector, the
turn it takes when it wakes, and what that sends. -/
structure Round (ρ δ : Type*) where
  asleep : ℕ
  fault : FaultInjector ρ δ
  turn : Peer.Turn
  sent : Outbox

namespace Awake
variable {ρ δ : Type*} [RandomSource ρ] {P : PeerConfig} {late : ℕ}

/-- One round, with no more than `late` lost before the socket waits and again after. -/
structure Step (P : PeerConfig) (late : ℕ) (A : Awake) (e : Round ρ δ) (B : Awake) : Prop where
  taken : A.peer.turn P e.turn = .ok (B.peer, e.sent)
  now : B.now = e.turn.now
  timely : e.turn.Timely
  asleep : A.now ≤ e.asleep ∧ e.asleep ≤ A.now + late
  awake : e.asleep ≤ e.turn.now
  woken : ∀ t ∈ socketTimeout (A.peer.deadlines e.fault e.asleep).min? e.asleep,
    e.turn.now ≤ e.asleep + t + late

/-- The beats are set no further ahead than they may be, and the next manifest request comes
before the last one is given up. -/
structure Armed (A : Awake) : Prop where
  role : A.peer.node.role = .peer
  near : ∀ b : Beat, b.due A.peer ≤ A.now + b.limit
  waits : ∀ t ∈ A.peer.pollTimeout, A.peer.nextPoll ≤ t

theorem Armed.initial (P : PeerConfig) {w : World} (dir : Dir) (nonce : UInt32)
    (claimed : Option SocketAddr) (seed : UInt64) {now : ℕ} (hw : ∀ i, w.clk i ≤ now) :
    (⟨.initial P w dir nonce claimed seed, now⟩ : Awake).Armed where
  role := rfl
  near b := by
    rcases hj1 : jitter POLL_JITTER_MS seed with ⟨j1, rng1⟩
    rcases hj2 : jitter (2 * POLL_JITTER_MS) rng1 with ⟨j2, rng2⟩
    have h1 : j1 ≤ secs 3 := (Peer.jitter_le hj1 (Nat.succ_pos _)).trans (by decide)
    have h2 : j2 ≤ secs 7 := (Peer.jitter_le hj2 (Nat.succ_pos _)).trans (by decide)
    simp only [Beat.due, Beat.limit, Peer.initial, hj1, hj2]
    cases b with
    | handshake => exact Nat.add_le_add_right (hw 0) HANDSHAKE_TIMEOUT
    | manifest => exact Nat.add_le_add (hw 1) h1
    | peerlist => exact Nat.add_le_add (hw 2) h2
    | ping a => exact Nat.add_le_add_right (hw 3) PING_INTERVAL
    | beacon => exact Nat.add_le_add_right (hw 4) BEACON_INTERVAL
  waits t ht := by cases ht

theorem Step.elapsed {A B : Awake} {e : Round ρ δ} (h : Step P late A e B) : A.now ≤ B.now :=
  h.now ▸ h.asleep.1.trans h.awake

theorem Step.looked {A B : Awake} {e : Round ρ δ} (h : Step P late A e B) (hA : A.Armed)
    (b : Beat) : Looked b.limit B.now
      (b.Expected A.peer → b.Expected B.peer → ∃ x ∈ e.sent, b.Is P A.peer.node x)
      (b.due A.peer) (b.due B.peer) := by
  have helapsed := h.elapsed
  rw [h.now] at helapsed ⊢
  exact Peer.turn_looked h.taken h.timely hA.role b
    ((hA.near b).trans (Nat.add_le_add_right helapsed _))

theorem Step.self_eq {A B : Awake} {e : Round ρ δ} (h : Step P late A e B) :
    B.peer.node.self = A.peer.node.self :=
  Peer.turn_invariant (I := fun S => S.node.self = A.peer.node.self)
    (fun _ _ _ hS hstep => hstep.self_eq.trans hS) h.taken rfl

theorem Step.armed {A B : Awake} {e : Round ρ δ} (h : Step P late A e B) (hA : A.Armed) :
    B.Armed where
  role := (Node.role_of_self h.self_eq).trans hA.role
  near b := (h.looked hA b).near ((hA.near b).trans (Nat.add_le_add_right h.elapsed _))
  waits t ht := ((Peer.turn_pollTimeout h.taken h.timely hA.waits).1 t ht).1

/-- A round ends before `due` and what was lost, when it is a deadline of the loop. -/
theorem Step.wakes {A B : Awake} {e : Round ρ δ} (h : Step P late A e B) {due : ℕ}
    (hdue : due ∈ A.peer.deadlines e.fault e.asleep) :
    B.now ≤ max A.now due + (2 * late + 1) := by
  obtain ⟨first, hfirst⟩ : ∃ first, (A.peer.deadlines e.fault e.asleep).min? = some first :=
    Option.isSome_iff_exists.mp (List.isSome_min?_of_mem hdue)
  have hle : first ≤ due := (List.min?_eq_some_iff.mp hfirst).2 due hdue
  have hwoken := h.woken
  rw [hfirst] at hwoken
  have hwoken : e.turn.now ≤ e.asleep + (if first - e.asleep = 0 then 1 else first - e.asleep) + late :=
    hwoken _ rfl
  have hasleep := h.asleep.2
  rw [h.now]
  split at hwoken <;> omega

/-- A round of a stretch in which the beat is expected. -/
def Expecting (P : PeerConfig) (late : ℕ) (b : Beat) (A : Awake) (e : Round ρ δ) (B : Awake) : Prop :=
  Step P late A e B ∧ b.Expected A.peer ∧ b.Expected B.peer

/-- The loop wakes for its own timers, and so it is never longer asleep than until the next
manifest request. -/
theorem Step.next {A B : Awake} {e : Round ρ δ} (h : Step P late A e B) (hA : A.Armed) (b : Beat)
    (hexpected : b.Expected A.peer) {sentAt : ℕ}
    (hkept : Kept b.limit A.now (b.due A.peer) sentAt) :
    B.now ≤ sentAt + b.within + (2 * late + 1) := by
  have hdue : A.peer.nextPoll ∈ A.peer.deadlines e.fault e.asleep := by
    simp [Peer.deadlines]
  have hpoll := h.wakes hdue
  have hnear : A.peer.nextPoll ≤ A.now + secs 3 := hA.near .manifest
  have hrecent := hkept.recent
  cases b with
  | handshake =>
    have hdone : A.peer.handshakeDone = false := hexpected
    exact hkept.next (h.wakes (by simp [Peer.deadlines, hdone, Beat.due]))
  | manifest => exact hkept.next hpoll
  | peerlist => exact hkept.next (h.wakes (by simp [Peer.deadlines, Beat.due]))
  | ping a =>
    simp only [Beat.within]
    omega
  | beacon =>
    simp only [Beat.within]
    omega

/-- Whatever arrives and however the downloads go, a peer's loop is never silent for long: it asks
for the manifest and for the peerlist, repeats the handshake until the bootstrap answers, pings
every peer as long as it is known, and the local network. -/
theorem never_silent {w : World} {dir : Dir} {nonce : UInt32} {claimed : Option SocketAddr}
    {seed : UInt64} {now : ℕ} (hw : ∀ i, w.clk i ≤ now) {es : List (Round ρ δ)} {A : Awake}
    (hrun : Run (Step P late) ⟨.initial P w dir nonce claimed seed, now⟩ es A) (b : Beat)
    {es' : List (Round ρ δ)} {B : Awake} (hstretch : Run (Expecting P late b) A es' B)
    (hlong : A.now + b.within + (2 * late + 1) < B.now) :
    ∃ e ∈ es', ∃ x ∈ e.sent, b.Is P A.peer.node x := by
  have hA : A.Armed :=
    hrun.invariant (fun _ _ _ hA h => h.armed hA) (.initial P dir nonce claimed seed hw)
  by_contra hnever
  have hend := hstretch.invariant_of_events
    (I := fun C => C.Armed ∧ C.peer.node.self = A.peer.node.self ∧
      Kept b.limit C.now (b.due C.peer) A.now ∧ C.now ≤ A.now + b.within + (2 * late + 1))
    (P := fun e => ¬ ∃ x ∈ e.sent, b.Is P A.peer.node x)
    (fun C e D hsilent ⟨hC, hself, hkept, hnow⟩ ⟨hstep, hbefore, hafter⟩ => by
      refine ⟨hstep.armed hC, hstep.self_eq.trans hself, ?_, hstep.next hC b hbefore hkept⟩
      refine hkept.quiet (hstep.looked hC b) fun hact => hsilent ?_
      exact (hact hbefore hafter).imp fun x hx => ⟨hx.1, hx.2.of_self hself⟩)
    (fun e he hsent => hnever ⟨e, he, hsent⟩)
    ⟨hA, rfl, .start (hA.near b), by omega⟩
  exact Nat.not_le_of_lt hlong hend.2.2.2

/-- An injector without faults. -/
def demoFault : FaultInjector UInt64 (Message × SocketAddr) :=
  ⟨1, 0, 0, 0, 0, 0, 0, 0, none, [], ⟨0, 0⟩⟩

/-- A turn that is over a second after the last one, as a round. -/
theorem round_of_turn {A : Awake} {T : Peer.Turn} (hT : T.Timely) (hnow : T.now = A.now + secs 1)
    {S : Peer} {sent : Outbox} (h : A.peer.turn demoConfig T = .ok (S, sent)) :
    Step demoConfig (secs 1) A ⟨A.now, demoFault, T, sent⟩ ⟨S, T.now⟩ where
  taken := h
  now := rfl
  timely := hT
  asleep := ⟨le_rfl, Nat.le_add_right _ _⟩
  awake := hnow ▸ Nat.le_add_right _ _
  woken _ _ := hnow ▸ Nat.add_le_add_right (Nat.le_add_right _ _) _

/-- What a turn gets in which nothing comes. -/
def idleTurn (now : ℕ) : Peer.Turn :=
  ⟨none, demoWorld 0, demoWorld 0, demoWorld 0, smallestId, now⟩

/-- A round that lasts a second and in which nothing comes. -/
theorem idle_round (A : Awake) : ∃ (e : Round UInt64 (Message × SocketAddr)) (B : Awake),
    Step demoConfig (secs 1) A e B ∧ B.now = A.now + secs 1 := by
  obtain ⟨⟨S', sent⟩, hturn⟩ : ∃ r, A.peer.turn demoConfig (idleTurn (A.now + secs 1)) = .ok r :=
    ⟨_, rfl⟩
  exact ⟨_, _, round_of_turn (by rintro d ⟨⟩) rfl hturn, rfl⟩

theorem idle_run (k : ℕ) (A : Awake) : ∃ (es : List (Round UInt64 (Message × SocketAddr))) (B : Awake),
    Run (Expecting demoConfig (secs 1) .manifest) A es B ∧ B.now = A.now + k * secs 1 := by
  induction k generalizing A with
  | zero => exact ⟨[], A, .nil A, by omega⟩
  | succ k ih =>
    obtain ⟨e, B, hstep, hnow⟩ := idle_round A
    obtain ⟨es, C, hrun, hlast⟩ := ih B
    exact ⟨_, C, .cons ⟨hstep, trivial, trivial⟩ hrun, by rw [hlast, hnow]; ring⟩

/-- In six idle rounds a peer asks for the manifest. -/
theorem never_silent_demo : ∃ (es : List (Round UInt64 (Message × SocketAddr))) (B : Awake),
    Run (Step demoConfig (secs 1)) ⟨demoStart emptyDir, 0⟩ es B ∧
    ∃ e ∈ es, (.manifestRequest, demoConfig.bootstrap) ∈ e.sent := by
  obtain ⟨es, B, hrun, hnow⟩ := idle_run 6 ⟨demoStart emptyDir, 0⟩
  obtain ⟨e, he, x, hx, rfl⟩ := never_silent (P := demoConfig) (w := demoWorld 0) (fun _ => le_rfl)
    (.nil _) .manifest hrun (by
      rw [hnow]
      simp only [Beat.within, Beat.limit, secs]
      omega)
  exact ⟨es, B, hrun.mono fun _ _ _ h => h.1, e, he, hx⟩

/-- Nobody waits out a manifest request: after every round there is time left for the answer, and
only a manifest ends the wait. -/
theorem manifest_awaited {w : World} {dir : Dir} {nonce : UInt32} {claimed : Option SocketAddr}
    {seed : UInt64} {now : ℕ} (hw : ∀ i, w.clk i ≤ now) {es : List (Round ρ δ)} {A B : Awake}
    (hrun : Run (Step P late) ⟨.initial P w dir nonce claimed seed, now⟩ es A) {e : Round ρ δ}
    (h : Step P late A e B) :
    (∀ t ∈ B.peer.pollTimeout, B.now < t) ∧
    (A.peer.pollTimeout ≠ none → B.peer.pollTimeout = none →
      ∃ w refresh data src, e.turn.datagram = some (w, refresh, .manifestResponse data, src)) := by
  have hA : A.Armed :=
    hrun.invariant (fun _ _ _ hA h => h.armed hA) (.initial P dir nonce claimed seed hw)
  obtain ⟨hahead, hended⟩ := Peer.turn_pollTimeout h.taken h.timely hA.waits
  exact ⟨fun t ht => h.now ▸ (hahead t ht).2, fun hwait hnone => (hended hnone).resolve_left hwait⟩

/-- The turn of the next second, in which a manifest comes. -/
def answeredTurn : Peer.Turn :=
  let w := demoWorld (secs 1)
  ⟨some (w, w, .manifestResponse "#EXTM3U\n".toUTF8.toList, demoBootstrap), w, w, w, smallestId,
    secs 2⟩

/-- The first round asks for the manifest and leaves time for the answer; the second one hears it,
and only so the request is closed. -/
theorem manifest_awaited_demo : ∃ (e f : Round UInt64 (Message × SocketAddr)) (A B : Awake),
    Step demoConfig (secs 1) ⟨demoStart emptyDir, 0⟩ e A ∧ Step demoConfig (secs 1) A f B ∧
    A.peer.pollTimeout = some (secs 4) ∧ A.now < secs 4 ∧ B.peer.pollTimeout = none ∧
    ∃ w refresh data src, f.turn.datagram = some (w, refresh, .manifestResponse data, src) := by
  have hboth : (((demoStart emptyDir).turn demoConfig (idleTurn (secs 1))).toOption.any fun r =>
      decide (r.1.pollTimeout = some (secs 4)) &&
      (r.1.turn demoConfig answeredTurn).toOption.any fun r' =>
        decide (r'.1.pollTimeout = none)) = true := by
    decide +kernel
  simp only [Option.any_eq_true, Bool.and_eq_true, decide_eq_true_eq] at hboth
  obtain ⟨⟨S, sent⟩, hidle, hopen, ⟨S', sent'⟩, hanswered, hclosed⟩ := hboth
  have htimely : answeredTurn.Timely := by
    rintro d ⟨⟩ i
    exact (by decide : secs 1 ≤ secs 2)
  have hfirst := round_of_turn (A := ⟨demoStart emptyDir, 0⟩) (T := idleTurn (secs 1))
    (by rintro d ⟨⟩) (by decide : secs 1 = 0 + secs 1) (Peer.ok_of_toOption hidle)
  have hsecond := round_of_turn (A := ⟨S, secs 1⟩) htimely (by decide : secs 2 = secs 1 + secs 1)
    (Peer.ok_of_toOption hanswered)
  have hahead := (manifest_awaited (P := demoConfig) (w := demoWorld 0) (fun _ => le_rfl) (.nil _)
    hfirst).1
  have hended := (manifest_awaited (P := demoConfig) (w := demoWorld 0) (fun _ => le_rfl)
    (.one hfirst) hsecond).2
  have hwait : S.pollTimeout ≠ none := by
    rw [hopen]
    exact Option.some_ne_none _
  exact ⟨_, _, _, _, hfirst, hsecond, hopen, hahead _ hopen, hclosed, hended hwait hclosed⟩

end Awake
end Qstream

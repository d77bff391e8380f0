import Qstream.NodePeerlist
import Qstream.PeerSources
import Qstream.SwarmSegments

/-! Which addresses a swarm talks to. Peerlists pass addresses on from node to node, but every
one of them was the source of a datagram, or is a bootstrap that somebody was started with. -/
namespace Qstream
open Transfer Runs

/-- The limited broadcast address, at some port. -/
def SocketAddr.Broadcast (a : SocketAddr) : Prop := ∃ port, a = ⟨.v4 ⟨255, 255, 255, 255⟩, port⟩

variable {A : Set SocketAddr} {a src : SocketAddr} {x : Message × SocketAddr}

/-- The addresses that a peerlist passes on are among `A`. -/
def Message.Within (A : Set SocketAddr) : Message → Prop
  | .peerlistResponse peers => ∀ e ∈ peers, e.1 ∈ A
  | _ => True

/-- A datagram to one of `A`, or to the local network. -/
def Sent (A : Set SocketAddr) (x : Message × SocketAddr) : Prop :=
  x.1.Within A ∧ (x.2 ∈ A ∨ x.2.Broadcast)

namespace Transfer

namespace TransferRegistry
variable {reg : TransferRegistry} {cfg : Settings} {w : World} {i : ℕ}

/-- Every transfer is with one of `A`. -/
structure Within (A : Set SocketAddr) (reg : TransferRegistry) : Prop where
  senders : ∀ i s, reg.senders.lookup i = some s → s.remote ∈ A
  receivers : ∀ i r, reg.receivers.lookup i = some r → r.remote ∈ A

theorem Within.insertSender (h : reg.Within A) {s : SenderTransfer} (hs : s.remote ∈ A) :
    { reg with senders := reg.senders.insert i s }.Within A where
  senders j t ht := by
    dsimp only at ht
    rw [HashMap.lookup_insert'] at ht
    split at ht
    next => exact Option.some.inj ht ▸ hs
    next => exact h.senders j t ht
  receivers := h.receivers

theorem Within.insertReceiver (h : reg.Within A) {r : ReceiverTransfer} (hr : r.remote ∈ A)
    (dir : Dir) : { reg with dir := dir, receivers := reg.receivers.insert i r }.Within A where
  senders := h.senders
  receivers j t ht := by
    dsimp only at ht
    rw [HashMap.lookup_insert'] at ht
    split at ht
    next => exact Option.some.inj ht ▸ hr
    next => exact h.receivers j t ht

theorem Within.serve (h : reg.Within A) (clk : Clock) (f : String) (hsrc : src ∈ A) :
    (reg.serve clk i f src).1.Within A := by
  rcases serve_cases clk reg i f src with ⟨-, file, -, heq⟩ | ⟨-, heq⟩
  · rw [heq]
    exact h.insertSender hsrc
  · rw [heq]
    exact ⟨h.senders, h.receivers⟩

theorem Within.onContent (h : reg.Within A) (p t : ℕ) (d : Bytes) :
    (reg.onContent cfg w i p t d).1.Within A := by
  simp only [TransferRegistry.onContent]
  split
  next r hr =>
    have hsame := (ReceiverTransfer.onContent_spec cfg w r reg.dir p t d).1.remote
    exact h.insertReceiver (hsame ▸ h.receivers i r hr) _
  next => exact h

theorem Within.onAck (h : reg.Within A) (clk : Clock) (ackType : AckType) (a b : ℕ) :
    (reg.onAck cfg clk i ackType a b).Within A := by
  rcases onAck_cases cfg clk reg i ackType a b with ⟨s, -, -, heq⟩ | ⟨s, hs, -, heq⟩ | ⟨-, heq⟩
  · rw [heq]
    refine ⟨fun j t ht => ?_, h.receivers⟩
    dsimp only at ht
    rw [HashMap.lookup_erase'] at ht
    split at ht
    next => cases ht
    next => exact h.senders j t ht
  · rw [heq]
    refine h.insertSender ?_
    rw [SenderTransfer.onProgress_remote]
    exact h.senders i s hs
  · rwa [heq]

theorem Within.onNotFound (h : reg.Within A) (clk : Clock) (retryable : Bool) :
    (reg.onNotFound clk i retryable).1.Within A := by
  simp only [TransferRegistry.onNotFound]
  split
  next r hr =>
    have hremote : ((r.markNotFound retryable).fail (clk 0)
        (if retryable then .notReady r.filename else .notFound r.filename)).remote ∈ A :=
      h.receivers i r hr
    exact h.insertReceiver hremote reg.dir
  next => exact h

theorem Within.tick (h : reg.Within A) (w : World) (now : ℕ) : (reg.tick cfg w now).1.Within A where
  senders j t ht := by
    obtain ⟨s, sent, hs, htick⟩ := tick_senders ht
    have hremote := SenderTransfer.tick_remote cfg s now
    rw [htick] at hremote
    exact hremote ▸ h.senders j s hs
  receivers j t ht := by
    obtain ⟨r, hr, rfl⟩ := tick_receivers ht
    obtain ⟨hprog, -, -⟩ := ReceiverTransfer.onTick_spec cfg r now fun k => w.clk (k + j)
    exact hprog.same.remote ▸ h.receivers j r hr

/-- The timers of the transfers send to their endpoints. -/
theorem Within.mem_tick (h : reg.Within A) {now : ℕ} (hx : x ∈ (reg.tick cfg w now).2) : x.2 ∈ A := by
  simp only [TransferRegistry.tick, onTick_of_outcome, List.mem_append, List.mem_flatMap, addressed,
    List.mem_map] at hx
  rcases hx with ⟨⟨j, y⟩, hy, m, -, rfl⟩ | ⟨⟨j, y⟩, hy, m, -, rfl⟩
  · rw [HashOrder.mem_iter, HashMap.lookup_mapVal] at hy
    obtain ⟨s, hs, rfl⟩ := Option.map_eq_some_iff.mp hy
    rw [SenderTransfer.tick_remote]
    exact h.senders j s hs
  · rw [HashOrder.mem_iter, HashMap.lookup_mapVal] at hy
    obtain ⟨r, hr, rfl⟩ := Option.map_eq_some_iff.mp hy
    obtain ⟨hprog, -, -⟩ := ReceiverTransfer.onTick_spec cfg r now fun k => w.clk (k + j)
    rw [hprog.same.remote]
    exact h.receivers j r hr

end TransferRegistry
end Transfer

namespace Node
variable {n : Node} {cfg : NodeSettings} {w : World} {m : Message}

/-- A node that knows, and has transfers with, addresses among `A` only. -/
structure Within (A : Set SocketAddr) (n : Node) : Prop where
  peers : ∀ a ∈ n.peers, a ∈ A
  registry : n.registry.Within A

/-- A datagram makes at most its source known. -/
theorem mem_peers_of_handle (h : a ∈ (n.handle cfg w m src).1.peers) : a = src ∨ a ∈ n.peers := by
  by_cases hsrc : a = src
  · exact .inl hsrc
  · have hnames := (handle_introduced n cfg w m src).names a
    rw [if_neg hsrc] at hnames
    rw [← isSome_names, hnames, isSome_names] at h
    exact .inr h

theorem Within.handle (h : n.Within A) (hsrc : src ∈ A) : (n.handle cfg w m src).1.Within A where
  peers b hb := (mem_peers_of_handle hb).elim (fun heq => heq ▸ hsrc) (h.peers b)
  registry := by
    rw [handle_registry]
    cases m with
    | segmentRequest i f =>
      simp only
      split
      · exact ⟨h.registry.senders, h.registry.receivers⟩
      · exact h.registry.serve _ f hsrc
    | segmentContents i p t d => exact h.registry.onContent p t d
    | segmentNotFound i av retryable => exact h.registry.onNotFound _ retryable
    | ack i ackType p q => exact h.registry.onAck _ ackType p q
    | _ => exact h.registry

/-- Answers keep to the addresses. -/
theorem Within.answer (h : n.Within A) (hsrc : src ∈ A) (hx : n.Answer src x) : Sent A x := by
  cases hx with
  | peerlist hpeers => exact ⟨fun e he => h.peers _ (hpeers e he), .inl hsrc⟩
  | ack hr => exact ⟨trivial, .inl (h.registry.receivers _ _ hr)⟩
  | _ => exact ⟨trivial, .inl hsrc⟩

theorem mem_iter_peers {ord : HashOrder} {info : PeerInfo} (h : (a, info) ∈ ord.iter n.peers) :
    a ∈ n.peers := HashMap.mem_iff_lookup.mpr ⟨info, HashOrder.mem_iter.mp h⟩

/-- Pings go to the known peers and to the local network. -/
theorem mem_pingCycle_to {ord : HashOrder} {now : ℕ} (hx : x ∈ (n.pingCycle ord now).2) :
    x.2 ∈ n.peers ∨ x.2.Broadcast := by
  have hpings (hx : x ∈ (ord.iter n.peers).map fun e => (n.pingMessage, e.1)) : x.2 ∈ n.peers := by
    obtain ⟨⟨b, info⟩, hb, rfl⟩ := List.mem_map.mp hx
    exact mem_iter_peers hb
  simp only [pingCycle] at hx
  split at hx <;> split at hx
  · rcases List.mem_append.mp hx with hx | hx
    · exact .inl (hpings hx)
    · rw [List.mem_singleton.mp hx]
      exact .inr ⟨_, rfl⟩
  · exact .inl (hpings hx)
  · rw [List.mem_singleton.mp hx]
    exact .inr ⟨_, rfl⟩
  · cases hx

theorem Within.tick (h : n.Within A) (now : ℕ) : (n.tick cfg w now).1.Within A where
  peers b hb := h.peers b (by rwa [tick_peers] at hb)
  registry := by
    rw [tick_registry]
    exact ⟨(h.registry.tick w now).senders, (h.registry.tick w now).receivers⟩

/-- The timers send to the transfers' endpoints, the known peers and the local network. -/
theorem Within.mem_tick (h : n.Within A) {now : ℕ} (hx : x ∈ (n.tick cfg w now).2) : Sent A x := by
  refine ⟨?_, ?_⟩
  · rcases Node.mem_tick now hx with hreg | hping | ⟨av, hpong⟩
    · rcases TransferRegistry.mem_tick_sent hreg with ⟨i, s, -, hsent⟩ | ⟨i, r, -, hsent⟩
      · obtain ⟨p, d, heq⟩ := SenderTransfer.contents_of_mem_sendPackets
          (SenderTransfer.mem_tick_sent hsent)
        rw [heq]
        trivial
      · obtain ⟨-, -, hmsg⟩ :=
          ReceiverTransfer.onTick_spec cfg.transfer r now fun k => w.clk (k + i)
        rcases hmsg _ hsent with heq | ⟨rg, -, heq⟩
        all_goals
          rw [heq]
          trivial
    · rw [hping]
      trivial
    · rw [hpong]
      trivial
  · simp only [Node.tick, List.mem_append] at hx
    have hpeers : ∀ b, b ∈ ((n.registry.tick cfg.transfer w now).1.events.foldl
        (fun (n : Node) e => n.recordServe w.clk e)
        { n with registry := { (n.registry.tick cfg.transfer w now).1 with events := [] } }).peers →
        b ∈ A := fun b hb => h.peers b (by rwa [foldl_recordServe_peers] at hb)
    rcases hx with (hreg | hping) | hannounce
    · exact .inl (h.registry.mem_tick hreg)
    · exact (mem_pingCycle_to hping).imp_left (hpeers _)
    · split at hannounce
      · obtain ⟨⟨b, info⟩, hb, rfl⟩ := List.mem_map.mp hannounce
        have hmem := mem_iter_peers hb
        rw [pruneSegments_peers, pruneOriginSeeders, pingCycle_peers] at hmem
        exact .inl (hpeers _ hmem)
      · cases hannounce

end Node

namespace Peer
variable {P : PeerConfig} {S S' : Peer} {sent : Outbox}

/-- A peer that knows, talks to and waits for addresses among `A` only. -/
structure Within (A : Set SocketAddr) (P : PeerConfig) (S : Peer) : Prop where
  node : S.node.Within A
  pending : ∀ a ∈ S.pendingHandshakes, a ∈ A
  bootstrap : P.bootstrap ∈ A

/-- A peerlist makes handshakes pending with its entries only. -/
theorem mem_pending_of_peerlist {now : ℕ} {peers : List (SocketAddr × UInt8)}
    (h : a ∈ (S.onPeerlist P now peers).pendingHandshakes) :
    a ∈ S.pendingHandshakes ∨ ∃ e ∈ peers, e.1 = a := by
  have hone (T : Peer) (e : SocketAddr × UInt8)
      (h : a ∈ (onPeerlistEntry P now T e).pendingHandshakes) : a ∈ T.pendingHandshakes ∨ e.1 = a := by
    obtain ⟨peer, flags⟩ := e
    simp only [onPeerlistEntry] at h
    split at h
    · exact .inl h
    split at h
    · exact .inl h
    split at h
    · exact .inl h
    split at h <;> split at h
    · exact .inl h
    · exact ((AList.mem_insert _).mp h).symm.imp_right Eq.symm
    · exact .inl h
    · exact ((AList.mem_insert _).mp h).symm.imp_right Eq.symm
  unfold onPeerlist at h
  generalize hT : ({ S with sched := { S.sched with parents := ∅ } } : Peer) = T at h
  have hpending : T.pendingHandshakes = S.pendingHandshakes := by rw [← hT]
  rw [← hpending]
  clear hT hpending
  induction peers generalizing T with
  | nil => exact .inl h
  | cons e peers ih =>
    rcases ih _ h with hold | ⟨e', he', heq⟩
    · exact (hone T e hold).imp_right fun heq => ⟨e, List.mem_cons_self, heq⟩
    · exact .inr ⟨e', List.mem_cons_of_mem e he', heq⟩

theorem mem_pending_of_receive {w refresh : World} {m : Message}
    (h : S.receive P w refresh m src = .ok (S', sent)) (ha : a ∈ S'.pendingHandshakes) :
    a ∈ S.pendingHandshakes ∨ ∃ peers, m = .peerlistResponse peers ∧ ∃ e ∈ peers, e.1 = a := by
  have hevent := Node.handle_event S.node P.settings (w.after 1) m src
  cases m with
  | handshakeResponse observed name =>
    simp only [receive, hevent, Node.eventOf, Except.ok.injEq, Prod.mk.injEq] at h
    have hpending : S'.pendingHandshakes = S.pendingHandshakes.erase src := by
      rw [← h.1]
      unfold onHandshake
      dsimp only
      split <;> rfl
    rw [hpending] at ha
    exact .inl ((AList.mem_erase).mp ha).2
  | manifestResponse data => exact .inl ((onManifest_spec (receive_manifest h)).2.2 ▸ ha)
  | peerlistResponse peers =>
    simp only [receive, hevent, Node.eventOf, Except.ok.injEq, Prod.mk.injEq] at h
    rw [← h.1] at ha
    exact (mem_pending_of_peerlist ha).imp_right fun he => ⟨peers, rfl, he⟩
  | _ =>
    simp only [receive, hevent, Node.eventOf, Except.ok.injEq, Prod.mk.injEq] at h
    rw [← h.1] at ha
    exact .inl ha

/-- Between datagrams no address becomes known or pending. -/
theorem Step.addresses_kept {e : PeerEvent} (h : Step P S e S')
    (hquiet : ∀ w refresh m src, e ≠ .datagram w refresh m src) :
    (∀ a ∈ S'.node.peers, a ∈ S.node.peers) ∧ ∀ a ∈ S'.pendingHandshakes, a ∈ S.pendingHandshakes := by
  constructor
  · intro b hb
    obtain ⟨name, hname⟩ := Option.isSome_iff_exists.mp (Node.isSome_names.mpr hb)
    exact Node.isSome_names.mp (Option.isSome_of_eq_some ((h.names_kept hquiet).1 b name hname))
  · cases h with
    | mk hen happ =>
      cases e with
      | datagram w refresh m src => exact absurd rfl (hquiet w refresh m src)
      | retryHandshake now =>
        obtain rfl := fst_of_ok happ
        rw [(retryHandshake_spec P S now).2.2.1]
        exact fun b hb => hb
      | pollManifest now =>
        obtain rfl := fst_of_ok happ
        rw [(pollManifest_spec P S now).2.2.1]
        exact fun b hb => hb
      | pollPeerlist now =>
        obtain rfl := fst_of_ok happ
        rw [(pollPeerlist_spec P S now).2.2.1]
        exact fun b hb => hb
      | expirePending now =>
        obtain rfl := fst_of_ok happ
        intro b hb
        obtain ⟨d, hd⟩ := HashMap.mem_iff_lookup.mp hb
        simp only [expirePending, HashMap.lookup_retain, Option.filter_eq_some_iff] at hd
        exact HashMap.mem_iff_lookup.mpr ⟨d, hd.1⟩
      | tick | prunePeers | reap | fill =>
        obtain rfl := fst_of_ok happ
        exact fun b hb => hb

theorem Within.receive (h : S.Within A P) {w refresh : World} {m : Message} (hsrc : src ∈ A)
    (hm : m.Within A) (hrecv : S.receive P w refresh m src = .ok (S', sent)) :
    S'.Within A P ∧ ∀ x ∈ sent, Sent A x := by
  have hnode : (S.node.handle P.settings (w.after 1) m src).1.Within A := h.node.handle hsrc
  have hpending : ∀ b ∈ S'.pendingHandshakes, b ∈ A := by
    intro b hb
    rcases mem_pending_of_receive hrecv hb with hold | ⟨peers, rfl, e, he, rfl⟩
    · exact h.pending b hold
    · exact hm e he
  refine ⟨⟨?_, hpending, h.bootstrap⟩, fun x hx => ?_⟩
  · rw [receive_node hrecv]
    cases m with
    | handshakeResponse observed name =>
      refine ⟨fun b hb => ?_, hnode.registry⟩
      exact (Node.mem_registerPeer.mp hb).elim (fun heq => heq ▸ hsrc) (hnode.peers b)
    | manifestResponse data => exact ⟨hnode.peers, hnode.registry.senders, hnode.registry.receivers⟩
    | _ => exact hnode
  · rcases mem_receive hrecv hx with hsent | ⟨b, hb, rfl⟩
    · exact h.node.answer hsrc (Node.answer_of_mem_handle hsent)
    · exact ⟨trivial, .inl (hpending b hb)⟩

theorem Within.reap (h : S.Within A P) (w : World) (now : ℕ) (f : Finished) :
    (S.reap P w now f).1.node.registry.Within A := by
  simp only [Peer.reap, reapJob_registry]
  have hcollect : (collect w f S.node S.sched).1.registry.Within A := by
    unfold collect
    cases f.outcome with
    | ok u => exact (recordPull_registry _ _ _ _ _ _).symm ▸ h.node.registry
    | error e =>
      rw [recordPull_registry]
      refine ⟨h.node.registry.senders, fun i r hr => h.node.registry.receivers i r ?_⟩
      simp only [TransferRegistry.removeReceiver, HashMap.lookup_erase'] at hr
      split at hr
      next => cases hr
      next => exact hr
  exact ⟨hcollect.senders, hcollect.receivers⟩

/-- Whatever source is picked is the bootstrap or a known peer. -/
theorem Within.mem_of_pickPeer (h : S.Within A P) {ord : HashOrder} {now : ℕ} {f : String}
    (hpick : (pickPeer P S.node S.sched ord now f).1 = some a) : a ∈ A := by
  rcases pickPeer_mem hpick with hsrc | ⟨rfl, -⟩
  · obtain ⟨⟨p, hp, rfl⟩, -⟩ := mem_candidates.mp (eligible_of_mem_sources hsrc)
    unfold Node.effectiveAddr
    split
    · split
      next b info hfind => exact h.node.peers b (Node.mem_iter_peers (List.mem_of_find?_eq_some hfind))
      next => exact h.node.peers p hp
    · exact h.node.peers p hp
  · exact h.bootstrap

/-- A step of the loop keeps to the addresses, if what it receives does. -/
theorem Step.within {e : PeerEvent} (hen : S.Enabled e) (happ : S.apply P e = .ok (S', sent))
    (hin : ∀ w refresh m src, e = .datagram w refresh m src → src ∈ A ∧ m.Within A)
    (h : S.Within A P) : S'.Within A P ∧ ∀ x ∈ sent, Sent A x := by
  have hstep : Step P S e S' := .mk hen happ
  have hkept (hquiet : ∀ w refresh m src, e ≠ .datagram w refresh m src)
      (hreg : S'.node.registry.Within A) : S'.Within A P := by
    obtain ⟨hpeers, hpending⟩ := hstep.addresses_kept hquiet
    exact ⟨⟨fun b hb => h.node.peers b (hpeers b hb), hreg⟩,
      fun b hb => h.pending b (hpending b hb), h.bootstrap⟩
  cases e with
  | datagram w refresh m src =>
    obtain ⟨hsrc, hm⟩ := hin w refresh m src rfl
    exact h.receive hsrc hm happ
  | tick w now =>
    cases happ
    exact ⟨hkept (by simp) (h.node.tick now).registry, fun x hx => h.node.mem_tick hx⟩
  | prunePeers | retryHandshake | expirePending | pollManifest | pollPeerlist =>
    refine ⟨hkept (by simp) (by rw [apply_quiet_registry P happ trivial]; exact h.node.registry),
      fun x hx => ?_⟩
    obtain ⟨hto, hmsg⟩ := mem_quiet happ trivial hx
    refine ⟨?_, .inl (hto ▸ h.bootstrap)⟩
    rcases hmsg with heq | heq | heq
    all_goals
      rw [heq]
      trivial
  | reap w now f =>
    cases happ
    refine ⟨hkept (by simp) (h.reap w now f), fun x hx => ?_⟩
    obtain ⟨⟨av, hpong⟩, hto⟩ := mem_reap hx
    exact ⟨by rw [hpong]; trivial, .inl (h.node.peers _ hto)⟩
  | fill ids w =>
    obtain rfl := fst_of_ok happ
    obtain rfl := snd_of_ok happ
    rcases fillOne_cases P S ids w with ⟨hnode, hsent⟩ | ⟨clk, remote, f, -, hpick, hnode, hsent⟩
    · rw [hsent]
      exact ⟨hkept (by simp) (by rw [hnode]; exact h.node.registry), fun x hx => absurd hx List.not_mem_nil⟩
    · have hremote := h.mem_of_pickPeer hpick
      rw [hsent]
      refine ⟨hkept (by simp) ?_, fun x hx => ?_⟩
      · rw [hnode]
        exact h.node.registry.insertReceiver hremote _
      · rw [List.mem_singleton.mp hx]
        exact ⟨trivial, .inl hremote⟩

end Peer

namespace Party

/-- A process that keeps to the addresses. -/
def Within (A : Set SocketAddr) : Party → Prop
  | .master _ n => n.Within A
  | .peer P S => S.Within A P

variable {p q : Party} {e : PartyEvent} {sent : Outbox}

theorem new_within (clk : Clock) (name : String) (role : Role) (manifestName : String) (dir : Dir)
    (localAddr : SocketAddr) (nonce : UInt32) :
    (Node.new clk name role manifestName dir localAddr nonce).Within A where
  peers b hb := absurd hb (AList.notMem_empty b)
  registry := ⟨fun i s hs => (by cases hs), fun i r hr => (by cases hr)⟩

theorem Step.within (h : p.Step e q sent)
    (hin : ∀ m src, e.datagram = some (m, src) → src ∈ A ∧ m.Within A) (hp : p.Within A) :
    q.Within A ∧ ∀ x ∈ sent, Sent A x := by
  cases h with
  | master cfg n e =>
    have hn : n.Within A := hp
    cases e with
    | datagram w m src =>
      obtain ⟨hsrc, -⟩ := hin m src rfl
      exact ⟨hn.handle hsrc, fun x hx => hn.answer hsrc (Node.answer_of_mem_handle hx)⟩
    | tick w now => exact ⟨hn.tick now, fun x hx => hn.mem_tick hx⟩
    | files dir =>
      exact ⟨⟨hn.peers, hn.registry.senders, hn.registry.receivers⟩,
        fun x hx => absurd hx List.not_mem_nil⟩
  | peer hen happ =>
    refine Peer.Step.within hen happ (fun w refresh m src heq => ?_) hp
    subst heq
    exact hin m src rfl

end Party

namespace Swarm
variable {ι : Type} [DecidableEq ι] {X X' : Swarm ι}

/-- The processes keep to the addresses, and so does what is in flight. -/
structure Within (A : Set SocketAddr) (X : Swarm ι) : Prop where
  parties : ∀ i, (X.party i).Within A
  wire : ∀ x ∈ X.wire, Sent A x

omit [DecidableEq ι] in
/-- Datagrams come from `A`, and peers are started with a bootstrap in it. -/
def From (A : Set SocketAddr) (_ : Swarm ι) : SwarmEvent ι → Prop
  | .act _ e => ∀ m src, e.datagram = some (m, src) → src ∈ A
  | .start _ (.peer P _) => P.bootstrap ∈ A
  | _ => True

theorem Within.put (h : X.Within A) (i : ι) {p : Party} (hp : p.Within A) {wire : Outbox}
    (hwire : ∀ x ∈ wire, x ∈ X.wire ∨ Sent A x) (pulled : ℕ → String) :
    { X.put i p with wire := wire, pulled := pulled }.Within A where
  parties j := by
    by_cases hj : j = i
    · subst hj
      simpa [Swarm.put] using hp
    · simpa [Swarm.put, hj] using h.parties j
  wire x hx := (hwire x hx).elim (h.wire x) id

/-- A process that has just been started knows nobody but its bootstrap. -/
theorem starts_within {p : Party} (h : p.Starts) (hboot : ∀ P S, p = .peer P S → P.bootstrap ∈ A) :
    p.Within A := by
  cases h with
  | master cfg clk name manifestName dir localAddr nonce => exact Party.new_within ..
  | peer P w dir nonce claimed seed =>
    have hnode := @Party.new_within A (w.after 3).clk P.name .peer LIVE_MANIFEST
      (dir.removeFile PLAYBACK_MANIFEST) P.localAddr nonce
    exact ⟨⟨hnode.peers, hnode.registry⟩, fun b hb => absurd hb (AList.notMem_empty b),
      hboot P _ rfl⟩

theorem Step.within {e : SwarmEvent ι} (hstep : Step X e X') (hfrom : X.From A e)
    (h : X.Within A) : X'.Within A := by
  cases hstep with
  | @act i e p sent hparty hin =>
    have hdatagram : ∀ m src, e.datagram = some (m, src) → src ∈ A ∧ m.Within A := by
      intro m src hm
      obtain ⟨dst, hmem⟩ := hin m src hm
      exact ⟨hfrom m src hm, (h.wire _ hmem).1⟩
    obtain ⟨hp, hsent⟩ := hparty.within hdatagram (h.parties i)
    exact h.put i hp (fun x hx => (List.mem_append.mp hx).imp_right (hsent x)) _
  | disk i dir =>
    refine h.put i ?_ (fun x hx => .inl hx) _
    have hold := h.parties i
    cases hi : X.party i with
    | master cfg n =>
      rw [hi] at hold
      have hn : n.Within A := hold
      exact ⟨hn.peers, hn.registry.senders, hn.registry.receivers⟩
    | peer P S =>
      rw [hi] at hold
      have hS : S.Within A P := hold
      exact ⟨⟨hS.node.peers, hS.node.registry.senders, hS.node.registry.receivers⟩, hS.pending,
        hS.bootstrap⟩
  | start i hstarts =>
    refine h.put i (starts_within hstarts ?_) (fun x hx => .inl hx) _
    rintro P S rfl
    exact hfrom
  | lose x => exact ⟨h.parties, fun y hy => h.wire y (List.mem_of_mem_erase hy)⟩

/-- As long as no source is forged, no address enters a swarm from nowhere: whatever peerlists
pass on, all known peers, all that a handshake is pending with, and all that a datagram is sent
to have been the source of a datagram or are a bootstrap, or stand for the local network. -/
theorem addresses_real (A : Set SocketAddr) {X₀ X : Swarm ι} (hstart : X₀.Initial)
    (hboot : ∀ i P S, X₀.party i = .peer P S → P.bootstrap ∈ A) {es : List (SwarmEvent ι)}
    (h : Run (guarded (From A) Step) X₀ es X) :
    (∀ i, ∀ a ∈ (X.party i).node.peers, a ∈ A) ∧
    (∀ i P S, X.party i = .peer P S → ∀ a ∈ S.pendingHandshakes, a ∈ A) ∧
    ∀ x ∈ X.wire, x.2 ∈ A ∨ x.2.Broadcast := by
  have hX : X.Within A := by
    refine h.invariant (fun _ _ _ hs hst => hst.2.within hst.1 hs) ⟨fun i => ?_, fun x hx => ?_⟩
    · exact starts_within (hstart.starts i) fun P S hi => hboot i P S hi
    · simp [hstart.silent] at hx
  refine ⟨fun i a ha => ?_, fun i P S hi a ha => ?_, fun x hx => (hX.wire x hx).2⟩
  · have hi := hX.parties i
    cases hp : X.party i with
    | master cfg n =>
      rw [hp] at hi ha
      have hn : n.Within A := hi
      exact hn.peers a ha
    | peer P S =>
      rw [hp] at hi ha
      have hS : S.Within A P := hi
      exact hS.node.peers a ha
  · have hparty := hX.parties i
    rw [hi] at hparty
    have hS : S.Within A P := hparty
    exact hS.pending a ha

/-- The addresses of the demonstration: the origin and two peers. -/
def demoAddrs : Set SocketAddr := {demoAddr, demoOther, demoBootstrap}

/-- The steps that receive from the three addresses. -/
def demoHeard? (X : Swarm Bool) : SwarmEvent Bool → Option (Swarm Bool)
  | .act i e =>
    if e.datagram.all fun d => d.2 = demoAddr ∨ d.2 = demoOther ∨ d.2 = demoBootstrap then
      X.step? i e
    else none
  | _ => none

theorem step_of_demoHeard? {X X' : Swarm Bool} {e : SwarmEvent Bool} (h : demoHeard? X e = some X') :
    guarded (From demoAddrs) Step X e X' := by
  cases e with
  | act i e =>
    simp only [demoHeard?, Option.ite_none_right_eq_some] at h
    refine ⟨fun m src hm => ?_, .of_step? h.2⟩
    have hsrc := h.1
    rw [hm, Option.all_some, decide_eq_true_eq] at hsrc
    exact hsrc
  | disk | start | lose => cases h

/-- Two peers introduce themselves to the origin, and the first one asks it for peers. -/
def demoMeeting : List (SwarmEvent Bool) :=
  let w := demoWorld (secs 5)
  [.act true (.peer (.retryHandshake (secs 5))),
    .act false (.master (.datagram w (.handshakeRequest unspecifiedEndpoint "peer") demoAddr)),
    .act false (.master (.datagram w (.handshakeRequest unspecifiedEndpoint "peer") demoOther)),
    .act true (.peer (.datagram w w (.handshakeResponse demoAddr "origin") demoBootstrap)),
    .act true (.peer (.pollPeerlist (secs 5))),
    .act false (.master (.datagram w .peerlistRequest demoAddr)),
    .act true (.peer (.datagram w w (.peerlistResponse [(demoOther, 4)]) demoBootstrap))]

/-- The address of the second peer comes to the first one in a peerlist, and is shaken hands
with. -/
theorem addresses_real_demo : ∃ X, Run (guarded (From demoAddrs) Step) demoSwarm demoMeeting X ∧
    (∃ P S, X.party true = .peer P S ∧ demoOther ∈ S.pendingHandshakes ∧ demoOther ∈ demoAddrs) ∧
    ∃ m, (m, demoOther) ∈ X.wire ∧ (demoOther ∈ demoAddrs ∨ demoOther.Broadcast) := by
  have hrun : ((exec demoHeard? demoSwarm demoMeeting).any fun X =>
      (match X.party true with
        | .peer _ S => decide (demoOther ∈ S.pendingHandshakes)
        | .master _ _ => false) &&
      decide ((.handshakeRequest unspecifiedEndpoint "peer", demoOther) ∈ X.wire)) = true := by
    decide +kernel
  obtain ⟨X, hX, hknown⟩ := Run.exists_of_exec (f := demoHeard?) (fun _ _ _ => step_of_demoHeard?) hrun
  have hboot : ∀ i P S, demoSwarm.party i = .peer P S → P.bootstrap ∈ demoAddrs := by
    intro i P S hi
    cases i with
    | false => cases hi
    | true =>
      cases hi
      exact .inr (.inr rfl)
  obtain ⟨-, hpending, hwire⟩ := addresses_real demoAddrs demoSwarm_initial hboot hX
  rw [Bool.and_eq_true, decide_eq_true_eq] at hknown
  refine ⟨X, hX, ?_, _, hknown.2, hwire _ hknown.2⟩
  have hasked := hknown.1
  cases hp : X.party true with
  | master cfg n =>
    rw [hp] at hasked
    cases hasked
  | peer P S =>
    rw [hp] at hasked
    have hS := of_decide_eq_true hasked
    exact ⟨P, S, rfl, hS, hpending true P S hp _ hS⟩

end Swarm
end Qstream

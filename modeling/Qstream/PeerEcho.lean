import Qstream.NodeOutlet
import Qstream.PeerNames
import Qstream.ProtocolRoundTrip

/-! A node's own datagrams come back to it, from any address: by a broadcast, through a NAT, or
over another interface. Its PINGs are recognised by their nonce; its handshakes are not. -/
namespace Qstream
open Transfer Runs

def Message.IsHandshake (m : Message) : Prop :=
  m.header.1 = .handshakeRequest ∨ m.header.1 = .handshakeResponse

namespace Node
variable {n n' : Node} {cfg : NodeSettings} {w : World} {x : Message × SocketAddr}

/-- As far as PINGs go, the node may have sent the message. -/
def OwnPing (n : Node) (m : Message) : Prop :=
  ∀ nonce name, m = .ping nonce name → nonce = n.beaconNonce

theorem OwnPing.congr {m : Message} (h : n.OwnPing m) (hself : n'.self = n.self) :
    n'.OwnPing m := by
  intro nonce name heq
  have hnonce : n'.beaconNonce = n.beaconNonce := congrArg (fun s => s.2.2.2.1) hself
  rw [hnonce]
  exact h nonce name heq

theorem ownPing_of_type {m : Message} (h : m.header.1 ≠ .ping) : n.OwnPing m := by
  rintro nonce name rfl
  exact absurd rfl h

theorem handle_sends_own {m : Message} {src : SocketAddr} (h : x ∈ (n.handle cfg w m src).2.1) :
    x.1.header.1 ≠ .handshakeRequest ∧ n.OwnPing x.1 := by
  obtain ⟨m', dst⟩ := x
  cases mem_handle_sent h <;>
    exact ⟨by simp [Message.header], ownPing_of_type (by simp [Message.header])⟩

theorem tick_sends_own {now : ℕ} (h : x ∈ (n.tick cfg w now).2) :
    x.1.header.1 ≠ .handshakeRequest ∧ n.OwnPing x.1 := by
  rcases mem_tick now h with hreg | hping | ⟨av, hpong⟩
  · rcases TransferRegistry.mem_tick_sent hreg with ⟨i, s, -, hm⟩ | ⟨i, r, -, hm⟩
    · obtain ⟨p, d, heq⟩ :=
        SenderTransfer.contents_of_mem_sendPackets (SenderTransfer.mem_tick_sent hm)
      rw [heq]
      exact ⟨by simp [Message.header], ownPing_of_type (by simp [Message.header])⟩
    · rcases (ReceiverTransfer.onTick_spec cfg.transfer r now _).2.2 _ hm with heq | ⟨rg, -, heq⟩
      · rw [heq]
        exact ⟨by simp [Message.header, ReceiverTransfer.requestMessage],
          ownPing_of_type (by simp [Message.header, ReceiverTransfer.requestMessage])⟩
      · rw [heq]
        exact ⟨by simp [Message.header, ReceiverTransfer.ackMessage],
          ownPing_of_type (by simp [Message.header, ReceiverTransfer.ackMessage])⟩
  · rw [hping]
    refine ⟨by simp [Message.header, pingMessage], fun nonce name heq => ?_⟩
    cases heq
    rfl
  · rw [hpong]
    exact ⟨by simp [Message.header], ownPing_of_type (by simp [Message.header])⟩

/-- The source of a datagram is new to the node afterwards exactly when it was registered. -/
theorem Introduced.unknown_iff {src : SocketAddr} {intro : Option (String × Bool)}
    (h : Introduced n n' src intro) (hnew : src ∉ n.peers) : src ∉ n'.peers ↔ intro = none := by
  rw [← names_eq_none, h.names, if_pos rfl, names_eq_none.mpr hnew]
  cases intro <;> simp

/-- Back at the node, its own message is introduced as a peer if it asks for a handshake. -/
theorem introduces_own {m : Message} {src : SocketAddr} (h : n.OwnPing m) :
    n.introduces m src = none ↔ m.header.1 ≠ .handshakeRequest := by
  cases m with
  | ping nonce name =>
    have hown : nonce = n.beaconNonce := h nonce name rfl
    simp [introduces, hown, Message.header]
  | _ => simp [introduces, Message.header]

end Node

namespace Peer
variable {P : PeerConfig} {S S' : Peer}

theorem introduces_own {m : Message} {src : SocketAddr} (h : S.node.OwnPing m) :
    S.introduces m src = none ↔ ¬ m.IsHandshake := by
  cases m with
  | handshakeResponse observed name => simp [introduces, Message.IsHandshake, Message.header]
  | _ =>
    have hnode : S.node.introduces _ src = none ↔ _ := Node.introduces_own h
    simpa [introduces, Message.IsHandshake, Message.header] using hnode

/-- After a datagram the loop sends what the node does, and handshakes for a peerlist. -/
theorem receive_sent {w refresh : World} {m : Message} {src : SocketAddr} {sent : Outbox}
    (h : S.receive P w refresh m src = .ok (S', sent)) {x : Message × SocketAddr} (hx : x ∈ sent) :
    x ∈ (S.node.handle P.settings (w.after 1) m src).2.1 ∨
      ∃ T : Peer, x.1 = T.handshakeMessage P := by
  have hevent := Node.handle_event S.node P.settings (w.after 1) m src
  cases m with
  | manifestResponse data =>
    simp only [receive, hevent, Node.eventOf] at h
    cases hman : onManifest P { S with
        node := (S.node.handle P.settings (w.after 1) (.manifestResponse data) src).1 }
        (w.after 32) refresh data with
    | error e =>
      rw [hman] at h
      cases h
    | ok S1 =>
      rw [hman] at h
      cases h
      exact .inl hx
  | peerlistResponse peers =>
    simp only [receive, hevent, Node.eventOf] at h
    cases h
    rcases List.mem_append.mp hx with hin | hin
    · exact .inl hin
    · obtain ⟨a, -, rfl⟩ := List.mem_map.mp hin
      exact .inr ⟨_, rfl⟩
  | _ =>
    simp only [receive, hevent, Node.eventOf] at h
    cases h
    exact .inl hx

/-- The loop's own timers send handshakes and polls. -/
theorem quiet_sent {e : PeerEvent} {sent : Outbox} (h : S.apply P e = .ok (S', sent))
    (hquiet : e.Quiet) {x : Message × SocketAddr} (hx : x ∈ sent) :
    x.1 = S.handshakeMessage P ∨ x.1 = .manifestRequest ∨ x.1 = .peerlistRequest := by
  cases e with
  | prunePeers now =>
    cases h
    cases hx
  | expirePending now =>
    cases h
    cases hx
  | retryHandshake now =>
    obtain rfl := snd_of_ok h
    unfold retryHandshake at hx
    split at hx
    · exact .inl (congrArg Prod.fst (List.mem_singleton.mp hx))
    · cases hx
  | pollManifest now =>
    obtain rfl := snd_of_ok h
    unfold pollManifest at hx
    dsimp only at hx
    refine .inr (.inl ?_)
    split at hx <;> split at hx
    · exact congrArg Prod.fst (List.mem_singleton.mp hx)
    · exact congrArg Prod.fst (List.mem_singleton.mp hx)
    · cases hx
    · cases hx
  | pollPeerlist now =>
    obtain rfl := snd_of_ok h
    unfold pollPeerlist at hx
    dsimp only at hx
    refine .inr (.inr ?_)
    split at hx
    · exact congrArg Prod.fst (List.mem_singleton.mp hx)
    · cases hx
  | datagram | tick | reap | fill => exact hquiet.elim

/-- A collected segment is announced. -/
theorem reapJob_sent {w : World} {now : ℕ} {f : Finished} {n : Node} {s : Scheduler}
    {x : Message × SocketAddr} (hx : x ∈ (reapJob P w now f n s).2.2) : ∃ av, x.1 = .pong av := by
  cases hres : f.result with
  | ok =>
    simp only [reapJob, hres, reapOk] at hx
    obtain ⟨a, -, rfl⟩ := List.mem_map.mp hx
    exact ⟨_, rfl⟩
  | retryableNotFound => simp [reapJob, hres] at hx
  | _ =>
    have hf : f.Failed := ⟨by simp [hres], by simp [hres]⟩
    obtain ⟨hits, hspec⟩ := reapJob_failed P w now hf n s
    rw [hspec] at hx
    cases hx

/-- The loop sends no PING but the node's own. -/
theorem apply_sends_own {e : PeerEvent} {sent : Outbox} (h : S.apply P e = .ok (S', sent))
    {x : Message × SocketAddr} (hx : x ∈ sent) : S.node.OwnPing x.1 := by
  have hshake (T : Peer) : (T.handshakeMessage P).header.1 ≠ .ping := by
    simp [handshakeMessage, Message.header]
  cases e with
  | datagram w refresh m src =>
    rcases receive_sent h hx with hin | ⟨T, heq⟩
    · exact (Node.handle_sends_own hin).2
    · exact Node.ownPing_of_type (heq ▸ hshake T)
  | tick w now =>
    obtain rfl := snd_of_ok h
    exact (Node.tick_sends_own hx).2
  | prunePeers | retryHandshake | expirePending | pollManifest | pollPeerlist =>
    refine Node.ownPing_of_type ?_
    rcases quiet_sent h trivial hx with heq | heq | heq
    · exact heq ▸ hshake S
    · simp [heq, Message.header]
    · simp [heq, Message.header]
  | reap w now f =>
    obtain rfl := snd_of_ok h
    obtain ⟨av, heq⟩ := reapJob_sent hx
    exact Node.ownPing_of_type (by simp [heq, Message.header])
  | fill ids w =>
    obtain rfl := snd_of_ok h
    have hin : x ∈ (fillStep P ids w S.node S.sched).2.2.1 := hx
    rcases fillStep_cases P ids w S.node S.sched with
      ⟨rng, hstep⟩ | ⟨filename, rest, peer, rng, r, -, -, -, -, hstep⟩
    · rw [hstep] at hin
      cases hin
    · rw [hstep] at hin
      obtain rfl := List.mem_singleton.mp hin
      exact Node.ownPing_of_type (by simp [Message.header])

/-- A step of the loop sends the message. -/
def Sends (P : PeerConfig) (S : Peer) (e : PeerEvent) (m : Message) : Prop :=
  ∃ S' sent dst, S.apply P e = .ok (S', sent) ∧ (m, dst) ∈ sent

/-- The message was sent in a run of the peer, be it the handshake `run` starts with. -/
def HasSent (P : PeerConfig) (S0 : Peer) (es : List PeerEvent) (S : Peer) (m : Message) : Prop :=
  (Run (Step P) S0 es S ∧ m = S0.handshakeMessage P) ∨ Emitted (Step P) (Sends P) S0 es S m

theorem HasSent.own {S0 : Peer} {es : List PeerEvent} {m : Message} (h : HasSent P S0 es S m) :
    S.node.OwnPing m := by
  rcases h with ⟨-, rfl⟩ | h
  · exact Node.ownPing_of_type (by simp [handshakeMessage, Message.header])
  · refine h.invariant (Q := fun S m => S.node.OwnPing m) (fun S e S' m hstep hsent => ?_)
      fun S e S' m hstep hown => hown.congr hstep.self_eq
    obtain ⟨T, sent, dst, happ, hin⟩ := hsent
    exact (apply_sends_own happ hin).congr hstep.self_eq

end Peer

namespace Node

/-- A step of a master sends the message. -/
def Sends (cfg : NodeSettings) (n : Node) (e : NodeEvent) (m : Message) : Prop :=
  ∃ dst, (m, dst) ∈ (n.apply cfg e).2

theorem Sends.own {cfg : NodeSettings} {n : Node} {e : NodeEvent} {m : Message}
    (h : Sends cfg n e m) : m.header.1 ≠ .handshakeRequest ∧ n.OwnPing m := by
  obtain ⟨dst, hin⟩ := h
  cases e with
  | datagram w m src => exact handle_sends_own hin
  | tick w now => exact tick_sends_own hin
  | files dir => cases hin

theorem OwnPing.decoded {n : Node} {m m' : Message} (h : n.OwnPing m)
    (hback : decode (encode m) = .ok m') : m'.header.1 = m.header.1 ∧ n.OwnPing m' := by
  obtain ⟨htype, hping⟩ := decode_encode_type hback
  refine ⟨htype, ?_⟩
  rintro nonce name rfl
  cases m with
  | ping nonce' name' =>
    obtain ⟨name'', heq⟩ := hping nonce' name' rfl
    cases heq
    exact h nonce name' rfl
  | _ => cases htype

end Node

/-- A datagram that a peer has sent and gets back makes its source a known peer exactly when it
is a handshake; a master, which asks for none, never registers the source of one of its own. -/
theorem echo_registers_iff (dir : Dir) (nonce : UInt32) :
    (∀ P w claimed seed es S m m',
      Peer.HasSent P (.initial P w dir nonce claimed seed) es S m → decode (encode m) = .ok m' →
      ∀ w refresh src S' sent, S.receive P w refresh m' src = .ok (S', sent) →
        src ∉ S.node.peers → (src ∉ S'.node.peers ↔ ¬ m.IsHandshake)) ∧
    ∀ cfg clk name manifestName localAddr es n m m',
      Emitted (Node.Step cfg) (Node.Sends cfg) (.new clk name .master manifestName dir localAddr
        nonce) es n m → decode (encode m) = .ok m' →
      ∀ w src, src ∉ n.peers → src ∉ (n.handle cfg w m' src).1.peers := by
  refine ⟨fun P w claimed seed es S m m' hsent hback w refresh src S' sent hrecv hnew => ?_,
    fun cfg clk name manifestName localAddr es n m m' hsent hback w src hnew => ?_⟩
  · obtain ⟨htype, hown⟩ := hsent.own.decoded hback
    rw [(Peer.receive_introduced hrecv).unknown_iff hnew, Peer.introduces_own hown,
      Message.IsHandshake, Message.IsHandshake, htype]
  · have hboth : m.header.1 ≠ .handshakeRequest ∧ n.OwnPing m := by
      refine hsent.invariant (Q := fun n m => m.header.1 ≠ .handshakeRequest ∧ n.OwnPing m)
        (fun n e n' m hstep hm => ?_) fun n e n' m hstep hm => ?_
      · exact ⟨hm.own.1, hm.own.2.congr hstep.self_eq⟩
      · exact ⟨hm.1, hm.2.congr hstep.self_eq⟩
    obtain ⟨htype, hown⟩ := hboth.2.decoded hback
    rw [(Node.handle_introduced n cfg w m' src).unknown_iff hnew, Node.introduces_own hown, htype]
    exact hboth.1

/-- A message that meets the limits of the format comes back as its norm. -/
theorem comes_back {m : Message} (ht : m.Typed) (hlen : m.payload.length ≤ 65535) :
    decode (encode m) = .ok (norm m) :=
  (decode_encode_payload (header_lt ht) hlen).trans (decodePayload_payload ht)

/-- The peer once its timers have sent its first beacon. -/
def demoBeaconed : Peer := ((demoStart emptyDir).onTick demoConfig (demoWorld (secs 20)) (secs 20)).1

def demoSource : Node := .new (fun _ => 0) "master" .master "live.m3u8" emptyDir demoLocal 1

/-- The beacon comes back from an address of the local network, and so does a manifest that a
master has sent. -/
theorem own_ping_ignored :
    (∃ S' sent, demoBeaconed.receive demoConfig (demoWorld (secs 20)) (demoWorld (secs 20))
      (.ping 1 "peer") demoLan = .ok (S', sent) ∧ demoLan ∉ S'.node.peers) ∧
    demoLan ∉ ((demoSource.handle demoConfig.settings (demoWorld 1) .manifestRequest
      demoBootstrap).1.handle demoConfig.settings (demoWorld 2) (.manifestResponse []) demoLan).1.peers := by
  refine ⟨⟨_, _, rfl, ?_⟩, ?_⟩
  · have hsent : Peer.HasSent demoConfig (demoStart emptyDir)
        [.tick (demoWorld (secs 20)) (secs 20)] demoBeaconed (.ping 1 "peer") := by
      refine .inr (.now (.nil _) (.mk trivial rfl)
        ⟨_, _, ⟨.v4 ⟨255, 255, 255, 255⟩, 5000⟩, rfl, ?_⟩)
      decide +kernel
    refine ((echo_registers_iff emptyDir 1).1 demoConfig (demoWorld 0) none 1 _ _ _ _ hsent
      (comes_back trivial (by decide +kernel)) (demoWorld (secs 20)) (demoWorld (secs 20)) demoLan _ _ rfl
      (by decide +kernel)).mpr ?_
    simp [Message.IsHandshake, Message.header]
  · refine (echo_registers_iff emptyDir 1).2 demoConfig.settings (fun _ => 0) "master" "live.m3u8"
      demoLocal [.datagram (demoWorld 1) .manifestRequest demoBootstrap] _ (.manifestResponse []) _
      (.now (.nil _) (.mk _ _) ⟨demoBootstrap, ?_⟩) (comes_back trivial (by decide)) _ demoLan
      (by decide +kernel)
    decide +kernel

/-- The first handshake request of a peer comes back from another address, which it registers. -/
theorem own_handshake_registered :
    ∃ S' sent, Peer.HasSent demoConfig (demoStart emptyDir) [] (demoStart emptyDir)
        (.handshakeRequest unspecifiedEndpoint "peer") ∧
      decode (encode (.handshakeRequest unspecifiedEndpoint "peer")) =
        .ok (.handshakeRequest unspecifiedEndpoint "peer") ∧
      (demoStart emptyDir).receive demoConfig (demoWorld 1) (demoWorld 1)
        (.handshakeRequest unspecifiedEndpoint "peer") demoOther = .ok (S', sent) ∧
      demoOther ∉ (demoStart emptyDir).node.peers ∧ demoOther ∈ S'.node.peers :=
  ⟨_, _, .inl ⟨.nil _, rfl⟩, comes_back (by decide : (0 : ℕ) < 65536) (by decide +kernel), rfl,
    by decide +kernel, by decide +kernel⟩

end Qstream

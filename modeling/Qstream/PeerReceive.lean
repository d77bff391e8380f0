import Qstream.PeerLoop

/-! What a datagram does to the state of the loop. -/
namespace Qstream
open Transfer

namespace Peer
variable {P : PeerConfig} {S S' : Peer}

theorem receive_manifest {w refresh : World} {data : Bytes} {src : SocketAddr} {sent : Outbox}
    (h : S.receive P w refresh (.manifestResponse data) src = .ok (S', sent)) :
    onManifest P { S with node := S.node.touchPeer (w.after 1).clk src } (w.after 32) refresh
      data = .ok S' := by
  simp only [receive, Node.handle] at h
  cases hres : onManifest P { S with node := S.node.touchPeer (w.after 1).clk src }
      (w.after 32) refresh data with
  | error e => simp [hres, Except.map] at h
  | ok S1 =>
    simp only [hres, Except.map, Except.ok.injEq, Prod.mk.injEq] at h
    rw [h.1]

/-- What a datagram does beyond the node's own handling of it. -/
theorem receive_cases {w refresh : World} {m : Message} {src : SocketAddr} {sent : Outbox}
    (h : S.receive P w refresh m src = .ok (S', sent)) :
    let S1 := { S with node := (S.node.handle P.settings (w.after 1) m src).1 }
    (∃ name, S' = S1.onHandshake P (w.after 32).clk src name) ∨
    (∃ data, m = .manifestResponse data ∧
      S1.node = S.node.touchPeer (w.after 1).clk src ∧
      S1.onManifest P (w.after 32) refresh data = .ok S') ∨
    (∃ peers, S' = S1.onPeerlist P (w.clk 0) peers) ∨ S' = S1 := by
  have hevent := Node.handle_event S.node P.settings (w.after 1) m src
  cases m with
  | handshakeResponse observed name =>
    simp only [receive, hevent, Node.eventOf, Except.ok.injEq, Prod.mk.injEq] at h
    exact .inl ⟨name, h.1.symm⟩
  | manifestResponse data => exact .inr (.inl ⟨data, rfl, rfl, receive_manifest h⟩)
  | peerlistResponse peers =>
    simp only [receive, hevent, Node.eventOf, Except.ok.injEq, Prod.mk.injEq] at h
    exact .inr (.inr (.inl ⟨peers, h.1.symm⟩))
  | _ =>
    simp only [receive, hevent, Node.eventOf, Except.ok.injEq, Prod.mk.injEq] at h
    exact .inr (.inr (.inr h.1.symm))

/-- A manifest leaves the peers and handshakes alone. -/
theorem onManifest_spec {w refresh : World} {data : Bytes}
    (h : S.onManifest P w refresh data = .ok S') :
    S'.node.peers = S.node.peers ∧ S'.handshakeDone = S.handshakeDone ∧
    S'.pendingHandshakes = S.pendingHandshakes := by
  unfold onManifest at h
  split at h
  · cases h
    exact ⟨rfl, rfl, rfl⟩
  · split at h
    · cases h
    · cases h
      exact ⟨rfl, rfl, rfl⟩
    · split at h
      · cases h
      · cases h
        exact ⟨rfl, rfl, rfl⟩

/-- A peerlist shakes hands only with addresses that are not yet known. -/
theorem onPeerlistEntry_spec (now : ℕ) (S : Peer) (e : SocketAddr × UInt8) :
    (onPeerlistEntry P now S e).node = S.node ∧
    (onPeerlistEntry P now S e).handshakeDone = S.handshakeDone ∧
    (∃ parents, (onPeerlistEntry P now S e).sched = { S.sched with parents := parents }) ∧
    ∀ a ∈ S.node.peers, a ∉ S.pendingHandshakes →
      a ∉ (onPeerlistEntry P now S e).pendingHandshakes := by
  obtain ⟨peer, flags⟩ := e
  -- a new parent changes nothing that matters here
  have hshake : ∀ parents, let S1 : Peer := { S with sched := { S.sched with parents := parents } }
      let T := if peer ∈ S1.node.peers ∨ peer ∈ S1.pendingHandshakes then S1
        else { S1 with
          pendingHandshakes := S1.pendingHandshakes.insert peer (now + HANDSHAKE_TIMEOUT) }
      T.node = S.node ∧ T.handshakeDone = S.handshakeDone ∧
      (∃ parents, T.sched = { S.sched with parents := parents }) ∧
      ∀ a ∈ S.node.peers, a ∉ S.pendingHandshakes → a ∉ T.pendingHandshakes := by
    intro parents
    simp only
    split
    · exact ⟨rfl, rfl, ⟨_, rfl⟩, fun _ _ h => h⟩
    · rename_i hnew
      refine ⟨rfl, rfl, ⟨_, rfl⟩, fun a ha hp hmem => ?_⟩
      rcases (AList.mem_insert _).mp hmem with rfl | hmem
      · exact hnew (.inl ha)
      · exact hp hmem
  simp only [onPeerlistEntry]
  split
  · exact ⟨rfl, rfl, ⟨_, rfl⟩, fun _ _ h => h⟩
  split
  · exact ⟨rfl, rfl, ⟨_, rfl⟩, fun _ _ h => h⟩
  split
  · exact ⟨rfl, rfl, ⟨_, rfl⟩, fun _ _ h => h⟩
  by_cases hparent : flags &&& PEER_PARENT ≠ 0
  · simp only [if_pos hparent]
    exact hshake (insert peer S.sched.parents)
  · simp only [if_neg hparent]
    exact hshake S.sched.parents

theorem foldl_peerlist_spec (now : ℕ) (peers : List (SocketAddr × UInt8)) (S : Peer) :
    let S' := peers.foldl (onPeerlistEntry P now) S
    S'.node = S.node ∧ S'.handshakeDone = S.handshakeDone ∧
    (∃ parents, S'.sched = { S.sched with parents := parents }) ∧
    ∀ a ∈ S.node.peers, a ∉ S.pendingHandshakes → a ∉ S'.pendingHandshakes := by
  induction peers generalizing S with
  | nil => exact ⟨rfl, rfl, ⟨S.sched.parents, rfl⟩, fun _ _ h => h⟩
  | cons e peers ih =>
    obtain ⟨hn, hd, ⟨parents, hs⟩, hp⟩ := onPeerlistEntry_spec (P := P) now S e
    obtain ⟨hn', hd', ⟨parents', hs'⟩, hp'⟩ := ih (onPeerlistEntry P now S e)
    refine ⟨hn'.trans hn, hd'.trans hd, ⟨parents', ?_⟩, fun a ha hnot => ?_⟩
    · rw [List.foldl_cons, hs', hs]
    · exact hp' a (hn.symm ▸ ha) (hp a ha hnot)

theorem onPeerlist_node (S : Peer) (now : ℕ) (peers : List (SocketAddr × UInt8)) :
    (S.onPeerlist P now peers).node = S.node :=
  (foldl_peerlist_spec (P := P) now peers { S with
    sched := { S.sched with parents := ∅ } }).1

/-- What the loop makes of the node that a datagram leaves: a HANDSHAKE_RESPONSE registers its
source, and a manifest may change the files. -/
def settled (w : World) (m : Message) (src : SocketAddr) (dir : Dir) (n : Node) : Node :=
  match m with
  | .handshakeResponse _ name => n.registerPeer (w.after 32).clk src name
  | .manifestResponse _ => n.withDir dir
  | _ => n

theorem receive_node {w refresh : World} {m : Message} {src : SocketAddr} {sent : Outbox}
    (h : S.receive P w refresh m src = .ok (S', sent)) :
    S'.node = settled w m src S'.node.registry.dir
      (S.node.handle P.settings (w.after 1) m src).1 := by
  have hevent := Node.handle_event S.node P.settings (w.after 1) m src
  cases m with
  | handshakeResponse observed name =>
    simp only [receive, hevent, Node.eventOf, Except.ok.injEq, Prod.mk.injEq] at h
    rw [← h.1]
    simp only [onHandshake]
    split <;> rfl
  | manifestResponse data =>
    have hman := receive_manifest h
    have hnode : (S.node.handle P.settings (w.after 1) (.manifestResponse data) src).1 =
        S.node.touchPeer (w.after 1).clk src := rfl
    rw [hnode]
    unfold onManifest at hman
    split at hman
    · cases hman
      rfl
    · split at hman
      · cases hman
      · cases hman
        rfl
      · split at hman
        · cases hman
        · cases hman
          rfl
  | peerlistResponse peers =>
    simp only [receive, hevent, Node.eventOf, Except.ok.injEq, Prod.mk.injEq] at h
    rw [← h.1]
    exact onPeerlist_node _ _ _
  | _ =>
    simp only [receive, hevent, Node.eventOf, Except.ok.injEq, Prod.mk.injEq] at h
    exact h.1 ▸ rfl

end Peer
end Qstream

import Qstream.PeerReceive
import Qstream.PeerTurn

/-! The bootstrap stays a known peer once its handshake has succeeded, as long as it is
neither evicted nor pruned. Expiring handshakes cannot remove it. -/
namespace Qstream
open Transfer Runs

namespace Peer
variable {P : PeerConfig} {S S' : Peer}

/-- After the handshake with it, the bootstrap is known and no longer pending. -/
def BootstrapKept (P : PeerConfig) (S : Peer) : Prop :=
  S.handshakeDone = true → P.bootstrap ∈ S.node.peers ∧ P.bootstrap ∉ S.pendingHandshakes

theorem BootstrapKept.congr (h : BootstrapKept P S) (hpeers : S'.node.peers = S.node.peers)
    (hdone : S'.handshakeDone = S.handshakeDone)
    (hpend : S'.pendingHandshakes = S.pendingHandshakes) : BootstrapKept P S' := by
  intro hd
  rw [hpeers, hpend]
  exact h (hdone ▸ hd)

/-- The step neither prunes nor evicts a bootstrap whose handshake has succeeded: it was
heard from within the time to live, and is not silent for the third time running. -/
def SparesBootstrap (P : PeerConfig) (S : Peer) : PeerEvent → Prop
  | .prunePeers now => S.handshakeDone = true → ∀ info,
      S.node.peers.lookup P.bootstrap = some info → now - info.lastSeen < PEER_TTL
  | .reap _ _ f => S.handshakeDone = true → f.Failed → f.job.peer = P.bootstrap →
      evicts f S.sched = false
  | _ => True

theorem onHandshake_kept (clk : Clock) (src : SocketAddr) (name : String)
    (h : BootstrapKept P S) : BootstrapKept P (S.onHandshake P clk src name) := by
  have hmem : ∀ a ∈ S.node.peers, a ∈ (S.node.registerPeer clk src name).peers :=
    fun a ha => Node.mem_registerPeer.mpr (.inr ha)
  simp only [onHandshake]
  split
  · rename_i hfirst
    intro _
    refine ⟨Node.mem_registerPeer.mpr (.inl hfirst.1.symm), ?_⟩
    rw [hfirst.1]
    simp [AList.mem_erase]
  · intro hdone
    obtain ⟨hk, hp⟩ := h hdone
    exact ⟨hmem _ hk, fun hin => hp ((AList.mem_erase).mp hin).2⟩

theorem foldl_removePeer_mem {a : SocketAddr} (l : List (SocketAddr × ℕ)) (n : Node)
    (hl : ∀ e ∈ l, e.1 ≠ a) (h : a ∈ n.peers) :
    a ∈ (l.foldl (fun n e => n.removePeer e.1) n).peers := by
  induction l generalizing n with
  | nil => exact h
  | cons e l ih =>
    refine ih _ (fun e' he' => hl e' (List.mem_cons_of_mem _ he')) ?_
    exact AList.mem_erase.mpr ⟨(hl e List.mem_cons_self).symm, h⟩

/-- Expiring handshakes remove only addresses that are pending. -/
theorem expirePending_kept (now : ℕ) (h : BootstrapKept P S) :
    BootstrapKept P (S.expirePending now) := by
  intro hdone
  obtain ⟨hk, hp⟩ := h hdone
  refine ⟨foldl_removePeer_mem _ _ ?_ hk, fun hin => hp (HashMap.mem_of_mem_retain hin)⟩
  rintro ⟨a, t⟩ he rfl
  have hpair := (List.mem_filter.mp he).1
  exact hp (HashMap.mem_iff_lookup.mpr ⟨t, HashMap.mem_pairs.mp hpair⟩)

theorem reap_kept (w : World) (now : ℕ) (f : Finished)
    (hspare : S.handshakeDone = true → f.Failed → f.job.peer = P.bootstrap →
      evicts f S.sched = false)
    (h : BootstrapKept P S) : BootstrapKept P (S.reap P w now f).1 := by
  intro hdone
  obtain ⟨hk, hp⟩ := h hdone
  refine ⟨?_, hp⟩
  show P.bootstrap ∈ (reapJob P w now f S.node S.sched).1.peers
  rcases reapJob_cases P w now f S.node S.sched with ⟨-, -, -, heq⟩ | ⟨-, -, -, heq⟩ |
    ⟨hf, heq, -⟩
  · rw [heq]
    exact hk
  · rw [heq]
    exact hk
  · rw [heq, afterEviction]
    split
    · rename_i hev
      refine AList.mem_erase.mpr ⟨fun hpeer => ?_, hk⟩
      rw [hspare hdone hf hpeer.symm] at hev
      cases hev
    · exact hk

theorem fillOne_peers (ids : TransferRegistry.IdSource) (w : World) :
    (S.fillOne P ids w).1.node.peers = S.node.peers := by
  unfold fillOne
  rcases fillStep_cases P ids w S.node S.sched with ⟨rng, h⟩ | ⟨f, rest, peer, rng, r, -, -, -, -, h⟩
  · simp [h]
  · simp [h, Node.addReceiver]

/-- A step that spares the bootstrap keeps it. -/
theorem Step.bootstrapKept {e : PeerEvent} (hstep : Step P S e S') (hspare : SparesBootstrap P S e)
    (h : BootstrapKept P S) : BootstrapKept P S' := by
  cases hstep with
  | mk hen happ =>
    cases e with
    | datagram w refresh m src =>
      have hhandle : BootstrapKept P
          { S with node := (S.node.handle P.settings (w.after 1) m src).1 } :=
        fun hdone => ⟨Node.mem_handle _ _ _ _ (h hdone).1, (h hdone).2⟩
      rcases receive_cases happ with ⟨name, rfl⟩ | ⟨data, -, -, hman⟩ | ⟨peers, rfl⟩ | rfl
      · exact onHandshake_kept _ _ _ hhandle
      · obtain ⟨hpeers, hdone, hpend⟩ := onManifest_spec hman
        intro hd
        rw [hpeers, hpend]
        exact hhandle (hdone ▸ hd)
      · obtain ⟨hnode, hdone, -, hpend⟩ := foldl_peerlist_spec (P := P) (w.clk 0) peers
          { S with
            node := (S.node.handle P.settings (w.after 1) m src).1
            sched := { S.sched with parents := ∅ } }
        intro hd
        obtain ⟨hk, hp⟩ := hhandle (hdone ▸ hd)
        exact ⟨hnode ▸ hk, hpend _ hk hp⟩
      · exact hhandle
    | tick w now =>
      obtain rfl := fst_of_ok happ
      exact h.congr (Node.tick_peers S.node P.settings w now) rfl rfl
    | prunePeers now =>
      obtain rfl := fst_of_ok happ
      intro hdone
      obtain ⟨hk, hp⟩ := h hdone
      obtain ⟨info, hinfo⟩ := HashMap.mem_iff_lookup.mp hk
      refine ⟨HashMap.mem_retain.mpr ⟨info, hinfo, ?_⟩, hp⟩
      simpa using hspare hdone info hinfo
    | retryHandshake now =>
      obtain rfl := fst_of_ok happ
      obtain ⟨hn, hd, hp, -⟩ := retryHandshake_spec P S now
      exact h.congr (by rw [hn]) hd hp
    | expirePending now =>
      obtain rfl := fst_of_ok happ
      exact expirePending_kept now h
    | pollManifest now =>
      obtain rfl := fst_of_ok happ
      obtain ⟨hn, hd, hp, -⟩ := pollManifest_spec P S now
      exact h.congr (by rw [hn]) hd hp
    | pollPeerlist now =>
      obtain rfl := fst_of_ok happ
      obtain ⟨hn, hd, hp, -⟩ := pollPeerlist_spec P S now
      exact h.congr (by rw [hn]) hd hp
    | reap w now f =>
      obtain rfl := fst_of_ok happ
      exact reap_kept w now f hspare h
    | fill ids w =>
      obtain rfl := fst_of_ok happ
      exact h.congr (fillOne_peers ids w) rfl rfl

end Peer

/-- In every run whose steps neither prune nor evict it, the bootstrap is a known peer
from its first handshake on. -/
theorem bootstrap_retained (P : PeerConfig) (w : World) (dir : Dir) (nonce : UInt32)
    (claimed : Option SocketAddr) (seed : UInt64) {es : List PeerEvent} {S : Peer}
    (h : Run (guarded (Peer.SparesBootstrap P) (Peer.Step P))
      (Peer.initial P w dir nonce claimed seed) es S) :
    P.bootstrap ∈ S.node.peers ∨ S.handshakeDone = false := by
  have hkept : Peer.BootstrapKept P S :=
    h.invariant (fun _ _ _ hS hstep => hstep.2.bootstrapKept hstep.1 hS)
      (fun hdone => absurd hdone (by simp [Peer.initial]))
  cases hdone : S.handshakeDone with
  | true => exact .inl (hkept hdone).1
  | false => exact .inr rfl

/-- The bootstrap answers, and is heard from often enough. -/
theorem bootstrap_retained_demo :
    ∃ S, Run (Peer.Step demoConfig) (demoStart emptyDir)
        [.datagram (demoWorld 1) (demoWorld 1) (.handshakeResponse demoLocal "origin") demoBootstrap,
          .prunePeers (secs 500)] S ∧
      (demoBootstrap ∈ S.node.peers ∨ S.handshakeDone = false) := by
  have hrun : Run (guarded (Peer.SparesBootstrap demoConfig) (Peer.Step demoConfig))
      (demoStart emptyDir)
      [.datagram (demoWorld 1) (demoWorld 1) (.handshakeResponse demoLocal "origin") demoBootstrap,
        .prunePeers (secs 500)] _ :=
    .cons ⟨trivial, Peer.Step.ok trivial rfl⟩
      (.one ⟨fun _ info hinfo => by
        have hseen : info = ⟨"origin", 1⟩ := Option.some.inj (hinfo.symm.trans (by decide +kernel))
        rw [hseen]
        decide, Peer.Step.ok trivial rfl⟩)
  exact ⟨_, hrun.mono fun _ _ _ h => h.2,
    bootstrap_retained demoConfig (demoWorld 0) emptyDir 1 none 1 hrun⟩

/-- After ten silent minutes the bootstrap is pruned, and its handshake is not retried. -/
theorem pruned_bootstrap_is_lost :
    ∃ S, Run (Peer.Step demoConfig) (demoStart emptyDir)
        [.datagram (demoWorld 1) (demoWorld 1) (.handshakeResponse demoLocal "origin") demoBootstrap,
          .prunePeers (secs 601)] S ∧
      ¬ (demoBootstrap ∈ S.node.peers ∨ S.handshakeDone = false) :=
  ⟨_, .cons (Peer.Step.ok trivial rfl) (.one (Peer.Step.ok trivial rfl)), by decide +kernel⟩

end Qstream

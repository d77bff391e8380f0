import Qstream.NodePeerlist
import Qstream.PeerReceive

/-! Endpoints that only nearby hosts can reach: who is told of them, and who shakes hands with
them. -/
namespace Qstream
open Transfer

/-- 169.254/16. -/
def Ipv4Addr.isLinkLocal (ip : Ipv4Addr) : Bool := ip.a = 169 ∧ ip.b = 254

namespace SocketAddr

/-- The rule: an endpoint is globally reachable unless it is loopback, private or link-local. -/
def nearby (addr : SocketAddr) : Bool :=
  match addr.ip with
  | .v4 ip => ip.isLoopback ∨ ip.isPrivate ∨ ip.isLinkLocal
  | .v6 ip => isLoopback6 ip ∨ isUnicastLinkLocal ip

def linkLocal4 (addr : SocketAddr) : Bool :=
  match addr.ip with
  | .v4 ip => ip.isLinkLocal
  | .v6 _ => false

theorem nearby_of_linkLocal4 {addr : SocketAddr} (h : addr.linkLocal4 = true) :
    addr.nearby = true := by
  obtain ⟨ip, port⟩ := addr
  cases ip with
  | v4 ip => simpa [nearby] using .inr (.inr h)
  | v6 ip => cases h

/-- The predicate of the code takes the link-local addresses of IPv4 for reachable ones. -/
theorem remotePublic_iff {addr : SocketAddr} :
    remotePublic addr = true ↔ addr.nearby = false ∨ addr.linkLocal4 = true := by
  obtain ⟨ip, port⟩ := addr
  cases ip with
  | v4 ip =>
    have hapart : ip.isLinkLocal = true → ip.isLoopback = false ∧ ip.isPrivate = false := by
      intro h
      obtain ⟨ha, hb⟩ := of_decide_eq_true h
      simp [Ipv4Addr.isLoopback, Ipv4Addr.isPrivate, ha]
    simp only [remotePublic, nearby, linkLocal4]
    cases hl : ip.isLinkLocal with
    | true => simp [hapart hl]
    | false => simp
  | v6 ip => simp [remotePublic, nearby, linkLocal4]

end SocketAddr

namespace Node
variable {n : Node} {src p : SocketAddr}

/-- How many reachable peers other than `src` stand before `p`. -/
def aheadOf (n : Node) (src p : SocketAddr) : ℕ :=
  n.peers.keys.countP fun q => q ≠ src ∧ remotePublic q ∧ n.rank q < n.rank p

theorem mem_advertised_iff (ht : ∀ a ∈ n.peers, a.Typed) (hsrc : remotePublic src = true) :
    p ∈ (n.advertised src).map Prod.fst ↔
      p ∈ n.peers ∧ p ≠ src ∧ remotePublic p = true ∧ n.aheadOf src p < 16 := by
  have hcount : ((n.candidates src).countP fun q => n.rank q < n.rank p) = n.aheadOf src p := by
    rw [candidates, List.countP_filter, aheadOf]
    refine List.countP_congr fun q _ => ?_
    simp only [hsrc, Bool.and_eq_true, decide_eq_true_eq]
    tauto
  rw [map_fst_advertised, advertisable_eq,
    Ranking.mem_take_sorted (rank_injOn ht src) (n.candidates_nodup src), hcount, mem_candidates]
  constructor
  · rintro ⟨⟨hknown, hother, hreach⟩, hfew⟩
    exact ⟨hknown, hother, hreach hsrc, hfew⟩
  · rintro ⟨hknown, hother, hreach, hfew⟩
    exact ⟨⟨hknown, hother, fun _ => hreach⟩, hfew⟩

/-- A reply to a reachable requester names no nearby endpoint exactly when the known link-local
ones of IPv4 have sixteen reachable peers before them. -/
theorem advertised_reachable_iff (ht : ∀ a ∈ n.peers, a.Typed) (hsrc : src.nearby = false) :
    (∀ e ∈ n.advertised src, e.1.nearby = false) ↔
      ∀ p ∈ n.peers, p.linkLocal4 = true → 16 ≤ n.aheadOf src p := by
  have hpublic : remotePublic src = true := SocketAddr.remotePublic_iff.mpr (.inl hsrc)
  constructor
  · intro h p hp hlocal
    have hnear := SocketAddr.nearby_of_linkLocal4 hlocal
    have hother : p ≠ src := by
      rintro rfl
      rw [hsrc] at hnear
      cases hnear
    by_contra hfew
    obtain ⟨e, he, rfl⟩ := List.mem_map.mp ((mem_advertised_iff ht hpublic).mpr ⟨hp, hother,
      SocketAddr.remotePublic_iff.mpr (.inr hlocal), Nat.lt_of_not_le hfew⟩)
    rw [h e he] at hnear
    cases hnear
  · intro h e he
    obtain ⟨hknown, -, hreach, hfew⟩ :=
      (mem_advertised_iff ht hpublic).mp (List.mem_map_of_mem he)
    rcases SocketAddr.remotePublic_iff.mp hreach with hfar | hlocal
    · exact hfar
    · exact absurd (h e.1 hknown hlocal) (Nat.not_le_of_lt hfew)

end Node

namespace Peer
variable {P : PeerConfig} {S : Peer} {now : ℕ} {a : SocketAddr}

/-- An entry that a reachable peer passes over for a reason other than its address. -/
def Skips (P : PeerConfig) (S : Peer) (e : SocketAddr × UInt8) : Prop :=
  e.1 = P.localAddr ∨ e.1.port = 0 ∨ e.2 &&& PEER_SAME_IP ≠ 0 ∨ e.1 ∈ S.node.peers

/-- What one entry adds to the pending handshakes of a reachable peer. -/
theorem mem_pending_onPeerlistEntry (hpub : S.node.myPublic.map remotePublic = some true)
    (e : SocketAddr × UInt8) : a ∈ (onPeerlistEntry P now S e).pendingHandshakes ↔
      a ∈ S.pendingHandshakes ∨ a = e.1 ∧ ¬ S.Skips P e ∧ remotePublic e.1 = true := by
  obtain ⟨peer, flags⟩ := e
  have hany : S.node.myPublic.any remotePublic = true := by
    obtain ⟨pub, hsome, htrue⟩ := Option.map_eq_some_iff.mp hpub
    simp [hsome, htrue]
  have hkeep : (¬ S.Skips P (peer, flags) → remotePublic peer = true → False) →
      (a ∈ S.pendingHandshakes ↔ a ∈ S.pendingHandshakes ∨
        a = peer ∧ ¬ S.Skips P (peer, flags) ∧ remotePublic peer = true) := by
    intro hnot
    exact ⟨.inl, fun h => h.resolve_right fun ⟨_, h1, h2⟩ => hnot h1 h2⟩
  -- recording a parent changes neither the peers nor the handshakes
  have hshake (parents : Finset SocketAddr) (hrest : ¬ (peer = P.localAddr ∨ peer.port = 0))
      (hfar : remotePublic peer = true) (hsame : ¬ flags &&& PEER_SAME_IP ≠ 0) :
      a ∈ (if peer ∈ S.node.peers ∨ peer ∈ S.pendingHandshakes then
          { S with sched := { S.sched with parents := parents } }
        else { S with
          sched := { S.sched with parents := parents }
          pendingHandshakes := S.pendingHandshakes.insert peer (now + HANDSHAKE_TIMEOUT) } :
          Peer).pendingHandshakes ↔
        a ∈ S.pendingHandshakes ∨ a = peer ∧ ¬ S.Skips P (peer, flags) ∧ remotePublic peer = true := by
    split
    next hold =>
      rcases hold with hknown | hpending
      · exact hkeep fun hnot _ => hnot (.inr (.inr (.inr hknown)))
      · exact ⟨.inl, fun h => h.elim id fun ⟨heq, _⟩ => heq ▸ hpending⟩
    next hnew =>
      have hskips : ¬ S.Skips P (peer, flags) := by
        rintro (h | h | h | h)
        · exact hrest (.inl h)
        · exact hrest (.inr h)
        · exact hsame h
        · exact hnew (.inl h)
      rw [AList.mem_insert]
      constructor
      · rintro (rfl | h)
        · exact .inr ⟨rfl, hskips, hfar⟩
        · exact .inl h
      · rintro (h | ⟨rfl, -⟩)
        · exact .inr h
        · exact .inl rfl
  unfold onPeerlistEntry
  simp only [hany, hpub]
  split
  next hself => exact hkeep fun hnot _ => hnot (hself.imp_right .inl)
  next hself =>
  split
  next hfar => exact hkeep fun _ hreach => hfar.2 hreach
  next hfar =>
  split
  next hsame => exact hkeep fun hnot _ => hnot (.inr (.inr (.inl hsame.1)))
  next hsame =>
  have hreach : remotePublic peer = true := by simpa using hfar
  by_cases hparent : flags &&& PEER_PARENT ≠ 0
  · simp only [if_pos hparent]
    exact hshake (insert peer S.sched.parents) hself hreach fun h => hsame ⟨h, trivial⟩
  · simp only [if_neg hparent]
    exact hshake S.sched.parents hself hreach fun h => hsame ⟨h, trivial⟩

theorem mem_pending_foldl (hpub : S.node.myPublic.map remotePublic = some true)
    (peers : List (SocketAddr × UInt8)) :
    a ∈ (peers.foldl (onPeerlistEntry P now) S).pendingHandshakes ↔
      a ∈ S.pendingHandshakes ∨ ∃ e ∈ peers, a = e.1 ∧ ¬ S.Skips P e ∧ remotePublic e.1 = true := by
  induction peers generalizing S with
  | nil => simp
  | cons e peers ih =>
    obtain ⟨hnode, -⟩ := onPeerlistEntry_spec (P := P) now S e
    have hskips (e' : SocketAddr × UInt8) :
        (onPeerlistEntry P now S e).Skips P e' ↔ S.Skips P e' := by rw [Skips, hnode, Skips]
    rw [List.foldl_cons, ih (by rw [hnode]; exact hpub), mem_pending_onPeerlistEntry hpub]
    simp only [hskips, List.exists_mem_cons_iff, or_assoc]

theorem mem_pending_onPeerlist (hpub : S.node.myPublic.map remotePublic = some true)
    (peers : List (SocketAddr × UInt8)) : a ∈ (S.onPeerlist P now peers).pendingHandshakes ↔
      a ∈ S.pendingHandshakes ∨ ∃ e ∈ peers, a = e.1 ∧ ¬ S.Skips P e ∧ remotePublic e.1 = true :=
  mem_pending_foldl (S := { S with sched := { S.sched with parents := ∅ } }) hpub peers

/-- The handshakes that a peer starts for a list it receives. -/
theorem receive_peerlist {w refresh : World} {peers : List (SocketAddr × UInt8)} {src : SocketAddr}
    {S' : Peer} {sent : Outbox} (hpub : S.node.myPublic.map remotePublic = some true)
    (h : S.receive P w refresh (.peerlistResponse peers) src = .ok (S', sent)) :
    a ∈ sent.map Prod.snd ↔ a ∉ S.pendingHandshakes ∧
      ∃ e ∈ peers, a = e.1 ∧ ¬ S.Skips P e ∧ remotePublic e.1 = true := by
  simp only [receive, Node.handle, List.nil_append, Except.ok.injEq, Prod.mk.injEq] at h
  obtain ⟨rfl, rfl⟩ := h
  have hskips (e : SocketAddr × UInt8) :
      Skips P { S with node := S.node.touchPeer (w.after 1).clk src } e ↔ S.Skips P e := by
    simp only [Skips, Node.mem_touchPeer]
  have hpending := @mem_pending_onPeerlist P
    { S with node := S.node.touchPeer (w.after 1).clk src } (w.clk 0) a hpub peers
  simp only [hskips] at hpending
  simp only [peerlistHandshakes, List.map_map, List.mem_map, Function.comp_apply, exists_eq_right,
    List.mem_filter, decide_eq_true_eq, ← AList.mem_keys, hpending]
  constructor
  · rintro ⟨hold | hentry, hnew⟩
    · exact absurd hold hnew
    · exact ⟨hnew, hentry⟩
  · rintro ⟨hnew, hentry⟩
    exact ⟨.inr hentry, hnew⟩

/-- A reachable peer starts no handshake with a nearby endpoint exactly when the link-local
entries of IPv4 are passed over for another reason, or are waited for already. -/
theorem handshakes_reachable_iff {w refresh : World} {peers : List (SocketAddr × UInt8)}
    {src : SocketAddr} {S' : Peer} {sent : Outbox}
    (hpub : S.node.myPublic.map remotePublic = some true)
    (h : S.receive P w refresh (.peerlistResponse peers) src = .ok (S', sent)) :
    (∀ x ∈ sent, x.2.nearby = false) ↔
      ∀ e ∈ peers, e.1.linkLocal4 = true → S.Skips P e ∨ e.1 ∈ S.pendingHandshakes := by
  constructor
  · intro hall e he hlocal
    by_contra hnot
    obtain ⟨hskips, hnew⟩ := not_or.mp hnot
    obtain ⟨x, hx, heq⟩ := List.mem_map.mp ((receive_peerlist hpub h).mpr
      ⟨hnew, e, he, rfl, hskips, SocketAddr.remotePublic_iff.mpr (.inr hlocal)⟩)
    have hnear := SocketAddr.nearby_of_linkLocal4 hlocal
    rw [← heq, hall x hx] at hnear
    cases hnear
  · intro hall x hx
    obtain ⟨hnew, e, he, heq, hskips, hreach⟩ :=
      (receive_peerlist hpub h).mp (List.mem_map_of_mem hx)
    rw [heq] at hnew ⊢
    rcases SocketAddr.remotePublic_iff.mp hreach with hfar | hlocal
    · exact hfar
    · rcases hall e he hlocal with hskip | hpending
      · exact absurd hskip hskips
      · exact absurd hpending hnew

end Peer

/-- On both sides: what is missing is the link-local range of IPv4. -/
theorem nearby_endpoints_withheld_iff (n : Node) (cfg : NodeSettings) (w : World)
    (src : SocketAddr) (P : PeerConfig) (S : Peer) (w' refresh : World)
    (peers : List (SocketAddr × UInt8)) (teller pub : SocketAddr) :
    ((∀ a ∈ n.peers, a.Typed) → src.nearby = false →
      ((∀ peers, (.peerlistResponse peers, src) ∈ (n.handle cfg w .peerlistRequest src).2.1 →
          ∀ e ∈ peers, e.1.nearby = false) ↔
        ∀ p ∈ n.peers, p.linkLocal4 = true → 16 ≤ n.aheadOf src p)) ∧
    ∀ (S' : Peer) (sent : Outbox), S.node.myPublic = some pub → pub.nearby = false →
      S.receive P w' refresh (.peerlistResponse peers) teller = .ok (S', sent) →
      ((∀ x ∈ sent, x.2.nearby = false) ↔
        ∀ e ∈ peers, e.1.linkLocal4 = true → S.Skips P e ∨ e.1 ∈ S.pendingHandshakes) := by
  refine ⟨fun ht hsrc => ?_, fun S' sent hpub hfar h => ?_⟩
  · rw [Node.handle_peerlistRequest (.refl n) ht, ← Node.advertised_reachable_iff ht hsrc]
    simp
  · refine Peer.handshakes_reachable_iff ?_ h
    rw [hpub, Option.map_some, SocketAddr.remotePublic_iff.mpr (.inl hfar)]

/-- A peer that is told its public address. -/
def demoObserved : Peer :=
  { demoStart emptyDir with
    node := { (demoStart emptyDir).node with myPublic := some ⟨.v4 ⟨203, 0, 113, 9⟩, 5000⟩ } }

/-- A link-local address of IPv4. -/
def demoAutoconf : SocketAddr := ⟨.v4 ⟨169, 254, 1, 1⟩, 4444⟩

theorem nearby_endpoints_withheld_demo :
    (∀ peers, (.peerlistResponse peers, demoBootstrap) ∈ (Node.demoSwarm.handle
        ⟨defaultSettings, 2, 0⟩ (demoWorld 0) .peerlistRequest demoBootstrap).2.1 →
      ∀ e ∈ peers, e.1.nearby = false) ∧
    ∃ S' sent, demoObserved.receive demoConfig (demoWorld 1) (demoWorld 1)
        (.peerlistResponse [(demoAutoconf, PEER_SAME_IP), (demoOther, 0)])
        demoBootstrap = .ok (S', sent) ∧
      demoOther ∈ sent.map Prod.snd ∧ ∀ x ∈ sent, x.2.nearby = false := by
  obtain ⟨hreply, hshake⟩ := nearby_endpoints_withheld_iff Node.demoSwarm ⟨defaultSettings, 2, 0⟩
    (demoWorld 0) demoBootstrap demoConfig demoObserved (demoWorld 1) (demoWorld 1)
    [(demoAutoconf, PEER_SAME_IP), (demoOther, 0)] demoBootstrap ⟨.v4 ⟨203, 0, 113, 9⟩, 5000⟩
  refine ⟨(hreply ?_ (by decide +kernel)).mpr ?_, _, _, rfl, ?_, ?_⟩
  · show ∀ a ∈ Node.demoSwarm.peers.keys, a.port < 65536
    decide +kernel
  · show ∀ p ∈ Node.demoSwarm.peers.keys, p.linkLocal4 = true → _
    decide +kernel
  · decide +kernel
  · refine (hshake _ _ rfl (by decide +kernel) rfl).mpr ?_
    have hentries : ∀ e ∈ [(demoAutoconf, PEER_SAME_IP), (demoOther, 0)],
        e.1.linkLocal4 = true → e.2 &&& PEER_SAME_IP ≠ 0 := by decide +kernel
    exact fun e he hlocal => .inl (.inr (.inr (.inl (hentries e he hlocal))))

/-- A master tells a reachable peer of a link-local one, and the peer shakes hands with it. -/
theorem link_local_endpoint_leaks :
    demoAutoconf.nearby = true ∧ demoBootstrap.nearby = false ∧
    (∃ peers, ((Node.demoSwarm.registerPeer (fun _ => 0) demoAutoconf "third").handle
        ⟨defaultSettings, 2, 0⟩ (demoWorld 0) .peerlistRequest demoBootstrap).2.1 =
          [(.peerlistResponse peers, demoBootstrap)] ∧ demoAutoconf ∈ peers.map Prod.fst) ∧
    ∃ S' sent, demoObserved.receive demoConfig (demoWorld 1) (demoWorld 1)
        (.peerlistResponse [(demoAutoconf, 0)]) demoBootstrap = .ok (S', sent) ∧
      demoAutoconf ∈ sent.map Prod.snd := by
  have ht : ∀ a ∈ (Node.demoSwarm.registerPeer (fun _ => 0) demoAutoconf "third").peers,
      a.Typed := by
    show ∀ a ∈ (Node.demoSwarm.registerPeer (fun _ => 0) demoAutoconf "third").peers.keys,
      a.port < 65536
    decide +kernel
  exact ⟨by decide +kernel, by decide +kernel, ⟨_, Node.handle_peerlistRequest (.refl _) ht,
    (Node.mem_advertised_iff ht (by decide +kernel)).mpr (by decide +kernel)⟩, _, _, rfl,
    by decide +kernel⟩

end Qstream

import Qstream.PeerNames

/-! The handshakes a peerlist asks for, and what their expiry costs. An address becomes pending
while it is unknown, so when it is known at its deadline, a datagram from it has come in since:
removing it never hits a silent peer. -/
namespace Qstream
open Transfer Runs

namespace Peer
variable {P : PeerConfig} {S S' : Peer} {a : SocketAddr}

/-- Only a peerlist makes addresses pending: unknown ones, each of which is sent a handshake. -/
theorem receive_asks {w refresh : World} {m : Message} {src : SocketAddr} {sent : Outbox}
    (h : S.receive P w refresh m src = .ok (S', sent)) (hnot : a ∉ S.pendingHandshakes)
    (hpend : a ∈ S'.pendingHandshakes) :
    (∃ peers, m = .peerlistResponse peers) ∧ (S'.handshakeMessage P, a) ∈ sent ∧
      a ∉ S'.node.peers := by
  have hevent := Node.handle_event S.node P.settings (w.after 1) m src
  cases m with
  | peerlistResponse peers =>
    simp only [receive, hevent, Node.eventOf, Except.ok.injEq, Prod.mk.injEq] at h
    obtain ⟨rfl, rfl⟩ := h
    refine ⟨⟨peers, rfl⟩, List.mem_append_right _ (List.mem_map.mpr ⟨a, ?_, rfl⟩), fun hknown => ?_⟩
    · exact List.mem_filter.mpr ⟨AList.mem_keys.mp hpend, by simpa using hnot⟩
    · obtain ⟨hnode, -, -, hshake⟩ := foldl_peerlist_spec (P := P) (w.clk 0) peers
        { S with
          node := (S.node.handle P.settings (w.after 1) (.peerlistResponse peers) src).1
          sched := { S.sched with parents := ∅ } }
      rw [onPeerlist_node] at hknown
      exact hshake a hknown hnot hpend
  | handshakeResponse observed name =>
    simp only [receive, hevent, Node.eventOf, Except.ok.injEq, Prod.mk.injEq] at h
    rw [← h.1, onHandshake] at hpend
    have hold := (AList.mem_erase.mp hpend).2
    split at hold <;> exact absurd hold hnot
  | manifestResponse data =>
    have hman := (onManifest_spec (receive_manifest h)).2.2
    exact absurd (hman ▸ hpend) hnot
  | _ =>
    simp only [receive, hevent, Node.eventOf, Except.ok.injEq, Prod.mk.injEq] at h
    rw [← h.1] at hpend
    exact absurd hpend hnot

/-- Nothing but a datagram makes an address pending. -/
theorem Step.pending_of_quiet {e : PeerEvent} (h : Step P S e S')
    (hquiet : ∀ w refresh m src, e ≠ .datagram w refresh m src)
    (hpend : a ∈ S'.pendingHandshakes) : a ∈ S.pendingHandshakes := by
  cases h with
  | mk hen happ =>
    cases e with
    | datagram w refresh m src => exact absurd rfl (hquiet w refresh m src)
    | expirePending now =>
      obtain rfl := fst_of_ok happ
      exact HashMap.mem_of_mem_retain hpend
    | retryHandshake now =>
      obtain rfl := fst_of_ok happ
      rwa [(retryHandshake_spec P S now).2.2.1] at hpend
    | pollManifest now =>
      obtain rfl := fst_of_ok happ
      rwa [(pollManifest_spec P S now).2.2.1] at hpend
    | pollPeerlist now =>
      obtain rfl := fst_of_ok happ
      rwa [(pollPeerlist_spec P S now).2.2.1] at hpend
    | _ =>
      obtain rfl := fst_of_ok happ
      exact hpend

/-- Nothing but a datagram from an address makes it known. -/
theorem Step.known_cases {e : PeerEvent} (h : Step P S e S') (hknown : a ∈ S'.node.peers) :
    a ∈ S.node.peers ∨ ∃ w refresh m, e = .datagram w refresh m a := by
  cases e with
  | datagram w refresh m src =>
    by_cases hsrc : a = src
    · exact .inr ⟨w, refresh, m, by rw [hsrc]⟩
    · cases h with
      | mk hen happ =>
        have hname := (receive_introduced happ).names a
        rw [if_neg hsrc] at hname
        exact .inl (Node.isSome_names.mp (hname ▸ Node.isSome_names.mpr hknown))
  | _ =>
    obtain ⟨name, hname⟩ := Option.isSome_iff_exists.mp (Node.isSome_names.mpr hknown)
    have hold := (h.names_kept (by simp)).1 a name hname
    exact .inl (Node.isSome_names.mp (by rw [hold]; rfl))

theorem not_mem_foldl_removePeer (l : List (SocketAddr × ℕ)) (n : Node)
    (h : a ∉ n.peers ∨ ∃ t, (a, t) ∈ l) : a ∉ (l.foldl (fun n e => n.removePeer e.1) n).peers := by
  induction l generalizing n with
  | nil =>
    rcases h with hn | ⟨t, ht⟩
    · exact hn
    · cases ht
  | cons e l ih =>
    refine ih _ ?_
    rcases h with hn | ⟨t, ht⟩
    · exact .inl fun hin => hn (AList.mem_erase.mp hin).2
    · rcases List.mem_cons.mp ht with rfl | ht
      · exact .inl fun hin => (AList.mem_erase.mp hin).1 rfl
      · exact .inr ⟨t, ht⟩

/-- An address whose handshake expires is not known afterwards. -/
theorem expirePending_removes {now : ℕ} (hpend : a ∈ S.pendingHandshakes)
    (hexpired : a ∉ (S.expirePending now).pendingHandshakes) :
    a ∉ (S.expirePending now).node.peers := by
  obtain ⟨t, ht⟩ := HashMap.mem_iff_lookup.mp hpend
  have hdue : now ≥ t := by
    by_contra hlater
    exact hexpired (HashMap.mem_retain.mpr ⟨t, ht, by simpa using hlater⟩)
  refine not_mem_foldl_removePeer _ _ (.inr ⟨t, List.mem_filter.mpr ⟨HashMap.mem_pairs.mpr ht, ?_⟩⟩)
  simpa using hdue

def HeardFrom (a : SocketAddr) (es : List PeerEvent) : Prop :=
  ∃ w refresh m, .datagram w refresh m a ∈ es

/-- A peerlist had a handshake sent to `a`, which has been pending through the events `since`. -/
structure PendingSince (P : PeerConfig) (S0 : Peer) (a : SocketAddr) (since : List PeerEvent)
    (S : Peer) : Prop where
  asked : ∃ before S1 w refresh peers src S2 sent, Run (Step P) S0 before S1 ∧
    a ∉ S1.pendingHandshakes ∧
    S1.receive P w refresh (.peerlistResponse peers) src = .ok (S2, sent) ∧
    (S2.handshakeMessage P, a) ∈ sent ∧
    Run (guarded (fun T _ => a ∈ T.pendingHandshakes) (Step P)) S2 since S
  pending : a ∈ S.pendingHandshakes

/-- Every pending handshake was asked for at some point of the run. -/
theorem exists_pendingSince {S0 : Peer} {es : List PeerEvent} (h : Run (Step P) S0 es S)
    (hnone : ∀ a, a ∉ S0.pendingHandshakes) (hpend : a ∈ S.pendingHandshakes) :
    ∃ since, PendingSince P S0 a since S := by
  refine h.history (I := fun _ S => a ∈ S.pendingHandshakes → ∃ since, PendingSince P S0 a since S)
    (fun hin => absurd hin (hnone a)) (fun fs U e V hrun hU hstep hV => ?_) hpend
  by_cases hold : a ∈ U.pendingHandshakes
  · obtain ⟨since, ⟨before, S1, w, refresh, peers, src, S2, sent, hb, hnot, hask, hsent, hs⟩, -⟩ :=
      hU hold
    exact ⟨since ++ [e], ⟨before, S1, w, refresh, peers, src, S2, sent, hb, hnot, hask, hsent,
      hs.append (.one ⟨hold, hstep⟩)⟩, hV⟩
  · have hdatagram : ∃ w refresh m src, e = .datagram w refresh m src := by
      by_contra hno
      have hquiet : ∀ w refresh m src, e ≠ .datagram w refresh m src :=
        fun w refresh m src heq => hno ⟨w, refresh, m, src, heq⟩
      exact hold (hstep.pending_of_quiet hquiet hV)
    obtain ⟨w, refresh, m, src, rfl⟩ := hdatagram
    cases hstep with
    | mk hen happ =>
      obtain ⟨⟨peers, rfl⟩, hsent, -⟩ := receive_asks happ hold hV
      exact ⟨[], ⟨fs, U, w, refresh, peers, src, V, _, hrun, hold, happ, hsent, .nil V⟩, hV⟩

/-- A pending address that is known has been heard from since it was asked. -/
theorem PendingSince.heard {S0 : Peer} {since : List PeerEvent} (h : PendingSince P S0 a since S)
    (hknown : a ∈ S.node.peers) : HeardFrom a since := by
  obtain ⟨⟨before, S1, w, refresh, peers, src, S2, sent, -, hnot, hask, -, hrun⟩, hpend⟩ := h
  have hstart : a ∈ S2.pendingHandshakes := by
    cases hrun with
    | nil => exact hpend
    | cons hstep => exact hstep.1
  refine hrun.history (I := fun es T => a ∈ T.node.peers → HeardFrom a es)
    (fun hin => absurd hin (receive_asks hask hnot hstart).2.2) (fun es U e V _ hU hstep hV => ?_)
    hknown
  rcases hstep.2.known_cases hV with hold | ⟨w, refresh, m, rfl⟩
  · obtain ⟨w, refresh, m, hin⟩ := hU hold
    exact ⟨w, refresh, m, List.mem_append_left _ hin⟩
  · exact ⟨w, refresh, m, List.mem_append_right _ List.mem_cons_self⟩

end Peer

/-- When a pending handshake expires, no address that was heard from since it was asked is
dropped exactly when the address is not known at that moment. -/
theorem expiry_drops_silent_iff (P : PeerConfig) (w : World) (dir : Dir) (nonce : UInt32)
    (claimed : Option SocketAddr) (seed : UInt64) :
    (∀ es S, Run (Peer.Step P) (.initial P w dir nonce claimed seed) es S →
      ∀ a ∈ S.pendingHandshakes,
        ∃ since, Peer.PendingSince P (.initial P w dir nonce claimed seed) a since S) ∧
    ∀ a since S, Peer.PendingSince P (.initial P w dir nonce claimed seed) a since S →
      ∀ now S', Peer.Step P S (.expirePending now) S' → a ∉ S'.pendingHandshakes →
        ((a ∈ S.node.peers → a ∉ S'.node.peers → ¬ Peer.HeardFrom a since) ↔
          a ∉ S.node.peers) := by
  refine ⟨fun es S hrun a hpend => Peer.exists_pendingSince hrun (AList.notMem_empty) hpend,
    fun a since S hsince now S' hstep hexpired => ⟨fun hdrop hknown => ?_, fun hnot hknown => ?_⟩⟩
  · cases hstep with
    | mk hen happ =>
      obtain rfl := Peer.fst_of_ok happ
      exact hdrop hknown (Peer.expirePending_removes hsince.pending hexpired) (hsince.heard hknown)
  · exact absurd hknown hnot

/-- A peerlist that names one other peer. -/
def demoList : PeerEvent :=
  .datagram (demoWorld 1) (demoWorld 1) (.peerlistResponse [(demoOther, 0)]) demoBootstrap

def demoExpiry : PeerEvent := .expirePending (secs 4)

/-- The other peer stays silent, and its handshake expires. -/
theorem silent_peer_expires :
    ∃ S since S', Peer.PendingSince demoConfig (demoStart emptyDir) demoOther since S ∧
      Peer.Step demoConfig S demoExpiry S' ∧ demoOther ∉ S'.pendingHandshakes ∧
      (demoOther ∈ S.node.peers → demoOther ∉ S'.node.peers →
        ¬ Peer.HeardFrom demoOther since) := by
  obtain ⟨S, hrun, hp⟩ := Peer.exists_run demoConfig (demoStart emptyDir) [demoList]
    (fun S => demoOther ∈ S.pendingHandshakes ∧ demoOther ∉ S.node.peers ∧
      (S.step? demoConfig demoExpiry).any fun S' => demoOther ∉ S'.pendingHandshakes)
    (by decide +kernel)
  obtain ⟨hpend, hunknown, hnext⟩ := of_decide_eq_true hp
  obtain ⟨S', hstep, hexpired⟩ := (Option.any_eq_true _ _).mp hnext
  obtain ⟨hasked, hiff⟩ := expiry_drops_silent_iff demoConfig (demoWorld 0) emptyDir 1 none 1
  obtain ⟨since, hsince⟩ := hasked _ S hrun demoOther hpend
  exact ⟨S, since, S', hsince, .of_step? hstep, of_decide_eq_true hexpired,
    (hiff demoOther since S hsince _ S' (.of_step? hstep) (of_decide_eq_true hexpired)).mpr hunknown⟩

/-- The other peer is asked for a handshake and sends a PING; the expiry drops it. -/
theorem heard_peer_expires :
    ∃ S since S', Peer.PendingSince demoConfig (demoStart emptyDir) demoOther since S ∧
      Peer.Step demoConfig S demoExpiry S' ∧ Peer.HeardFrom demoOther since ∧
      demoOther ∈ S.node.peers ∧ demoOther ∉ S'.node.peers := by
  obtain ⟨S, hrun, hp⟩ := Peer.exists_run demoConfig (demoStart emptyDir)
    [demoList, demoPing demoOther]
    (fun S => demoOther ∈ S.pendingHandshakes ∧ demoOther ∈ S.node.peers ∧
      (S.step? demoConfig demoExpiry).any fun S' => demoOther ∉ S'.node.peers) (by decide +kernel)
  obtain ⟨hpend, hknown, hnext⟩ := of_decide_eq_true hp
  obtain ⟨S', hstep, hgone⟩ := (Option.any_eq_true _ _).mp hnext
  obtain ⟨since, hsince⟩ := Peer.exists_pendingSince hrun AList.notMem_empty hpend
  exact ⟨S, since, S', hsince, .of_step? hstep, hsince.heard hknown, hknown,
    of_decide_eq_true hgone⟩

end Qstream

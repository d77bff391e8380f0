import Qstream.PeerPulls

/-! What a node answers, and what the loop of a peer sends beyond its node, and to whom. -/
namespace Qstream
open Transfer

namespace Node
variable {n : Node} {cfg : NodeSettings} {w : World} {m : Message} {src : SocketAddr}

/-- An answer to a datagram from `src`: to the source or, for content, to the other end of the
download. -/
inductive Answer (n : Node) (src : SocketAddr) : Message × SocketAddr → Prop
  | handshake (name : String) : Answer n src (.handshakeResponse src name, src)
  | manifest : Answer n src
      (.manifestResponse ((n.registry.dir.read n.manifestName).getD []), src)
  | peerlist {peers : List (SocketAddr × UInt8)} (h : ∀ e ∈ peers, e.1 ∈ n.peers) :
    Answer n src (.peerlistResponse peers, src)
  | pong (av : Option SegmentAvailability) : Answer n src (.pong av, src)
  | notFound (i : ℕ) (av : Option SegmentAvailability) (retryable : Bool) :
    Answer n src (.segmentNotFound i av retryable, src)
  | ack {i : ℕ} {r : ReceiverTransfer} (h : n.registry.receivers.lookup i = some r)
      (ackType : AckType) (a b : ℕ) : Answer n src (.ack r.transferId ackType a b, r.remote)

theorem answer_of_mem_handle {x : Message × SocketAddr} (hx : x ∈ (n.handle cfg w m src).2.1) :
    n.Answer src x := by
  have hanswer (m' : Message) (hm' : n.Answer src (m', src)) (hx : x ∈ [(m', src)]) :
      n.Answer src x := by
    rwa [List.mem_singleton.mp hx]
  cases m with
  | handshakeRequest claimed name => exact hanswer _ (.handshake _) hx
  | manifestRequest => exact hanswer _ .manifest hx
  | peerlistRequest =>
    refine hanswer _ (.peerlist fun e he => ?_) hx
    obtain ⟨p, hp, rfl⟩ := List.mem_map.mp he
    have hknown := List.mem_mergeSort.mp (List.mem_of_mem_take hp)
    exact mem_touchPeer.mp (AList.mem_keys.mpr (List.mem_filter.mp hknown).1)
  | segmentRequest i f =>
    simp only [handle] at hx
    split at hx
    · rcases TransferRegistry.serve_cases (w.after 4).clk
        ((n.touchPeer w.clk src).originSeedAllowed cfg (w.after 2).clk f src).1.registry i f src with
        ⟨-, file, -, heq⟩ | ⟨-, heq⟩
      all_goals
        change x ∈ (TransferRegistry.serve (w.after 4).clk _ i f src).2 at hx
        rw [heq] at hx
      · cases hx
      · exact hanswer _ (.notFound ..) hx
    · exact hanswer _ (.notFound ..) hx
  | segmentContents i p t d =>
    simp only [handle, TransferRegistry.onContent] at hx
    split at hx
    next r hr =>
      have hr : n.registry.receivers.lookup i = some r := hr
      obtain ⟨m, hm, rfl⟩ := List.mem_map.mp hx
      rcases (ReceiverTransfer.onContent_spec ..).2 m hm with ⟨rg, rfl⟩ | ⟨rfl, -⟩
      · exact .ack hr ..
      · exact .ack hr ..
    next => cases hx
  | ping nonce name =>
    simp only [handle] at hx
    split at hx
    · cases hx
    · exact hanswer _ (.pong _) hx
  | pong av => cases av <;> cases hx
  | segmentNotFound i av retryable =>
    simp only [handle] at hx
    split at hx <;> cases hx
  | handshakeResponse | manifestResponse | ack | peerlistResponse => cases hx

end Node

namespace Peer
variable {P : PeerConfig} {S S' : Peer} {sent : Outbox} {x : Message × SocketAddr}

/-- After a datagram the node answers it, and a peerlist makes the loop shake hands. -/
theorem mem_receive {w refresh : World} {m : Message} {src : SocketAddr}
    (h : S.receive P w refresh m src = .ok (S', sent)) (hx : x ∈ sent) :
    x ∈ (S.node.handle P.settings (w.after 1) m src).2.1 ∨
      ∃ a ∈ S'.pendingHandshakes, x = (S'.handshakeMessage P, a) := by
  have hevent := Node.handle_event S.node P.settings (w.after 1) m src
  cases m with
  | manifestResponse data =>
    simp only [receive, hevent, Node.eventOf, Except.map] at h
    split at h
    · cases h
    · cases h
      exact .inl hx
  | peerlistResponse peers =>
    simp only [receive, hevent, Node.eventOf, Except.ok.injEq, Prod.mk.injEq] at h
    obtain ⟨rfl, rfl⟩ := h
    rcases List.mem_append.mp hx with hx | hx
    · exact .inl hx
    · obtain ⟨a, ha, rfl⟩ := List.mem_map.mp hx
      exact .inr ⟨a, (List.mem_filter.mp ha).1, rfl⟩
  | _ =>
    simp only [receive, hevent, Node.eventOf, Except.ok.injEq, Prod.mk.injEq] at h
    exact .inl (h.2 ▸ hx)

/-- The loop's own timers send to the bootstrap: handshakes and polls. -/
theorem mem_quiet {e : PeerEvent} (h : S.apply P e = .ok (S', sent)) (hquiet : e.Quiet)
    (hx : x ∈ sent) : x.2 = P.bootstrap ∧
      (x.1 = S.handshakeMessage P ∨ x.1 = .manifestRequest ∨ x.1 = .peerlistRequest) := by
  cases e with
  | prunePeers now | expirePending now =>
    obtain rfl := snd_of_ok h
    cases hx
  | retryHandshake now =>
    obtain rfl := snd_of_ok h
    unfold retryHandshake at hx
    split at hx
    · obtain rfl := List.mem_singleton.mp hx
      exact ⟨rfl, .inl rfl⟩
    · cases hx
  | pollManifest now =>
    obtain rfl := snd_of_ok h
    have hpoll : (S.pollManifest P now).2 ⊆ [(.manifestRequest, P.bootstrap)] := by
      rcases hj : jitter POLL_JITTER_MS S.sched.rng with ⟨j, rng⟩
      simp only [pollManifest, hj]
      split <;> split <;> simp
    obtain rfl := List.mem_singleton.mp (hpoll hx)
    exact ⟨rfl, .inr (.inl rfl)⟩
  | pollPeerlist now =>
    obtain rfl := snd_of_ok h
    rcases hj : jitter (2 * POLL_JITTER_MS) S.sched.rng with ⟨j, rng⟩
    simp only [pollPeerlist, hj] at hx
    split at hx
    · obtain rfl := List.mem_singleton.mp hx
      exact ⟨rfl, .inr (.inr rfl)⟩
    · cases hx
  | datagram | tick | reap | fill => exact hquiet.elim

/-- A saved segment is announced to the known peers, and nothing else is sent for a collected job. -/
theorem mem_reap {w : World} {now : ℕ} {f : Finished} (hx : x ∈ (S.reap P w now f).2) :
    (∃ av, x.1 = .pong av) ∧ x.2 ∈ S.node.peers := by
  simp only [reap, reapJob] at hx
  split at hx
  · obtain ⟨⟨a, info⟩, ha, rfl⟩ := List.mem_map.mp hx
    have hmem := (HashOrder.mem_iter ..).mp ha
    rw [Node.withDir, collect_peers] at hmem
    exact ⟨⟨_, rfl⟩, HashMap.mem_iff_lookup.mpr ⟨info, hmem⟩⟩
  · cases hx
  · cases hx

/-- A turn of the fill loop starts a download from the picked source, or none. -/
theorem fillOne_cases (P : PeerConfig) (S : Peer) (ids : TransferRegistry.IdSource) (w : World) :
    ((S.fillOne P ids w).1.node = S.node ∧ (S.fillOne P ids w).2 = []) ∨
    ∃ clk remote f, S.node.registry.FreshId (ids.draw S.node.registry) ∧
      (pickPeer P S.node S.sched w.ord (w.clk 0) f).1 = some remote ∧
      (S.fillOne P ids w).1.node = S.node.addReceiver (ids.draw S.node.registry)
        (.new P.settings.transfer clk (ids.draw S.node.registry) remote f) ∧
      (S.fillOne P ids w).2 = [(.segmentRequest (ids.draw S.node.registry) f, remote)] := by
  simp only [fillOne, fillStep]
  split
  · exact .inl ⟨rfl, rfl⟩
  split
  · exact .inl ⟨rfl, rfl⟩
  next f rest hq =>
  split
  · exact .inl ⟨rfl, rfl⟩
  next remote rng hpick =>
  rcases TransferRegistry.startReceiver_cases P.settings.transfer ids (w.after 1).clk
    S.node.registry remote f with heq | ⟨hfresh, heq⟩
  · rw [heq]
    exact .inl ⟨rfl, rfl⟩
  · rw [heq]
    exact .inr ⟨_, remote, f, hfresh, by rw [hpick], rfl, rfl⟩

end Peer
end Qstream

import Qstream.Accounts

/-! How much a process can be made to do: the transfers it has open, and the content that it
sends for what it is asked for. -/
namespace Qstream
open Transfer Runs

namespace Transfer

/-- Content, sent to `a`. -/
def isContentTo (a : SocketAddr) (x : Message × SocketAddr) : Bool :=
  match x.1 with
  | .segmentContents .. => x.2 = a
  | _ => false

/-- The packets that are sent to `a`. -/
def contentTo (a : SocketAddr) (sent : Outbox) : ℕ := sent.countP (isContentTo a)

@[simp] theorem contentTo_append (a : SocketAddr) (l l' : Outbox) :
    contentTo a (l ++ l') = contentTo a l + contentTo a l' := List.countP_append

theorem contentTo_eq_zero {a : SocketAddr} {sent : Outbox}
    (h : ∀ x ∈ sent, ∀ i p t d, x.1 ≠ .segmentContents i p t d) : contentTo a sent = 0 := by
  refine List.countP_eq_zero.mpr fun x hx hcontent => ?_
  unfold isContentTo at hcontent
  split at hcontent
  next i p t d heq => exact h x hx i p t d heq
  next => cases hcontent

theorem contentTo_addressed_le (a b : SocketAddr) (ms : List Message) :
    contentTo a (addressed b ms) ≤ if b = a then ms.length else 0 := by
  by_cases hb : b = a
  · rw [if_pos hb]
    refine List.countP_le_length.trans ?_
    rw [addressed, List.length_map]
  · rw [if_neg hb]
    refine (List.countP_eq_zero.mpr fun x hx hcontent => ?_).le
    obtain ⟨m, -, rfl⟩ := List.mem_map.mp hx
    unfold isContentTo at hcontent
    split at hcontent
    next => exact hb (of_decide_eq_true hcontent)
    next => cases hcontent

namespace SenderTransfer

/-- The packets that a sender may still send before the next ACK: the rest of its window, and
the window again for each retry. -/
def credit (s : SenderTransfer) : ℕ :=
  (s.range.2 - s.rangeSent) + (SENDER_RETRY_LIMIT - s.retryCount) * s.range.2

/-- A tick pays for what it sends. -/
theorem credit_tick (cfg : Settings) (s : SenderTransfer) (now : ℕ) :
    (s.tick cfg now).1.credit + (s.tick cfg now).2.1.length ≤ s.credit := by
  rcases tick_cases cfg s now with
    ⟨hlt, -, ht⟩ | ⟨⟨hfull, -⟩, hretry, ht⟩ | ⟨⟨hfull, -⟩, hretry, ht⟩ | ⟨-, -, ht⟩
  · simp only [ht, credit, chunkSent_range, chunkSent_rangeSent, chunkSent_retryCount, sendPackets,
      List.length_map, List.length_range]
    omega
  · -- the window is sent again, on a retry that is gone
    obtain ⟨k, hk⟩ : ∃ k, SENDER_RETRY_LIMIT - s.retryCount = k + 1 :=
      ⟨SENDER_RETRY_LIMIT - s.retryCount - 1, by omega⟩
    have hk' : SENDER_RETRY_LIMIT - (s.retryCount + 1) = k := by omega
    simp only [ht, credit, hk, hk', List.length_nil, Nat.add_one_mul]
    omega
  · have hk : SENDER_RETRY_LIMIT - (s.retryCount + 1) = 0 := by omega
    simp only [ht, credit, hk, List.length_nil, Nat.zero_mul]
    omega
  · simp only [ht, List.length_nil, Nat.add_zero, le_refl]

theorem credit_new (clk : Clock) (i : ℕ) (remote : SocketAddr) (file : Bytes) :
    (SenderTransfer.new clk i remote file).credit ≤ (SENDER_RETRY_LIMIT + 1) * INITIAL_WINDOW := by
  simp only [credit, new, Nat.sub_zero]
  have hmin : min INITIAL_WINDOW (packetCount file.length) ≤ INITIAL_WINDOW := Nat.min_le_left _ _
  have hmul := Nat.mul_le_mul_left SENDER_RETRY_LIMIT hmin
  rw [Nat.add_one_mul]
  omega

/-- A Progress ACK buys the window that it names. -/
theorem credit_onProgress (cfg : Settings) (clk : Clock) (s : SenderTransfer) (a b : ℕ) :
    (s.onProgress cfg clk a b).credit ≤ (SENDER_RETRY_LIMIT + 1) * b := by
  unfold onProgress
  dsimp only
  split
  · have hmin : u16 (min b (s.totalPackets - a + 1)) ≤ b :=
      (Nat.mod_le _ _).trans (Nat.min_le_left _ _)
    have hmul := Nat.mul_le_mul_left SENDER_RETRY_LIMIT hmin
    simp only [credit, Nat.sub_zero]
    rw [Nat.add_one_mul]
    omega
  · simp [credit]

/-- The credit of a sender towards `a`. -/
def creditTo (a : SocketAddr) (s : SenderTransfer) : ℕ := if s.remote = a then s.credit else 0

end SenderTransfer

namespace TransferRegistry
variable {reg : TransferRegistry} {cfg : Settings} {w : World} {a : SocketAddr}

/-- The credit towards `a` of all senders. -/
def credit (reg : TransferRegistry) (a : SocketAddr) : ℕ := reg.senders.total (·.creditTo a)

/-- The downloads' timers send no content. -/
theorem contentTo_receivers {now : ℕ} :
    contentTo a ((w.ord.iter (reg.receivers.mapVal fun i r =>
      r.onTick cfg now fun k => w.clk (k + i))).flatMap fun (_, x) => addressed x.1.remote x.2) = 0 := by
  refine contentTo_eq_zero fun x hx i p t d hcontent => ?_
  obtain ⟨⟨j, y⟩, hy, hx⟩ := List.mem_flatMap.mp hx
  obtain ⟨m, hm, rfl⟩ := List.mem_map.mp hx
  rw [HashOrder.mem_iter, HashMap.lookup_mapVal] at hy
  obtain ⟨r, -, rfl⟩ := Option.map_eq_some_iff.mp hy
  obtain ⟨-, -, hmsg⟩ := ReceiverTransfer.onTick_spec cfg r now fun k => w.clk (k + j)
  rcases hmsg m hm with heq | ⟨rg, -, heq⟩
  · exact Message.noConfusion (heq.symm.trans hcontent)
  · exact Message.noConfusion (heq.symm.trans hcontent)

/-- The senders' timers send no more than what each sender puts out. -/
theorem contentTo_senders {now : ℕ} :
    contentTo a ((w.ord.iter (reg.senders.mapVal fun _ s => s.tick cfg now)).flatMap
      fun (_, x) => addressed x.1.remote x.2.1) ≤
    (reg.senders.pairs.map fun e =>
      if e.2.remote = a then (e.2.tick cfg now).2.1.length else 0).sum := by
  rw [contentTo, List.countP_flatMap, ((HashOrder.iter_perm w.ord _).map _).sum_eq,
    HashMap.pairs_mapVal, List.map_map]
  refine List.sum_le_sum fun e he => ?_
  change contentTo a (addressed (e.2.tick cfg now).1.remote (e.2.tick cfg now).2.1) ≤ _
  rw [SenderTransfer.tick_remote]
  exact contentTo_addressed_le a _ _

/-- The timers pay for the content that they send. -/
theorem credit_tick (reg : TransferRegistry) (cfg : Settings) (w : World) (now : ℕ)
    (a : SocketAddr) :
    (reg.tick cfg w now).1.credit a + contentTo a (reg.tick cfg w now).2 ≤ reg.credit a := by
  have hsenders : (reg.tick cfg w now).1.credit a ≤
      (reg.senders.pairs.map fun e => (e.2.tick cfg now).1.creditTo a).sum := by
    simp only [tick, credit, HashMap.total_mapVal]
    refine (HashMap.total_retain_le
      (fun x : SenderTransfer × List Message × Except SenderError Unit => x.1.creditTo a) _ _).trans ?_
    rw [HashMap.total_mapVal]
  have hsent : contentTo a (reg.tick cfg w now).2 ≤ (reg.senders.pairs.map fun e =>
      if e.2.remote = a then (e.2.tick cfg now).2.1.length else 0).sum := by
    simp only [tick, contentTo_append, onTick_of_outcome, contentTo_receivers, Nat.add_zero]
    exact contentTo_senders
  refine (Nat.add_le_add hsenders hsent).trans ?_
  rw [← List.sum_map_add]
  refine List.sum_le_sum fun e he => ?_
  have hone := SenderTransfer.credit_tick cfg e.2 now
  simp only [SenderTransfer.creditTo, SenderTransfer.tick_remote]
  split
  · exact hone
  · exact le_rfl

/-- The open transfers, of which there is only room for so many. -/
theorem activeCount_tick (reg : TransferRegistry) (cfg : Settings) (w : World) (now : ℕ) :
    (reg.tick cfg w now).1.activeCount ≤ reg.activeCount := by
  have hsenders := tick_len reg cfg w now
  have hevents : reg.events.length ≤ (reg.tick cfg w now).1.events.length := by
    simp only [tick, List.length_append]
    exact Nat.le_add_right _ _
  have hreceivers : (reg.tick cfg w now).1.receivers.len ≤ reg.receivers.len := by
    simp only [tick, HashMap.len_mapVal]
    rw [HashMap.len_eq_total, HashMap.len_eq_total]
    exact HashMap.total_retain_le _ _ _
  unfold activeCount
  omega

end TransferRegistry
end Transfer

namespace Node
variable {n : Node} {cfg : NodeSettings} {w : World} {a : SocketAddr}

/-- What a datagram lets the node send to `a`: the first window for a request from there, and
for a Progress ACK to a transfer to `a`, whoever sends it, the window that it names. -/
def granted (n : Node) (a : SocketAddr) (m : Message) (src : SocketAddr) : ℕ :=
  match m with
  | .segmentRequest _ _ => if src = a then INITIAL_WINDOW else 0
  | .ack i .progress _ count =>
    if (n.registry.senders.lookup i).any fun s => s.remote = a then count else 0
  | _ => 0

theorem credit_handle (n : Node) (cfg : NodeSettings) (w : World) (m : Message) (src a : SocketAddr) :
    (n.handle cfg w m src).1.registry.credit a ≤
      n.registry.credit a + (SENDER_RETRY_LIMIT + 1) * n.granted a m src := by
  rw [handle_registry]
  cases m with
  | segmentRequest i f =>
    simp only [granted]
    split
    · exact Nat.le_add_right _ _
    rcases TransferRegistry.serve_cases (w.after 4).clk n.registry i f src with
      ⟨-, file, -, heq⟩ | ⟨-, heq⟩
    · have hins := HashMap.total_insert (·.creditTo a) n.registry.senders i
        (.new (w.after 4).clk i src file)
      have hnew := SenderTransfer.credit_new (w.after 4).clk i src file
      rw [heq]
      simp only [TransferRegistry.credit]
      have hremote : (SenderTransfer.new (w.after 4).clk i src file).remote = src := rfl
      simp only [SenderTransfer.creditTo, hremote] at hins ⊢
      split
      next hsrc =>
        rw [if_pos hsrc] at hins
        omega
      next hsrc =>
        rw [if_neg hsrc] at hins
        omega
    · rw [heq]
      exact Nat.le_add_right _ _
  | ack i ackType p q =>
    rcases TransferRegistry.onAck_cases cfg.transfer (w.after 2).clk n.registry i ackType p q with
      ⟨s, hs, -, heq⟩ | ⟨s, hs, rfl, heq⟩ | ⟨-, heq⟩
    · have herase := HashMap.total_erase (·.creditTo a) n.registry.senders i
      simp only [heq, TransferRegistry.credit]
      omega
    · have hins := HashMap.total_insert (·.creditTo a) n.registry.senders i
        (s.onProgress cfg.transfer (w.after 2).clk p q)
      have hnew := SenderTransfer.credit_onProgress cfg.transfer (w.after 2).clk s p q
      simp only [heq, TransferRegistry.credit, granted, hs, Option.any_some, decide_eq_true_eq]
      simp only [SenderTransfer.creditTo, SenderTransfer.onProgress_remote] at hins ⊢
      split
      next hsrc =>
        rw [if_pos hsrc] at hins
        omega
      next hsrc =>
        rw [if_neg hsrc] at hins
        omega
    · simp only [heq]
      exact Nat.le_add_right _ _
  | segmentContents i p t d =>
    simp only [TransferRegistry.onContent]
    split <;> exact Nat.le_add_right _ _
  | segmentNotFound i av retryable =>
    simp only [TransferRegistry.onNotFound]
    split <;> exact Nat.le_add_right _ _
  | _ => exact Nat.le_add_right _ _

/-- Answers carry no content. -/
theorem contentTo_handle (n : Node) (cfg : NodeSettings) (w : World) (m : Message)
    (src a : SocketAddr) : contentTo a (n.handle cfg w m src).2.1 = 0 := by
  refine contentTo_eq_zero fun x hx i p t d hcontent => ?_
  obtain ⟨m', b⟩ := x
  have hanswer := answer_of_mem_handle hx
  cases hanswer <;> cases hcontent

/-- Besides the transfers the timers send no content. -/
theorem contentTo_tick (n : Node) (cfg : NodeSettings) (w : World) (now : ℕ) (a : SocketAddr) :
    contentTo a (n.tick cfg w now).2 = contentTo a (n.registry.tick cfg.transfer w now).2 := by
  simp only [Node.tick, contentTo_append]
  rw [Nat.add_assoc]
  refine Nat.add_eq_left.mpr (Nat.add_eq_zero_iff.mpr
    ⟨contentTo_eq_zero fun x hx i p t d hcontent => ?_, contentTo_eq_zero fun x hx i p t d hcontent => ?_⟩)
  · rw [mem_pingCycle hx] at hcontent
    cases hcontent
  · split at hx
    · obtain ⟨⟨b, info⟩, -, rfl⟩ := List.mem_map.mp hx
      cases hcontent
    · cases hx

theorem credit_tick (n : Node) (cfg : NodeSettings) (w : World) (now : ℕ) (a : SocketAddr) :
    (n.tick cfg w now).1.registry.credit a + contentTo a (n.tick cfg w now).2 ≤
      n.registry.credit a := by
  rw [tick_registry, contentTo_tick]
  exact TransferRegistry.credit_tick n.registry cfg.transfer w now a

/-- A datagram takes the room that is left at most. -/
theorem activeCount_handle (m : Message) (src : SocketAddr)
    (h : n.registry.activeCount ≤ MAX_CONCURRENT_TRANSFERS) :
    (n.handle cfg w m src).1.registry.activeCount ≤ MAX_CONCURRENT_TRANSFERS := by
  rw [handle_registry]
  cases m with
  | segmentRequest i f =>
    simp only
    split
    · exact h
    rcases TransferRegistry.serve_cases (w.after 4).clk n.registry i f src with
      ⟨hacc, file, -, heq⟩ | ⟨-, heq⟩
    · have hlen := HashMap.len_insert n.registry.senders i (.new (w.after 4).clk i src file)
      have hroom := hacc.2.1
      rw [heq]
      unfold TransferRegistry.activeCount at hroom ⊢
      dsimp only
      omega
    · rw [heq]
      exact h
  | ack i ackType p q =>
    rcases TransferRegistry.onAck_cases cfg.transfer (w.after 2).clk n.registry i ackType p q with
      ⟨s, hs, -, heq⟩ | ⟨s, hs, -, heq⟩ | ⟨-, heq⟩
    · have hlen := HashMap.len_erase_of_lookup hs
      rw [TransferRegistry.activeCount] at h
      simp only [heq, TransferRegistry.activeCount]
      omega
    · have hlen := HashMap.len_insert_of_lookup hs (s.onProgress cfg.transfer (w.after 2).clk p q)
      rw [TransferRegistry.activeCount] at h
      simp only [heq, TransferRegistry.activeCount, hlen]
      exact h
    · simp only [heq]
      exact h
  | segmentContents i p t d =>
    simp only [TransferRegistry.onContent]
    split
    next r hr =>
      simp only [TransferRegistry.activeCount, HashMap.len_insert_of_lookup hr]
      exact h
    next => exact h
  | segmentNotFound i av retryable =>
    simp only [TransferRegistry.onNotFound]
    split
    next r hr =>
      simp only [TransferRegistry.activeCount, HashMap.len_insert_of_lookup hr]
      exact h
    next => exact h
  | _ => exact h

theorem activeCount_tick (n : Node) (cfg : NodeSettings) (w : World) (now : ℕ) :
    (n.tick cfg w now).1.registry.activeCount ≤ n.registry.activeCount := by
  rw [tick_registry]
  exact TransferRegistry.activeCount_tick n.registry cfg.transfer w now

end Node

namespace Peer
variable {P : PeerConfig} {S S' : Peer} {sent : Outbox} {a : SocketAddr}

/-- Only the timers of the node send content. -/
theorem contentTo_apply {e : PeerEvent} (happ : S.apply P e = .ok (S', sent))
    (htick : ∀ w now, e ≠ .tick w now) (a : SocketAddr) : contentTo a sent = 0 := by
  refine contentTo_eq_zero fun x hx i p t d hcontent => ?_
  cases e with
  | datagram w refresh m src =>
    rcases mem_receive happ hx with hsent | ⟨b, -, rfl⟩
    · obtain ⟨m', b⟩ := x
      have hanswer := Node.answer_of_mem_handle hsent
      cases hanswer <;> cases hcontent
    · cases hcontent
  | tick w now => exact htick w now rfl
  | prunePeers | retryHandshake | expirePending | pollManifest | pollPeerlist =>
    rcases (mem_quiet happ trivial hx).2 with heq | heq | heq <;>
      exact Message.noConfusion (heq.symm.trans hcontent)
  | reap w now f =>
    cases happ
    obtain ⟨⟨av, hpong⟩, -⟩ := mem_reap hx
    exact Message.noConfusion (hpong.symm.trans hcontent)
  | fill ids w =>
    obtain rfl := snd_of_ok happ
    rcases fillOne_cases P S ids w with ⟨-, hsent⟩ | ⟨clk, remote, f, -, -, -, hsent⟩
    · rw [hsent] at hx
      cases hx
    · rw [hsent] at hx
      rw [List.mem_singleton.mp hx] at hcontent
      cases hcontent

/-- After a datagram the loop has the transfers of its node. -/
theorem receive_transfers {w refresh : World} {m : Message} {src : SocketAddr}
    (h : S.receive P w refresh m src = .ok (S', sent)) :
    S'.node.registry.senders = (S.node.handle P.settings (w.after 1) m src).1.registry.senders ∧
    S'.node.registry.receivers =
      (S.node.handle P.settings (w.after 1) m src).1.registry.receivers := by
  rw [receive_node h]
  cases m <;> exact ⟨rfl, rfl⟩

/-- Outside of datagrams and timers the senders are left alone. -/
theorem apply_senders {e : PeerEvent} (happ : S.apply P e = .ok (S', sent))
    (hdatagram : ∀ w refresh m src, e ≠ .datagram w refresh m src) (htick : ∀ w now, e ≠ .tick w now) :
    S'.node.registry.senders = S.node.registry.senders := by
  cases e with
  | datagram w refresh m src => exact absurd rfl (hdatagram w refresh m src)
  | tick w now => exact absurd rfl (htick w now)
  | prunePeers | retryHandshake | expirePending | pollManifest | pollPeerlist =>
    rw [apply_quiet_registry P happ trivial]
  | reap w now f =>
    obtain rfl := fst_of_ok happ
    simp only [Peer.reap, reapJob_registry, collect, recordPull_registry]
    cases f.outcome <;> rfl
  | fill ids w =>
    obtain rfl := fst_of_ok happ
    rcases fillOne_cases P S ids w with ⟨hnode, -⟩ | ⟨clk, remote, f, -, -, hnode, -⟩
    · rw [hnode]
    · rw [hnode]
      rfl

end Peer

namespace Party
variable {p p₀ q : Party} {e : PartyEvent} {es : List PartyEvent} {a : SocketAddr}

/-- What the process sends on an event. -/
def sends (p : Party) (e : PartyEvent) : Outbox := ((Swarm.act? e p).map Prod.snd).getD []

theorem Step.sends_eq {sent : Outbox} (h : p.Step e q sent) : p.sends e = sent := by
  cases h with
  | master cfg n e => rfl
  | peer hen happ =>
    simp only [sends, Swarm.act?, if_pos hen, happ]
    rfl

/-- What an event lets the process send to `a`. -/
def granted (p : Party) (a : SocketAddr) (e : PartyEvent) : ℕ :=
  match e.datagram with
  | some (m, src) => p.node.granted a m src
  | none => 0

/-- Every step pays for the content that it sends. -/
theorem Moves.credit (h : p.Moves e q) (a : SocketAddr) :
    q.registry.credit a + contentTo a (p.sends e) ≤
      p.registry.credit a + (SENDER_RETRY_LIMIT + 1) * p.granted a e := by
  obtain ⟨sent, h⟩ := h
  rw [h.sends_eq]
  cases h with
  | master cfg n e =>
    cases e with
    | datagram w m src =>
      have hcredit := Node.credit_handle n cfg w m src a
      have hnone := Node.contentTo_handle n cfg w m src a
      simp only [Node.apply, hnone]
      exact hcredit
    | tick w now => exact Node.credit_tick n cfg w now a
    | files dir => exact le_rfl
  | @peer P S S' e sent hen happ =>
    by_cases htick : ∃ w now, e = .tick w now
    · obtain ⟨w, now, rfl⟩ := htick
      cases happ
      exact Node.credit_tick S.node P.settings w now a
    have htick : ∀ w now, e ≠ .tick w now := fun w now heq => htick ⟨w, now, heq⟩
    rw [Peer.contentTo_apply happ htick, Nat.add_zero]
    by_cases hdatagram : ∃ w refresh m src, e = .datagram w refresh m src
    · obtain ⟨w, refresh, m, src, rfl⟩ := hdatagram
      have hcredit := Node.credit_handle S.node P.settings (w.after 1) m src a
      rw [TransferRegistry.credit, ← (Peer.receive_transfers happ).1] at hcredit
      exact hcredit
    · have hsenders := Peer.apply_senders happ
        (fun w refresh m src heq => hdatagram ⟨w, refresh, m, src, heq⟩) htick
      simp only [registry, node, TransferRegistry.credit, hsenders]
      exact Nat.le_add_right _ _

/-- No step opens a transfer for which there is no room. -/
theorem Moves.activeCount (h : p.Moves e q) (hp : p.registry.activeCount ≤ MAX_CONCURRENT_TRANSFERS) :
    q.registry.activeCount ≤ MAX_CONCURRENT_TRANSFERS := by
  obtain ⟨sent, h⟩ := h
  cases h with
  | master cfg n e =>
    cases e with
    | datagram w m src => exact Node.activeCount_handle m src hp
    | tick w now => exact (Node.activeCount_tick n cfg w now).trans hp
    | files dir => exact hp
  | @peer P S S' e sent hen happ =>
    cases e with
    | datagram w refresh m src =>
      have hhandle : (S.node.handle P.settings (w.after 1) m src).1.registry.activeCount ≤
          MAX_CONCURRENT_TRANSFERS := Node.activeCount_handle m src hp
      obtain ⟨hsenders, hreceivers⟩ := Peer.receive_transfers happ
      rw [TransferRegistry.activeCount, ← hsenders, ← hreceivers] at hhandle
      exact hhandle
    | tick w now =>
      cases happ
      exact (Node.activeCount_tick S.node P.settings w now).trans hp
    | prunePeers | retryHandshake | expirePending | pollManifest | pollPeerlist =>
      simp only [registry, node, Peer.apply_quiet_registry P happ trivial]
      exact hp
    | reap w now f =>
      have hsenders := Peer.apply_senders happ (by simp) (by simp)
      obtain rfl := Peer.fst_of_ok happ
      have hreceivers : (S.reap P w now f).1.node.registry.receivers.len ≤
          S.node.registry.receivers.len := by
        simp only [Peer.reap, reapJob_registry, collect, recordPull_registry]
        cases f.outcome with
        | ok u => exact le_rfl
        | error err =>
          have herase := HashMap.total_erase (fun _ => 1) S.node.registry.receivers f.id
          rw [← HashMap.len_eq_total, ← HashMap.len_eq_total] at herase
          simp only [TransferRegistry.removeReceiver]
          omega
      simp only [registry, node, TransferRegistry.activeCount, hsenders] at hp ⊢
      omega
    | fill ids w =>
      obtain rfl := Peer.fst_of_ok happ
      rcases fillStep_cases P ids w S.node S.sched with
        ⟨rng, hstep⟩ | ⟨f, rest, remote, rng, r, -, -, hroom, -, hstep⟩
      · simp only [registry, node, Peer.fillOne, hstep]
        exact hp
      · have hlen := HashMap.len_insert S.node.registry.receivers (ids.draw S.node.registry) r
        simp only [registry, node, Peer.fillOne, hstep]
        simp only [Node.addReceiver, TransferRegistry.activeCount] at hroom ⊢
        omega

/-- In every run of a process there are never more transfers open than it has room for, and what
it sends to an address is bounded by what was asked for: an initial window for each request from
there, and for each Progress ACK to a transfer to that address, whoever sends it, the window that
it names, each repeated no more often than the retries allow. -/
theorem load_bounded (a : SocketAddr) {k : ℕ × ℕ} (hstart : p₀.Starts)
    (h : Sums Moves (fun p e => (contentTo a (p.sends e), p.granted a e)) p₀ es p k) :
    p.registry.activeCount ≤ MAX_CONCURRENT_TRANSFERS ∧ k.1 ≤ (SENDER_RETRY_LIMIT + 1) * k.2 := by
  obtain ⟨dir, hnew⟩ := hstart.registry
  have hcredit : p₀.registry.credit a = 0 := by
    rw [hnew]
    rfl
  have hopen : p₀.registry.activeCount ≤ MAX_CONCURRENT_TRANSFERS := by
    rw [hnew]
    exact Nat.zero_le _
  refine ⟨h.run.invariant (I := fun p => p.registry.activeCount ≤ MAX_CONCURRENT_TRANSFERS)
    (fun _ _ _ hp hs => hs.activeCount hp) hopen, ?_⟩
  have hpaid := h.bounded (f := fun p => p.registry.credit a) (I := fun _ => True)
    (AddMonoidHom.fst ℕ ℕ) ((SENDER_RETRY_LIMIT + 1) • AddMonoidHom.snd ℕ ℕ)
    (fun _ _ _ _ _ => trivial) (fun _ _ _ _ hs => hs.credit a) trivial
  rw [hcredit, Nat.zero_add] at hpaid
  exact (Nat.le_add_left _ _).trans hpaid

/-- A request, and the tick that sends its only packet. -/
def demoAsked : List PartyEvent :=
  let w := demoWorld (secs 4)
  [.master (.datagram w (.segmentRequest 1 "seg_1.ts") Swarm.demoAddr), .master (.tick w (secs 4))]

theorem load_bounded_demo : ∃ p,
    Sums Moves (fun p e => (contentTo Swarm.demoAddr (p.sends e), p.granted Swarm.demoAddr e))
      (Swarm.demoSwarm.party false) demoAsked p (1, 5) ∧
    p.registry.activeCount ≤ MAX_CONCURRENT_TRANSFERS ∧ 1 ≤ (SENDER_RETRY_LIMIT + 1) * 5 := by
  have htally : ((tally move? (fun p e => (contentTo Swarm.demoAddr (p.sends e),
      p.granted Swarm.demoAddr e)) (Swarm.demoSwarm.party false) demoAsked).any
        fun r => r.2 = (1, 5)) = true := by decide +kernel
  obtain ⟨p, k, hk, hend⟩ := Sums.exists_of_tally (fun _ _ _ => moves_of_move?) htally
  obtain rfl := of_decide_eq_true hend
  exact ⟨p, hk, load_bounded Swarm.demoAddr (Swarm.demoSwarm_initial.starts false) hk⟩

end Party
end Qstream

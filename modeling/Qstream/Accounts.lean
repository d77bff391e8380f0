import Qstream.NodeLedger
import Qstream.RunsTotals
import Qstream.SwarmSegments

/-! The books of a process over whole runs: every pull and every request is counted once. -/
namespace Qstream
open Transfer Runs Counters

namespace Transfer.TransferRegistry
variable {reg : TransferRegistry} {cfg : Settings} {w : World}

instance (reg : TransferRegistry) (f : String) : Decidable (reg.Accepts f) :=
  inferInstanceAs (Decidable (_ ∧ _ ∧ _))

/-- Each sender that the timers end leaves one event. -/
theorem tick_len (reg : TransferRegistry) (cfg : Settings) (w : World) (now : ℕ) :
    (reg.tick cfg w now).1.senders.len + (reg.tick cfg w now).1.events.length =
      reg.senders.len + reg.events.length := by
  simp only [tick, HashMap.len_mapVal, List.length_append, List.length_map, Bool.not_eq_true,
    Bool.decide_eq_false]
  rw [((HashOrder.iter_perm w.ord _).filter _).length_eq, Nat.add_left_comm,
    HashMap.len_retain_not, HashMap.len_mapVal, Nat.add_comm]

end Transfer.TransferRegistry

/-- The ends of serves among postings. -/
def Postings.answered (l : Postings) : ℕ := l.sum .served + l.sum .nfServed + l.sum .senderFails

/-- A request for a segment. -/
def Message.isRequest : Message → Bool
  | .segmentRequest .. => true
  | _ => false

namespace Node
variable {n n' : Node} {cfg : NodeSettings} {w : World}

/-- The requests that are being served, or whose end is not counted yet. -/
def pending (n : Node) : ℕ := n.registry.senders.len + n.registry.events.length

/-- Whether a datagram is a request that takes the place of one that is being served. -/
def replaces (n : Node) (cfg : NodeSettings) (w : World) (m : Message) (src : SocketAddr) : Bool :=
  match m with
  | .segmentRequest i f => n.admission cfg (w.after 2).clk f src ≠ .denied ∧
      n.registry.Accepts f ∧ i ∈ n.registry.senders
  | _ => false

/-- A datagram only ever adds its own request, unless that replaces another. -/
theorem handle_pending (n : Node) (cfg : NodeSettings) (w : World) (m : Message) (src : SocketAddr) :
    (n.handle cfg w m src).1.pending + (n.replaces cfg w m src).toNat =
      n.pending + m.isRequest.toNat := by
  have hreject (i : ℕ) (retryable : Bool) :
      (n.registry.rejectNotFound i src retryable).1.events.length = n.registry.events.length + 1 := by
    simp [TransferRegistry.rejectNotFound]
  simp only [pending, handle_registry]
  cases m with
  | segmentRequest i f =>
    simp only [replaces, Message.isRequest]
    by_cases hdenied : n.admission cfg (w.after 2).clk f src = .denied
    · simp only [hdenied, if_true, hreject, ne_eq, not_true_eq_false, false_and, decide_false]
      simp only [TransferRegistry.rejectNotFound, Bool.toNat_false, Bool.toNat_true]
      omega
    rcases TransferRegistry.serve_cases (w.after 4).clk n.registry i f src with
      ⟨hacc, file, -, heq⟩ | ⟨hrefused, heq⟩
    · have hlen := HashMap.len_insert n.registry.senders i (.new (w.after 4).clk i src file)
      simp only [hdenied, if_false, heq, ne_eq, not_false_eq_true, hacc, true_and, Bool.toNat_true]
      omega
    · simp only [hdenied, if_false, heq, hreject, ne_eq, not_false_eq_true, hrefused, false_and,
        and_false, decide_false]
      simp only [TransferRegistry.rejectNotFound, Bool.toNat_false, Bool.toNat_true]
      omega
  | ack i ackType a b =>
    simp only [replaces, Message.isRequest]
    rcases TransferRegistry.onAck_cases cfg.transfer (w.after 2).clk n.registry i ackType a b with
      ⟨s, hs, -, heq⟩ | ⟨s, hs, -, heq⟩ | ⟨-, heq⟩
    · have hlen := HashMap.len_erase_of_lookup hs
      simp only [heq, List.length_append, List.length_singleton]
      omega
    · simp only [heq, HashMap.len_insert_of_lookup hs]
    · rw [heq]
  | segmentContents i p t d =>
    simp only [replaces, Message.isRequest, TransferRegistry.onContent]
    split <;> rfl
  | segmentNotFound i av retryable =>
    simp only [replaces, Message.isRequest, TransferRegistry.onNotFound]
    split <;> rfl
  | _ => rfl

/-- Each event stands for one request. -/
theorem answered_events (es : List RegEvent) :
    Postings.answered (es.map fun e => (e.src, e.posting)) = es.length := by
  induction es with
  | nil => rfl
  | cons e es ih =>
    have hone : e.posting .served + e.posting .nfServed + e.posting .senderFails = 1 := by
      cases e <;> rfl
    simp only [Postings.answered, Postings.sum, List.map_cons, List.sum_cons, List.length_cons] at ih ⊢
    omega

/-- The timers lose no request. -/
theorem tick_pending (n : Node) (cfg : NodeSettings) (w : World) (now : ℕ) :
    (n.tick cfg w now).1.pending +
      Postings.answered ((n.registry.tick cfg.transfer w now).1.events.map fun e => (e.src, e.posting)) =
      n.pending := by
  have hlen := TransferRegistry.tick_len n.registry cfg.transfer w now
  simp only [pending, answered_events, tick_registry, List.length_nil]
  omega

end Node

namespace Party
variable {p p₀ q : Party} {e : PartyEvent} {es : List PartyEvent}

def settings : Party → NodeSettings
  | .master cfg _ => cfg
  | .peer P _ => P.settings

/-- A step, whatever is sent. -/
def Moves (p : Party) (e : PartyEvent) (q : Party) : Prop := ∃ sent, p.Step e q sent

/-- What a step counts in the statistics. -/
def postings (p : Party) : PartyEvent → Postings
  | .master (.tick w now) | .peer (.tick w now) =>
    (p.registry.tick p.settings.transfer w now).1.events.map fun e => (e.src, e.posting)
  | .peer (.reap _ _ f) => [(f.job.peer, f.result.posting (f.savedBytes.getD 0))]
  | _ => []

theorem Moves.posts (h : p.Moves e q) : Node.Posts (p.postings e) p.node q.node := by
  obtain ⟨sent, h⟩ := h
  cases h with
  | master cfg n e =>
    cases e with
    | datagram w m src => exact Node.handle_posts n cfg w m src
    | tick w now => exact Node.tick_posts n cfg w now
    | files dir => exact .of_same rfl fun c => by cases c <;> rfl
  | @peer P S S' e sent hen happ =>
    cases e with
    | datagram w refresh m src => exact Peer.receive_posts happ
    | tick w now =>
      cases happ
      exact Node.tick_posts S.node P.settings w now
    | prunePeers | retryHandshake | expirePending | pollManifest | pollPeerlist =>
      exact .of_same (Peer.apply_quiet_node P (·.peerStats) (fun _ _ => rfl) (fun _ _ _ => rfl) happ
        trivial) fun c => Peer.apply_quiet_node P (·.counter c) (fun _ _ => by cases c <;> rfl)
          (fun _ _ _ => by cases c <;> rfl) happ trivial
    | reap w now f =>
      cases happ
      exact Peer.reapJob_posts w now f S.node S.sched
    | fill ids w =>
      obtain rfl := Peer.fst_of_ok happ
      refine .of_same ?_ fun c => ?_
      all_goals
        rcases Peer.fillOne_cases P S ids w with ⟨hnode, -⟩ | ⟨clk, remote, f, -, -, hnode, -⟩
        · simp only [Party.node, hnode]
        · simp only [Party.node, hnode]
          rfl

/-- Whether the event is a request that replaces another one. -/
def replaces (p : Party) : PartyEvent → Bool
  | .master (.datagram w m src) => p.node.replaces p.settings w m src
  | .peer (.datagram w _ m src) => p.node.replaces p.settings (w.after 1) m src
  | _ => false

end Party

/-- The columns of the pulls. -/
def PullResult.column : PullResult → Option Column
  | .ok => some .pulls
  | .notFound => some .nfPulls
  | .retryableNotFound => none
  | .timeout => some .timeouts
  | .other => some .otherFails

namespace PartyEvent

/-- A request for a segment arrives. -/
def isRequest (e : PartyEvent) : Bool := e.datagram.any fun d => d.1.isRequest

/-- The pull whose end the event records: its source, and how it ended. -/
def pull : PartyEvent → Option (SocketAddr × PullResult)
  | .peer (.reap _ _ f) => some (f.job.peer, f.result)
  | _ => none

end PartyEvent

namespace Party
variable {p p₀ q : Party} {e : PartyEvent} {es : List PartyEvent}

/-- A request that a step adds is pending after it, unless it replaces another one, and one that is
not pending any more is posted. -/
theorem Moves.pending (h : p.Moves e q) :
    q.node.pending + (p.postings e).answered + (p.replaces e).toNat =
      p.node.pending + e.isRequest.toNat := by
  obtain ⟨sent, h⟩ := h
  cases h with
  | master cfg n e =>
    cases e with
    | datagram w m src => exact Node.handle_pending n cfg w m src
    | tick w now => exact Node.tick_pending n cfg w now
    | files dir => rfl
  | @peer P S S' e sent hen happ =>
    cases e with
    | datagram w refresh m src =>
      have hrest : S'.node.pending = (S.node.handle P.settings (w.after 1) m src).1.pending := by
        rw [Peer.receive_node happ]
        cases m <;> rfl
      change S'.node.pending + 0 + _ = _
      rw [hrest]
      exact Node.handle_pending S.node P.settings (w.after 1) m src
    | tick w now =>
      cases happ
      exact Node.tick_pending S.node P.settings w now
    | prunePeers | retryHandshake | expirePending | pollManifest | pollPeerlist =>
      have hreg := Peer.apply_quiet_registry P happ trivial
      exact congrArg (fun reg => reg.senders.len + reg.events.length) hreg
    | reap w now f =>
      obtain rfl := Peer.fst_of_ok happ
      have hreg := reapJob_registry P w now f S.node S.sched
      have hnone : Postings.answered [(f.job.peer, f.result.posting (f.savedBytes.getD 0))] = 0 := by
        cases f.result <;> rfl
      have hkept : (reapJob P w now f S.node S.sched).1.pending = S.node.pending := by
        simp only [Node.pending, hreg, collect, recordPull_registry]
        cases f.outcome <;> rfl
      change (reapJob P w now f S.node S.sched).1.pending +
        Postings.answered [(f.job.peer, f.result.posting (f.savedBytes.getD 0))] + 0 = S.node.pending + 0
      rw [hkept, hnone]
    | fill ids w =>
      obtain rfl := Peer.fst_of_ok happ
      rcases Peer.fillOne_cases P S ids w with ⟨hnode, -⟩ | ⟨clk, remote, f, -, -, hnode, -⟩
      all_goals
        simp only [Party.node, Node.pending, hnode]
        rfl

/-- The books show what the postings of the serves are. -/
theorem shows_answered {n n' : Node} {l : Postings} (h : Node.Posts l n n') :
    Shows (2 ^ 32) (n'.sum .served + n'.sum .nfServed + n'.sum .senderFails)
      (n.sum .served + n.sum .nfServed + n.sum .senderFails + l.answered) := by
  have hsplit : n.sum .served + n.sum .nfServed + n.sum .senderFails + l.answered =
      n.sum .served + l.sum .served + (n.sum .nfServed + l.sum .nfServed) +
        (n.sum .senderFails + l.sum .senderFails) := by
    simp only [Postings.answered]
    omega
  rw [hsplit]
  exact ((h.sum .served).add (h.sum .nfServed)).add (h.sum .senderFails)

/-- A process that has just been started has nothing in its books. -/
theorem Starts.empty (h : p.Starts) : p.node.peerStats = ∅ ∧
    (∀ c x, p.node.counter c = some x → x = 0) ∧ p.registry.senders = ∅ ∧ p.registry.events = [] := by
  cases h with
  | _ =>
    refine ⟨rfl, fun c x hx => ?_, rfl, rfl⟩
    cases c <;> cases hx <;> rfl

theorem posting_column {r r' : PullResult} {c : Column} (hc : r.column = some c) (bytes : ℕ) :
    r'.posting bytes c = (decide (r' = r)).toNat := by
  cases r <;> cases hc <;> cases r' <;> rfl

theorem serves_column {r : PullResult} {c : Column} (hc : r.column = some c) (es : List RegEvent)
    (a : SocketAddr) : Postings.ledger (es.map fun e => (e.src, e.posting)) a c = 0 := by
  induction es with
  | nil => rfl
  | cons e es ih =>
    have hzero : e.posting c = 0 := by cases r <;> cases hc <;> cases e <;> rfl
    rw [List.map_cons, ← List.singleton_append, Postings.ledger_append, Pi.add_apply, Pi.add_apply,
      ih, add_zero]
    simp only [Postings.ledger, List.map_cons, List.map_nil, List.sum_cons, List.sum_nil, add_zero]
    by_cases ha : a = e.src
    · rw [ha, Pi.single_eq_same, hzero]
    · rw [Pi.single_eq_of_ne ha]
      rfl

/-- Only the end of a pull counts in the columns of the pulls, and once. -/
theorem ledger_postings {a : SocketAddr} {r : PullResult} {c : Column} (hc : r.column = some c)
    (p : Party) (e : PartyEvent) :
    (p.postings e).ledger a c = (decide (e.pull = some (a, r))).toNat := by
  cases e with
  | master e =>
    cases e with
    | tick w now => exact serves_column hc _ a
    | datagram | files => rfl
  | peer e =>
    cases e with
    | tick w now => exact serves_column hc _ a
    | reap w now f =>
      simp only [postings, PartyEvent.pull, Postings.ledger, List.map_cons, List.map_nil,
        List.sum_cons, List.sum_nil, add_zero, Option.some.injEq, Prod.mk.injEq]
      by_cases ha : f.job.peer = a
      · subst ha
        rw [Pi.single_eq_same, posting_column hc]
        simp only [true_and]
      · rw [Pi.single_eq_of_ne (Ne.symm ha), decide_eq_false fun h => ha h.1]
        rfl
    | _ => rfl

/-- In every run of a process, what the statistics say of a peer is what the steps have counted
for it, modulo the size of the counter; the totals of the process are the sums over its peers,
modulo that size; and each collected download, unless it was put off, is counted once, for the peer
that it came from and as what its end was. -/
theorem books_balance {k : Ledger} (hstart : p₀.Starts)
    (h : Sums Moves (fun p e => (p.postings e).ledger) p₀ es p k) :
    (∀ a c, p.node.ledger a c = k a c % c.size) ∧
    (∀ c x, p.node.counter c = some x → x ≡ p.node.sum c [MOD c.size]) ∧
    ∀ a r c, r.column = some c →
      p.node.ledger a c = (es.countP fun e => e.pull = some (a, r)) % c.size := by
  obtain ⟨hstats, hcounter, -⟩ := hstart.empty
  have hempty (a : SocketAddr) (c : Column) : p₀.node.ledger a c = 0 := by
    rw [Node.ledger, hstats]
    rfl
  refine ⟨fun a c => ?_, ?_, fun a r c hc => ?_⟩
  · let amount : Ledger →+ ℕ := (Pi.evalAddMonoidHom (fun _ : Column => ℕ) c).comp
      (Pi.evalAddMonoidHom (fun _ : SocketAddr => Column → ℕ) a)
    have hshown := shows_sum (f := fun p => p.node.ledger a c) amount h
      fun _ _ _ hs => hs.posts.ledger a c
    rw [hempty, Nat.zero_add] at hshown
    exact hshown.eq_mod (Node.ledger_lt _ _ _)
  · refine h.run.invariant (I := fun p => ∀ c x, p.node.counter c = some x → x ≡ p.node.sum c [MOD c.size])
      (fun p e q hp hs c x hx => ?_) fun c x hx => ?_
    · obtain ⟨y, hy, hxy⟩ := hs.posts.counter c x hx
      exact (hxy.modEq.of_dvd c.size_dvd).trans
        (((hp c y hy).add_right _).trans (hs.posts.sum c).modEq.symm)
    · rw [hcounter c x hx, Node.sum, hstats]
      rfl
  · have hsums := h.run.sums_events fun e => (decide (e.pull = some (a, r))).toNat
    rw [sum_map_toNat] at hsums
    have hshown := shows_sum (f := fun p => p.node.ledger a c) (.id ℕ) hsums
      fun p e q hs => ledger_postings hc p e ▸ hs.posts.ledger a c
    rw [hempty, Nat.zero_add] at hshown
    exact hshown.eq_mod (Node.ledger_lt _ _ _)

def move? (p : Party) (e : PartyEvent) : Option Party := (Swarm.act? e p).map Prod.fst

theorem moves_of_move? (h : p.move? e = some q) : p.Moves e q := by
  obtain ⟨⟨q', sent⟩, hact, rfl⟩ := Option.map_eq_some_iff.mp h
  exact ⟨sent, Swarm.step_of_act? hact⟩

/-- The peer of the demonstration pulls its segment from the bootstrap and collects it. -/
def demoPull : List PartyEvent :=
  let w := demoWorld (secs 4)
  [.peer (.retryHandshake (secs 4)),
    .peer (.datagram w w (.handshakeResponse Swarm.demoAddr "origin") demoBootstrap),
    .peer (.pollManifest (secs 4)),
    .peer (.datagram w w (.manifestResponse Swarm.demoManifest) demoBootstrap),
    .peer (.fill smallestId w),
    .peer (.datagram w w (.segmentContents 1 1 1 [1, 2, 3]) demoBootstrap),
    .peer (.reap w (secs 4)
      ⟨1, ⟨"seg_1.ts", demoBootstrap⟩, .ok (), false, false, false, some 0, some 3⟩)]

theorem books_balance_demo : ∃ p k,
    Sums Moves (fun p e => (p.postings e).ledger) (Swarm.demoSwarm.party true) demoPull p k ∧
    k demoBootstrap .downloadedBytes = 3 ∧ p.node.ledger demoBootstrap .downloadedBytes = 3 ∧
    p.node.downloadedTotal.toNat ≡ p.node.sum .pulls [MOD 2 ^ 32] ∧
    p.node.ledger demoBootstrap .pulls = 1 := by
  have htally : ((tally move? (fun p e => (p.postings e).ledger) (Swarm.demoSwarm.party true)
      demoPull).any fun r => r.2 demoBootstrap .downloadedBytes = 3) = true := by decide +kernel
  obtain ⟨p, k, hk, hbytes⟩ := Sums.exists_of_tally (fun _ _ _ => moves_of_move?) htally
  have hbytes : k demoBootstrap .downloadedBytes = 3 := of_decide_eq_true hbytes
  obtain ⟨hledger, htotals, hpulls⟩ := books_balance (Swarm.demoSwarm_initial.starts true) hk
  exact ⟨p, k, hk, hbytes, by rw [hledger, hbytes]; rfl, htotals .pulls _ rfl,
    hpulls demoBootstrap .ok .pulls rfl⟩

/-- In every run of a process, each request that has come is being served, or has been counted
once, as served, as turned down or as given up, or another one with its id took its place. Whole
turns of the counters are missing, and none before 2^32 requests have come. -/
theorem requests_accounted {k : ℕ} (hstart : p₀.Starts)
    (h : Sums Moves (fun p e => (p.replaces e).toNat) p₀ es p k) :
    let accounted := p.registry.senders.len + p.registry.events.length +
      (p.node.sum .served + p.node.sum .nfServed + p.node.sum .senderFails) + k
    (∃ turns, accounted + 2 ^ 32 * turns = es.countP PartyEvent.isRequest) ∧
    (es.countP PartyEvent.isRequest < 2 ^ 32 → accounted = es.countP PartyEvent.isRequest) := by
  intro accounted
  obtain ⟨hstats, -, hsenders, hevents⟩ := hstart.empty
  have hsum (c : Column) : p₀.node.sum c = 0 := by
    rw [Node.sum, hstats]
    rfl
  have hzero : p₀.node.pending = 0 := by
    change p₀.registry.senders.len + p₀.registry.events.length = 0
    rw [hsenders, hevents]
    rfl
  have hsums := h.with_events fun e => e.isRequest.toNat
  rw [sum_map_toNat] at hsums
  have hbalance := shows_balance (m := 2 ^ 32)
    (f := fun p => p.node.pending + (p.node.sum .served + p.node.sum .nfServed + p.node.sum .senderFails))
    (AddMonoidHom.fst ℕ ℕ) (AddMonoidHom.snd ℕ ℕ) hsums fun p e q hs => by
      have hpending := hs.pending
      have hshown := (Shows.refl (q.node.pending + (p.replaces e).toNat)).add (shows_answered hs.posts)
      convert hshown using 1
      · simp only [AddMonoidHom.coe_fst]
        omega
      · simp only [AddMonoidHom.coe_snd]
        omega
  simp only [hzero, hsum, Nat.zero_add, AddMonoidHom.coe_fst, AddMonoidHom.coe_snd] at hbalance
  exact ⟨hbalance, hbalance.eq_of_lt⟩

/-- Of two requests the master of the demonstration serves one and turns the other one down. -/
def demoRequests : List PartyEvent :=
  let w := demoWorld (secs 4)
  [.master (.datagram w (.segmentRequest 1 "seg_1.ts") Swarm.demoAddr),
    .master (.datagram w (.segmentRequest 2 "seg_9.ts") Swarm.demoAddr),
    .master (.datagram w (.ack 1 .complete 0 0) Swarm.demoAddr),
    .master (.tick w (secs 4))]

theorem requests_accounted_demo : ∃ p,
    Sums Moves (fun p e => (p.replaces e).toNat) (Swarm.demoSwarm.party false) demoRequests p 0 ∧
    p.node.sum .served = 1 ∧ p.registry.senders.len + p.registry.events.length +
      (p.node.sum .served + p.node.sum .nfServed + p.node.sum .senderFails) + 0 = 2 := by
  have htally : ((tally move? (fun p e => (p.replaces e).toNat) (Swarm.demoSwarm.party false)
      demoRequests).any fun r => r.2 = 0 ∧ r.1.node.sum .served = 1) = true := by decide +kernel
  obtain ⟨p, k, hk, hend⟩ := Sums.exists_of_tally (fun _ _ _ => moves_of_move?) htally
  obtain ⟨rfl, hserved⟩ := of_decide_eq_true hend
  exact ⟨p, hk, hserved, (requests_accounted (Swarm.demoSwarm_initial.starts false) hk).2 (by decide)⟩

end Party
end Qstream

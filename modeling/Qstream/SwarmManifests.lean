import Qstream.SwarmSegments

/-! Where the manifests that the peers of a swarm go by come from. A peer may be the bootstrap of
another, so a manifest travels over any number of hops. -/
namespace Qstream
open Transfer Runs

namespace Party

/-- The manifest that the process goes by and gives out. -/
def manifest (p : Party) : Option Bytes := p.registry.dir.read p.node.manifestName

/-- The manifest that a starting process finds: an origin's is in `M`, a peer's in `K`. -/
def Finds (M K : Set Bytes) : Party → Prop
  | .master cfg n => ∀ data, (Party.master cfg n).manifest = some data → data ∈ M
  | .peer P S => ∀ data, (Party.peer P S).manifest = some data → data ∈ K

theorem Finds.mem {M K : Set Bytes} {p : Party} (h : p.Finds M K) :
    ∀ data, p.manifest = some data → data ∈ M ∪ K := by
  cases p with
  | master cfg n => exact fun data hdata => .inl (h data hdata)
  | peer P S => exact fun data hdata => .inr (h data hdata)

end Party

/-- A manifest in a datagram is one of `M`, or none at all. -/
def Message.Published (M : Set Bytes) : Message → Prop
  | .manifestResponse data => data = [] ∨ data ∈ M
  | _ => True

variable {M : Set Bytes} {x : Message × SocketAddr}

namespace Node
variable {n : Node} {cfg : NodeSettings} {w : World} {m : Message} {src : SocketAddr}

/-- A datagram starts no download. -/
theorem handle_idle (h : ∀ i, n.registry.receivers.lookup i = none) (i : ℕ) :
    (n.handle cfg w m src).1.registry.receivers.lookup i = none := by
  rw [handle_registry]
  cases m with
  | segmentRequest j f =>
    simp only
    split
    · exact h i
    · rw [TransferRegistry.serve_receivers]
      exact h i
  | segmentContents j p t d =>
    simp only [TransferRegistry.onContent, h]
  | segmentNotFound j av retryable =>
    simp only [TransferRegistry.onNotFound, h]
  | ack j ackType a b =>
    simp only [TransferRegistry.onAck_receivers]
    exact h i
  | _ => exact h i

theorem handle_idle_dir (h : ∀ i, n.registry.receivers.lookup i = none) :
    (n.handle cfg w m src).1.registry.dir = n.registry.dir := by
  rcases handle_dir n cfg w m src with hsame | ⟨id, r, file, hr, -⟩
  · exact hsame
  · simp [h] at hr

/-- The manifest in an answer is the node's own. -/
theorem Answer.published (h : n.Answer src x)
    (hM : ∀ data, n.registry.dir.read n.manifestName = some data → data ∈ M) : x.1.Published M := by
  cases h with
  | manifest =>
    cases hread : n.registry.dir.read n.manifestName with
    | none => exact .inl rfl
    | some data => exact .inr (hM data hread)
  | _ => trivial

end Node

namespace Party
variable {p q : Party} {e : PartyEvent} {sent : Outbox}

/-- A process that goes by a manifest of `M`, and can get no other but from a datagram. -/
structure Follows (M : Set Bytes) (p : Party) : Prop where
  manifest : ∀ data, p.manifest = some data → data ∈ M
  master : ∀ cfg n, p = .master cfg n → ∀ i, n.registry.receivers.lookup i = none
  peer : ∀ P S, p = .peer P S → S.Grounded

theorem Starts.follows (h : p.Starts) (hM : ∀ data, p.manifest = some data → data ∈ M) :
    p.Follows M where
  manifest := hM
  master cfg n hp i := by
    subst hp
    cases h
    rfl
  peer P S hp := by
    subst hp
    cases h
    exact Peer.initial_grounded ..

theorem Follows.of_peer {P : PeerConfig} {S : Peer} (hS : S.Grounded)
    (hM : ∀ data, S.node.registry.dir.read LIVE_MANIFEST = some data → data ∈ M) :
    (Party.peer P S).Follows M where
  manifest data hread := hM data (by rwa [Party.manifest, registry, node, hS.manifestName] at hread)
  master cfg n h := by cases h
  peer P' S' h := by
    cases h
    exact hS

theorem Follows.of_master {cfg : NodeSettings} {n : Node}
    (hidle : ∀ i, n.registry.receivers.lookup i = none)
    (hM : ∀ data, n.registry.dir.read n.manifestName = some data → data ∈ M) :
    (Party.master cfg n).Follows M where
  manifest := hM
  master cfg' n' h := by
    cases h
    exact hidle
  peer P S h := by cases h

/-- Pruning takes the manifest away at most. -/
theorem read_prunedDir {n : Node} {cfg : NodeSettings} {w : World} {now : ℕ} {f : String} {data : Bytes}
    (h : (n.prunedDir cfg w now).read f = some data) : n.registry.dir.read f = some data := by
  unfold Node.prunedDir at h
  split at h
  next => exact h
  next =>
    unfold Dir.read at h ⊢
    split at h
    next d modified heq =>
      have hfewer := Dir.lookup_of_fewer (fun child e he => by
        rw [HashMap.lookup_retain] at he
        exact (Option.filter_eq_some_iff.mp he).1) heq
      rw [hfewer]
      exact h
    next => cases h

/-- The timers send no manifest. -/
theorem published_of_mem_tick {n : Node} {cfg : NodeSettings} {w : World} {now : ℕ}
    (hx : x ∈ (n.tick cfg w now).2) : x.1.Published M := by
  rcases Node.mem_tick now hx with hreg | hping | ⟨av, hpong⟩
  · rcases TransferRegistry.mem_tick_sent hreg with ⟨i, s, -, hsent⟩ | ⟨i, r, -, hsent⟩
    · obtain ⟨p, d, heq⟩ := SenderTransfer.contents_of_mem_sendPackets
        (SenderTransfer.mem_tick_sent hsent)
      rw [heq]
      trivial
    · obtain ⟨-, -, hmsg⟩ := ReceiverTransfer.onTick_spec cfg.transfer r now fun k => w.clk (k + i)
      rcases hmsg _ hsent with heq | ⟨rg, -, heq⟩
      all_goals
        rw [heq]
        trivial
  · rw [hping]
    trivial
  · rw [hpong]
    trivial

/-- What the loop of a peer sends, if the manifest it goes by is in `M`. -/
theorem published_of_mem_apply {P : PeerConfig} {S S' : Peer} {e : PeerEvent} {sent : Outbox}
    (happ : S.apply P e = .ok (S', sent))
    (hM : ∀ data, S.node.registry.dir.read S.node.manifestName = some data → data ∈ M)
    (hx : x ∈ sent) : x.1.Published M := by
  cases e with
  | datagram w refresh m src =>
    rcases Peer.mem_receive happ hx with hsent | ⟨a, -, rfl⟩
    · exact (Node.answer_of_mem_handle hsent).published hM
    · trivial
  | tick w now =>
    cases happ
    exact published_of_mem_tick hx
  | prunePeers | retryHandshake | expirePending | pollManifest | pollPeerlist =>
    rcases (Peer.mem_quiet happ trivial hx).2 with heq | heq | heq
    all_goals
      rw [heq]
      trivial
  | reap w now f =>
    cases happ
    obtain ⟨⟨av, hpong⟩, -⟩ := Peer.mem_reap hx
    rw [hpong]
    trivial
  | fill ids w =>
    obtain rfl := Peer.snd_of_ok happ
    rcases Peer.fillOne_cases P S ids w with ⟨-, hsent⟩ | ⟨clk, remote, f, -, -, -, hsent⟩
    · rw [hsent] at hx
      cases hx
    · rw [hsent] at hx
      rw [List.mem_singleton.mp hx]
      trivial

/-- The manifest that a peer goes by after a step is the one before, or has been received. -/
theorem live_of_step {P : PeerConfig} {S S' : Peer} {e : PeerEvent} {sent : Outbox}
    (hen : S.Enabled e) (happ : S.apply P e = .ok (S', sent)) (hS : S.Grounded) :
    S'.node.registry.dir.read LIVE_MANIFEST = S.node.registry.dir.read LIVE_MANIFEST ∨
      ∃ w refresh data src, e = .datagram w refresh (.manifestResponse data) src ∧ data ≠ [] ∧
        S'.node.registry.dir.read LIVE_MANIFEST = some data := by
  have hstep : Peer.Step P S e S' := .mk hen happ
  rcases hstep.live hS with hsame | ⟨w, refresh, data, src, rfl, hread⟩
  · exact .inl (by rw [Dir.read, hsame, Dir.read])
  · rcases Peer.receive_written happ with ⟨hdir, -⟩ | ⟨hne, -⟩
    · exact .inl (by rw [hdir])
    · exact .inr ⟨w, refresh, data, src, rfl, hne, hread⟩

/-- What a process sends, and the manifest it goes by, stay in `M` if what it receives is. -/
theorem Step.follows (h : p.Step e q sent)
    (hin : ∀ m src, e.datagram = some (m, src) → m.Published M)
    (hfiles : ∀ dir, e = .master (.files dir) →
      ∀ data, dir.read p.node.manifestName = some data → data ∈ M)
    (hp : p.Follows M) : q.Follows M ∧ ∀ x ∈ sent, x.1.Published M := by
  cases h with
  | master cfg n e =>
    have hidle := hp.master cfg n rfl
    cases e with
    | datagram w m src =>
      refine ⟨.of_master (Node.handle_idle hidle) fun data hread => hp.manifest data ?_,
        fun x hx => (Node.answer_of_mem_handle hx).published hp.manifest⟩
      have hself := congrArg (fun s => s.2.2.1) (Node.handle_self n cfg w m src)
      change (n.handle cfg w m src).1.manifestName = n.manifestName at hself
      simp only [Node.apply] at hread
      rwa [hself, Node.handle_idle_dir hidle] at hread
    | tick w now =>
      have hself := congrArg (fun s => s.2.2.1) (Node.tick_self n cfg w now)
      change (n.tick cfg w now).1.manifestName = n.manifestName at hself
      refine ⟨.of_master (fun i => ?_) fun data hread => hp.manifest data ?_,
        fun x hx => published_of_mem_tick hx⟩
      · simp only [Node.apply, Node.tick_registry]
        exact TransferRegistry.tick_no_receivers hidle i
      · simp only [Node.apply, Node.tick_registry, hself] at hread
        exact read_prunedDir hread
    | files dir => exact ⟨.of_master hidle (hfiles dir rfl), fun x hx => absurd hx List.not_mem_nil⟩
  | @peer P S S' e sent hen happ =>
    have hS := hp.peer P S rfl
    refine ⟨.of_peer (Peer.Step.grounded (.mk hen happ) hS) fun data hread => ?_,
      fun x hx => published_of_mem_apply happ hp.manifest hx⟩
    rcases live_of_step hen happ hS with hsame | ⟨w, refresh, data', src, rfl, hne, hread'⟩
    · have hold := hp.manifest data
      rw [Party.manifest, registry, node, hS.manifestName] at hold
      exact hold (hsame ▸ hread)
    · obtain rfl : data' = data := Option.some.inj (hread'.symm.trans hread)
      exact (hin _ src rfl).resolve_left hne

end Party

namespace Swarm
variable {ι : Type} [DecidableEq ι] {X X' : Swarm ι} {K : Set Bytes}

/-- The manifests that an origin's files ever hold are in `M`, those that a peer finds when it
starts are in `K`, and nobody but the peer itself writes its copy. -/
def Publishes (M K : Set Bytes) (X : Swarm ι) : SwarmEvent ι → Prop
  | .act i (.master (.files dir)) =>
    ∀ data, dir.read (X.party i).node.manifestName = some data → data ∈ M
  | .disk i dir =>
    match X.party i with
    | .master _ n => ∀ data, dir.read n.manifestName = some data → data ∈ M
    | .peer _ S => dir.read LIVE_MANIFEST = S.node.registry.dir.read LIVE_MANIFEST
  | .start _ p => p.Finds M K
  | _ => True

omit [DecidableEq ι] in
/-- Every process goes by a manifest of `M`, and every manifest in flight is one. -/
structure Follows (M : Set Bytes) (X : Swarm ι) : Prop where
  parties : ∀ i, (X.party i).Follows M
  wire : ∀ x ∈ X.wire, x.1.Published M

theorem Follows.put (h : X.Follows M) (i : ι) {p : Party} (hp : p.Follows M) {wire : Outbox}
    (hwire : ∀ x ∈ wire, x ∈ X.wire ∨ x.1.Published M) (pulled : ℕ → String) :
    { X.put i p with wire := wire, pulled := pulled }.Follows M where
  parties j := by
    by_cases hj : j = i
    · subst hj
      simpa [Swarm.put] using hp
    · simpa [Swarm.put, hj] using h.parties j
  wire x hx := (hwire x hx).elim (h.wire x) id

theorem Step.follows {e : SwarmEvent ι} (hstep : Step X e X') (hpub : X.Publishes M K e)
    (h : X.Follows (M ∪ K)) : X'.Follows (M ∪ K) := by
  cases hstep with
  | @act i e p sent hparty hin =>
    have hdatagram : ∀ m src, e.datagram = some (m, src) → m.Published (M ∪ K) := by
      intro m src hm
      obtain ⟨dst, hmem⟩ := hin m src hm
      exact h.wire _ hmem
    obtain ⟨hp, hsent⟩ := hparty.follows hdatagram
      (fun dir heq data hread => by subst heq; exact .inl (hpub data hread)) (h.parties i)
    exact h.put i hp (fun x hx => (List.mem_append.mp hx).imp_right (hsent x)) _
  | disk i dir =>
    refine h.put i ?_ (fun x hx => .inl hx) _
    have hold := h.parties i
    simp only [Publishes] at hpub
    cases hi : X.party i with
    | master cfg n =>
      rw [hi] at hold hpub
      exact .of_master (hold.master cfg n rfl) fun data hread => .inl (hpub data hread)
    | peer P S =>
      rw [hi] at hold hpub
      have hS := hold.peer P S rfl
      have hsame : dir.read LIVE_MANIFEST = S.node.registry.dir.read LIVE_MANIFEST := hpub
      refine .of_peer ⟨hS.employed, fun f hf => ?_, hS.manifestName⟩ fun data hread => ?_
      · obtain ⟨hne, hsome⟩ := hS.stored f hf
        exact ⟨hne, hsame ▸ hsome⟩
      · have hM := hold.manifest data
        rw [Party.manifest, Party.registry, Party.node, hS.manifestName] at hM
        exact hM (hsame ▸ hread)
  | start i hstarts => exact h.put i (hstarts.follows hpub.mem) (fun x hx => .inl hx) _
  | lose x => exact ⟨h.parties, fun y hy => h.wire y (List.mem_of_mem_erase hy)⟩

/-- In every run of a swarm, over any number of hops, every manifest that a peer goes by or that
is in flight is, unchanged, one that the files of an origin held, or that a peer found in its
directory when it started. -/
theorem manifests_published (M K : Set Bytes) {X₀ X : Swarm ι} (hstart : X₀.Initial)
    (hfinds : ∀ i, (X₀.party i).Finds M K) {es : List (SwarmEvent ι)}
    (h : Run (guarded (Publishes M K) Step) X₀ es X) :
    (∀ i data, (X.party i).manifest = some data → data ∈ M ∪ K) ∧
    ∀ data a, (Message.manifestResponse data, a) ∈ X.wire → data = [] ∨ data ∈ M ∪ K := by
  have hX : X.Follows (M ∪ K) := by
    refine h.invariant (fun _ _ _ hs hst => hst.2.follows hst.1 hs) ⟨fun i => ?_, fun x hx => ?_⟩
    · exact (hstart.starts i).follows (hfinds i).mem
    · simp [hstart.silent] at hx
  exact ⟨fun i => (hX.parties i).manifest, fun data a hx => hX.wire _ hx⟩

/-- The steps of processes whose files nobody else writes. -/
def demoFollow? (X : Swarm Bool) : SwarmEvent Bool → Option (Swarm Bool)
  | .act _ (.master (.files _)) => none
  | .act i e => X.step? i e
  | _ => none

theorem step_of_demoFollow? {X X' : Swarm Bool} {e : SwarmEvent Bool} (h : demoFollow? X e = some X') :
    guarded (Publishes {demoManifest} ∅) Step X e X' := by
  unfold demoFollow? at h
  split at h
  next => cases h
  next i e hfiles =>
    refine ⟨?_, .of_step? h⟩
    unfold Publishes
    split <;> first | trivial | simp_all
  next => cases h

/-- The peer starts without a manifest and ends up with that of the origin. -/
theorem manifests_published_demo :
    ∃ X, Run (guarded (Publishes {demoManifest} ∅) Step) demoSwarm demoEvents X ∧
      (X.party true).manifest = some demoManifest ∧
      demoManifest ∈ ({demoManifest} ∪ ∅ : Set Bytes) := by
  have hrun : ((exec demoFollow? demoSwarm demoEvents).any fun X =>
      (X.party true).manifest = some demoManifest) = true := by decide +kernel
  obtain ⟨X, hX, hread⟩ := Run.exists_of_exec (f := demoFollow?) (fun _ _ _ => step_of_demoFollow?) hrun
  have hread := of_decide_eq_true hread
  refine ⟨X, hX, hread,
    (manifests_published {demoManifest} ∅ demoSwarm_initial ?_ hX).1 true _ hread⟩
  intro i
  cases i with
  | false =>
    intro data hdata
    have hheld : (demoSwarm.party false).manifest = some demoManifest := by decide +kernel
    exact Option.some.inj (hdata.symm.trans hheld)
  | true =>
    intro data hdata
    have hnone : (demoSwarm.party true).manifest = none := by decide +kernel
    cases hnone.symm.trans hdata

end Swarm
end Qstream

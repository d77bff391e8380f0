import Qstream.NodeMetrics
import Qstream.PeerNames

/-! The labels of the peers in the statistics, over whole runs: the first label of a peer
stays, so a run exposes its metrics well as long as its newcomers do. -/
namespace Qstream
open Transfer Runs

namespace Node
variable {n n' : Node} {l : List (SocketAddr × PeerLabel)} {a src : SocketAddr}

/-- The labels of `n'` are those of `n`, and for newcomers those of `l`. -/
def Labels (l : List (SocketAddr × PeerLabel)) (n n' : Node) : Prop :=
  ∀ a, n'.label a = (n.label a).or (l.lookup a)

theorem label_congr (h : n'.peerStats = n.peerStats) (a : SocketAddr) : n'.label a = n.label a := by
  rw [label, h, label]

theorem Labels.of_same (h : ∀ a, n'.label a = n.label a) : Labels [] n n' := by
  intro a
  rw [h, List.lookup_nil, Option.or_none]

theorem Labels.congr {x y : Node} (h : Labels l x y) (hx : ∀ a, x.label a = n.label a)
    (hy : ∀ a, n'.label a = y.label a) : Labels l n n' := by
  intro a
  rw [hy, h, hx]

theorem Labels.append {x : Node} {l' : List (SocketAddr × PeerLabel)} (h : Labels l n x)
    (h' : Labels l' x n') : Labels (l ++ l') n n' := by
  intro a
  rw [h', h, List.lookup_append, Option.or_assoc]

/-- What the statistics change of an entry, the label is not among it. -/
def KeepsLabel (f : PeerStat → PeerStat) : Prop := ∀ s, (f s).name = s.name

theorem label_modify (h : ∃ f, n'.peerStats = n.peerStats.modify src f ∧ KeepsLabel f)
    (a : SocketAddr) : n'.label a = n.label a := by
  obtain ⟨f, h, hf⟩ := h
  rw [label, h, HashMap.lookup_modify, label]
  split
  next ha =>
    rw [ha]
    cases n.peerStats.lookup src with
    | none => rfl
    | some s => exact congrArg some (hf s)
  next => rfl

theorem labels_orInsert {p : PeerLabel}
    (h : ∃ s, n'.peerStats = n.peerStats.orInsert src s ∧ s.name = p) : Labels [(src, p)] n n' := by
  obtain ⟨s, h, rfl⟩ := h
  intro a
  rw [label, h, HashMap.lookup_orInsert, label, List.lookup_cons, List.lookup_nil]
  by_cases ha : a = src
  · rw [if_pos ha, ha, beq_self_eq_true]
    cases n.peerStats.lookup src <;> rfl
  · rw [if_neg ha, beq_eq_false_iff_ne.mpr ha]
    simp

/-- An entry that is made where there is none, and then changed. -/
theorem labels_entry {p : PeerLabel} (h : ∃ s f, n'.peerStats =
    (n.peerStats.orInsert src s).modify src f ∧ s.name = p ∧ KeepsLabel f) :
    Labels [(src, p)] n n' := by
  obtain ⟨s, f, h, hs, hf⟩ := h
  have hmade : Labels [(src, p)] n { n with peerStats := n.peerStats.orInsert src s } :=
    labels_orInsert ⟨s, rfl, hs⟩
  exact hmade.congr (fun _ => rfl) (label_modify ⟨f, h, hf⟩)

theorem label_touchPeer (clk : Clock) (src a : SocketAddr) :
    (n.touchPeer clk src).label a = n.label a :=
  label_modify ⟨fun s => { s with lastSeen := clk 1 }, rfl, fun _ => rfl⟩ a

theorem registerPeer_labels (n : Node) (clk : Clock) (src : SocketAddr) (name : String) :
    Labels [(src, .name name)] n (n.registerPeer clk src name) := labels_orInsert ⟨_, rfl, rfl⟩

end Node

/-- The peer that a serve was for. -/
def Transfer.RegEvent.src : RegEvent → SocketAddr
  | .served src _ | .notFound src | .senderFailed src => src

namespace Node
variable {n n' : Node} {l : List (SocketAddr × PeerLabel)} {a src : SocketAddr}

theorem recordServe_labels (n : Node) (clk : Clock) (e : RegEvent) :
    Labels [(e.src, n.peerLabel e.src)] n (n.recordServe clk e) := by
  cases e with
  | served src bytes =>
    exact labels_entry ⟨_, _, rfl, rfl, fun _ => rfl⟩
  | notFound src => exact labels_entry ⟨_, _, rfl, rfl, fun _ => rfl⟩
  | senderFailed src =>
    exact labels_entry ⟨_, _, rfl, rfl, fun _ => rfl⟩

theorem peerLabel_congr (h : n'.peers = n.peers) (a : SocketAddr) :
    n'.peerLabel a = n.peerLabel a := by rw [peerLabel, h, peerLabel]

theorem foldl_recordServe_labels (n : Node) (clk : Clock) (es : List RegEvent) :
    Labels (es.map fun e => (e.src, n.peerLabel e.src)) n
      (es.foldl (fun n e => n.recordServe clk e) n) := by
  induction es generalizing n with
  | nil => exact .of_same fun _ => rfl
  | cons e es ih =>
    have hrest := ih (n.recordServe clk e)
    simp only [peerLabel_congr (recordServe_peers n clk e)] at hrest
    exact (recordServe_labels n clk e).append hrest

theorem recordPull_labels (n : Node) (clk : Clock) (p : SocketAddr) (res : PullResult)
    (latency : Option ℕ) (bytes : ℕ) :
    Labels [(p, n.peerLabel p)] n (n.recordPull clk p res latency bytes) := by
  have hseen : Labels [(p, n.peerLabel p)] n { n with
      peerStats := (n.peerStats.orInsert p (.new (n.peerLabel p) (clk 0))).modify p
        fun stat => { stat with lastSeen := clk 1 } } :=
    labels_entry ⟨_, _, rfl, rfl, fun _ => rfl⟩
  cases res with
  | retryableNotFound => exact hseen
  | ok => exact hseen.congr (fun _ => rfl) (label_modify ⟨_, rfl, fun _ => rfl⟩)
  | notFound => exact hseen.congr (fun _ => rfl) (label_modify ⟨_, rfl, fun _ => rfl⟩)
  | timeout => exact hseen.congr (fun _ => rfl) (label_modify ⟨_, rfl, fun _ => rfl⟩)
  | other => exact hseen.congr (fun _ => rfl) (label_modify ⟨_, rfl, fun _ => rfl⟩)

/-- The newcomer that a registration makes. -/
def registered (src : SocketAddr) (intro : Option (String × Bool)) :
    List (SocketAddr × PeerLabel) :=
  match intro with
  | some (name, _) => [(src, .name name)]
  | none => []

theorem discover_labels (n : Node) (clk : Clock) (src : SocketAddr) (name : String) :
    Labels (registered src (if src ∈ n.peers ∨ name = "" then none
      else some (name, isLanSource src))) n (n.discover clk src name) := by
  unfold discover
  by_cases hold : src ∈ n.peers ∨ name = ""
  · rw [if_pos hold, if_neg (by tauto)]
    exact .of_same fun _ => rfl
  rw [if_neg hold, if_pos (by tauto)]
  have hreg := registerPeer_labels n clk src name
  split
  · exact hreg.congr (fun _ => rfl) fun _ => rfl
  · exact hreg

/-- A datagram makes a newcomer when it registers its source. -/
theorem handle_labels (n : Node) (cfg : NodeSettings) (w : World) (m : Message)
    (src : SocketAddr) : Labels (registered src (n.introduces m src)) n (n.handle cfg w m src).1 := by
  have htouch := fun a => label_touchPeer (n := n) w.clk src a
  have hsame {x : Node} (h : x.peerStats = (n.touchPeer w.clk src).peerStats) : Labels [] n x :=
    .of_same fun a => (label_congr h a).trans (htouch a)
  cases m with
  | handshakeRequest claimed name =>
    exact (registerPeer_labels (n.touchPeer w.clk src) (w.after 2).clk src name).congr htouch
      fun _ => rfl
  | ping nonce name =>
    simp only [handle, introduces]
    by_cases hown : nonce = n.beaconNonce ∨ src = n.localAddr
    · rw [if_pos (show _ ∨ _ ∨ _ by tauto), if_pos (by exact hown)]
      exact hsame rfl
    · have h := discover_labels (n.touchPeer w.clk src) (w.after 2).clk src name
      simp only [mem_touchPeer] at h
      have hcond : (nonce = n.beaconNonce ∨ src = n.localAddr ∨ src ∈ n.peers ∨ name = "") ↔
          (src ∈ n.peers ∨ name = "") := by tauto
      have hother : ¬ (nonce = (n.touchPeer w.clk src).beaconNonce ∨
          src = (n.touchPeer w.clk src).localAddr) := hown
      simp only [hcond, if_neg hother]
      exact h.congr htouch fun _ => rfl
  | pong av => cases av <;> exact hsame rfl
  | segmentRequest id filename =>
    refine hsame ?_
    simp only [handle, originSeedAllowed_eq]
    cases (n.touchPeer w.clk src).admission cfg (w.after 2).clk filename src <;> rfl
  | segmentNotFound id av retryable =>
    simp only [handle]
    split
    · unfold recordMissing
      split <;> cases av <;> exact hsame rfl
    · cases av <;> exact hsame rfl
  | _ => exact hsame rfl

/-- The timers make newcomers of those whose serves ended. -/
theorem tick_labels (n : Node) (cfg : NodeSettings) (w : World) (now : ℕ) :
    Labels ((n.registry.tick cfg.transfer w now).1.events.map fun e => (e.src, n.peerLabel e.src)) n
      (n.tick cfg w now).1 := by
  have hprune := pruneSegments_proj (·.peerStats) fun _ _ _ => rfl
  have hping := pingCycle_proj (·.peerStats) fun _ _ _ _ => rfl
  have hserve := foldl_recordServe_labels { n with
    registry := { (n.registry.tick cfg.transfer w now).1 with events := [] } } w.clk
    (n.registry.tick cfg.transfer w now).1.events
  refine hserve.congr (fun _ => rfl) (label_congr ?_)
  exact (hprune _ _ _ _).trans (hping _ _ _)

/-- Those that enter the statistics with labels of their own. -/
structure Admits (n : Node) (l : List (SocketAddr × PeerLabel)) : Prop where
  written : ∀ a p, n.label a = none → l.lookup a = some p → ExposableText p.text
  apart : ∀ a b p q, n.label a = none → l.lookup a = some p →
    (n.label b).or (l.lookup b) = some q → p.text = q.text → a = b

/-- A single newcomer. -/
theorem admits_singleton_iff {p : PeerLabel} : n.Admits [(src, p)] ↔
    (n.label src = none → ExposableText p.text ∧ ∀ b q, n.label b = some q → p.text ≠ q.text) := by
  have hself : ([(src, p)] : List (SocketAddr × PeerLabel)).lookup src = some p := by
    rw [List.lookup_cons, beq_self_eq_true]
  have honly {a : SocketAddr} {q : PeerLabel}
      (h : ([(src, p)] : List (SocketAddr × PeerLabel)).lookup a = some q) : a = src ∧ q = p := by
    by_cases ha : a = src
    · rw [ha, hself] at h
      exact ⟨ha, (Option.some.inj h).symm⟩
    · rw [List.lookup_cons, beq_eq_false_iff_ne.mpr ha] at h
      cases h
  constructor
  · intro h hout
    refine ⟨h.written src p hout hself, fun b q hq heq => ?_⟩
    obtain rfl := h.apart src b p q hout hself (by rw [hq]; rfl) heq
    rw [hout] at hq
    cases hq
  · intro h
    refine ⟨fun a q hout hq => ?_, fun a b q q' hout hq hq' heq => ?_⟩
    · obtain ⟨rfl, rfl⟩ := honly hq
      exact (h hout).1
    · obtain ⟨rfl, rfl⟩ := honly hq
      rcases Option.or_eq_some_iff.mp hq' with hq' | ⟨-, hq'⟩
      · exact absurd heq ((h hout).2 b q' hq')
      · exact (honly hq').1.symm

/-- Labels stay exposable exactly when those of the newcomers are. -/
theorem Labels.exposable_iff (h : Labels l n n') (hn : n.LabelsExposable) :
    n'.LabelsExposable ↔ n.Admits l := by
  have hnew {a : SocketAddr} {p : PeerLabel} (hout : n.label a = none) (hp : l.lookup a = some p) :
      n'.label a = some p := by rw [h, hout, hp]; rfl
  constructor
  · intro hn'
    refine ⟨fun a p hout hp => hn'.written a p (hnew hout hp), fun a b p q hout hp hq heq => ?_⟩
    exact hn'.apart a b p q (hnew hout hp) ((h b).trans hq) heq
  · intro hl
    refine ⟨fun a p hp => ?_, fun a b p q hp hq heq => ?_⟩
    · rcases Option.or_eq_some_iff.mp ((h a).symm.trans hp) with hp | ⟨hout, hp⟩
      · exact hn.written a p hp
      · exact hl.written a p hout hp
    · rcases Option.or_eq_some_iff.mp ((h a).symm.trans hp) with hp' | ⟨hout, hp'⟩
      · rcases Option.or_eq_some_iff.mp ((h b).symm.trans hq) with hq' | ⟨hout, hq'⟩
        · exact hn.apart a b p q hp' hq' heq
        · exact (hl.apart b a q p hout hq' ((h a).symm.trans hp) heq.symm).symm
      · exact hl.apart a b p q hout hp' ((h b).symm.trans hq) heq

theorem labelsExposable_of_empty (h : n.peerStats = ∅) : n.LabelsExposable := by
  have hnone (a : SocketAddr) : n.label a = none := by rw [label, h]; rfl
  exact ⟨fun a p hp => by simp [hnone] at hp, fun a b p q hp => by simp [hnone] at hp⟩

/-- Those that an event of a master's loop brings into the statistics, and their labels. -/
def newcomers (cfg : NodeSettings) (n : Node) : NodeEvent → List (SocketAddr × PeerLabel)
  | .datagram _ m src => registered src (n.introduces m src)
  | .tick w now =>
    (n.registry.tick cfg.transfer w now).1.events.map fun e => (e.src, n.peerLabel e.src)
  | .files _ => []

theorem Step.labels {cfg : NodeSettings} {e : NodeEvent} (h : Step cfg n e n') :
    Labels (n.newcomers cfg e) n n' := by
  cases h with
  | mk =>
    cases e with
    | datagram w m src => exact handle_labels n cfg w m src
    | tick w now => exact tick_labels n cfg w now
    | files dir => exact .of_same fun _ => rfl

end Node

namespace Peer
variable {P : PeerConfig} {S S' : Peer}

/-- Those that a step of a peer's loop brings into the statistics, and their labels. -/
def newcomers (P : PeerConfig) (S : Peer) : PeerEvent → List (SocketAddr × PeerLabel)
  | .datagram _ _ m src => Node.registered src (S.introduces m src)
  | .tick w now => S.node.newcomers P.settings (.tick w now)
  | .reap _ _ f => [(f.job.peer, S.node.peerLabel f.job.peer)]
  | _ => []

theorem receive_labels {w refresh : World} {m : Message} {src : SocketAddr} {sent : Outbox}
    (h : S.receive P w refresh m src = .ok (S', sent)) :
    Node.Labels (Node.registered src (S.introduces m src)) S.node S'.node := by
  have hhandle := Node.handle_labels S.node P.settings (w.after 1) m src
  rw [receive_node h]
  cases m with
  | handshakeResponse observed name =>
    exact hhandle.append (Node.registerPeer_labels _ (w.after 32).clk src name)
  | manifestResponse data => exact hhandle.congr (fun _ => rfl) fun _ => rfl
  | _ => exact hhandle

theorem reapJob_labels (w : World) (now : ℕ) (f : Finished) (n : Node) (s : Scheduler) :
    Node.Labels [(f.job.peer, n.peerLabel f.job.peer)] n (reapJob P w now f n s).1 := by
  have hcollect : Node.Labels [(f.job.peer, n.peerLabel f.job.peer)] n (collect w f n s).1 := by
    unfold collect
    cases f.outcome with
    | ok u => exact Node.recordPull_labels n _ _ _ _ _
    | error e =>
      exact (Node.recordPull_labels { n with registry := n.registry.removeReceiver f.id } _ _ _ _
        _).congr (fun _ => rfl) fun _ => rfl
  exact hcollect.congr (fun _ => rfl) (Node.label_congr
    (reapJob_of_collect (·.peerStats) (fun _ _ => rfl) (fun _ _ => rfl) w now f n s))

theorem Step.labels {e : PeerEvent} (h : Step P S e S') :
    Node.Labels (S.newcomers P e) S.node S'.node := by
  cases h with
  | mk hen happ =>
    cases e with
    | datagram w refresh m src => exact receive_labels happ
    | tick w now =>
      obtain rfl := fst_of_ok happ
      exact Node.tick_labels S.node P.settings w now
    | prunePeers | retryHandshake | expirePending | pollManifest | pollPeerlist =>
      exact .of_same (Node.label_congr
        (apply_quiet_node P (·.peerStats) (fun _ _ => rfl) (fun _ _ _ => rfl) happ trivial))
    | reap w now f =>
      obtain rfl := fst_of_ok happ
      exact reapJob_labels w now f S.node S.sched
    | fill ids w =>
      obtain rfl := fst_of_ok happ
      refine .of_same (Node.label_congr ?_)
      rcases fillStep_cases P ids w S.node S.sched with
        ⟨rng, hstep⟩ | ⟨filename, rest, peer, rng, r, -, -, -, -, hstep⟩
      · simp only [fillOne, hstep]
      · simp only [fillOne, hstep]
        rfl

end Peer

/-- As long as every newcomer of the statistics has a label that can be written and that no
other peer goes by, the metrics are exposed well if the node's own name can be written; the
next step keeps it so exactly when its newcomers have such labels. -/
theorem metrics_exposable (P : PeerConfig) (w : World) (claimed : Option SocketAddr)
    (seed : UInt64) (cfg : NodeSettings) (clk : Clock) (name manifestName : String)
    (localAddr : SocketAddr) (dir : Dir) (nonce : UInt32) :
    (∀ es S, Run (guarded (fun S e => S.node.Admits (S.newcomers P e)) (Peer.Step P))
        (Peer.initial P w dir nonce claimed seed) es S →
      (∀ r, S.node.ExposesWell r ↔ ExposableText P.name) ∧
        ∀ e S', Peer.Step P S e S' → ∀ r, S'.node.ExposesWell r ↔
          ExposableText P.name ∧ S.node.Admits (S.newcomers P e)) ∧
    ∀ es n, Run (guarded (fun n e => n.Admits (n.newcomers cfg e)) (Node.Step cfg))
        (.new clk name .master manifestName dir localAddr nonce) es n →
      (∀ r, n.ExposesWell r ↔ ExposableText name) ∧
        ∀ e n', Node.Step cfg n e n' → ∀ r, n'.ExposesWell r ↔
          ExposableText name ∧ n.Admits (n.newcomers cfg e) := by
  have hname {n : Node} {x : String × Role × String × UInt32 × SocketAddr} (h : n.self = x) :
      n.name = x.1 := congrArg Prod.fst h
  refine ⟨fun es S hrun => ?_, fun es n hrun => ?_⟩
  · obtain ⟨hself, hlabels⟩ := hrun.invariant
      (I := fun S => S.node.self = (Peer.initial P w dir nonce claimed seed).node.self ∧
        S.node.LabelsExposable)
      (fun T e T' hT hstep => ⟨hstep.2.self_eq.trans hT.1,
        (hstep.2.labels.exposable_iff hT.2).mpr hstep.1⟩)
      ⟨rfl, Node.labelsExposable_of_empty rfl⟩
    refine ⟨fun r => ?_, fun e S' hstep r => ?_⟩
    · rw [Node.exposesWell_iff, hname hself]
      exact and_iff_left hlabels
    · rw [Node.exposesWell_iff, hname (hstep.self_eq.trans hself),
        hstep.labels.exposable_iff hlabels]
      rfl
  · obtain ⟨hself, hlabels⟩ := hrun.invariant
      (I := fun n => n.self = (Node.new clk name .master manifestName dir localAddr nonce).self ∧
        n.LabelsExposable)
      (fun m e m' hm hstep => ⟨hstep.2.self_eq.trans hm.1,
        (hstep.2.labels.exposable_iff hm.2).mpr hstep.1⟩)
      ⟨rfl, Node.labelsExposable_of_empty rfl⟩
    refine ⟨fun r => ?_, fun e n' hstep r => ?_⟩
    · rw [Node.exposesWell_iff, hname hself]
      exact and_iff_left hlabels
    · rw [Node.exposesWell_iff, hname (hstep.self_eq.trans hself),
        hstep.labels.exposable_iff hlabels]
      rfl

/-- A peer that one node has sent a PING, and a fresh master. -/
theorem metrics_exposable_demo :
    (∃ S, Run (Peer.Step demoConfig) (demoStart emptyDir) [demoNamesake 7 demoOther] S ∧
      ∀ r, S.node.ExposesWell r) ∧
    ∀ r, (Node.new (fun _ => 0) "master" .master "live.m3u8" emptyDir demoLocal 1).ExposesWell r := by
  have hmet : (demoStart emptyDir).step? demoConfig (demoNamesake 7 demoOther) = some demoMet := rfl
  have hnone (a : SocketAddr) : (demoStart emptyDir).node.label a = none := rfl
  have hwritten : ∀ s ∈ ["peer", "master", demoConfig.name], ExposableText s := by
    simp [ExposableText, Exposable, demoConfig]
  have hadmits : (demoStart emptyDir).node.Admits
      ((demoStart emptyDir).newcomers demoConfig (demoNamesake 7 demoOther)) := by
    have hnew : (demoStart emptyDir).newcomers demoConfig (demoNamesake 7 demoOther) =
        [(demoOther, .name "peer")] := by decide +kernel
    rw [hnew]
    exact Node.admits_singleton_iff.mpr fun _ =>
      ⟨hwritten "peer" (by simp), fun b q hq => by rw [hnone] at hq; cases hq⟩
  have hstep : Peer.Step demoConfig (demoStart emptyDir) (demoNamesake 7 demoOther) demoMet :=
    .of_step? hmet
  obtain ⟨hpeer, hmaster⟩ := metrics_exposable demoConfig (demoWorld 0) none 1 demoConfig.settings
    (fun _ => 0) "master" "live.m3u8" demoLocal emptyDir 1
  exact ⟨⟨demoMet, .one hstep, fun r => ((hpeer _ demoMet (.one ⟨hadmits, hstep⟩)).1 r).mpr
      (hwritten _ (by simp))⟩,
    fun r => ((hmaster [] _ (.nil _)).1 r).mpr (hwritten _ (by simp))⟩

/-- Two nodes under the default name share their series, and of a name with a tab in it a
scraper reads nothing. -/
theorem namesakes_share_series :
    (∃ S, Run (Peer.Step demoConfig) (demoStart emptyDir)
        [demoNamesake 7 demoOther, demoNamesake 8 demoBootstrap] S ∧
      ∀ r, ¬ ((S.node.samples r).map Sample.series).Nodup) ∧
    ∃ S, Run (Peer.Step demoConfig) (demoStart emptyDir)
        [.datagram (demoWorld 1) (demoWorld 1) (.ping 7 "a\tb") demoOther] S ∧
      ∀ r, ∃ x ∈ S.node.samples r, ∃ l ∈ x.labels,
        l = ("peer", "a\tb") ∧ readValue (jsonEscape l.2 ++ ['"']) = none := by
  constructor
  · obtain ⟨S, hrun, hp⟩ := Peer.exists_run demoConfig (demoStart emptyDir)
      [demoNamesake 7 demoOther, demoNamesake 8 demoBootstrap]
      (fun S => S.node.label demoOther = some (.name "peer") ∧
        S.node.label demoBootstrap = some (.name "peer")) (by decide +kernel)
    obtain ⟨hother, hboot⟩ := of_decide_eq_true hp
    obtain ⟨s, hs, hsname⟩ := Node.label_eq_some.mp hother
    obtain ⟨t, ht, htname⟩ := Node.label_eq_some.mp hboot
    refine ⟨S, hrun, fun r hnodup => ?_⟩
    have heq : demoOther = demoBootstrap := (Node.distinct_iff S.node r).mp hnodup _ _ s t hs ht
      (by rw [hsname, htname])
    exact absurd heq (by decide)
  · obtain ⟨S, hrun, hp⟩ := Peer.exists_run demoConfig (demoStart emptyDir)
      [.datagram (demoWorld 1) (demoWorld 1) (.ping 7 "a\tb") demoOther]
      (fun S => S.node.label demoOther = some (.name "a\tb")) (by decide +kernel)
    obtain ⟨s, hs, hsname⟩ := Node.label_eq_some.mp (of_decide_eq_true hp)
    refine ⟨S, hrun, fun r => ⟨⟨"qstream_peer_score", [("node", S.node.name),
      ("peer", s.name.text)], s.score⟩, ?_, ("peer", s.name.text), List.mem_cons_of_mem _
        List.mem_cons_self, ?_, ?_⟩⟩
    · exact Node.mem_samples.mpr (.inr ⟨(demoOther, s), Node.mem_ranked.mpr hs, List.mem_cons_self⟩)
    · rw [hsname]
      rfl
    · rw [hsname]
      decide +kernel

end Qstream

import Qstream.NodeEffects
import Qstream.NodeNames
import Qstream.PeerBootstrap
import Qstream.PeerRequeue

/-! Two nodes that announce the same name stay independent sources, in every run in which no
name is taken while one of its two addresses is reached over the LAN. -/
namespace Qstream
open Transfer Runs

namespace Peer
variable {P : PeerConfig} {S S' : Peer}

/-- The registration that a datagram causes in the peer's loop. -/
def introduces (S : Peer) (m : Message) (src : SocketAddr) : Option (String × Bool) :=
  match m with
  | .handshakeResponse _ name => some (name, false)
  | m => S.node.introduces m src

theorem receive_introduced {w refresh : World} {m : Message} {src : SocketAddr} {sent : Outbox}
    (h : S.receive P w refresh m src = .ok (S', sent)) :
    Node.Introduced S.node S'.node src (S.introduces m src) := by
  have hhandle := Node.handle_introduced S.node P.settings (w.after 1) m src
  rw [receive_node h]
  cases m with
  | handshakeResponse observed name =>
    refine (Node.registerPeer_introduced _ src name).congr (fun a => ?_) fun a => ?_
    · rw [hhandle.names]
      simp [Node.introduces]
    · rw [hhandle.lan]
      simp [Node.introduces]
  | manifestResponse data => exact ⟨hhandle.names, hhandle.lan⟩
  | _ => exact hhandle

theorem names_foldl_removePeer (l : List (SocketAddr × ℕ)) (n : Node) {a : SocketAddr}
    {name : String} (h : (l.foldl (fun n e => n.removePeer e.1) n).names a = some name) :
    n.names a = some name := by
  induction l generalizing n with
  | nil => exact h
  | cons e l ih =>
    have hrest := ih _ h
    simp only [Node.names, Node.removePeer, HashMap.lookup_erase'] at hrest
    split at hrest
    · cases hrest
    · exact hrest

/-- Past its statistics, a collected job changes the transfers and the known peers at most. -/
theorem reapJob_of_collect {α : Type*} (proj : Node → α)
    (hreg : ∀ (n : Node) reg, proj { n with registry := reg } = proj n)
    (hpeer : ∀ n p, proj (Node.removePeer n p) = proj n) (w : World) (now : ℕ) (f : Finished)
    (n : Node) (s : Scheduler) : proj (reapJob P w now f n s).1 = proj (collect w f n s).1 := by
  cases hres : f.result with
  | ok =>
    simp only [reapJob, hres, reapOk, Node.withDir]
    exact hreg _ _
  | retryableNotFound => simp only [reapJob, hres]
  | _ =>
    have hf : f.Failed := ⟨by simp [hres], by simp [hres]⟩
    obtain ⟨hits, hspec⟩ := reapJob_failed P w now hf n s
    rw [hspec]
    unfold afterEviction
    split
    · exact hpeer _ _
    · rfl

/-- Collecting a job leaves alone what neither statistics nor transfers nor evictions touch. -/
theorem reapJob_same {α : Type*} (proj : Node → α)
    (hpull : ∀ n clk p res l b, proj (Node.recordPull n clk p res l b) = proj n)
    (hreg : ∀ (n : Node) reg, proj { n with registry := reg } = proj n)
    (hpeer : ∀ n p, proj (Node.removePeer n p) = proj n) (w : World) (now : ℕ) (f : Finished)
    (n : Node) (s : Scheduler) : proj (reapJob P w now f n s).1 = proj n := by
  rw [reapJob_of_collect proj hreg hpeer]
  simp only [collect, hpull]
  cases f.outcome with
  | ok u => rfl
  | error e => exact hreg n _

theorem reapJob_paths (w : World) (now : ℕ) (f : Finished) (n : Node) (s : Scheduler) :
    (reapJob P w now f n s).1.paths = n.paths :=
  reapJob_same (·.paths) (fun _ _ _ res _ _ => by cases res <;> rfl) (fun _ _ => rfl)
    (fun _ _ => rfl) w now f n s

theorem Step.self_eq {e : PeerEvent} (h : Step P S e S') : S'.node.self = S.node.self := by
  cases h with
  | mk hen happ =>
    cases e with
    | datagram w refresh m src =>
      rw [receive_node happ, ← Node.handle_self S.node P.settings (w.after 1) m src]
      cases m <;> rfl
    | tick w now =>
      obtain rfl := fst_of_ok happ
      exact Node.tick_self S.node P.settings w now
    | prunePeers | retryHandshake | expirePending | pollManifest | pollPeerlist =>
      exact apply_quiet_node P Node.self (fun _ _ => rfl) (fun _ _ _ => rfl) happ trivial
    | reap w now f =>
      obtain rfl := fst_of_ok happ
      exact reapJob_same Node.self (fun _ _ _ res _ _ => by cases res <;> rfl) (fun _ _ => rfl)
        (fun _ _ => rfl) w now f S.node S.sched
    | fill ids w =>
      obtain rfl := fst_of_ok happ
      rcases fillStep_cases P ids w S.node S.sched with
        ⟨rng, hstep⟩ | ⟨filename, rest, peer, rng, r, -, -, -, -, hstep⟩
      · simp only [fillOne, hstep]
      · simp only [fillOne, hstep]
        rfl

/-- Only datagrams introduce names or LAN marks. -/
theorem Step.names_kept {e : PeerEvent} (hstep : Step P S e S')
    (hquiet : ∀ w refresh m src, e ≠ .datagram w refresh m src) :
    (∀ a name, S'.node.names a = some name → S.node.names a = some name) ∧
      ∀ a, S'.node.isLanPath a = S.node.isLanPath a := by
  have hsame {n' : Node} (hpeers : n'.peers = S.node.peers) (hpaths : n'.paths = S.node.paths) :
      (∀ a name, n'.names a = some name → S.node.names a = some name) ∧
        ∀ a, n'.isLanPath a = S.node.isLanPath a :=
    ⟨fun a name h => by rwa [Node.names, hpeers] at h,
      fun a => by rw [Node.isLanPath, hpaths]; rfl⟩
  cases hstep with
  | mk hen happ =>
    cases e with
    | datagram w refresh m src => exact absurd rfl (hquiet w refresh m src)
    | tick w now =>
      obtain rfl := fst_of_ok happ
      exact ⟨fun a name h => (Node.tick_names P.settings w now).symm.trans h,
        fun a => Node.tick_isLanPath P.settings w now⟩
    | prunePeers now =>
      obtain rfl := fst_of_ok happ
      refine ⟨fun a name h => ?_, fun a => rfl⟩
      obtain ⟨info, hinfo, hname⟩ := Option.map_eq_some_iff.mp h
      simp only [prunePeers, Node.prunePeers, HashMap.lookup_retain,
        Option.filter_eq_some_iff] at hinfo
      rw [Node.names, hinfo.1, Option.map_some, hname]
    | retryHandshake now =>
      obtain rfl := fst_of_ok happ
      rw [(retryHandshake_spec P S now).1]
      exact hsame rfl rfl
    | expirePending now =>
      obtain rfl := fst_of_ok happ
      refine ⟨fun a name h => names_foldl_removePeer _ _ h, fun a => ?_⟩
      rw [Node.isLanPath, Node.isLanPath]
      exact congrArg (fun m => (AList.lookup a m).any fun p => p.lan)
        (foldl_removePeer_same (·.paths) (fun _ _ => rfl) _ _)
    | pollManifest now =>
      obtain rfl := fst_of_ok happ
      rw [(pollManifest_spec P S now).1]
      exact hsame rfl rfl
    | pollPeerlist now =>
      obtain rfl := fst_of_ok happ
      rw [(pollPeerlist_spec P S now).1]
      exact hsame rfl rfl
    | reap w now f =>
      obtain rfl := fst_of_ok happ
      have hpaths := reapJob_paths (P := P) w now f S.node S.sched
      have hlan : ∀ a, (reapJob P w now f S.node S.sched).1.isLanPath a = S.node.isLanPath a :=
        fun a => by rw [Node.isLanPath, Node.isLanPath, hpaths]
      refine ⟨fun a name h => ?_, hlan⟩
      have hnames : (reapJob P w now f S.node S.sched).1.names a = some name := h
      rcases reapJob_cases P w now f S.node S.sched with ⟨-, -, -, heq⟩ | ⟨-, -, -, heq⟩ |
        ⟨-, heq, -⟩
      · rwa [Node.names, heq] at hnames
      · rwa [Node.names, heq] at hnames
      · rw [Node.names, heq] at hnames
        unfold afterEviction at hnames
        split at hnames
        · exact names_foldl_removePeer [(f.job.peer, 0)] S.node hnames
        · exact hnames
    | fill ids w =>
      obtain rfl := fst_of_ok happ
      refine hsame (fillOne_peers ids w) ?_
      unfold fillOne
      rcases fillStep_cases P ids w S.node S.sched with ⟨rng, h⟩ | ⟨f, rest, peer, rng, r, -, -, -, -, h⟩
      · simp only [h]
      · simp only [h, Node.addReceiver]

/-- No datagram takes the name of another node in a way that matters. -/
def TakesNoName {ι : Type*} (owner : SocketAddr → ι) (S : Peer) : PeerEvent → Prop
  | .datagram _ _ m src => S.node.KeepsApart owner src (S.introduces m src)
  | _ => True

theorem Step.apart_iff {ι : Type*} {owner : SocketAddr → ι} {e : PeerEvent} (h : Step P S e S')
    (hS : S.node.Apart owner) : S'.node.Apart owner ↔ S.TakesNoName owner e := by
  cases e with
  | datagram w refresh m src =>
    cases h with
    | mk hen happ => exact (receive_introduced happ).apart_iff hS
  | _ =>
    obtain ⟨hnames, hlan⟩ := h.names_kept (by simp)
    exact iff_of_true (hS.of_subset hnames hlan) trivial

end Peer

/-- Names are labels: as long as no datagram registers its source under the name of another
known node while one of the two addresses is reached over the LAN, no address of a node is
replaced by an address of another one, in the peer's loop and in the master's. The next step
keeps it so exactly when it meets that condition. -/
theorem names_are_labels {ι : Type*} (owner : SocketAddr → ι) :
    (∀ P w dir nonce claimed seed es S,
      Run (guarded (Peer.TakesNoName owner) (Peer.Step P))
        (Peer.initial P w dir nonce claimed seed) es S →
      S.node.Independent owner ∧ S.node.KeepsSources owner P ∧
        ∀ e S', Peer.Step P S e S' → (S'.node.Independent owner ↔ S.TakesNoName owner e)) ∧
    ∀ cfg clk name manifestName dir localAddr nonce es n,
      Run (guarded (Node.TakesNoName owner) (Node.Step cfg))
        (.new clk name .master manifestName dir localAddr nonce) es n →
      n.Independent owner ∧
        ∀ e n', Node.Step cfg n e n' → (n'.Independent owner ↔ n.TakesNoName owner e) := by
  refine ⟨fun P w dir nonce claimed seed es S hrun => ?_,
    fun cfg clk name manifestName dir localAddr nonce es n hrun => ?_⟩
  · have hapart : S.node.Apart owner := by
      refine hrun.invariant (I := fun S => S.node.Apart owner)
        (fun T e T' hT hstep => (hstep.2.apart_iff hT).mpr hstep.1) ?_
      exact Node.apart_of_no_peers rfl
    have hindep := Node.independent_iff.mpr hapart
    exact ⟨hindep, hindep.keepsSources P, fun e S' hstep =>
      Node.independent_iff.trans (hstep.apart_iff hapart)⟩
  · have hapart : n.Apart owner := by
      refine hrun.invariant (I := fun n => n.Apart owner)
        (fun m e m' hm hstep => (hstep.2.apart_iff hm).mpr hstep.1) ?_
      exact Node.apart_of_no_peers rfl
    exact ⟨Node.independent_iff.mpr hapart, fun e n' hstep =>
      Node.independent_iff.trans (hstep.apart_iff hapart)⟩

/-- A PING under the default name. -/
def demoNamesake (nonce : UInt32) (src : SocketAddr) : PeerEvent :=
  .datagram (demoWorld 1) (demoWorld 1) (.ping nonce "peer") src

/-- The peer after a first PING under that name, from a public address. -/
def demoMet : Peer :=
  ((demoStart emptyDir).step? demoConfig (demoNamesake 7 demoOther)).getD (demoStart emptyDir)

/-- A handshake under the default name, with a master. -/
def demoIntroduced (src : SocketAddr) : NodeEvent :=
  .datagram (demoWorld 1) (.handshakeRequest unspecifiedEndpoint "peer") src

/-- A master without files, before and after a first handshake. -/
def demoHost : Node := .new (fun _ => 0) "master" .master "live.m3u8" emptyDir demoLocal 1

def demoVisited : Node := (demoHost.apply demoConfig.settings (demoIntroduced demoOther)).1

/-- A node that knows one public address may take another one under the same name. -/
theorem Node.keepsApart_of_public {n : Node} {a src : SocketAddr} {intro : Option (String × Bool)}
    (honly : n.peers.keys = [a]) (ha : n.isLanPath a = false) (hsrc : n.isLanPath src = false)
    (hpublic : intro.any Prod.snd = false) : n.KeepsApart id src intro := by
  rintro name lan rfl c - hname
  have hc : c ∈ n.peers := Node.isSome_names.mp (by rw [hname]; rfl)
  obtain rfl := List.mem_singleton.mp (honly ▸ AList.mem_keys.mp hc)
  exact ⟨ha, hsrc, hpublic⟩

/-- Two nodes of one name, both under public addresses, stay apart: for a peer that they ping and
for a master that they shake hands with. -/
theorem namesakes_stay_apart :
    (∃ S, Run (Peer.Step demoConfig) (demoStart emptyDir)
        [demoNamesake 7 demoOther, demoNamesake 8 demoBootstrap] S ∧ S.node.Independent id) ∧
    ∃ n, Run (Node.Step demoConfig.settings) demoHost
        [demoIntroduced demoOther, demoIntroduced demoBootstrap] n ∧
      n.names demoOther = some "peer" ∧ n.names demoBootstrap = some "peer" ∧ n.Independent id := by
  constructor
  · have hmet : (demoStart emptyDir).step? demoConfig (demoNamesake 7 demoOther) = some demoMet := rfl
    have hfirst : (demoStart emptyDir).TakesNoName id (demoNamesake 7 demoOther) :=
      fun name lan _ c _ hname => by cases hname
    have hsecond : demoMet.TakesNoName id (demoNamesake 8 demoBootstrap) :=
      Node.keepsApart_of_public (a := demoOther) (by decide +kernel) (by decide +kernel)
        (by decide +kernel) (by decide +kernel)
    obtain ⟨S, hstep⟩ : ∃ S, demoMet.step? demoConfig (demoNamesake 8 demoBootstrap) = some S :=
      ⟨_, rfl⟩
    have hrun : Run (guarded (Peer.TakesNoName id) (Peer.Step demoConfig)) (demoStart emptyDir)
        [demoNamesake 7 demoOther, demoNamesake 8 demoBootstrap] S :=
      .cons ⟨hfirst, .of_step? hmet⟩ (.one ⟨hsecond, .of_step? hstep⟩)
    exact ⟨S, hrun.mono fun _ _ _ h => h.2,
      ((names_are_labels id).1 demoConfig (demoWorld 0) emptyDir 1 none 1 _ S hrun).1⟩
  · have hfirst : demoHost.TakesNoName id (demoIntroduced demoOther) :=
      fun name lan _ c _ hname => by cases hname
    have hsecond : demoVisited.TakesNoName id (demoIntroduced demoBootstrap) :=
      Node.keepsApart_of_public (a := demoOther) (by decide +kernel) (by decide +kernel)
        (by decide +kernel) (by decide +kernel)
    let n : Node := (demoVisited.apply demoConfig.settings (demoIntroduced demoBootstrap)).1
    have hrun : Run (guarded (Node.TakesNoName id) (Node.Step demoConfig.settings)) demoHost
        [demoIntroduced demoOther, demoIntroduced demoBootstrap] n :=
      .cons ⟨hfirst, .mk _ _⟩ (.one ⟨hsecond, .mk _ _⟩)
    exact ⟨n, hrun.mono fun _ _ _ h => h.2, by decide +kernel, by decide +kernel,
      ((names_are_labels id).2 demoConfig.settings (fun _ => 0) "master" "live.m3u8" emptyDir
        demoLocal 1 _ n hrun).1⟩

/-- Two nodes of one name, one of them on the LAN: it takes the place of the other. -/
theorem lan_namesake_replaces :
    ∃ S, Run (Peer.Step demoConfig) (demoStart emptyDir)
        [demoNamesake 7 demoOther, demoNamesake 8 demoLan] S ∧
      demoOther ∈ S.node.peers ∧ demoLan ∈ S.node.peers ∧
      S.node.effectiveAddr default demoOther = demoLan ∧
      demoOther ∉ candidates demoConfig S.node S.sched default 1 "a.ts" := by
  obtain ⟨S, hrun, hp⟩ := Peer.exists_run demoConfig (demoStart emptyDir)
    [demoNamesake 7 demoOther, demoNamesake 8 demoLan]
    (fun S => demoOther ∈ S.node.peers ∧ demoLan ∈ S.node.peers ∧
      S.node.effectiveAddr default demoOther = demoLan ∧
      demoOther ∉ candidates demoConfig S.node S.sched default 1 "a.ts") (by decide +kernel)
  exact ⟨S, hrun, of_decide_eq_true hp⟩

end Qstream

import Qstream.Swarm

/-! Whatever is stored, sent and served in a swarm under a segment's name is that segment, over
any number of hops from the origin. -/
namespace Qstream
open Transfer Runs
variable {B : Broadcast} {pulled : ℕ → String} {x : Message × SocketAddr}

theorem authentic_prunedDir {n : Node} (h : n.registry.dir.Authentic B) (cfg : NodeSettings)
    (w : World) (now : ℕ) : (n.prunedDir cfg w now).Authentic B := by
  unfold Node.prunedDir
  split
  next => exact h
  next =>
    refine h.of_lookup fun f hf => ?_
    simp only [Dir.lookup_plainName hf.plain, HashMap.lookup_retain]
    cases n.registry.dir.entries.lookup f with
    | none => exact .inl rfl
    | some e =>
      rw [Option.filter_some]
      split
      · exact .inl rfl
      · exact .inr rfl

theorem authentic_refresh {dir : Dir} (h : dir.Authentic B) (w : World) (holdback : ℕ) :
    (refreshPlaybackManifest w dir holdback).1.Authentic B := by
  refine h.of_lookup fun f hf => .inl ?_
  have hne : f ≠ PLAYBACK_MANIFEST := by
    rintro rfl
    exact not_isSegment_playback hf
  exact lookup_refreshPlaybackManifest w dir holdback (not_visited hf.plain hne _)
    (not_visited hf.plain (hf.ne_tmpName _) _)

namespace Node
variable {n : Node} {cfg : NodeSettings} {w : World}

theorem handle_authentic {m : Message} (h : n.registry.Authentic B pulled)
    (hm : m.Genuine B pulled) (src : SocketAddr) :
    (n.handle cfg w m src).1.registry.Authentic B pulled := by
  rw [handle_registry]
  cases m with
  | segmentRequest i f =>
    simp only
    split
    · exact h.withEvents _
    · exact h.serve _ hm src
  | segmentContents i p t d => exact h.onContent _ hm
  | segmentNotFound i av retryable => exact h.onNotFound _ i retryable
  | ack i ackType a b => exact h.onAck _ i ackType a b
  | _ => exact h

theorem tick_authentic (h : n.registry.Authentic B pulled) (now : ℕ) :
    (n.tick cfg w now).1.registry.Authentic B pulled := by
  rw [tick_registry]
  exact ((h.tick w now).withEvents []).withDir (authentic_prunedDir h.files cfg w now)

theorem mem_tick_genuine (h : n.registry.Authentic B pulled) {now : ℕ}
    (hx : x ∈ (n.tick cfg w now).2) : x.1.Genuine B pulled := by
  rcases mem_tick now hx with hreg | hping | ⟨av, hpong⟩
  · exact h.mem_tick hreg
  · rw [hping]
    trivial
  · rw [hpong]
    trivial

end Node

namespace Peer
variable {P : PeerConfig} {S S' : Peer} {sent : Outbox}

theorem receive_authentic {w refresh : World} {m : Message} {src : SocketAddr}
    (h : S.node.registry.Authentic B pulled) (hm : m.Genuine B pulled)
    (hrecv : S.receive P w refresh m src = .ok (S', sent)) :
    S'.node.registry.Authentic B pulled ∧ ∀ x ∈ sent, x.1.Genuine B pulled := by
  have hnode : (S.node.handle P.settings (w.after 1) m src).1.registry.Authentic B pulled :=
    Node.handle_authentic h hm src
  refine ⟨?_, fun x hx => ?_⟩
  · rw [receive_node hrecv]
    cases m with
    | manifestResponse data =>
      have hdir : S'.node.registry.dir.Authentic B := by
        rcases receive_written hrecv with ⟨hsame, -⟩ | ⟨-, -, -, hdir, -⟩
        · rw [hsame]
          exact h.files
        · rw [hdir]
          exact authentic_refresh
            (h.files.saveAtomic .ok w.wall fun hs => absurd hs not_isSegment_live) _ _
      exact hnode.withDir hdir
    | _ => exact hnode
  · rcases mem_receive hrecv hx with hsent | ⟨a, -, rfl⟩
    · exact (Node.mem_handle_sent hsent).genuine B pulled
    · trivial

theorem reap_authentic (h : S.node.registry.Authentic B pulled) (w : World) (now : ℕ) (f : Finished) :
    (S.reap P w now f).1.node.registry.Authentic B pulled ∧
      ∀ x ∈ (S.reap P w now f).2, x.1.Genuine B pulled := by
  constructor
  · simp only [reap, reapJob_registry]
    refine TransferRegistry.Authentic.withDir ?_ ?_
    · unfold collect
      cases f.outcome with
      | ok u =>
        rw [recordPull_registry]
        exact h
      | error e =>
        rw [recordPull_registry]
        exact h.removeReceiver f.id
    · split
      · exact authentic_refresh h.files _ _
      · exact h.files
  · intro x hx
    obtain ⟨⟨av, hpong⟩, -⟩ := mem_reap hx
    rw [hpong]
    trivial

end Peer

namespace Message
variable {m : Message} {pulled' : ℕ → String}

/-- Other ids do not matter to a datagram. -/
theorem Genuine.congr (h : m.Genuine B pulled) (hsame : ∀ i, m.Uses i → pulled' i = pulled i) :
    m.Genuine B pulled' := by
  cases m with
  | segmentRequest i f => exact (hsame i rfl).trans h
  | segmentContents i p t d =>
    simp only [Genuine, hsame i rfl]
    exact h
  | _ => trivial

end Message

theorem Transfer.TransferRegistry.Authentic.congr {reg : TransferRegistry} {pulled' : ℕ → String}
    (h : reg.Authentic B pulled)
    (hsame : ∀ i, i ∈ reg.senders ∨ i ∈ reg.receivers → pulled' i = pulled i) :
    reg.Authentic B pulled' where
  files := h.files
  senders i s hs := by
    rw [hsame i (.inl (HashMap.mem_iff_lookup.mpr ⟨s, hs⟩))]
    exact h.senders i s hs
  receivers i r hr := by
    rw [hsame i (.inr (HashMap.mem_iff_lookup.mpr ⟨r, hr⟩))]
    exact h.receivers i r hr

theorem asked_of_genuine (h : x.1.Genuine B pulled) : asked pulled x = pulled := by
  obtain ⟨m, a⟩ := x
  cases m with
  | segmentRequest i f =>
    obtain rfl : pulled i = f := h
    exact Function.update_eq_self i pulled
  | _ => rfl

/-- Repeating requests changes no meaning of an id. -/
theorem foldl_asked {sent : Outbox} (h : ∀ x ∈ sent, x.1.Genuine B pulled) :
    sent.foldl asked pulled = pulled := by
  induction sent with
  | nil => rfl
  | cons x sent ih =>
    rw [List.foldl_cons, asked_of_genuine (h x List.mem_cons_self)]
    exact ih fun y hy => h y (List.mem_cons_of_mem x hy)

namespace Party
variable {p q : Party} {e : PartyEvent} {sent : Outbox}

@[simp] theorem withDir_registry (p : Party) (dir : Dir) :
    (p.withDir dir).registry = { p.registry with dir := dir } := by
  cases p <;> rfl

theorem Starts.registry (h : p.Starts) : ∃ dir, p.registry = .new dir := by
  cases h with
  | master => exact ⟨_, rfl⟩
  | peer => exact ⟨_, rfl⟩

theorem Starts.authentic (h : p.Starts) (hdir : p.registry.dir.Authentic B) :
    p.registry.Authentic B pulled := by
  obtain ⟨dir, hreg⟩ := h.registry
  rw [hreg] at hdir ⊢
  exact TransferRegistry.new_authentic hdir

/-- The start of a download under an id that is not in use. -/
theorem addReceiver_authentic {n : Node} {i : ℕ} (h : n.registry.Authentic B pulled)
    (hs : i ∉ n.registry.senders) (hr : i ∉ n.registry.receivers) (cfg : Settings) (clk : Clock)
    (remote : SocketAddr) (f : String) :
    (n.addReceiver i (.new cfg clk i remote f)).registry.Authentic B
      (Function.update pulled i f) := by
  refine (h.congr fun j hj => Function.update_of_ne ?_ f pulled).insertReceiver
    ⟨rfl, by simpa using ReceiverTransfer.new_authentic cfg clk i remote f⟩
  rintro rfl
  exact hj.elim hs hr

/-- A step of a process that starts no download leaves it authentic and sends nothing else. -/
theorem Step.authentic (h : p.Step e q sent) (hfill : ∀ ids w, e ≠ .peer (.fill ids w))
    (hdisk : ∀ dir, e = .master (.files dir) → dir.Authentic B)
    (hin : ∀ m src, e.datagram = some (m, src) → m.Genuine B pulled)
    (hp : p.registry.Authentic B pulled) :
    q.registry.Authentic B pulled ∧ ∀ x ∈ sent, x.1.Genuine B pulled := by
  cases h with
  | master cfg n e =>
    cases e with
    | datagram w m src =>
      exact ⟨Node.handle_authentic hp (hin m src rfl) src,
        fun x hx => (Node.mem_handle_sent hx).genuine B pulled⟩
    | tick w now => exact ⟨Node.tick_authentic hp now, fun x hx => Node.mem_tick_genuine hp hx⟩
    | files dir => exact ⟨hp.withDir (hdisk dir rfl), fun x hx => absurd hx List.not_mem_nil⟩
  | @peer P S S' e sent hen happ =>
    cases e with
    | datagram w refresh m src => exact Peer.receive_authentic hp (hin m src rfl) happ
    | tick w now =>
      cases happ
      exact ⟨Node.tick_authentic hp now, fun x hx => Node.mem_tick_genuine hp hx⟩
    | prunePeers | retryHandshake | expirePending | pollManifest | pollPeerlist =>
      refine ⟨?_, fun x hx => ?_⟩
      · rw [registry, node, Peer.apply_quiet_registry P happ trivial]
        exact hp
      · rcases (Peer.mem_quiet happ trivial hx).2 with heq | heq | heq
        all_goals
          rw [heq]
          trivial
    | reap w now f =>
      cases happ
      exact Peer.reap_authentic hp w now f
    | fill ids w => exact absurd rfl (hfill ids w)

end Party

namespace Swarm
variable {ι : Type} [DecidableEq ι] {X X' : Swarm ι}

/-- Files that others write come from the broadcast, and no download is started under an id of
which something is left. -/
def Orderly (B : Broadcast) (X : Swarm ι) : SwarmEvent ι → Prop
  | .act _ (.master (.files dir)) => dir.Authentic B
  | .act i (.peer (.fill ids _)) =>
    (X.party i).registry.FreshId (ids.draw (X.party i).registry) →
      X.Unused (ids.draw (X.party i).registry)
  | .disk _ dir => dir.Authentic B
  | .start _ p => p.registry.dir.Authentic B
  | _ => True

omit [DecidableEq ι] in
/-- Every process and every datagram in flight is of the broadcast. -/
structure Authentic (B : Broadcast) (X : Swarm ι) : Prop where
  parties : ∀ i, (X.party i).registry.Authentic B X.pulled
  wire : ∀ x ∈ X.wire, x.1.Genuine B X.pulled

/-- A change of one process that leaves it authentic. -/
theorem Authentic.put (h : X.Authentic B) (i : ι) {p : Party}
    (hp : p.registry.Authentic B X.pulled) {wire : Outbox}
    (hwire : ∀ x ∈ wire, x ∈ X.wire ∨ x.1.Genuine B X.pulled) :
    { X.put i p with wire := wire }.Authentic B where
  parties j := by
    by_cases hj : j = i
    · subst hj
      simpa [Swarm.put] using hp
    · simpa [Swarm.put, hj] using h.parties j
  wire x hx := (hwire x hx).elim (h.wire x) id

/-- A download is started under an unused id, which from then on stands for its file. -/
theorem Authentic.download (h : X.Authentic B) {i : ι} {P : PeerConfig} {S S' : Peer} {id : ℕ}
    (hi : X.party i = .peer P S) (hunused : X.Unused id) {f : String} {cfg : Settings} {clk : Clock}
    {remote : SocketAddr} (hS' : S'.node = S.node.addReceiver id (.new cfg clk id remote f)) :
    { X.put i (.peer P S') with
      wire := X.wire ++ [(Message.segmentRequest id f, remote)]
      pulled := Function.update X.pulled id f }.Authentic B where
  parties j := by
    have hold := h.parties j
    obtain ⟨hs, hr⟩ := hunused.2 j
    by_cases hj : j = i
    · subst hj
      rw [hi] at hold hs hr
      simp only [Swarm.put, Function.update_self, Party.registry, Party.node, hS']
      exact Party.addReceiver_authentic hold hs hr cfg clk remote f
    · simp only [Swarm.put, Function.update_of_ne hj]
      refine hold.congr fun k hk => Function.update_of_ne ?_ f X.pulled
      rintro rfl
      exact hk.elim hs hr
  wire x hx := by
    rcases List.mem_append.mp hx with hold | hnew
    · refine (h.wire x hold).congr fun k hk => Function.update_of_ne ?_ f X.pulled
      rintro rfl
      exact hunused.1 x hold hk
    · obtain rfl := List.mem_singleton.mp hnew
      exact Function.update_self id f X.pulled

/-- Every orderly step keeps the swarm authentic. -/
theorem Step.authentic {e : SwarmEvent ι} (hstep : Step X e X') (horderly : X.Orderly B e)
    (h : X.Authentic B) : X'.Authentic B := by
  cases hstep with
  | @act i e p sent hparty hin =>
    by_cases hfill : ∃ ids w, e = .peer (.fill ids w)
    · obtain ⟨ids, w, rfl⟩ := hfill
      have hid : (X.party i).registry.FreshId (ids.draw (X.party i).registry) →
        X.Unused (ids.draw (X.party i).registry) := horderly
      generalize hi : X.party i = q at hparty hid
      cases hparty with
      | @peer P S S' _ _ hen happ =>
        obtain rfl := Peer.fst_of_ok happ
        obtain rfl := Peer.snd_of_ok happ
        rcases Peer.fillOne_cases P S ids w with
          ⟨hnode, hsent⟩ | ⟨clk, remote, f, hfresh, -, hnode, hsent⟩
        · have hp : (Party.peer P (S.fillOne P ids w).1).registry.Authentic B X.pulled := by
            have hold := h.parties i
            rw [hi] at hold
            simpa only [Party.registry, Party.node, hnode] using hold
          rw [hsent]
          exact h.put i hp fun x hx => .inl (by simpa using hx)
        · rw [hsent]
          exact h.download hi (hid hfresh) hnode
    · obtain ⟨hp, hsent⟩ := hparty.authentic (fun ids w heq => hfill ⟨ids, w, heq⟩)
        (fun dir heq => by subst heq; exact horderly)
        (fun m src heq => by obtain ⟨dst, hmem⟩ := hin m src heq; exact h.wire _ hmem) (h.parties i)
      rw [foldl_asked hsent]
      exact h.put i hp fun x hx => (List.mem_append.mp hx).imp_right (hsent x)
  | disk i dir =>
    have hp : ((X.party i).withDir dir).registry.Authentic B X.pulled := by
      rw [Party.withDir_registry]
      exact (h.parties i).withDir horderly
    exact h.put i hp fun x hx => .inl hx
  | start i hstarts => exact h.put i (hstarts.authentic horderly) fun x hx => .inl hx
  | lose x => exact ⟨h.parties, fun y hy => h.wire y (List.mem_of_mem_erase hy)⟩

omit [DecidableEq ι] in
theorem Initial.authentic (h : X.Initial) (hdirs : ∀ i, (X.party i).registry.dir.Authentic B) :
    X.Authentic B where
  parties i := (h.starts i).authentic (hdirs i)
  wire x hx := by simp [h.silent] at hx

/-- In every run of a swarm, over any number of hops and whatever the network loses, repeats and
reorders, no node ever stores under a segment's name anything but that segment, and a download
counts as saved only with all of its bytes. -/
theorem segments_intact (B : Broadcast) {X₀ X : Swarm ι} (hstart : X₀.Initial)
    (hdirs : ∀ i, (X₀.party i).registry.dir.Authentic B) {es : List (SwarmEvent ι)} (h : Run (guarded (Orderly B) Step) X₀ es X) (i : ι) {f : String}
    (hf : IsSegment f) :
    (∀ file, (X.party i).registry.dir.read f = some file → B.segment f = some file) ∧
    ∀ id r, (X.party i).registry.receivers.lookup id = some r → r.filename = f →
      r.outcome = some (.ok ()) → ∃ file, B.segment f = some file ∧ r.savedBytes = some file.length := by
  have hX : X.Authentic B :=
    h.invariant (fun _ _ _ hs hst => hst.2.authentic hst.1 hs) (hstart.authentic hdirs)
  refine ⟨fun file hread => (hX.parties i).files f file hf hread, fun id r hr hname hok => ?_⟩
  have hrec := ((hX.parties i).receivers id r hr).2
  obtain rfl : f = X.pulled id := hname.symm.trans hrec.named
  exact hrec.saved hf hok

/-- A broadcast of one small segment. -/
def demoBroadcast : Broadcast where
  segment f := if f = "seg_1.ts" then some [1, 2, 3] else none
  short f file h := by
    rw [Option.ite_none_right_eq_some] at h
    cases h.2
    decide

def demoManifest : Bytes := "#EXTM3U\n#EXTINF:2,\nseg_1.ts\n".toUTF8.toList

def demoRoot : Dir :=
  ⟨AList.insert "live.m3u8" (.file demoManifest true 0)
    (AList.insert "seg_1.ts" (.file [1, 2, 3] true 0) ∅), ["srv"], fun _ => none⟩

/-- A master and a peer with an empty directory. -/
def demoSwarm : Swarm Bool where
  party
    | false => .master ⟨defaultSettings, 2, 0⟩
        (.new (fun _ => 0) "origin" .master "live.m3u8" demoRoot ⟨.v4 ⟨0, 0, 0, 0⟩, 4000⟩ 1)
    | true => .peer demoConfig (.initial demoConfig (demoWorld 0) emptyDir 2 none 1)
  wire := []
  pulled _ := ""

theorem demoSwarm_initial : demoSwarm.Initial where
  starts
    | false => .master _ _ _ _ _ _ _
    | true => .peer _ _ _ _ _ _
  silent := rfl

theorem demoSwarm_authentic (i : Bool) : (demoSwarm.party i).registry.dir.Authentic demoBroadcast := by
  intro f file hf hread
  cases i with
  | false =>
    have hlive : f ≠ "live.m3u8" := by
      rintro rfl
      exact not_isSegment_live hf
    have hroot : (demoSwarm.party false).registry.dir = demoRoot := rfl
    simp only [hroot, Dir.read, Dir.lookup_plainName hf.plain, demoRoot,
      AList.lookup_insert_ne hlive, HashMap.lookup_insert'] at hread
    simp only [demoBroadcast]
    split at hread
    next heq =>
      split at heq
      next hname =>
        cases heq
        rw [if_pos hname, ← Option.some.inj hread]
      next => cases heq
    next => cases hread
  | true =>
    have hnone : (demoSwarm.party true).registry.dir.lookup f = none :=
      Dir.lookup_plainName hf.plain _
    simp [Dir.read, hnone] at hread

def demoAddr : SocketAddr := ⟨.v4 ⟨203, 0, 113, 9⟩, 5000⟩

/-- The peer shakes hands, learns of the segment, asks for it and is sent it. -/
def demoEvents : List (SwarmEvent Bool) :=
  let w := demoWorld (secs 4)
  [.act true (.peer (.retryHandshake (secs 4))),
    .act false (.master (.datagram w (.handshakeRequest unspecifiedEndpoint "peer") demoAddr)),
    .act true (.peer (.datagram w w (.handshakeResponse demoAddr "origin") demoBootstrap)),
    .act true (.peer (.pollManifest (secs 4))),
    .act false (.master (.datagram w .manifestRequest demoAddr)),
    .act true (.peer (.datagram w w (.manifestResponse demoManifest) demoBootstrap)),
    .act true (.peer (.fill smallestId w)),
    .act false (.master (.datagram w (.segmentRequest 1 "seg_1.ts") demoAddr)),
    .act false (.master (.tick w (secs 4))),
    .act true (.peer (.datagram w w (.segmentContents 1 1 1 [1, 2, 3]) demoBootstrap))]

instance (i : ℕ) (m : Message) : Decidable (m.Uses i) := by
  unfold Message.Uses
  split <;> infer_instance

instance (X : Swarm Bool) (i : ℕ) : Decidable (X.Unused i) :=
  inferInstanceAs (Decidable (_ ∧ _))

/-- The steps of processes whose files nobody else writes, while ids are not reused. -/
def demoStep? (X : Swarm Bool) : SwarmEvent Bool → Option (Swarm Bool)
  | .act i (.peer (.fill ids w)) =>
    if X.Unused (ids.draw (X.party i).registry) then X.step? i (.peer (.fill ids w)) else none
  | .act _ (.master (.files _)) => none
  | .act i e => X.step? i e
  | _ => none

theorem step_of_demoStep? {X X' : Swarm Bool} {e : SwarmEvent Bool} (h : demoStep? X e = some X') :
    guarded (Orderly demoBroadcast) Step X e X' := by
  unfold demoStep? at h
  split at h
  next i ids w =>
    rw [Option.ite_none_right_eq_some] at h
    exact ⟨fun _ => h.1, .of_step? h.2⟩
  next => cases h
  next i e hfill hfiles =>
    refine ⟨?_, .of_step? h⟩
    unfold Orderly
    split <;> first | trivial | simp_all
  next => cases h

theorem segments_intact_demo : ∃ X, Run (guarded (Orderly demoBroadcast) Step) demoSwarm demoEvents X ∧
    (X.party true).registry.dir.read "seg_1.ts" = some [1, 2, 3] ∧
    demoBroadcast.segment "seg_1.ts" = some [1, 2, 3] := by
  have hrun : ((exec demoStep? demoSwarm demoEvents).any fun X =>
      (X.party true).registry.dir.read "seg_1.ts" = some [1, 2, 3]) = true := by decide +kernel
  obtain ⟨X, hX, hread⟩ := Run.exists_of_exec (f := demoStep?) (fun _ _ _ => step_of_demoStep?) hrun
  have hread := of_decide_eq_true hread
  have hseg : IsSegment "seg_1.ts" := by
    unfold IsSegment
    decide
  exact ⟨X, hX, hread, (segments_intact demoBroadcast demoSwarm_initial demoSwarm_authentic hX true hseg).1 _ hread⟩

end Swarm
end Qstream

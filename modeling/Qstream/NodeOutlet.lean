import Qstream.Http
import Qstream.NodeEffects

/-! What of the file system leaves a node: the contents it sends to peers and the bodies of
its HTTP responses are those of direct children of its segment root. -/
namespace Qstream
open Transfer Runs UnixPath

namespace Transfer.SenderTransfer

theorem onProgress_file (cfg : Settings) (clk : Clock) (s : SenderTransfer) (a b : ℕ) :
    (s.onProgress cfg clk a b).file = s.file := by
  simp only [onProgress]
  split <;> rfl

/-- A packet of a sender is part of its file. -/
theorem part_of_mem_tick {cfg : Settings} {s : SenderTransfer} {now id p t : ℕ} {d : Bytes}
    (h : Message.segmentContents id p t d ∈ (s.tick cfg now).2.1) : d <:+: s.file := by
  obtain ⟨i, -, heq⟩ := List.mem_map.mp (mem_tick_sent h)
  cases heq
  exact (List.take_prefix _ _).isInfix.trans (List.drop_suffix _ _).isInfix

end Transfer.SenderTransfer

namespace Node
variable {n : Node} {cfg : NodeSettings} {w : World} {id : ℕ} {s' : SenderTransfer}

/-- After a datagram a sender is an old one or serves a file that was read for a request. -/
theorem sender_of_handle {m : Message} {src : SocketAddr}
    (h : (n.handle cfg w m src).1.registry.senders.lookup id = some s') :
    (∃ s, n.registry.senders.lookup id = some s ∧ s'.file = s.file) ∨
    ∃ filename, validFilename filename = true ∧ n.registry.dir.read filename = some s'.file := by
  rw [handle_registry] at h
  have hold {reg : TransferRegistry} (heq : reg.senders = n.registry.senders)
      (hs : reg.senders.lookup id = some s') :
      ∃ s, n.registry.senders.lookup id = some s ∧ s'.file = s.file := ⟨s', heq ▸ hs, rfl⟩
  cases m with
  | segmentRequest transferId filename =>
    dsimp only at h
    split at h
    · exact .inl (hold rfl h)
    rcases TransferRegistry.serve_cases (w.after 4).clk n.registry transferId filename src with
      ⟨hacc, file, hread, heq⟩ | ⟨-, heq⟩
    · simp only [heq, HashMap.lookup_insert'] at h
      split at h
      · cases h
        exact .inr ⟨filename, hacc.1, hread⟩
      · exact .inl ⟨s', h, rfl⟩
    · rw [heq] at h
      exact .inl (hold rfl h)
  | ack transferId ackType a b =>
    dsimp only at h
    rcases TransferRegistry.onAck_cases cfg.transfer (w.after 2).clk n.registry transferId ackType
      a b with ⟨s, -, -, heq⟩ | ⟨s, hs, -, heq⟩ | ⟨-, heq⟩
    · simp only [heq, HashMap.lookup_erase'] at h
      split at h
      · cases h
      · exact .inl ⟨s', h, rfl⟩
    · simp only [heq, HashMap.lookup_insert'] at h
      split at h
      next hid =>
        cases h
        exact .inl ⟨s, hid ▸ hs, SenderTransfer.onProgress_file _ _ _ _ _⟩
      next => exact .inl ⟨s', h, rfl⟩
    · rw [heq] at h
      exact .inl (hold rfl h)
  | segmentContents transferId p t d =>
    dsimp only at h
    refine .inl (hold ?_ h)
    unfold TransferRegistry.onContent
    split <;> rfl
  | segmentNotFound transferId av retryable =>
    dsimp only at h
    refine .inl (hold ?_ h)
    unfold TransferRegistry.onNotFound
    split <;> rfl
  | _ => exact .inl (hold rfl h)

/-- After the timers a sender is an old one. -/
theorem sender_of_tick {now : ℕ} (h : (n.tick cfg w now).1.registry.senders.lookup id = some s') :
    ∃ s, n.registry.senders.lookup id = some s ∧ s'.file = s.file := by
  rw [tick_registry] at h
  obtain ⟨s, sent, hs, htick⟩ := TransferRegistry.tick_senders (w := w) h
  exact ⟨s, hs, (SenderTransfer.tick_same htick).1⟩

/-- Contents are sent by the timers only, from the file of a sender. -/
theorem contents_of_tick {now p t : ℕ} {d : Bytes} {dst : SocketAddr}
    (h : (Message.segmentContents id p t d, dst) ∈ (n.tick cfg w now).2) :
    ∃ i s, n.registry.senders.lookup i = some s ∧ d <:+: s.file := by
  rcases mem_tick now h with hreg | hping | ⟨av, hpong⟩
  · rcases TransferRegistry.mem_tick_sent hreg with ⟨i, s, hs, hm⟩ | ⟨i, r, -, hm⟩
    · exact ⟨i, s, hs, SenderTransfer.part_of_mem_tick hm⟩
    · rcases (ReceiverTransfer.onTick_spec cfg.transfer r now _).2.2 _ hm with heq | ⟨rg, -, heq⟩
      · cases heq
      · cases heq
  · cases hping
  · cases hpong

end Node

/-- A node with the file systems in which its datagrams were handled. -/
structure Outlet where
  node : Node
  seen : List FileSystem

/-- `change` is anything else that happens around the node: files come and go, downloads
start and end. -/
inductive OutletEvent
  | datagram (fs : FileSystem) (w : World) (m : Message) (src : SocketAddr)
  | tick (w : World) (now : ℕ)
  | change (n' : Node)

namespace Outlet

def apply (cfg : NodeSettings) (X : Outlet) : OutletEvent → Outlet
  | .datagram fs w m src => ⟨(X.node.handle cfg w m src).1, fs :: X.seen⟩
  | .tick w now => ⟨(X.node.tick cfg w now).1, X.seen⟩
  | .change n' => ⟨n', X.seen⟩

def sent (cfg : NodeSettings) (X : Outlet) : OutletEvent → Outbox
  | .datagram _ w m src => (X.node.handle cfg w m src).2.1
  | .tick w now => (X.node.tick cfg w now).2
  | .change _ => []

/-- Only datagrams and the timers touch the senders. -/
inductive Step (cfg : NodeSettings) (root : Path) : Outlet → OutletEvent → Outlet → Prop
  | datagram (X : Outlet) (fs : FileSystem) (w : World) (m : Message) (src : SocketAddr)
    (h : X.node.registry.dir.Views fs root) :
    Step cfg root X (.datagram fs w m src) (X.apply cfg (.datagram fs w m src))
  | tick (X : Outlet) (w : World) (now : ℕ) :
    Step cfg root X (.tick w now) (X.apply cfg (.tick w now))
  | change (X : Outlet) (n' : Node) (h : n'.registry.senders = X.node.registry.senders) :
    Step cfg root X (.change n') (X.apply cfg (.change n'))

/-- Every sender serves what a direct child held when some datagram was handled. -/
def ServesChildren (root : Path) (X : Outlet) : Prop :=
  ∀ id s, X.node.registry.senders.lookup id = some s → ∃ fs ∈ X.seen, ChildHolds fs root s.file

theorem Step.servesChildren {cfg : NodeSettings} {root : Path} {X X' : Outlet} {e : OutletEvent}
    (h : Step cfg root X e X') (hX : X.ServesChildren root) : X'.ServesChildren root := by
  intro id s' hs'
  cases h with
  | datagram fs w m src hview =>
    rcases Node.sender_of_handle hs' with ⟨s, hs, hfile⟩ | ⟨filename, hvalid, hread⟩
    · obtain ⟨fs', hmem, hchild⟩ := hX id s hs
      exact ⟨fs', List.mem_cons_of_mem _ hmem, hfile ▸ hchild⟩
    · exact ⟨fs, List.mem_cons_self, hview.child_of_read hvalid hread⟩
  | tick w now =>
    obtain ⟨s, hs, hfile⟩ := Node.sender_of_tick hs'
    obtain ⟨fs, hmem, hchild⟩ := hX id s hs
    exact ⟨fs, hmem, hfile ▸ hchild⟩
  | change n' hsame =>
    have hs : n'.registry.senders.lookup id = some s' := hs'
    rw [hsame] at hs
    exact hX id s' hs

theorem contents_sent {cfg : NodeSettings} {root : Path} {X : Outlet} (hX : X.ServesChildren root)
    (e : OutletEvent) {id p t : ℕ} {d : Bytes} {dst : SocketAddr}
    (h : (Message.segmentContents id p t d, dst) ∈ X.sent cfg e) :
    ∃ fs ∈ X.seen, ∃ data, ChildHolds fs root data ∧ d <:+: data := by
  cases e with
  | datagram fs w m src => cases Node.mem_handle_sent h
  | tick w now =>
    obtain ⟨i, s, hs, hpart⟩ := Node.contents_of_tick h
    obtain ⟨fs, hmem, hchild⟩ := hX i s hs
    exact ⟨fs, hmem, s.file, hchild, hpart⟩
  | change n' => cases h

end Outlet

/-- Only flat children of the root leave the node. A response body that is not the same
whatever the files are is that of a 404, or a direct child's data or the playlist made of it,
and no data but that of direct children decides about a response. In every run of a node, the
contents it sends are part of what a direct child held when a datagram was handled. -/
theorem only_children_leave (root : Path) :
    (∀ dir fs stats chunks answer, dir.Views fs root →
      handleConnection dir stats chunks = some answer →
      (∀ dir', handleConnection dir' stats chunks = some answer) ∨
      answer = notFoundResponse answer.headOnly ∨
      ∃ data, ChildHolds fs root data ∧ (answer.body = data ∨ answer.body = filterPlaylist dir data)) ∧
    (∀ dir dir' fs fs', dir.Views fs root → dir'.Views fs' root →
      (∀ name, plainName name = true → fs (root ++ [name]) = fs' (root ++ [name])) →
      (∀ name, dir.isFile name = dir'.isFile name) →
      ∀ stats chunks, handleConnection dir stats chunks = handleConnection dir' stats chunks) ∧
    ∀ cfg clk name role manifestName dir localAddr nonce es X,
      Run (Outlet.Step cfg root)
        ⟨.new clk name role manifestName dir localAddr nonce, []⟩ es X →
      ∀ e id p t d dst, (Message.segmentContents id p t d, dst) ∈ X.sent cfg e →
        ∃ fs ∈ X.seen, ∃ data, ChildHolds fs root data ∧ d <:+: data := by
  refine ⟨fun dir fs stats chunks answer hview hanswer => ?_,
    fun dir dir' fs fs' hview hview' hchild hfile stats chunks => ?_,
    fun cfg clk name role manifestName dir localAddr nonce es X hrun e id p t d dst h => ?_⟩
  · rcases handleConnection_cases stats chunks with ⟨answer', hall⟩ | ⟨name, headOnly, hall⟩
    · obtain rfl := (hall dir).symm.trans hanswer
      exact .inl hall
    · obtain rfl := Option.some.inj ((hall dir).symm.trans hanswer)
      rcases fileRoute_cases dir name headOnly with heq | ⟨data, hvalid, hread, hbody⟩
      · exact .inr (.inl (by rw [heq]; rfl))
      · exact .inr (.inr ⟨data, hview.child_of_read hvalid hread, hbody⟩)
  · have hlookup : ∀ name, plainName name = true → dir.lookup name = dir'.lookup name := by
      intro name hplain
      rw [hview.lookup, hview'.lookup, resolve_plainName hplain fs hview.root_directory,
        resolve_plainName hplain fs' hview'.root_directory, hchild name hplain]
    rcases handleConnection_cases stats chunks with ⟨answer, hall⟩ | ⟨name, headOnly, hall⟩
    · rw [hall, hall]
    · rw [hall, hall, fileRoute_congr hfile hlookup]
  · refine Outlet.contents_sent (hrun.invariant (fun Y e Y' hY hstep => hstep.servesChildren hY) ?_) e h
    intro id s hs
    cases hs

/-- A segment root with one segment, and a file outside of it. -/
def keptApart (secret : Bytes) : FileSystem := fun p =>
  if p <+: ["srv"] then some .directory
  else if p = ["srv", "seg_5.ts"] then some (.file [0x47] true 0)
  else if p = ["key"] then some (.file secret true 0)
  else none

def rootApart (secret : Bytes) : Dir :=
  ⟨(∅ : HashMap String FileEntry).insert "seg_5.ts" (.file [0x47] true 0), ["srv"], keptApart secret⟩

theorem rootApart_views (secret : Bytes) : (rootApart secret).Views (keptApart secret) ["srv"] where
  lookup := by
    intro name
    refine (resolve_congr fun p _ => ?_).symm
    have hroot : (rootApart secret).root = ["srv"] := rfl
    unfold Dir.stat
    rw [hroot]
    by_cases habove : p <+: ["srv"]
    · rw [if_pos habove, keptApart, if_pos habove]
    rw [if_neg habove]
    by_cases hchild : p.dropLast = ["srv"]
    · have hne : p ≠ [] := fun hnil => habove (hnil ▸ List.nil_prefix)
      obtain ⟨name, rfl⟩ := exists_child hne hchild
      simp only [hchild, if_true, rootApart, keptApart, if_neg habove, HashMap.lookup_insert',
        AList.lookup_empty]
      by_cases hname : name = "seg_5.ts" <;> simp [hname]
    · rw [if_neg hchild]
      rfl

def outletStart : Outlet :=
  ⟨.new (fun _ => 0) "peer" .peer "live.m3u8" (rootApart [1]) peerB 7, []⟩

def askedOutlet : Outlet :=
  outletStart.apply ⟨defaultSettings, 2, 0⟩ (.datagram (keptApart [1])
    ⟨fun _ => 0, default, .ok, 0⟩ (.segmentRequest 1 "seg_5.ts") peerA)

theorem only_children_leave_demo :
    (∃ data, ChildHolds (keptApart [1]) ["srv"] data ∧
      ([0x47] = data ∨ [0x47] = filterPlaylist (rootApart [1]) data)) ∧
    (∀ chunks, handleConnection (rootApart [1]) none chunks =
      handleConnection (rootApart [2]) none chunks) ∧
    ∃ fs ∈ askedOutlet.seen, ∃ data, ChildHolds fs ["srv"] data ∧ [0x47] <:+: data := by
  refine ⟨?_, fun chunks => ?_, ?_⟩
  · have hanswer : handleConnection (rootApart [1]) none
        [textBytes "GET /seg_5.ts?a=/../key HTTP/1.1\r\n\r\n"] =
        some ⟨200, "OK", "video/mp2t", [0x47], false⟩ := by decide +kernel
    have hgone : handleConnection ⟨∅, ["srv"], fun _ => none⟩ none
        [textBytes "GET /seg_5.ts?a=/../key HTTP/1.1\r\n\r\n"] ≠
        some ⟨200, "OK", "video/mp2t", [0x47], false⟩ := by decide +kernel
    rcases (only_children_leave ["srv"]).1 _ _ _ _ _ (rootApart_views [1]) hanswer with
      hall | hnot | ⟨data, hchild, hbody⟩
    · exact absurd (hall _) hgone
    · exact absurd hnot (by decide +kernel)
    · exact ⟨data, hchild, hbody⟩
  · refine (only_children_leave ["srv"]).2.1 _ _ _ _ (rootApart_views [1]) (rootApart_views [2])
      ?_ ?_ none chunks
    · intro name hplain
      simp [keptApart]
    · intro name
      have hdir (p : Path) : keptApart [1] p = some .directory ↔ keptApart [2] p = some .directory := by
        unfold keptApart
        split_ifs <;> simp
      unfold Dir.isFile
      rw [(rootApart_views [1]).lookup, (rootApart_views [2]).lookup]
      simp only [FileSystem.resolve, hdir]
      split_ifs
      · -- the file outside differs in its bytes only
        unfold keptApart
        split_ifs <;> rfl
      · rfl
  · exact (only_children_leave ["srv"]).2.2 ⟨defaultSettings, 2, 0⟩ (fun _ => 0) "peer" .peer
      "live.m3u8" (rootApart [1]) peerB 7 _ askedOutlet
      (.one (.datagram outletStart _ _ _ _ (rootApart_views [1])))
      (.tick ⟨fun _ => 0, default, .ok, 0⟩ 0) 1 1 1 [0x47] peerA (by decide +kernel)

end Qstream

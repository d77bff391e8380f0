import Qstream.NodeProbing
import Qstream.PeerPulls

/-! What a second copy of a granted request does to the seed leases of a master. -/
namespace Qstream
open Transfer Runs

namespace Node
variable {n : Node} {cfg : NodeSettings} {w w' : World} {id : ℕ} {filename : String}
  {src : SocketAddr}

/-- Handling a request leaves alone what makes a lease viable. -/
theorem viable_handle_request (f : String) (now : ℕ) (c : SocketAddr) :
    (n.handle cfg w (.segmentRequest id filename) src).1.viable f now c = n.viable f now c := by
  have hviable : ((n.touchPeer w.clk src).originSeedAllowed cfg (w.after 2).clk filename src).1.viable
      f now c = (n.touchPeer w.clk src).viable f now c := by
    rw [originSeedAllowed_eq]
    cases (n.touchPeer w.clk src).admission cfg (w.after 2).clk filename src <;> rfl
  exact hviable.trans (congrFun (viable_touchPeer w.clk src f now) c)

/-- It neither adds nor removes a file. -/
theorem hasSegment_handle_request (f : String) :
    (n.handle cfg w (.segmentRequest id filename) src).1.registry.hasSegment f =
      n.registry.hasSegment f := by
  simp only [TransferRegistry.hasSegment, handle_registry]
  split
  · rfl
  · rw [TransferRegistry.serve_dir]

/-- The second of two identical requests is granted, and changes neither the leases nor the
count of assignments. -/
structure RepeatsIdly (n : Node) (cfg : NodeSettings) (w w' : World) (id : ℕ) (filename : String)
    (src : SocketAddr) : Prop where
  granted : (((n.handle cfg w (.segmentRequest id filename) src).1.touchPeer w'.clk src).originSeedAllowed
    cfg (w'.after 2).clk filename src).2 = true
  leases : ∀ f, ((n.handle cfg w (.segmentRequest id filename) src).1.handle cfg w'
      (.segmentRequest id filename) src).1.leases f =
    (n.handle cfg w (.segmentRequest id filename) src).1.leases f
  assignments : ((n.handle cfg w (.segmentRequest id filename) src).1.handle cfg w'
      (.segmentRequest id filename) src).1.originSeedAssignments =
    (n.handle cfg w (.segmentRequest id filename) src).1.originSeedAssignments

/-- A request is granted and changes no lease and no count of assignments exactly when it
changes nothing about the seeding. -/
theorem repeatsIdly_iff_leavesSeeding : n.RepeatsIdly cfg w w' id filename src ↔
    (n.handle cfg w (.segmentRequest id filename) src).1.LeavesSeeding
      ((n.handle cfg w (.segmentRequest id filename) src).1.handle cfg w'
        (.segmentRequest id filename) src).1 := by
  have hresult := originSeedAllowed_result
    ((n.handle cfg w (.segmentRequest id filename) src).1.touchPeer w'.clk src) cfg (w'.after 2).clk
    filename src
  rw [admission_touchPeer] at hresult
  have hdenials := (@handle_request_counters (n.handle cfg w (.segmentRequest id filename) src).1 cfg
    w' id filename src).2
  constructor
  · rintro ⟨hgranted, hleases, hassignments⟩
    refine ⟨hleases, hassignments, hdenials.trans ?_⟩
    split
    next hdenied => exact absurd hdenied (hresult.mp hgranted)
    next => rfl
  · intro h
    refine ⟨hresult.mpr fun hdenied => ?_, h.leases, h.assignments⟩
    rw [h.denials, hdenied] at hdenials
    simp at hdenials

theorem admission_exempt {clk : Clock} :
    n.admission cfg clk filename src = .exempt ↔
      n.role ≠ .master ∨ n.registry.hasSegment filename = false := by
  unfold admission
  split
  next hexempt => exact iff_of_true rfl (hexempt.imp_right (Bool.not_eq_true _).mp)
  next hmaster =>
    refine iff_of_false ?_ fun h => hmaster (h.imp_right (Bool.not_eq_true _).mpr)
    split
    · simp
    split
    · simp
    split <;> simp

theorem admission_holder {clk : Clock} :
    n.admission cfg clk filename src = .holder ↔ n.role = .master ∧
      n.registry.hasSegment filename = true ∧ src ∈ n.viableLeases filename (clk 0) := by
  unfold admission
  split
  next hexempt => exact iff_of_false (by simp) fun h => by simp [h.1, h.2.1] at hexempt
  next hmaster =>
  obtain ⟨hrole, hfile⟩ := not_or.mp hmaster
  split
  next hholder => exact iff_of_true rfl ⟨not_not.mp hrole, not_not.mp hfile, hholder⟩
  next hholder =>
    refine iff_of_false ?_ fun h => hholder h.2.2
    split
    · simp
    split <;> simp

/-- The lease holders that the first request leaves. -/
theorem leases_of_granted (hmaster : n.role = .master) (hfile : n.registry.hasSegment filename = true)
    (hgranted : n.admission cfg (w.after 2).clk filename src ≠ .denied) :
    (n.handle cfg w (.segmentRequest id filename) src).1.leases filename =
      insert src (n.viableLeases filename (w.clk 2)) := by
  rw [handle_request_leases, if_pos rfl]
  cases hadm : n.admission cfg (w.after 2).clk filename src with
  | denied => exact absurd hadm hgranted
  | leased => rfl
  | recovery => rfl
  | exempt => rcases admission_exempt.mp hadm with h | h <;> simp [hmaster, hfile] at h
  | holder => exact (Finset.insert_eq_of_mem (admission_holder.mp hadm).2.2).symm

/-- The master has no such file, or the requester and the holders left at the first request are
all viable at the second. -/
def StaysViable (n : Node) (w w' : World) (filename : String) (src : SocketAddr) : Prop :=
  n.registry.hasSegment filename = false ∨
    ∀ c ∈ insert src (n.viableLeases filename (w.clk 2)), n.viable filename (w'.clk 2) c = true

theorem repeatsIdly_iff (hmaster : n.role = .master)
    (hgranted : n.admission cfg (w.after 2).clk filename src ≠ .denied) :
    n.RepeatsIdly cfg w w' id filename src ↔ n.StaysViable w w' filename src := by
  have hself := handle_self n cfg w (.segmentRequest id filename) src
  have hrole : (n.handle cfg w (.segmentRequest id filename) src).1.role = .master :=
    (congrArg (fun x => x.2.1) hself).trans hmaster
  have hfile := @hasSegment_handle_request n cfg w id filename src filename
  have hviable := @viable_handle_request n cfg w id filename src filename (w'.clk 2)
  rw [repeatsIdly_iff_leavesSeeding, leavesSeeding_iff, admission_exempt, admission_holder, hfile]
  unfold StaysViable
  cases hhas : n.registry.hasSegment filename with
  | false => exact iff_of_true (.inl (.inr rfl)) (.inl rfl)
  | true =>
    have hleases := @leases_of_granted n cfg w id filename src hmaster hhas hgranted
    have hall : (n.handle cfg w (.segmentRequest id filename) src).1.viableLeases filename
          (w'.clk 2) = (n.handle cfg w (.segmentRequest id filename) src).1.leases filename ↔
        ∀ c ∈ insert src (n.viableLeases filename (w.clk 2)),
          n.viable filename (w'.clk 2) c = true := by
      rw [viableLeases, Finset.filter_eq_self, hleases]
      simp only [hviable]
    rw [hall]
    constructor
    · rintro ((h | h) | ⟨-, h⟩)
      · exact absurd hrole h
      · cases h
      · exact .inr h
    · rintro (h | h)
      · cases h
      · refine .inr ⟨⟨hrole, rfl, mem_viableLeases.mpr ⟨?_, ?_⟩⟩, h⟩
        · rw [hleases]
          exact Finset.mem_insert_self _ _
        · exact (hviable src).trans (h src (Finset.mem_insert_self _ _))

/-- In every state of a master, a second copy of a granted request is idle exactly when the
master has no such file, or the requester and the other holders that the first copy left are
viable when it comes. -/
theorem granted_request_repeats_iff (cfg : NodeSettings) (clk : Clock) (name manifestName : String)
    (dir : Dir) (localAddr : SocketAddr) (nonce : UInt32) (es : List NodeEvent) (n : Node)
    (hrun : Run (Step cfg) (.new clk name .master manifestName dir localAddr nonce) es n)
    (w w' : World) (id : ℕ) (filename : String) (src : SocketAddr)
    (hgranted : ((n.touchPeer w.clk src).originSeedAllowed cfg (w.after 2).clk filename src).2 = true) :
    n.RepeatsIdly cfg w w' id filename src ↔ n.StaysViable w w' filename src := by
  have hmaster : n.self.2.1 = .master := by
    refine hrun.invariant (I := fun n => n.self.2.1 = .master) (fun n e n' hn hstep => ?_) rfl
    rw [hstep.self_eq]
    exact hn
  rw [originSeedAllowed_result, admission_touchPeer] at hgranted
  exact repeatsIdly_iff hmaster hgranted

/-- A master with one segment. -/
def demoOrigin : Node := .new (fun _ => 0) "master" .master "live.m3u8" oneSegment peerB 7

/-- A peer with a path to the master: it shook hands and answered a PING. -/
def demoGreeting : List NodeEvent :=
  [.datagram ⟨fun _ => 0, default, .ok, 0⟩ (.handshakeRequest peerA "peer") peerA,
    .datagram ⟨fun _ => 0, default, .ok, 0⟩ (.pong none) peerA]

theorem known_peer_repeats : ∃ n, Run (Step ⟨defaultSettings, 2, 0⟩) demoOrigin demoGreeting n ∧
    n.RepeatsIdly ⟨defaultSettings, 2, 0⟩ ⟨fun _ => 0, default, .ok, 0⟩
      ⟨fun _ => secs 2, default, .ok, 0⟩ 1 "1.ts" peerA := by
  have hrun : Run (Step ⟨defaultSettings, 2, 0⟩) demoOrigin demoGreeting _ :=
    .cons (.mk _ _) (.one (.mk _ _))
  refine ⟨_, hrun, ?_⟩
  exact (granted_request_repeats_iff ⟨defaultSettings, 2, 0⟩ (fun _ => 0) "master" "live.m3u8"
    oneSegment peerB 7 _ _ hrun ⟨fun _ => 0, default, .ok, 0⟩ ⟨fun _ => secs 2, default, .ok, 0⟩ 1
    "1.ts" peerA (by decide +kernel)).mpr (.inr (by decide +kernel))

/-- A requester the master does not know is granted the same lease twice. -/
theorem unknown_peer_assigned_twice :
    ((demoOrigin.touchPeer (fun _ => 0) peerA).originSeedAllowed ⟨defaultSettings, 2, 0⟩ (fun _ => 0)
      "1.ts" peerA).2 = true ∧
    (demoOrigin.handle ⟨defaultSettings, 2, 0⟩ ⟨fun _ => 0, default, .ok, 0⟩
      (.segmentRequest 1 "1.ts") peerA).1.originSeedAssignments = 1 ∧
    ((demoOrigin.handle ⟨defaultSettings, 2, 0⟩ ⟨fun _ => 0, default, .ok, 0⟩
      (.segmentRequest 1 "1.ts") peerA).1.handle ⟨defaultSettings, 2, 0⟩
        ⟨fun _ => 0, default, .ok, 0⟩ (.segmentRequest 1 "1.ts") peerA).1.originSeedAssignments = 2 ∧
    ¬ demoOrigin.RepeatsIdly ⟨defaultSettings, 2, 0⟩ ⟨fun _ => 0, default, .ok, 0⟩
      ⟨fun _ => 0, default, .ok, 0⟩ 1 "1.ts" peerA := by
  refine ⟨by decide +kernel, by decide +kernel, by decide +kernel, fun h => ?_⟩
  exact absurd h.assignments (by decide +kernel)

end Node
end Qstream

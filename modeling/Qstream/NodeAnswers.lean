import Qstream.NodeSeeding
import Qstream.TransferIsolation

/-! When a node answers the request of a file it has with an unflagged NOT_FOUND, which tells
the requester that the file is not there. -/
namespace Qstream
open Transfer

namespace Node
variable {n : Node} {cfg : NodeSettings} {clk : Clock} {filename : String} {peer : SocketAddr}

theorem viable_touchPeer (clk : Clock) (a : SocketAddr) (filename : String) (now : ℕ) :
    (n.touchPeer clk a).viable filename now = n.viable filename now := by
  funext c
  simp only [viable, mem_touchPeer]
  rfl

theorem otherSource_touchPeer (clk : Clock) (a : SocketAddr) (filename : String) (now : ℕ)
    (peer : SocketAddr) :
    (n.touchPeer clk a).otherSource filename now peer = n.otherSource filename now peer := by
  rw [Bool.eq_iff_iff]
  simp only [otherSource, List.any_eq_true, ← AList.mem_keys, mem_touchPeer]
  rfl

/-- Hearing from a peer does not change how its request fares. -/
theorem admission_touchPeer (clk' : Clock) (a : SocketAddr) :
    (n.touchPeer clk' a).admission cfg clk filename peer = n.admission cfg clk filename peer := by
  have hviable (now : ℕ) : (n.touchPeer clk' a).viableLeases filename now =
      n.viableLeases filename now := by
    simp only [viableLeases, viable_touchPeer]
    rfl
  simp only [admission, classHolders, hviable, otherSource_touchPeer]
  rfl

theorem originSeedAllowed_registry (n : Node) (cfg : NodeSettings) (clk : Clock)
    (filename : String) (peer : SocketAddr) :
    (n.originSeedAllowed cfg clk filename peer).1.registry = n.registry := by
  rw [originSeedAllowed_eq]
  cases n.admission cfg clk filename peer <;> rfl

/-- An answer that the responder lacks the file. -/
def SaysMissing (sent : Outbox) : Prop :=
  ∃ id av dst, (Message.segmentNotFound id av false, dst) ∈ sent

/-- What a node sends on a valid request for a file it can read. -/
theorem handle_segmentRequest_sent (w : World) (id : ℕ) (src : SocketAddr)
    (hvalid : validFilename filename = true) (hread : (n.registry.dir.read filename).isSome) :
    (n.handle cfg w (.segmentRequest id filename) src).2.1 =
      if n.admission cfg (w.after 2).clk filename src = .denied then
        [(n.registry.notFoundMessage id true, src)]
      else if n.registry.activeCount ≥ MAX_CONCURRENT_TRANSFERS then
        [(n.registry.notFoundMessage id false, src)]
      else [] := by
  have hresult := originSeedAllowed_result (n.touchPeer w.clk src) cfg (w.after 2).clk filename src
  rw [admission_touchPeer] at hresult
  simp only [handle]
  by_cases hdenied : n.admission cfg (w.after 2).clk filename src = .denied
  · have hfalse : ((n.touchPeer w.clk src).originSeedAllowed cfg (w.after 2).clk filename src).2 =
        false := by
      simpa [hdenied] using hresult
    rw [if_pos hdenied, hfalse]
    simp only [TransferRegistry.rejectNotFound, originSeedAllowed_registry]
    rfl
  · have htrue := hresult.mpr hdenied
    obtain ⟨file, hfile⟩ := Option.isSome_iff_exists.mp hread
    rw [if_neg hdenied, htrue, if_pos rfl, originSeedAllowed_registry]
    have hreg : (n.touchPeer w.clk src).registry = n.registry := rfl
    rw [hreg, TransferRegistry.serve, if_neg (by simp [hvalid]), hfile]
    split <;> rfl

/-- A valid request for a file that can be read is answered as if the file were missing
exactly when the registry is full and the origin does not deny the request. -/
theorem not_saysMissing_iff (n : Node) (cfg : NodeSettings) (w : World) (id : ℕ)
    (filename : String) (src : SocketAddr) (hvalid : validFilename filename = true)
    (hread : (n.registry.dir.read filename).isSome) :
    ¬ SaysMissing (n.handle cfg w (.segmentRequest id filename) src).2.1 ↔
      n.registry.activeCount < MAX_CONCURRENT_TRANSFERS ∨
        n.admission cfg (w.after 2).clk filename src = .denied := by
  rw [handle_segmentRequest_sent w id src hvalid hread]
  by_cases hdenied : n.admission cfg (w.after 2).clk filename src = .denied
  · rw [if_pos hdenied]
    refine iff_of_true ?_ (.inr hdenied)
    rintro ⟨id', av, dst, hmem⟩
    simp [TransferRegistry.notFoundMessage] at hmem
  rw [if_neg hdenied]
  by_cases hfull : n.registry.activeCount ≥ MAX_CONCURRENT_TRANSFERS
  · rw [if_pos hfull]
    refine iff_of_false (not_not.mpr ⟨_, _, _, List.mem_singleton_self _⟩) ?_
    rintro (hroom | hden)
    · omega
    · exact hdenied hden
  · rw [if_neg hfull]
    refine iff_of_true ?_ (.inl (Nat.lt_of_not_le hfull))
    rintro ⟨id', av, dst, hmem⟩
    cases hmem

/-- A peer that was asked for its one segment under the ids from 1 to `k`. -/
def busyPeer (k : ℕ) : Node :=
  (List.range k).foldl (fun n i =>
      (n.handle ⟨defaultSettings, 2, 0⟩ ⟨fun _ => 0, default, .ok, 0⟩
        (.segmentRequest (i + 1) "1.ts") peerA).1)
    (Node.new (fun _ => 0) "peer" .peer "live.m3u8" oneSegment peerB 7)

theorem idle_peer_serves :
    ¬ SaysMissing ((busyPeer 0).handle ⟨defaultSettings, 2, 0⟩ ⟨fun _ => 0, default, .ok, 0⟩
      (.segmentRequest 1 "1.ts") peerA).2.1 :=
  (not_saysMissing_iff (busyPeer 0) ⟨defaultSettings, 2, 0⟩ ⟨fun _ => 0, default, .ok, 0⟩ 1 "1.ts"
    peerA (by decide +kernel) (by decide +kernel)).mpr (.inl (by decide +kernel))

/-- With 32 transfers active even the repeated request of one of them gets the answer that
the file is missing. -/
theorem full_registry_denies_file :
    validFilename "1.ts" = true ∧ ((busyPeer 32).registry.dir.read "1.ts").isSome ∧
      1 ∈ (busyPeer 32).registry.senders ∧
      SaysMissing ((busyPeer 32).handle ⟨defaultSettings, 2, 0⟩ ⟨fun _ => 0, default, .ok, 0⟩
        (.segmentRequest 1 "1.ts") peerA).2.1 :=
  ⟨by decide +kernel, by decide +kernel, by decide +kernel, 1, none, peerA, by decide +kernel⟩

end Node
end Qstream

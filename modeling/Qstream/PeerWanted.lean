import Qstream.PeerBooks

/-! Every missing segment of a new manifest is wanted. -/
namespace Qstream
open Transfer Runs UnixPath

/-- Refreshing the playlist touches the playlist and its temporary file only. -/
theorem lookup_refreshPlaybackManifest (w : World) (dir : Dir) (holdback : ℕ) {f : String}
    (hf : PLAYBACK_MANIFEST ∉ visited dir.root f)
    (ht : tmpName PLAYBACK_MANIFEST ∉ visited dir.root f) :
    (refreshPlaybackManifest w dir holdback).1.lookup f = dir.lookup f := by
  unfold refreshPlaybackManifest
  split
  · rfl
  split
  · exact dir.lookup_removeFile hf
  split
  · rfl
  rename_i data _ _
  rw [← dir.lookup_saveAtomic w.io w.wall PLAYBACK_MANIFEST data hf ht]
  split <;> rename_i hsave <;> rw [hsave]

/-- A segment that was marked or that has just been marked is queued or in flight. -/
theorem Peer.onManifest_wants {P : PeerConfig} {S S' : Peer} {w refresh : World} {data : Bytes}
    (h : S.onManifest P w refresh data = .ok S') (hne : data ≠ [])
    (hdiff : S.node.registry.dir.read LIVE_MANIFEST ≠ some data) (hmarked : S.sched.Marked)
    {f : String} {i : ℕ} (hi : (parseManifest data)[i]? = some f)
    (hvalid : validFilename f = true) (hf : f ≠ PLAYBACK_MANIFEST)
    (ht : f ≠ tmpName PLAYBACK_MANIFEST) (hmissing : S'.node.registry.dir.exists' f = false)
    (hcool : ∀ t, S.sched.failedAt.lookup f = some t → FAIL_RETRY_COOLDOWN ≤ w.clk i - t) :
    f ∈ S'.sched.queue ∨ S'.sched.InFlight f := by
  rcases onManifest_cases h with ⟨-, hnil | hsame⟩ | ⟨-, -, hsync, hdir⟩
  · exact absurd hnil hne
  · exact absurd hsame hdiff
  · have hplain := plainName_of_validFilename hvalid
    have hgone : (S.node.registry.dir.saveAtomic .ok w.wall LIVE_MANIFEST data).1.exists' f = false := by
      rw [hdir] at hmissing
      simpa only [Dir.exists', lookup_refreshPlaybackManifest refresh _ _ (not_visited hplain hf _)
        (not_visited hplain ht _)] using hmissing
    rw [hsync]
    exact hmarked.syncQueue data f (Scheduler.mem_queued_syncQueue hi hvalid hgone hcool)

/-- When a manifest that is not the stored one has been handled, in a run in which no pull
gets the id of a job in flight, its missing segments are queued or in flight, but for those
that failed in the last seconds and for the two names of the derived playlist. -/
theorem missing_segments_wanted (P : PeerConfig) (w0 : World) (dir : Dir) (nonce : UInt32)
    (claimed : Option SocketAddr) (seed : UInt64) {es : List PeerEvent} {S S' : Peer}
    {w refresh : World} {data : Bytes} {src : SocketAddr}
    (h : Run (guarded Peer.DrawsUnused (Peer.Step P))
      (Peer.initial P w0 dir nonce claimed seed) es S)
    (hstep : Peer.Step P S (.datagram w refresh (.manifestResponse data) src) S')
    (hne : data ≠ []) (hdiff : S.node.registry.dir.read LIVE_MANIFEST ≠ some data) :
    ∀ f i, (parseManifest data)[i]? = some f → validFilename f = true →
      f ≠ PLAYBACK_MANIFEST → f ≠ tmpName PLAYBACK_MANIFEST →
      S'.node.registry.dir.exists' f = false →
      (∀ t, S.sched.failedAt.lookup f = some t →
        FAIL_RETRY_COOLDOWN ≤ (w.after 32).clk i - t) →
      f ∈ S'.sched.queue ∨ S'.sched.InFlight f := by
  intro f i hi hvalid hf ht hmissing hcool
  have hmarked : S.sched.Marked :=
    h.invariant (I := fun S => S.sched.Marked) (fun _ _ _ hS hstep => hstep.2.marked hstep.1 hS)
      (by intro f hf; cases hf)
  cases hstep with
  | mk hen happ =>
    exact Peer.onManifest_wants (Peer.receive_manifest happ) hne hdiff hmarked hi hvalid hf ht hmissing hcool

/-- A new manifest in an empty directory. -/
theorem missing_segments_wanted_demo :
    ∃ S, Run (Peer.Step demoConfig) (demoStart emptyDir) [demoNews ["a.ts"]] S ∧
      ("a.ts" ∈ S.sched.queue ∨ S.sched.InFlight "a.ts") := by
  obtain ⟨S, hrun, hp⟩ := Peer.exists_run demoConfig (demoStart emptyDir) [demoNews ["a.ts"]]
    (fun S => S.node.registry.dir.exists' "a.ts" = false) (by decide +kernel)
  refine ⟨S, hrun, ?_⟩
  cases hrun with
  | cons hstep hnil =>
    cases hnil
    exact missing_segments_wanted demoConfig (demoWorld 0) emptyDir 1 none 1 (.nil _) hstep
      (by decide +kernel) (by decide +kernel) "a.ts" 0 (by decide +kernel) (by decide +kernel)
      (by decide) (by decide) (of_decide_eq_true hp) (by intro t ht; cases ht)

/-- The directory of a peer that stopped before it had any segment of the manifest. -/
def demoLeft : Dir :=
  ⟨AList.insert LIVE_MANIFEST (.file (demoManifest ["a.ts"]) true 0) ∅, ["srv"], fun _ => none⟩

/-- After a restart the manifest is the stored one, and its missing segment stays unwanted. -/
theorem unchanged_manifest_resumes_nothing :
    ∃ S, Run (Peer.Step demoConfig) (demoStart demoLeft) [demoNews ["a.ts"]] S ∧
      "a.ts" ∈ parseManifest (demoManifest ["a.ts"]) ∧ validFilename "a.ts" = true ∧
      S.node.registry.dir.exists' "a.ts" = false ∧ S.sched.failedAt.lookup "a.ts" = none ∧
      ¬ ("a.ts" ∈ S.sched.queue ∨ S.sched.InFlight "a.ts") := by
  obtain ⟨S, hrun, hp⟩ := Peer.exists_run demoConfig (demoStart demoLeft) [demoNews ["a.ts"]]
    (fun S => S.node.registry.dir.exists' "a.ts" = false ∧
      S.sched.failedAt.lookup "a.ts" = none ∧
      ¬ ("a.ts" ∈ S.sched.queue ∨ S.sched.InFlight "a.ts")) (by decide +kernel)
  exact ⟨S, hrun, by decide +kernel, by decide +kernel, of_decide_eq_true hp⟩

end Qstream

import Qstream.PeerQueue
import Qstream.PeerReceive

/-! What the loop's steps do to the scheduler's books, and when the books stay right. -/
namespace Qstream
open Transfer Runs

namespace Scheduler

/-- Queue, marks and jobs in flight are the same. -/
def SameBooks (t s : Scheduler) : Prop :=
  t.active = s.active ∧ t.queue = s.queue ∧ t.queued = s.queued

theorem SameBooks.refl (s : Scheduler) : SameBooks s s := ⟨rfl, rfl, rfl⟩

end Scheduler

/-- The stored manifest is not written again; any other is, in its place. -/
theorem writeManifest_cases {w : World} {dir dir' : Dir} {data : Bytes} {written : Bool}
    (h : writeManifest w dir data = (dir', .ok written)) :
    (written = false ∧ dir.read LIVE_MANIFEST = some data ∧ dir' = dir) ∨
      (written = true ∧ dir.read LIVE_MANIFEST ≠ some data ∧
        dir' = (dir.saveAtomic .ok w.wall LIVE_MANIFEST data).1) := by
  unfold writeManifest at h
  split at h
  · rename_i hsame
    cases h
    exact .inl ⟨rfl, hsame, rfl⟩
  · rename_i hdiff
    split at h
    · rename_i hsave
      cases h
      have hio : w.io = .ok := Dir.saveAtomic_error.mp (by rw [hsave])
      rw [hio] at hsave
      exact .inr ⟨rfl, hdiff, by rw [hsave]⟩
    · cases h

namespace Peer
variable {P : PeerConfig} {S S' : Peer}

/-- A manifest is reconciled with when it was written, which it is unless it is the stored
one. -/
theorem onManifest_cases {w refresh : World} {data : Bytes}
    (h : S.onManifest P w refresh data = .ok S') :
    (S' = { S with pollTimeout := none } ∧
      (data = [] ∨ S.node.registry.dir.read LIVE_MANIFEST = some data)) ∨
    (data ≠ [] ∧ S.node.registry.dir.read LIVE_MANIFEST ≠ some data ∧
      let dir := (S.node.registry.dir.saveAtomic .ok w.wall LIVE_MANIFEST data).1
      S'.sched = syncQueue w.clk dir data S.sched ∧
        S'.node.registry.dir = (refreshPlaybackManifest refresh dir P.playbackHoldback).1) := by
  unfold onManifest at h
  split at h
  · rename_i hnil
    cases h
    exact .inl ⟨rfl, .inl hnil⟩
  rename_i hne
  split at h
  · cases h
  · rename_i hsave
    cases h
    rcases writeManifest_cases hsave with ⟨-, hsame, rfl⟩ | ⟨hwritten, -⟩
    · exact .inl ⟨rfl, .inr hsame⟩
    · cases hwritten
  · rename_i dir hsave
    rcases writeManifest_cases hsave with ⟨hwritten, -⟩ | ⟨-, hdiff, rfl⟩
    · cases hwritten
    split at h
    · cases h
    · rename_i hrefresh
      cases h
      refine .inr ⟨hne, hdiff, rfl, ?_⟩
      rw [hrefresh]
      rfl

/-- Only four kinds of steps touch the books: a manifest that is not the stored one, a
collected job, and the start of a pull; all others leave them alone. -/
theorem Step.books_cases {e : PeerEvent} (h : Step P S e S') :
    S'.sched.SameBooks S.sched ∨
    (∃ w refresh data src dir, e = .datagram w refresh (.manifestResponse data) src ∧
      data ≠ [] ∧ S.node.registry.dir.read LIVE_MANIFEST ≠ some data ∧
      S'.sched = syncQueue (w.after 32).clk dir data S.sched) ∨
    (∃ w now f, e = .reap w now f ∧ S.IsFinished f ∧
      S'.sched = (reapJob P w now f S.node S.sched).2.1) ∨
    (∃ ids w filename rest peer rng, e = .fill ids w ∧ S.sched.queue = filename :: rest ∧
      S'.sched = S.sched.started (ids.draw S.node.registry) filename rest peer rng) := by
  cases h with
  | mk hen happ =>
    cases e with
    | datagram w refresh m src =>
      rcases receive_cases happ with ⟨name, rfl⟩ | ⟨data, rfl, hnode, hman⟩ | ⟨peers, rfl⟩ | rfl
      · refine .inl ?_
        simp only [onHandshake]
        split <;> exact .refl _
      · rcases onManifest_cases hman with ⟨rfl, -⟩ | ⟨hne, hdiff, hsync, -⟩
        · exact .inl (.refl _)
        · rw [hnode] at hdiff
          exact .inr (.inl ⟨w, refresh, data, src, _, rfl, hne, hdiff, hsync⟩)
      · obtain ⟨-, -, ⟨parents, hs⟩, -⟩ := foldl_peerlist_spec (P := P) (w.clk 0) peers
          { S with
            node := (S.node.handle P.settings (w.after 1) m src).1
            sched := { S.sched with parents := ∅ } }
        refine .inl ?_
        rw [onPeerlist, hs]
        exact ⟨rfl, rfl, rfl⟩
      · exact .inl (.refl _)
    | tick w now =>
      obtain rfl := fst_of_ok happ
      exact .inl (.refl _)
    | prunePeers | retryHandshake | expirePending | pollManifest | pollPeerlist =>
      obtain ⟨rng, hs⟩ := apply_quiet_sched P happ trivial
      rw [hs]
      exact .inl ⟨rfl, rfl, rfl⟩
    | reap w now f =>
      obtain rfl := fst_of_ok happ
      exact .inr (.inr (.inl ⟨w, now, f, rfl, hen, rfl⟩))
    | fill ids w =>
      obtain rfl := fst_of_ok happ
      rcases fillStep_cases P ids w S.node S.sched with
        ⟨rng, hstep⟩ | ⟨filename, rest, peer, rng, r, hq, -, -, -, hstep⟩
      · refine .inl ?_
        simp only [fillOne, hstep]
        exact ⟨rfl, rfl, rfl⟩
      · refine .inr (.inr (.inr ⟨ids, w, filename, rest, peer, rng, rfl, hq, ?_⟩))
        simp only [fillOne, hstep]

/-- A pull does not get the id of a job in flight. The registry draws an id it does not use
itself, but it may have dropped a receiver before its job was collected. -/
def DrawsUnused (S : Peer) : PeerEvent → Prop
  | .fill ids _ => ids.draw S.node.registry ∉ S.sched.active
  | _ => True

/-- A manifest that is not the stored one names all files in flight. -/
def NamesInFlight (S : Peer) : PeerEvent → Prop
  | .datagram _ _ (.manifestResponse data) _ => data ≠ [] →
      S.node.registry.dir.read LIVE_MANIFEST ≠ some data →
      ∀ f, S.sched.InFlight f → f ∈ parseManifest data
  | _ => True

theorem Step.booked {e : PeerEvent} (hstep : Step P S e S') (hname : S.NamesInFlight e)
    (hdraw : S.DrawsUnused e) (h : S.sched.Booked) : S'.sched.Booked := by
  rcases hstep.books_cases with ⟨ha, hq, hm⟩ | ⟨w, refresh, data, src, dir, rfl, hne, hdiff, hs⟩ |
    ⟨w, now, f, rfl, ⟨hjob, -⟩, hs⟩ | ⟨ids, w, filename, rest, peer, rng, rfl, hq, hs⟩
  · exact h.congr ha hq hm
  · rw [hs]
    exact h.syncQueue (hname hne hdiff)
  · rw [hs]
    exact h.reaped P w now f S.node hjob
  · rw [hs]
    exact h.started hq hdraw

theorem Step.marked {e : PeerEvent} (hstep : Step P S e S') (hdraw : S.DrawsUnused e)
    (h : S.sched.Marked) : S'.sched.Marked := by
  rcases hstep.books_cases with ⟨ha, hq, hm⟩ | ⟨w, refresh, data, src, dir, rfl, -, -, hs⟩ |
    ⟨w, now, f, rfl, ⟨hjob, -⟩, hs⟩ | ⟨ids, w, filename, rest, peer, rng, rfl, hq, hs⟩
  · exact h.congr ha hq hm
  · rw [hs]
    exact h.syncQueue data
  · rw [hs]
    exact h.reaped P w now f S.node hjob
  · rw [hs]
    exact h.started hq hdraw

instance (S : Peer) (e : PeerEvent) : Decidable (S.DrawsUnused e) := by
  unfold DrawsUnused
  split <;> infer_instance

instance (S : Peer) (e : PeerEvent) : Decidable (S.NamesInFlight e) := by
  unfold NamesInFlight
  split <;> infer_instance

end Peer

/-- The books are right after every run in which each new manifest names all files in
flight and no pull gets the id of a job in flight. -/
theorem books_kept (P : PeerConfig) (w : World) (dir : Dir) (nonce : UInt32)
    (claimed : Option SocketAddr) (seed : UInt64) {es : List PeerEvent} {S : Peer}
    (h : Run (guarded (fun S e => S.NamesInFlight e ∧ S.DrawsUnused e) (Peer.Step P))
      (Peer.initial P w dir nonce claimed seed) es S) :
    S.sched.Booked :=
  h.invariant (fun _ _ _ hS hstep => hstep.2.booked hstep.1.1 hstep.1.2 hS)
    (Scheduler.new_booked _)

def demoManifest (names : List String) : Bytes :=
  ("#EXTM3U\n" ++ String.join (names.map fun f => f ++ "\n")).toUTF8.toList

def demoHello : PeerEvent :=
  .datagram (demoWorld 1) (demoWorld 1) (.handshakeResponse demoLocal "origin") demoBootstrap

def demoNews (names : List String) : PeerEvent :=
  .datagram (demoWorld 2) (demoWorld 2) (.manifestResponse (demoManifest names)) demoBootstrap

def demoFill : PeerEvent := .fill smallestId (demoWorld 3)

/-- A manifest, the pull of a file, and a manifest that still names it. -/
theorem books_kept_demo :
    ∃ S, Run (Peer.Step demoConfig) (demoStart emptyDir)
        [demoHello, demoNews ["a.ts"], demoFill, demoNews ["a.ts", "b.ts"]] S ∧
      S.sched.InFlight "a.ts" ∧ S.sched.Booked := by
  obtain ⟨S, hrun, hfl⟩ := Peer.exists_guarded_run demoConfig
    (fun S e => S.NamesInFlight e ∧ S.DrawsUnused e) (demoStart emptyDir)
    [demoHello, demoNews ["a.ts"], demoFill, demoNews ["a.ts", "b.ts"]]
    (fun S => S.sched.InFlight "a.ts") (by decide +kernel)
  exact ⟨S, hrun.mono fun _ _ _ h => h.2, of_decide_eq_true hfl,
    books_kept demoConfig (demoWorld 0) emptyDir 1 none 1 hrun⟩

/-- A manifest drops a file in flight and a later one lists it again: now it is queued, too. -/
theorem dropped_file_is_queued_in_flight :
    ∃ S, Run (Peer.Step demoConfig) (demoStart emptyDir)
        [demoHello, demoNews ["a.ts"], demoFill, demoNews ["b.ts"], demoNews ["a.ts", "b.ts"]] S ∧
      "a.ts" ∈ S.sched.queue ∧ S.sched.InFlight "a.ts" ∧ ¬ S.sched.Booked := by
  obtain ⟨S, hrun, hp⟩ := Peer.exists_run demoConfig (demoStart emptyDir)
    [demoHello, demoNews ["a.ts"], demoFill, demoNews ["b.ts"], demoNews ["a.ts", "b.ts"]]
    (fun S => "a.ts" ∈ S.sched.queue ∧ S.sched.InFlight "a.ts") (by decide +kernel)
  obtain ⟨hq, hfl⟩ := of_decide_eq_true hp
  exact ⟨S, hrun, hq, hfl, fun hbooked => hbooked.apart _ hq hfl⟩

end Qstream

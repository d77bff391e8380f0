import Qstream.PeerBooks

/-! Whether a file that went back to the queue can ever get a source. The reap step looks
at the known addresses, source selection at those they resolve to. -/
namespace Qstream
open Transfer Runs

section Later
variable {P : PeerConfig} {n n' : Node} {s s' : Scheduler} {ord : HashOrder} {now : ℕ}
  {filename : String}

/-- At some later time, nothing else in flight, a source is found. -/
def LaterSource (P : PeerConfig) (n : Node) (s : Scheduler) (ord : HashOrder) (now : ℕ)
    (filename : String) : Prop :=
  ∃ t ≥ now, (pickPeer P n { s with active := ∅ } ord t filename).1.isSome

/-- A known peer resolves to another's address that was not tried, or the bootstrap is
known and was not tried. -/
def Askable (P : PeerConfig) (n : Node) (s : Scheduler) (ord : HashOrder) (filename : String) :
    Prop :=
  (∃ p ∈ n.peers, n.effectiveAddr ord p ≠ P.localAddr ∧
    s.untried filename (n.effectiveAddr ord p) = true) ∨
  P.bootstrap ∈ n.peers ∧ s.untried filename P.bootstrap = true

instance : Decidable (Askable P n s ord filename) :=
  inferInstanceAs (Decidable ((∃ p ∈ n.peers.keys, _) ∨ _))

/-- In time all cooldowns end and all inventories grow stale. -/
theorem exists_settled (n : Node) (s : Scheduler) (now : ℕ) (filename : String) :
    ∃ t ≥ now, (∀ p, s.cooling filename p t = false) ∧
      ∀ p, n.peerAvailability p filename t = none := by
  obtain ⟨tc, hc⟩ := HashMap.exists_bound id s.retryAfter
  obtain ⟨tm, hm⟩ := HashMap.exists_bound id n.missingSegments
  obtain ⟨ta, ha⟩ := HashMap.exists_bound Prod.snd n.availability
  obtain ⟨t, hnow, hct, hmt, hat⟩ :
      ∃ t, now ≤ t ∧ tc ≤ t ∧ tm ≤ t ∧ ta + AVAILABILITY_TTL < t := by
    generalize AVAILABILITY_TTL = ttl
    exact ⟨now + tc + tm + ta + ttl + 1, by omega, by omega, by omega, by omega⟩
  refine ⟨t, hnow, fun p => ?_, fun p => ?_⟩
  · unfold Scheduler.cooling
    cases hl : s.retryAfter.lookup (filename, p) with
    | none => rfl
    | some until' => simpa using (hc _ _ hl).trans hct
  · unfold Node.peerAvailability
    cases segmentNumber filename with
    | none => rfl
    | some number =>
      have hmiss : (n.missingSegments.lookup (p, number)).any (fun e => decide (t < e)) = false := by
        cases hl : n.missingSegments.lookup (p, number) with
        | none => rfl
        | some e => simpa using (hm _ _ hl).trans hmt
      cases hl : n.availability.lookup p with
      | none => simp [hmiss]
      | some e =>
        have hold : t - e.2 > AVAILABILITY_TTL := by
          have := ha _ _ hl
          omega
        simp [hmiss, hold]

/-- A source is found some day exactly when there is someone left to ask. -/
theorem laterSource_iff : LaterSource P n s ord now filename ↔ Askable P n s ord filename := by
  constructor
  · rintro ⟨t, -, hsome⟩
    rcases pickPeer_isSome.mp hsome with hsrc | hrec
    · have hne : candidates P n { s with active := ∅ } ord t filename ≠ [] :=
        fun hnil => hsrc (sources_eq_nil.mpr (.inl hnil))
      obtain ⟨a, ha⟩ := List.exists_mem_of_ne_nil _ hne
      obtain ⟨⟨p, hp, rfl⟩, hel⟩ := mem_candidates.mp ha
      simp only [eligible, decide_eq_true_eq] at hel
      exact .inl ⟨p, hp, hel.1, hel.2.2.1.2⟩
    · obtain ⟨hknown, -, -, huntried⟩ := bootstrapRecovery_iff.mp hrec
      exact .inr ⟨hknown, huntried⟩
  · obtain ⟨t, hnow, hcool, hav⟩ := exists_settled n s now filename
    have hidle : ∀ a, ({ s with active := ∅ } : Scheduler).inflight a < MAX_INFLIGHT_PER_PEER := by
      intro a
      exact Nat.zero_lt_two
    rintro (⟨p, hp, hlocal, huntried⟩ | ⟨hknown, huntried⟩)
    · refine ⟨t, hnow, pickPeer_isSome.mpr (.inl fun hnil => ?_)⟩
      have hmem : n.effectiveAddr ord p ∈ candidates P n { s with active := ∅ } ord t filename := by
        refine mem_candidates.mpr ⟨⟨p, hp, rfl⟩, ?_⟩
        simp only [eligible, decide_eq_true_eq]
        refine ⟨hlocal, .inr ?_, ⟨?_, huntried⟩, hidle _⟩
        · simp [Node.peerMayHave, hav]
        · simpa [Scheduler.cooling] using hcool (n.effectiveAddr ord p)
      rcases sources_eq_nil.mp hnil with hnone | ⟨hadv, -⟩
      · rw [hnone] at hmem
        cases hmem
      · rw [hav] at hadv
        cases hadv
    · exact ⟨t, hnow, pickPeer_isSome.mpr
        (.inr (bootstrapRecovery_iff.mpr ⟨hknown, hcool _, hidle _, huntried⟩))⟩

theorem Askable.congr (hpeers : n'.peers = n.peers) (hpaths : n'.paths = n.paths)
    (htried : s'.tried = s.tried) :
    Askable P n' s' ord filename ↔ Askable P n s ord filename := by
  have heff : ∀ p, n'.effectiveAddr ord p = n.effectiveAddr ord p := by
    intro p
    unfold Node.effectiveAddr Node.isLanPath
    rw [hpeers, hpaths]
  have hun : ∀ p, s'.untried filename p = s.untried filename p := by
    intro p
    simp only [Scheduler.untried, htried]
  simp only [Askable, heff, hun, hpeers]

end Later

section Reap
variable {P : PeerConfig} {f : Finished}

@[simp] theorem recordPull_paths (n : Node) (clk : Clock) (p : SocketAddr) (res : PullResult)
    (latency : Option ℕ) (bytes : ℕ) :
    (n.recordPull clk p res latency bytes).paths = n.paths := by
  cases res <;> rfl

@[simp] theorem collect_paths (w : World) (f : Finished) (n : Node) (s : Scheduler) :
    (collect w f n s).1.paths = n.paths := by
  unfold collect
  cases f.outcome <;> simp

theorem anyUntried_congr {n n' : Node} {s s' : Scheduler} (hpeers : n'.peers = n.peers)
    (htried : s'.tried = s.tried) (filename : String) :
    anyUntried P n' s' filename = anyUntried P n s filename := by
  unfold anyUntried Scheduler.untried
  rw [hpeers, htried]

/-- A failed job goes back to the front of the queue when a known address is untried. -/
theorem reapJob_requeues (P : PeerConfig) (w : World) (now : ℕ) (n : Node) (s : Scheduler)
    (hf : f.Failed) :
    ((reapJob P w now f n s).2.1.queue = f.job.filename :: s.queue ↔
      anyUntried P (afterEviction f n s) s f.job.filename = true) ∧
    (anyUntried P (afterEviction f n s) s f.job.filename = true →
      ∀ ord, Askable P (reapJob P w now f n s).1 (reapJob P w now f n s).2.1 ord f.job.filename ↔
        Askable P (afterEviction f n s) s ord f.job.filename) := by
  obtain ⟨hits, hspec⟩ := reapJob_failed P w now hf n s
  have hpeers : (afterEviction f (collect w f n s).1 s).peers = (afterEviction f n s).peers :=
    afterEviction_peers (collect_peers w f n s) f s
  have hpaths : (afterEviction f (collect w f n s).1 s).paths = (afterEviction f n s).paths := by
    unfold afterEviction
    split <;> simp [Node.removePeer]
  rw [hspec, anyUntried_congr hpeers rfl]
  cases hu : anyUntried P (afterEviction f n s) s f.job.filename with
  | false => simp
  | true => exact ⟨by simp, fun _ ord => Askable.congr hpeers hpaths rfl⟩

end Reap

namespace Peer
variable (P : PeerConfig)

/-- A failed download that the step puts back into the queue has a later source. -/
def RequeueHasSource (S : Peer) (e : PeerEvent) (S' : Peer) : Prop :=
  match e with
  | .reap _ now f => f.Failed → S'.sched.queue = f.job.filename :: S.sched.queue →
      ∀ ord, LaterSource P S'.node S'.sched ord now f.job.filename
  | _ => True

/-- When the reap step finds a known address untried for a failed download, then there is
one left to ask: among those the known ones resolve to, or the bootstrap. -/
def UntriedAskable (S : Peer) : PeerEvent → Prop
  | .reap _ _ f => f.Failed →
      anyUntried P (afterEviction f S.node S.sched) S.sched f.job.filename = true →
      ∀ ord, Askable P (afterEviction f S.node S.sched) S.sched ord f.job.filename
  | _ => True

variable {P}

theorem Step.requeueHasSource_iff {S S' : Peer} {e : PeerEvent} (h : Step P S e S') :
    RequeueHasSource P S e S' ↔ UntriedAskable P S e := by
  cases h with
  | mk hen happ =>
    cases e with
    | reap w now f =>
      obtain rfl := fst_of_ok happ
      refine forall_congr' fun hf => ?_
      obtain ⟨hq, hask⟩ := reapJob_requeues P w now S.node S.sched hf
      constructor
      · intro hsrc hany ord
        exact (hask hany ord).mp (laterSource_iff.mp (hsrc (hq.mpr hany) ord))
      · intro hcond hqueue ord
        have hany := hq.mp hqueue
        exact laterSource_iff.mpr ((hask hany ord).mpr (hcond hany ord))
    | _ => exact Iff.rfl

end Peer

/-- In a run all files that go back to the queue have a later source exactly when, at each
of them, the address that was found untried is one that selection can ask. -/
theorem requeues_have_source_iff (P : PeerConfig) (w : World) (dir : Dir) (nonce : UInt32)
    (claimed : Option SocketAddr) (seed : UInt64) (es : List PeerEvent) (S : Peer) :
    Run (fun S e S' => Peer.RequeueHasSource P S e S' ∧ Peer.Step P S e S')
      (Peer.initial P w dir nonce claimed seed) es S ↔
    Run (guarded (Peer.UntriedAskable P) (Peer.Step P))
      (Peer.initial P w dir nonce claimed seed) es S := by
  constructor
  · exact Run.mono fun _ _ _ h => ⟨h.2.requeueHasSource_iff.mp h.1, h.2⟩
  · exact Run.mono fun _ _ _ h => ⟨h.2.requeueHasSource_iff.mpr h.1, h.2⟩

/-- Another peer, known under its public address and on the local network. -/
def demoLan : SocketAddr := ⟨.v4 ⟨192, 168, 1, 2⟩, 4000⟩

def demoPing (src : SocketAddr) : PeerEvent :=
  .datagram (demoWorld 1) (demoWorld 1) (.ping 7 "other") src

def demoRefusal (src : SocketAddr) : PeerEvent :=
  .datagram (demoWorld 4) (demoWorld 4) (.segmentNotFound 1 none false) src

def demoRefused (src : SocketAddr) : Finished :=
  ⟨1, ⟨"a.ts", src⟩, .error (.notFound "a.ts"), false, true, false, none, none⟩

/-- Both other nodes have refused the file. It is queued again for the second address of
one of them, which is never asked. -/
theorem requeued_without_source :
    ∃ S, Run (Peer.Step demoConfig) (demoStart emptyDir)
        [demoHello, demoPing demoOther, demoPing demoLan, demoNews ["a.ts"], demoFill,
          demoRefusal demoLan, .reap (demoWorld 5) 5 (demoRefused demoLan), demoFill,
          demoRefusal demoBootstrap, .reap (demoWorld 6) 6 (demoRefused demoBootstrap)] S ∧
      (demoRefused demoBootstrap).Failed ∧
      S.sched.queue = ["a.ts"] ∧ S.sched.failedAt.lookup "a.ts" = none ∧
      ¬ LaterSource demoConfig S.node S.sched default 6 "a.ts" := by
  obtain ⟨S, hrun, hp⟩ := Peer.exists_run demoConfig (demoStart emptyDir)
    [demoHello, demoPing demoOther, demoPing demoLan, demoNews ["a.ts"], demoFill,
      demoRefusal demoLan, .reap (demoWorld 5) 5 (demoRefused demoLan), demoFill,
      demoRefusal demoBootstrap, .reap (demoWorld 6) 6 (demoRefused demoBootstrap)]
    (fun S => S.sched.queue = ["a.ts"] ∧ S.sched.failedAt.lookup "a.ts" = none ∧
      ¬ Askable demoConfig S.node S.sched default "a.ts") (by decide +kernel)
  obtain ⟨hq, hfail, hask⟩ := of_decide_eq_true hp
  exact ⟨S, hrun, ⟨by decide, by decide⟩, hq, hfail, fun hsrc => hask (laterSource_iff.mp hsrc)⟩

end Qstream

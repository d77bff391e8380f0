import Qstream.PeerNames

/-! When the peer evicts a source: after three pulls from it that timed out one after the
other, as long as no other answer is passed over in the count. -/
namespace Qstream
open Transfer Runs

theorem Finished.unresponsive_of_result {f : Finished} (h : f.result = .timeout) :
    f.unresponsive = true := by
  unfold result at h
  split at h
  · cases h
  split at h
  next hu => exact hu
  next => split at h <;> [cases h; (split at h <;> cases h)]

theorem Finished.responsive_of_result {f : Finished} (hf : f.Failed) (h : f.result ≠ .timeout) :
    f.unresponsive = false := by
  by_contra hu
  rw [Bool.not_eq_false] at hu
  cases ho : f.outcome with
  | ok u => exact hf.1 (by simp only [result, ho])
  | error e => exact h (by simp only [result, ho, hu, if_true])

namespace Peer
variable {P : PeerConfig} {S S' : Peer}

/-- The count of unanswered pulls from `p` after a download is collected. -/
def hitsAfter (f : Finished) (s : Scheduler) (p : SocketAddr) : ℕ :=
  if p ≠ f.job.peer then s.hits p
  else match f.result with
    | .retryableNotFound => s.hits p
    | .timeout => if s.hits p + 1 ≥ EVICT_AFTER_UNRESPONSIVE then 0 else s.hits p + 1
    | _ => 0

theorem hits_erase {s : Scheduler} {q p : SocketAddr} {s' : Scheduler}
    (h : s'.unresponsiveHits = s.unresponsiveHits.erase q) :
    s'.hits p = if p = q then 0 else s.hits p := by
  rw [Scheduler.hits, h, HashMap.lookup_erase']
  split <;> rfl

theorem hits_insert {s : Scheduler} {q p : SocketAddr} {k : ℕ} {s' : Scheduler}
    (h : s'.unresponsiveHits = s.unresponsiveHits.insert q k) :
    s'.hits p = if p = q then k else s.hits p := by
  rw [Scheduler.hits, h, HashMap.lookup_insert']
  split <;> rfl

theorem countUnresponsive_hits (f : Finished) (hf : f.Failed) (n : Node) (s : Scheduler)
    (p : SocketAddr) : (countUnresponsive f n s).2.hits p = hitsAfter f s p := by
  unfold countUnresponsive hitsAfter
  by_cases hpeer : p = f.job.peer
  · subst hpeer
    by_cases htimeout : f.result = .timeout
    · have hu := Finished.unresponsive_of_result htimeout
      by_cases hfull : s.hits f.job.peer + 1 ≥ EVICT_AFTER_UNRESPONSIVE
      · have hevict : evicts f s = true := by simp [evicts, hu, hfull]
        simp only [hevict, if_true, htimeout, ne_eq, not_true_eq_false, if_false, if_pos hfull]
        rw [hits_erase rfl, if_pos rfl]
      · have hevict : evicts f s = false := by simp [evicts, hu, hfull]
        simp only [hevict, Bool.false_eq_true, if_false, hu, if_true, htimeout, ne_eq,
          not_true_eq_false, if_neg hfull]
        rw [hits_insert rfl, if_pos rfl]
    · have hu := Finished.responsive_of_result hf htimeout
      have hevict : evicts f s = false := by simp [evicts, hu]
      simp only [hevict, Bool.false_eq_true, if_false, hu, ne_eq, not_true_eq_false]
      rw [hits_erase rfl, if_pos rfl]
      obtain ⟨hok, hretry⟩ := hf
      cases hres : f.result with
      | retryableNotFound => exact absurd hres hretry
      | timeout => exact absurd hres htimeout
      | _ => rfl
  · rw [if_pos hpeer]
    split
    · rw [hits_erase rfl, if_neg hpeer]
    split
    · rw [hits_insert rfl, if_neg hpeer]
    · rw [hits_erase rfl, if_neg hpeer]

theorem reapJob_hits (w : World) (now : ℕ) (f : Finished) (n : Node) (s : Scheduler)
    (p : SocketAddr) : (reapJob P w now f n s).2.1.hits p = hitsAfter f s p := by
  cases hres : f.result with
  | ok =>
    simp only [reapJob, hres, reapOk, collect]
    rw [hits_erase rfl, hitsAfter, hres]
    by_cases hpeer : p = f.job.peer
    · rw [if_pos hpeer, if_neg (not_not.mpr hpeer)]
    · rw [if_neg hpeer, if_pos hpeer]
  | retryableNotFound =>
    simp only [reapJob, hres, reapRetryable, collect, hitsAfter]
    split <;> rfl
  | _ =>
    have hf : f.Failed := ⟨by simp [hres], by simp [hres]⟩
    have hcount := countUnresponsive_hits f hf (collect w f n s).1 (collect w f n s).2 p
    have hsame : hitsAfter f (collect w f n s).2 p = hitsAfter f s p := rfl
    rw [← hsame, ← hcount]
    simp only [reapJob, hres, reapFailed]
    split <;> rfl

/-- Only collecting a download changes the counts. -/
theorem Step.hits_kept {e : PeerEvent} (h : Step P S e S') (hquiet : ∀ w now f, e ≠ .reap w now f)
    (p : SocketAddr) : S'.sched.hits p = S.sched.hits p := by
  have hsync (clk : Clock) (dir : Dir) (data : Bytes) :
      (syncQueue clk dir data S.sched).hits p = S.sched.hits p := by
    have hfold (l : List (String × ℕ)) (s : Scheduler) :
        (l.foldl (enqueue clk dir) s).unresponsiveHits = s.unresponsiveHits := by
      induction l generalizing s with
      | nil => rfl
      | cons e l ih =>
        rw [List.foldl_cons, ih, enqueue]
        split <;> rfl
    rw [Scheduler.hits, syncQueue, hfold]
    rfl
  cases h with
  | mk hen happ =>
    cases e with
    | datagram w refresh m src =>
      rcases receive_cases happ with ⟨name, rfl⟩ | ⟨data, -, -, hman⟩ | ⟨peers, rfl⟩ | rfl
      · simp only [onHandshake]
        split <;> rfl
      · rcases onManifest_cases hman with ⟨rfl, -⟩ | ⟨-, -, hnew, -⟩
        · rfl
        · rw [hnew]
          exact hsync _ _ _
      · obtain ⟨-, -, ⟨parents, hs⟩, -⟩ := foldl_peerlist_spec (P := P) (w.clk 0) peers
          { S with
            node := (S.node.handle P.settings (w.after 1) m src).1
            sched := { S.sched with parents := ∅ } }
        rw [onPeerlist, hs]
        rfl
      · rfl
    | tick w now =>
      obtain rfl := fst_of_ok happ
      rfl
    | prunePeers | retryHandshake | expirePending | pollManifest | pollPeerlist =>
      obtain ⟨rng, hs⟩ := apply_quiet_sched P happ trivial
      rw [hs]
      rfl
    | reap w now f => exact absurd rfl (hquiet w now f)
    | fill ids w =>
      obtain rfl := fst_of_ok happ
      rcases fillStep_cases P ids w S.node S.sched with
        ⟨rng, hstep⟩ | ⟨filename, rest, peer, rng, r, -, -, -, -, hstep⟩
      · simp only [fillOne, hstep]
        rfl
      · simp only [fillOne, hstep]
        rfl

/-- The results of the pulls from `p` that were collected, oldest first. -/
def outcomesFrom (p : SocketAddr) (es : List PeerEvent) : List PullResult :=
  es.filterMap fun
    | .reap _ _ f => if f.job.peer = p then some f.result else none
    | _ => none

/-- No pull from a source that has left pulls unanswered is collected as not ready. -/
def CountsAnswers (S : Peer) : PeerEvent → Prop
  | .reap _ _ f => f.result = .retryableNotFound → S.sched.hits f.job.peer = 0
  | _ => True

/-- The count of a source is that of the timeouts at the end of its results. -/
def CountedFrom (es : List PeerEvent) (S : Peer) (p : SocketAddr) : Prop :=
  S.sched.hits p < EVICT_AFTER_UNRESPONSIVE ∧
    ∃ earlier, outcomesFrom p es = earlier ++ List.replicate (S.sched.hits p) .timeout

theorem Step.counted {es : List PeerEvent} {e : PeerEvent} {p : SocketAddr} (h : Step P S e S')
    (hguard : S.CountsAnswers e) (hS : CountedFrom es S p) : CountedFrom (es ++ [e]) S' p := by
  have hpos : 0 < EVICT_AFTER_UNRESPONSIVE := by decide
  obtain ⟨hfew, earlier, hend⟩ := hS
  rw [CountedFrom, outcomesFrom, List.filterMap_append, ← outcomesFrom, hend]
  by_cases hreap : ∃ w now f, e = .reap w now f
  · obtain ⟨w, now, f, rfl⟩ := hreap
    have hsched : S'.sched.hits p = hitsAfter f S.sched p := by
      cases h with
      | mk hen happ =>
        obtain rfl := fst_of_ok happ
        exact reapJob_hits w now f S.node S.sched p
    rw [hsched, hitsAfter]
    by_cases hpeer : p = f.job.peer
    · subst hpeer
      simp only [ne_eq, not_true_eq_false, if_false, List.filterMap_cons, List.filterMap_nil, if_true]
      cases hres : f.result with
      | retryableNotFound =>
        have hzero := hguard hres
        refine ⟨hfew, earlier ++ [.retryableNotFound], ?_⟩
        simp only [hzero, List.replicate_zero, List.append_nil]
      | timeout =>
        simp only
        split
        next => exact ⟨hpos, _, (List.append_nil _).symm⟩
        next hless =>
          refine ⟨Nat.lt_of_not_le hless, earlier, ?_⟩
          rw [List.append_assoc, List.replicate_succ']
      | _ => exact ⟨hpos, _, (List.append_nil _).symm⟩
    · have hother : ¬ f.job.peer = p := fun heq => hpeer heq.symm
      simp only [if_pos hpeer, List.filterMap_cons, List.filterMap_nil, if_neg hother,
        List.append_nil]
      exact ⟨hfew, earlier, rfl⟩
  · have hquiet : ∀ w now f, e ≠ .reap w now f := fun w now f heq => hreap ⟨w, now, f, heq⟩
    rw [h.hits_kept hquiet]
    refine ⟨hfew, earlier, ?_⟩
    cases e with
    | reap w now f => exact absurd rfl (hquiet w now f)
    | _ => exact List.append_nil _

instance (S : Peer) (e : PeerEvent) : Decidable (S.CountsAnswers e) :=
  match e with
  | .reap _ _ f =>
    inferInstanceAs (Decidable (f.result = .retryableNotFound → S.sched.hits f.job.peer = 0))
  | .datagram .. | .tick .. | .prunePeers _ | .retryHandshake _ | .expirePending _
  | .pollManifest _ | .pollPeerlist _ | .fill .. => .isTrue trivial

end Peer

/-- In every run in which no not-ready answer is collected from a source that has left pulls
unanswered, a source is evicted only when its last three results are timeouts. -/
theorem eviction_after_three_timeouts (P : PeerConfig) (w0 : World) (dir : Dir) (nonce : UInt32)
    (claimed : Option SocketAddr) (seed : UInt64) {es : List PeerEvent} {S S' : Peer}
    (h : Run (guarded Peer.CountsAnswers (Peer.Step P)) (.initial P w0 dir nonce claimed seed) es S)
    {w : World} {now : ℕ} {f : Finished} (hstep : Peer.Step P S (.reap w now f) S')
    {a : SocketAddr} (hknown : a ∈ S.node.peers) (hgone : a ∉ S'.node.peers) :
    ∃ earlier, Peer.outcomesFrom a (es ++ [.reap w now f]) =
      earlier ++ [.timeout, .timeout, .timeout] := by
  have hcounted : Peer.CountedFrom es S a := by
    refine h.history (I := fun es S => Peer.CountedFrom es S a)
      ⟨(show 0 < 3 by decide), [], rfl⟩ fun fs U e V _ hU hUV => ?_
    exact hUV.2.counted hUV.1 hU
  obtain ⟨hfew, earlier, hend⟩ := hcounted
  cases hstep with
  | mk hen happ =>
    obtain rfl := Peer.fst_of_ok happ
    have hgone' : a ∉ (reapJob P w now f S.node S.sched).1.peers := hgone
    rcases reapJob_cases P w now f S.node S.sched with ⟨-, -, -, heq⟩ | ⟨-, -, -, heq⟩ |
      ⟨hf, heq, -⟩
    · exact absurd (heq ▸ hknown) hgone'
    · exact absurd (heq ▸ hknown) hgone'
    · rw [heq, afterEviction] at hgone'
      split at hgone'
      next hevict =>
        have hpeer : a = f.job.peer := by
          by_contra hne
          exact hgone' (AList.mem_erase.mpr ⟨hne, hknown⟩)
        subst hpeer
        obtain ⟨hu, hthird⟩ : f.unresponsive = true ∧
            S.sched.hits f.job.peer + 1 ≥ EVICT_AFTER_UNRESPONSIVE := by
          simpa [evicts] using hevict
        have htimeout : f.result = .timeout := by
          by_contra hne
          rw [Finished.responsive_of_result hf hne] at hu
          cases hu
        have htwo : S.sched.hits f.job.peer = 2 := by
          unfold EVICT_AFTER_UNRESPONSIVE at hfew hthird
          omega
        refine ⟨earlier, ?_⟩
        rw [Peer.outcomesFrom, List.filterMap_append, ← Peer.outcomesFrom, hend, htwo,
          List.append_assoc]
        simp [htimeout, List.replicate]
      next => exact absurd hknown hgone'

def demoPull (filename : String) (t : ℕ) : List PeerEvent :=
  [demoNews [filename], .fill smallestId (demoWorld t)]

/-- A pull that the bootstrap leaves unanswered. -/
def demoUnanswered (filename : String) : Finished :=
  ⟨1, ⟨filename, demoBootstrap⟩, .error (.noResponse demoBootstrap filename), true, false, false,
    none, none⟩

/-- From the pull of a file to its failure: the request is sent twice. -/
def demoWaits (filename : String) (t : ℕ) : List PeerEvent :=
  demoPull filename t ++ [.tick (demoWorld (t + secs 2)) (t + secs 2),
    .tick (demoWorld (t + secs 6)) (t + secs 6)]

def demoSilence (filename : String) (t : ℕ) : List PeerEvent :=
  demoWaits filename t ++ [.reap (demoWorld (t + secs 6)) (t + secs 6) (demoUnanswered filename)]

/-- A pull that the bootstrap answers: not ready. -/
def demoNotReady (filename : String) (t : ℕ) : List PeerEvent :=
  demoPull filename t ++
    [.datagram (demoWorld t) (demoWorld t) (.segmentNotFound 1 none true) demoBootstrap,
      .reap (demoWorld t) t
        ⟨1, ⟨filename, demoBootstrap⟩, .error (.notReady filename), false, false, true, none, none⟩]

/-- Two pulls unanswered, and the third is about to be collected. -/
def demoLastWait : List PeerEvent :=
  demoHello :: demoSilence "a.ts" (secs 0) ++ demoSilence "b.ts" (secs 10) ++
    demoWaits "c.ts" (secs 20)

/-- The third one evicts the bootstrap. -/
theorem eviction_after_three_timeouts_demo :
    ∃ earlier, Peer.outcomesFrom demoBootstrap
      (demoLastWait ++ [.reap (demoWorld (secs 26)) (secs 26) (demoUnanswered "c.ts")]) =
        earlier ++ [.timeout, .timeout, .timeout] := by
  let third : PeerEvent := .reap (demoWorld (secs 26)) (secs 26) (demoUnanswered "c.ts")
  obtain ⟨S, hrun, hp⟩ := Peer.exists_guarded_run demoConfig Peer.CountsAnswers
    (demoStart emptyDir) demoLastWait
    (fun S => demoBootstrap ∈ S.node.peers ∧ (S.step? demoConfig third).any fun S' =>
      demoBootstrap ∉ S'.node.peers) (by decide +kernel)
  obtain ⟨hknown, hnext⟩ := of_decide_eq_true hp
  obtain ⟨S', hstep, hgone⟩ := (Option.any_eq_true _ _).mp hnext
  exact eviction_after_three_timeouts demoConfig (demoWorld 0) emptyDir 1 none 1 hrun
    (.of_step? hstep) hknown (of_decide_eq_true hgone)

/-- A source that answered between two timeouts is evicted all the same. -/
theorem answering_source_evicted :
    ∃ es S S', Run (Peer.Step demoConfig) (demoStart emptyDir) es S ∧
      Peer.Step demoConfig S
        (.reap (demoWorld (secs 36)) (secs 36) (demoUnanswered "d.ts")) S' ∧
      demoBootstrap ∈ S.node.peers ∧ demoBootstrap ∉ S'.node.peers ∧
      ¬ ∃ earlier, Peer.outcomesFrom demoBootstrap
        (es ++ [.reap (demoWorld (secs 36)) (secs 36) (demoUnanswered "d.ts")]) =
          earlier ++ [.timeout, .timeout, .timeout] := by
  let last : PeerEvent := .reap (demoWorld (secs 36)) (secs 36) (demoUnanswered "d.ts")
  let es := demoHello :: demoSilence "a.ts" (secs 0) ++ demoNotReady "b.ts" (secs 10) ++
    demoSilence "c.ts" (secs 20) ++ demoWaits "d.ts" (secs 30)
  obtain ⟨S, hrun, hp⟩ := Peer.exists_run demoConfig (demoStart emptyDir) es
    (fun S => demoBootstrap ∈ S.node.peers ∧ (S.step? demoConfig last).any fun S' =>
      demoBootstrap ∉ S'.node.peers) (by decide +kernel)
  obtain ⟨hknown, hnext⟩ := of_decide_eq_true hp
  obtain ⟨S', hstep, hgone⟩ := (Option.any_eq_true _ _).mp hnext
  refine ⟨es, S, S', hrun, .of_step? hstep, hknown, of_decide_eq_true hgone, ?_⟩
  rintro ⟨earlier, hend⟩
  have hresults : Peer.outcomesFrom demoBootstrap (es ++ [last]) =
      [.timeout, .retryableNotFound, .timeout, .timeout] := by decide +kernel
  rw [hresults] at hend
  exact absurd (congrArg (fun l => l.reverse[2]?) hend) (by simp)

end Qstream

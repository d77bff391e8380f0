import Qstream.PeerLoop

/-! One turn of the event loop is a run of its single steps, so what every run of steps
preserves, the loop preserves. -/
namespace Qstream
open Transfer Runs

theorem filterMap_map_sublist {α β γ : Type*} {g : α → Option β} {h : β → γ} {k : α → γ}
    (hg : ∀ x y, g x = some y → h y = k x) (l : List α) :
    ((l.filterMap g).map h).Sublist (l.map k) := by
  induction l with
  | nil => exact List.Sublist.refl _
  | cons a l ih =>
    cases ha : g a with
    | none =>
      simp only [List.filterMap_cons, ha, List.map_cons]
      exact ih.cons _
    | some b =>
      simp only [List.filterMap_cons, ha, List.map_cons, hg a b ha]
      exact ih.cons_cons _

theorem finishedOf_id {id : ℕ} {job : ActiveJob} {r : ReceiverTransfer} {f : Finished}
    (h : finishedOf id job r = some f) : f.id = id ∧ f.job = job := by
  unfold finishedOf at h
  cases hout : r.outcome with
  | none => simp [hout] at h
  | some o =>
    simp only [hout, Option.map_some, Option.some.injEq] at h
    rw [← h]
    exact ⟨rfl, rfl⟩

/-- The collected ids are distinct: they are keys of the active jobs. -/
theorem finishedJobs_nodup (ord : HashOrder) (n : Node) (s : Scheduler) :
    ((finishedJobs ord n s).map Finished.id).Nodup := by
  have hsub : ((finishedJobs ord n s).map Finished.id).Sublist
      ((ord.iter s.active).map Prod.fst) := by
    refine filterMap_map_sublist ?_ _
    rintro ⟨id, job⟩ f hf
    obtain ⟨r, -, hr⟩ := Option.bind_eq_some_iff.mp hf
    exact (finishedOf_id hr).1
  have hkeys : ((ord.iter s.active).map Prod.fst).Nodup := by
    rw [((ord.iter_perm s.active).map Prod.fst).nodup_iff, HashMap.map_fst_pairs]
    exact s.active.keys_nodup
  exact hkeys.sublist hsub

namespace Peer
variable {P : PeerConfig} {S : Peer}

theorem isFinished_of_mem {ord : HashOrder} {f : Finished}
    (h : f ∈ finishedJobs ord S.node S.sched) : S.IsFinished f := by
  obtain ⟨⟨id, job⟩, hmem, hf⟩ := List.mem_filterMap.mp h
  obtain ⟨r, hr, hfin⟩ := Option.bind_eq_some_iff.mp hf
  obtain ⟨rfl, rfl⟩ := finishedOf_id hfin
  exact ⟨HashOrder.mem_iter.mp hmem, r, hr, hfin⟩

/-- Collecting one job leaves the others finished. -/
theorem IsFinished.reap {w : World} {now : ℕ} {f g : Finished} (h : S.IsFinished g)
    (hne : g.id ≠ f.id) : (S.reap P w now f).1.IsFinished g := by
  obtain ⟨hact, r, hr, hfin⟩ := h
  refine ⟨?_, r, ?_, hfin⟩
  · simp only [Peer.reap, reapJob_active]
    rw [AList.lookup_erase_ne hne]
    exact hact
  · exact (reapJob_receivers P w now f S.node S.sched hne).trans hr

theorem Step.ok {e : PeerEvent} {r : Peer × Outbox} (hen : S.Enabled e)
    (h : S.apply P e = .ok r) : Step P S e r.1 := .mk hen h

/-- Collecting finished jobs with distinct ids is a run. -/
theorem reapAll_run (w : World) (now : ℕ) {fs : List Finished} (hfs : ∀ f ∈ fs, S.IsFinished f)
    (hnd : (fs.map Finished.id).Nodup) :
    ∃ es, Run (Step P) S es { S with
      node := (reapAll P w now fs S.node S.sched).1
      sched := (reapAll P w now fs S.node S.sched).2.1 } := by
  induction fs generalizing S w with
  | nil => exact ⟨[], .nil _⟩
  | cons f fs ih =>
    rw [List.map_cons, List.nodup_cons] at hnd
    have hrest : ∀ g ∈ fs, (S.reap P w now f).1.IsFinished g := by
      intro g hg
      refine (hfs g (List.mem_cons_of_mem _ hg)).reap fun heq => hnd.1 ?_
      exact heq ▸ List.mem_map_of_mem hg
    obtain ⟨es, hrun⟩ := ih (w.after 8) hrest hnd.2
    exact ⟨_, .cons (Step.ok (e := .reap w now f) (hfs f List.mem_cons_self) rfl) hrun⟩

theorem fillLoop_run (ids : TransferRegistry.IdSource) (k : ℕ) (w : World) :
    ∃ es, Run (Step P) S es { S with
      node := (fillLoop P ids k w S.node S.sched).1
      sched := (fillLoop P ids k w S.node S.sched).2.1 } := by
  induction k generalizing S w with
  | zero => exact ⟨[], .nil _⟩
  | succ k ih =>
    have hstep : Step P S (.fill ids w) (S.fillOne P ids w).1 := Step.ok trivial rfl
    rcases hres : fillStep P ids w S.node S.sched with ⟨n1, s1, sent, go⟩
    have hone : (S.fillOne P ids w).1 = { S with node := n1, sched := s1 } := by
      simp only [fillOne, hres]
    rw [hone] at hstep
    cases go with
    | false => exact ⟨_, by simpa only [fillLoop, hres] using Run.one hstep⟩
    | true =>
      obtain ⟨es, hrun⟩ := ih (S := { S with node := n1, sched := s1 }) (w.after 2)
      exact ⟨_, by simpa only [fillLoop, hres] using Run.cons hstep hrun⟩

theorem schedule_run (T : Turn) : ∃ es, Run (Step P) S es (S.schedule P T).1 := by
  obtain ⟨es, hreap⟩ := reapAll_run (P := P) T.reapWorld T.now
    (fun f hf => isFinished_of_mem hf) (finishedJobs_nodup T.reapWorld.ord S.node S.sched)
  obtain ⟨es', hfill⟩ := fillLoop_run (P := P) T.ids
    (S := { S with
      node := (reapAll P T.reapWorld T.now (finishedJobs T.reapWorld.ord S.node S.sched)
        S.node S.sched).1
      sched := (reapAll P T.reapWorld T.now (finishedJobs T.reapWorld.ord S.node S.sched)
        S.node S.sched).2.1 })
    (reapAll P T.reapWorld T.now (finishedJobs T.reapWorld.ord S.node S.sched)
      S.node S.sched).2.1.queue.length T.fillWorld
  exact ⟨es ++ es', hreap.append hfill⟩

theorem timers_run (T : Turn) : ∃ es, Run (Step P) S es (S.timers P T).1 := by
  have htick (S : Peer) : Step P S (.tick T.tickWorld T.now) (S.onTick P T.tickWorld T.now).1 :=
    Step.ok trivial rfl
  have hprune (S : Peer) : Step P S (.prunePeers T.now) (S.prunePeers T.now) :=
    Step.mk trivial rfl
  have hretry (S : Peer) : Step P S (.retryHandshake T.now) (S.retryHandshake P T.now).1 :=
    Step.ok trivial rfl
  have hexpire (S : Peer) : Step P S (.expirePending T.now) (S.expirePending T.now) :=
    Step.mk trivial rfl
  have hmanifest (S : Peer) : Step P S (.pollManifest T.now) (S.pollManifest P T.now).1 :=
    Step.ok trivial rfl
  have hpeerlist (S : Peer) : Step P S (.pollPeerlist T.now) (S.pollPeerlist P T.now).1 :=
    Step.ok trivial rfl
  simp only [timers]
  exact ⟨_, .cons (htick S) (.cons (hprune _) (.cons (hretry _) (.cons (hexpire _)
    (.cons (hmanifest _) (.one (hpeerlist _))))))⟩

/-- One turn of the loop is a run of single steps. -/
theorem turn_run {T : Turn} {r : Peer × Outbox} (h : S.turn P T = .ok r) :
    ∃ es, Run (Step P) S es r.1 := by
  have hrecv : ∃ es S1, Run (Step P) S es S1 ∧ r.1 = ((S1.timers P T).1.schedule P T).1 := by
    unfold turn at h
    cases hd : T.datagram with
    | none =>
      simp only [hd, bind, Except.bind, pure, Except.pure, Except.ok.injEq] at h
      exact ⟨[], S, .nil _, h ▸ rfl⟩
    | some d =>
      obtain ⟨w, refresh, m, src⟩ := d
      cases hr : S.receive P w refresh m src with
      | error e => simp [hd, hr, bind, Except.bind] at h
      | ok r1 =>
        simp only [hd, hr, bind, Except.bind, pure, Except.pure, Except.ok.injEq] at h
        exact ⟨_, r1.1, .one (Step.ok (e := .datagram w refresh m src) trivial hr), h ▸ rfl⟩
  obtain ⟨es, S1, hrun, hr⟩ := hrecv
  obtain ⟨es', hsched⟩ := schedule_run (P := P) (S := (S1.timers P T).1) T
  obtain ⟨es2, htimers⟩ := timers_run (P := P) (S := S1) T
  exact ⟨_, hr ▸ hrun.append (htimers.append hsched)⟩

/-- What every step preserves, every turn of the loop preserves. -/
theorem turn_invariant {I : Peer → Prop} (hI : ∀ S e S', I S → Step P S e S' → I S') {T : Turn}
    {r : Peer × Outbox} (h : S.turn P T = .ok r) (h0 : I S) : I r.1 := by
  obtain ⟨es, hrun⟩ := turn_run h
  exact hrun.invariant hI h0

end Peer
end Qstream

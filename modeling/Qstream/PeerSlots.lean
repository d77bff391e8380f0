import Qstream.NodeEffects
import Qstream.PeerBooks
import Qstream.PeerTurn
import Qstream.ProtocolRoundTrip
import Qstream.TransferReceiverPatience

/-! The slots of the pulls in flight, turn by turn: as long as the timers of a turn run before
the grace period of what the turn's datagram finished is over, every pull keeps its receiver
until it is collected, and every pull is collected at some point. -/
namespace Qstream
open Transfer Runs

namespace Transfer.TransferRegistry

/-- A registry that starts a download has it, and what it had before. -/
theorem startReceiver_lookup (cfg : Settings) (ids : IdSource) (clk : Clock)
    (reg : TransferRegistry) (remote : SocketAddr) (filename : String) {id : ℕ}
    {r : ReceiverTransfer}
    (h : (reg.startReceiver cfg ids clk remote filename).1.receivers.lookup id = some r) :
    reg.receivers.lookup id = some r ∨ r.Fresh ∧ r.filename = filename := by
  unfold startReceiver at h
  split at h
  next => exact .inl h
  next =>
    rw [HashMap.lookup_insert'] at h
    split at h
    · cases h
      exact .inr ⟨ReceiverTransfer.new_fresh _ _ _ _ _, rfl⟩
    · exact .inl h

end Transfer.TransferRegistry

namespace Peer
variable {P : PeerConfig} {S S' S1 : Peer} {n : Node} {s : Scheduler} {id : ℕ} {job : ActiveJob}
variable {r : ReceiverTransfer}

/-! A datagram. -/

theorem receive_active {w refresh : World} {m : Message} {src : SocketAddr} {sent : Outbox}
    (h : S.receive P w refresh m src = .ok (S', sent)) : S'.sched.active = S.sched.active := by
  have hstep : Step P S (.datagram w refresh m src) S' := .mk trivial h
  rcases hstep.books_cases with ⟨hact, -⟩ | ⟨w1, refresh1, data, src1, dir, -, -, -, hs⟩ |
    ⟨w1, now, f, heq, -⟩ | ⟨ids, w1, filename, rest, peer, rng, heq, -⟩
  · exact hact
  · rw [hs]
    exact Scheduler.foldl_enqueue (I := fun s => s.active = S.sched.active)
      (fun s e hs => (Scheduler.enqueue_spec _ _ s e).1.trans hs) _ rfl
  · cases heq
  · cases heq

theorem receive_receivers {w refresh : World} {m : Message} {src : SocketAddr} {sent : Outbox}
    (h : S.receive P w refresh m src = .ok (S', sent)) :
    S'.node.registry.receivers =
      (S.node.handle P.settings (w.after 1) m src).1.registry.receivers := by
  rw [receive_node h]
  cases m <;> rfl

/-- A datagram leaves a download as it is, ends it, or uses up its patience. -/
theorem receive_receiver {w refresh : World} {m : Message} {src : SocketAddr} {sent : Outbox}
    (h : S.receive P w refresh m src = .ok (S', sent)) (hm : m.Typed)
    (hr : S.node.registry.receivers.lookup id = some r) (hlive : r.Live) :
    ∃ t, S'.node.registry.receivers.lookup id = some t ∧
      (t = r ∨ t.outcome ≠ none ∨ (t.Live ∧ t.patience < r.patience)) := by
  rw [receive_receivers h, Node.handle_registry]
  cases m with
  | segmentContents id' p t d =>
    simp only [TransferRegistry.onContent]
    split
    next r' hr' =>
      by_cases hid : id = id'
      · subst hid
        obtain rfl : r = r' := Option.some.inj (hr.symm.trans hr')
        refine ⟨_, AList.lookup_insert _, ?_⟩
        exact hlive.content hm.2.2
      · exact ⟨r, (AList.lookup_insert_ne hid).trans hr, .inl rfl⟩
    next => exact ⟨r, hr, .inl rfl⟩
  | segmentNotFound id' av retryable =>
    simp only [TransferRegistry.onNotFound]
    split
    next r' hr' =>
      by_cases hid : id = id'
      · subst hid
        exact ⟨_, AList.lookup_insert _, .inr (.inl (Option.some_ne_none _))⟩
      · exact ⟨r, (AList.lookup_insert_ne hid).trans hr, .inl rfl⟩
    next => exact ⟨r, hr, .inl rfl⟩
  | segmentRequest id' filename =>
    simp only
    split
    · exact ⟨r, hr, .inl rfl⟩
    · rw [TransferRegistry.serve_receivers]
      exact ⟨r, hr, .inl rfl⟩
  | ack id' ackType a b =>
    simp only [TransferRegistry.onAck_receivers]
    exact ⟨r, hr, .inl rfl⟩
  | _ => exact ⟨r, hr, .inl rfl⟩

/-! The timers. -/

theorem timers_registry (S : Peer) (T : Turn) :
    (S.timers P T).1.node.registry = (S.node.tick P.settings T.tickWorld T.now).1.registry := by
  simp only [timers]
  rw [(pollPeerlist_spec P _ T.now).1, (pollManifest_spec P _ T.now).1]
  simp only [expirePending]
  rw [foldl_removePeer_same (·.registry) fun _ _ => rfl, (retryHandshake_spec P _ T.now).1]
  rfl

theorem timers_active (S : Peer) (T : Turn) : (S.timers P T).1.sched.active = S.sched.active := by
  simp only [timers]
  obtain ⟨-, -, -, rng, hs⟩ := pollPeerlist_spec P ((((S.onTick P T.tickWorld T.now).1.prunePeers
    T.now).retryHandshake P T.now).1.expirePending T.now |>.pollManifest P T.now).1 T.now
  obtain ⟨-, -, -, rng', hs'⟩ := pollManifest_spec P ((((S.onTick P T.tickWorld T.now).1.prunePeers
    T.now).retryHandshake P T.now).1.expirePending T.now) T.now
  rw [hs, hs']
  simp only [expirePending]
  rw [(retryHandshake_spec P _ T.now).2.2.2]
  rfl

/-- The timers keep a receiver that has no outcome, or whose grace period is not over. -/
theorem timers_receiver {T : Turn} (hr : S.node.registry.receivers.lookup id = some r)
    (hgrace : r.outcome.isSome → T.now < r.deadline) :
    ∃ clk, (S.timers P T).1.node.registry.receivers.lookup id =
      some (if r.outcome.isSome then r else (r.onTick P.settings.transfer T.now clk).1) := by
  refine ⟨fun i => T.tickWorld.clk (i + id), ?_⟩
  rw [timers_registry, Node.tick_registry]
  simp only [TransferRegistry.tick, HashMap.lookup_mapVal, HashMap.lookup_retain, hr]
  have hkept : r.outcome = none ∨ T.now < r.deadline := by
    by_cases hout : r.outcome.isSome
    · exact .inr (hgrace hout)
    · exact .inl (Option.not_isSome_iff_eq_none.mp hout)
  by_cases hout : r.outcome.isSome
  · simpa [hout] using hkept
  · simpa [hout] using hkept

/-! Collecting and filling. -/

/-- Every job in flight has a receiver that is still at work. -/
def Serving (n : Node) (s : Scheduler) : Prop :=
  ∀ id ∈ s.active, ∃ r, n.registry.receivers.lookup id = some r ∧ r.Live

theorem reapAll_kept (w : World) (now : ℕ) {fs : List Finished} (h : ∀ f ∈ fs, f.id ≠ id) :
    (reapAll P w now fs n s).1.registry.receivers.lookup id = n.registry.receivers.lookup id ∧
      (reapAll P w now fs n s).2.1.active.lookup id = s.active.lookup id := by
  induction fs generalizing n s w with
  | nil => exact ⟨rfl, rfl⟩
  | cons f fs ih =>
    have hne : id ≠ f.id := (h f List.mem_cons_self).symm
    obtain ⟨hrecv, hact⟩ := ih (w := w.after 8) (n := (reapJob P w now f n s).1)
      (s := (reapJob P w now f n s).2.1) fun g hg => h g (List.mem_cons_of_mem _ hg)
    refine ⟨hrecv.trans (reapJob_receivers P w now f n s hne), hact.trans ?_⟩
    rw [reapJob_active, AList.lookup_erase_ne hne]

/-- A job that is still active was not collected. -/
theorem reapAll_active (w : World) (now : ℕ) {fs : List Finished}
    (h : id ∈ (reapAll P w now fs n s).2.1.active) : id ∈ s.active ∧ ∀ f ∈ fs, f.id ≠ id := by
  induction fs generalizing n s w with
  | nil => exact ⟨h, fun _ hf => by cases hf⟩
  | cons f fs ih =>
    obtain ⟨hact, hfs⟩ := ih (w := w.after 8) (n := (reapJob P w now f n s).1)
      (s := (reapJob P w now f n s).2.1) h
    rw [reapJob_active] at hact
    obtain ⟨hne, hact⟩ := AList.mem_erase.mp hact
    exact ⟨hact, List.forall_mem_cons.mpr ⟨fun heq => hne heq.symm, hfs⟩⟩

theorem fillStep_lookup (P : PeerConfig) (ids : TransferRegistry.IdSource) (w : World) (n : Node)
    (s : Scheduler) {id : ℕ} {r : ReceiverTransfer}
    (h : (fillStep P ids w n s).1.registry.receivers.lookup id = some r) :
    n.registry.receivers.lookup id = some r ∨ r.Fresh ∧ s.queue.head? = some r.filename := by
  unfold fillStep at h
  split at h
  next => exact .inl h
  next =>
    split at h
    next => exact .inl h
    next filename rest hq =>
      split at h
      next => exact .inl h
      next peer rng _ =>
        have hstart := @TransferRegistry.startReceiver_lookup P.settings.transfer ids
          (w.after 1).clk n.registry peer filename id r
        rw [hq, List.head?_cons]
        refine (hstart ?_).imp_right fun hnew => ⟨hnew.1, congrArg some hnew.2.symm⟩
        split at h
        next reg sent id' heq => rw [heq]; exact h
        next reg sent heq => rw [heq]; exact h

/-- Filling a slot serves the new job and leaves the others alone. -/
theorem fillStep_serving (ids : TransferRegistry.IdSource) (w : World) (h : Serving n s) :
    Serving (fillStep P ids w n s).1 (fillStep P ids w n s).2.1 ∧
      ∀ id ∈ s.active, (fillStep P ids w n s).2.1.active.lookup id = s.active.lookup id ∧
        (fillStep P ids w n s).1.registry.receivers.lookup id =
          n.registry.receivers.lookup id := by
  have hlookup := @fillStep_lookup P ids w n s
  rcases fillStep_cases P ids w n s with
    ⟨rng, hstep⟩ | ⟨filename, rest, peer, rng, t, -, -, hroom, -, hstep⟩
  · rw [hstep]
    exact ⟨h, fun id _ => ⟨rfl, rfl⟩⟩
  · rw [hstep] at hlookup ⊢
    have hfree : ids.draw n.registry ∉ s.active := by
      intro hin
      obtain ⟨r, hr, -⟩ := h _ hin
      exact (ids.fresh n.registry hroom).2.2.2 (HashMap.mem_iff_lookup.mpr ⟨r, hr⟩)
    have hother {id : ℕ} (hid : id ∈ s.active) : id ≠ ids.draw n.registry :=
      fun heq => hfree (heq ▸ hid)
    have hkept (id : ℕ) (hid : id ∈ s.active) :
        (s.active.insert (ids.draw n.registry) ⟨filename, peer⟩).lookup id = s.active.lookup id ∧
          (n.registry.receivers.insert (ids.draw n.registry) t).lookup id =
            n.registry.receivers.lookup id :=
      ⟨AList.lookup_insert_ne (hother hid), AList.lookup_insert_ne (hother hid)⟩
    refine ⟨fun id hid => ?_, hkept⟩
    rcases (AList.mem_insert _).mp hid with rfl | hold
    · have hnew : (n.addReceiver (ids.draw n.registry) t).registry.receivers.lookup
          (ids.draw n.registry) = some t := AList.lookup_insert _
      refine ⟨t, hnew, ?_⟩
      rcases hlookup hnew with hin | ⟨hfresh, -⟩
      · exact absurd (HashMap.mem_iff_lookup.mpr ⟨t, hin⟩) (ids.fresh n.registry hroom).2.2.2
      · exact .fresh hfresh
    · obtain ⟨r, hr, hlive⟩ := h id hold
      exact ⟨r, (hkept id hold).2.trans hr, hlive⟩

theorem fillLoop_serving (ids : TransferRegistry.IdSource) (k : ℕ) (w : World) (h : Serving n s) :
    Serving (fillLoop P ids k w n s).1 (fillLoop P ids k w n s).2.1 ∧
      ∀ id ∈ s.active, (fillLoop P ids k w n s).2.1.active.lookup id = s.active.lookup id ∧
        (fillLoop P ids k w n s).1.registry.receivers.lookup id =
          n.registry.receivers.lookup id := by
  induction k generalizing n s w with
  | zero => exact ⟨h, fun id _ => ⟨rfl, rfl⟩⟩
  | succ k ih =>
    obtain ⟨hone, hkept⟩ := fillStep_serving (P := P) ids w h
    rcases hres : fillStep P ids w n s with ⟨n1, s1, sent, go⟩
    rw [hres] at hone hkept
    cases go with
    | false =>
      simp only [fillLoop, hres]
      exact ⟨hone, hkept⟩
    | true =>
      simp only [fillLoop, hres]
      obtain ⟨hrest, hlater⟩ := ih (w := w.after 2) hone
      refine ⟨hrest, fun id hid => ?_⟩
      have hin : id ∈ s1.active := by
        rw [← AList.lookup_isSome, (hkept id hid).1, AList.lookup_isSome]
        exact hid
      exact ⟨(hlater id hin).1.trans (hkept id hid).1, (hlater id hin).2.trans (hkept id hid).2⟩

theorem mem_finishedJobs (ord : HashOrder) {o : Except FailReason Unit}
    (hjob : s.active.lookup id = some job) (hr : n.registry.receivers.lookup id = some r)
    (ho : r.outcome = some o) : ∃ f ∈ finishedJobs ord n s, finishedOf id job r = some f := by
  have hfin : (finishedOf id job r).isSome := by
    rw [finishedOf, ho]
    rfl
  obtain ⟨f, hf⟩ := Option.isSome_iff_exists.mp hfin
  refine ⟨f, List.mem_filterMap.mpr ⟨(id, job), HashOrder.mem_iter.mpr hjob, ?_⟩, hf⟩
  simpa only [hr, Option.bind_some] using hf

/-- Every job in flight has a receiver, which is still at work or has an outcome. -/
def Answered (n : Node) (s : Scheduler) : Prop :=
  ∀ id ∈ s.active, ∃ r, n.registry.receivers.lookup id = some r ∧ (r.outcome ≠ none ∨ r.Live)

/-- Collecting the jobs with an outcome leaves those at work, and their receivers. -/
theorem schedule_serving (T : Turn) (h : Answered S.node S.sched) :
    Serving (S.schedule P T).1.node (S.schedule P T).1.sched ∧
      ∀ id job r, S.sched.active.lookup id = some job →
        S.node.registry.receivers.lookup id = some r → r.outcome = none →
        (S.schedule P T).1.sched.active.lookup id = some job ∧
          (S.schedule P T).1.node.registry.receivers.lookup id = some r := by
  obtain ⟨fs, hfs⟩ : ∃ fs, finishedJobs T.reapWorld.ord S.node S.sched = fs := ⟨_, rfl⟩
  have hkept (id : ℕ) (hnot : ∀ f ∈ fs, f.id ≠ id) :=
    reapAll_kept (P := P) (n := S.node) (s := S.sched) T.reapWorld T.now hnot
  have hreaped : Serving (reapAll P T.reapWorld T.now fs S.node S.sched).1
      (reapAll P T.reapWorld T.now fs S.node S.sched).2.1 := by
    intro id hid
    obtain ⟨hact, hnot⟩ := reapAll_active T.reapWorld T.now hid
    obtain ⟨r, hr, hstate⟩ := h id hact
    refine ⟨r, (hkept id hnot).1.trans hr, ?_⟩
    rcases hstate with hout | hlive
    · obtain ⟨o, ho⟩ := Option.ne_none_iff_exists'.mp hout
      obtain ⟨job, hjob⟩ := HashMap.mem_iff_lookup.mp hact
      obtain ⟨f, hf, hfin⟩ := mem_finishedJobs T.reapWorld.ord hjob hr ho
      exact absurd (finishedOf_id hfin).1 (hnot f (hfs ▸ hf))
    · exact hlive
  obtain ⟨hserving, hfill⟩ := fillLoop_serving (P := P) T.ids
    (reapAll P T.reapWorld T.now fs S.node S.sched).2.1.queue.length T.fillWorld hreaped
  have hsched : S.schedule P T = ({ S with
      node := (fill P T.ids T.fillWorld (reapAll P T.reapWorld T.now fs S.node S.sched).1
        (reapAll P T.reapWorld T.now fs S.node S.sched).2.1).1
      sched := (fill P T.ids T.fillWorld (reapAll P T.reapWorld T.now fs S.node S.sched).1
        (reapAll P T.reapWorld T.now fs S.node S.sched).2.1).2.1 },
      (S.schedule P T).2) := by
    rw [schedule, scheduleJobs, hfs]
  rw [hsched]
  refine ⟨hserving, fun id job r hjob hr hout => ?_⟩
  have hnot : ∀ f ∈ fs, f.id ≠ id := by
    rintro f hf rfl
    obtain ⟨hact, t, ht, hfin⟩ := isFinished_of_mem (hfs ▸ hf)
    obtain rfl : r = t := Option.some.inj (hr.symm.trans ht)
    rw [finishedOf, hout] at hfin
    cases hfin
  have hin : id ∈ (reapAll P T.reapWorld T.now fs S.node S.sched).2.1.active :=
    HashMap.mem_iff_lookup.mpr ⟨job, (hkept id hnot).2.trans hjob⟩
  exact ⟨(hfill id hin).1.trans ((hkept id hnot).2.trans hjob),
    (hfill id hin).2.trans ((hkept id hnot).1.trans hr)⟩

/-! A whole turn. -/

/-- The state after the datagram of a turn. -/
def received (P : PeerConfig) (S : Peer) (T : Turn) : Except String (Peer × Outbox) :=
  match T.datagram with
  | some (w, refresh, m, src) => S.receive P w refresh m src
  | none => .ok (S, [])

/-- The jobs that a turn collects. -/
def collected (P : PeerConfig) (S : Peer) (T : Turn) : List Finished :=
  match S.received P T with
  | .ok (S1, _) =>
    finishedJobs T.reapWorld.ord (S1.timers P T).1.node (S1.timers P T).1.sched
  | .error _ => []

/-- One turn of the loop, on a datagram with fields of their machine types. -/
structure TurnStep (P : PeerConfig) (S : Peer) (T : Turn) (S' : Peer) : Prop where
  typed : ∀ d ∈ T.datagram, d.2.2.1.Typed
  taken : ∃ sent, S.turn P T = .ok (S', sent)

/-- The timers of the turn run within the grace period of every download in flight that has
an outcome by then. -/
def Prompt (P : PeerConfig) (S : Peer) (T : Turn) : Prop :=
  ∀ S1 sent, S.received P T = .ok (S1, sent) → ∀ id ∈ S1.sched.active, ∀ r,
    S1.node.registry.receivers.lookup id = some r → r.outcome.isSome → T.now < r.deadline

theorem received_active {T : Turn} {sent : Outbox} (h : S.received P T = .ok (S1, sent)) :
    S1.sched.active = S.sched.active := by
  unfold received at h
  split at h
  next => exact receive_active h
  next =>
    cases h
    rfl

theorem TurnStep.received {T : Turn} (h : TurnStep P S T S') :
    ∃ S1 sent, S.received P T = .ok (S1, sent) ∧
      S' = ((S1.timers P T).1.schedule P T).1 := by
  obtain ⟨sent, hturn⟩ := h.taken
  have heq : S.turn P T = (S.received P T).bind fun r =>
      .ok (((r.1.timers P T).1.schedule P T).1,
        r.2 ++ (r.1.timers P T).2 ++ ((r.1.timers P T).1.schedule P T).2) := by
    unfold turn Peer.received
    cases T.datagram <;> rfl
  rw [heq] at hturn
  cases hrecv : S.received P T with
  | error e =>
    rw [hrecv] at hturn
    cases hturn
  | ok r =>
    rw [hrecv] at hturn
    cases hturn
    exact ⟨r.1, r.2, rfl, rfl⟩

/-- What one turn does to a download at work: it is collected, or it is as patient as before
and not due yet, or less patient. -/
theorem TurnStep.slot {T : Turn} (h : TurnStep P S T S') (hprompt : S.Prompt P T)
    (hS : Serving S.node S.sched) :
    Serving S'.node S'.sched ∧ ∀ id job r, S.sched.active.lookup id = some job →
      S.node.registry.receivers.lookup id = some r → r.Live →
      (∃ f ∈ S.collected P T, f.id = id ∧ f.job = job) ∨
        (S'.sched.active.lookup id = some job ∧ ∃ t,
          S'.node.registry.receivers.lookup id = some t ∧ t.Live ∧ (t.patience < r.patience ∨
            (t.patience = r.patience ∧ t.due = r.due ∧ T.now < r.due))) := by
  obtain ⟨S1, sent, hrecv, rfl⟩ := h.received
  have hactive := received_active hrecv
  have hdatagram (id : ℕ) (r : ReceiverTransfer)
      (hr : S.node.registry.receivers.lookup id = some r) (hlive : r.Live) :
      ∃ t, S1.node.registry.receivers.lookup id = some t ∧
        (t = r ∨ t.outcome ≠ none ∨ (t.Live ∧ t.patience < r.patience)) := by
    unfold Peer.received at hrecv
    split at hrecv
    next w refresh m src hd => exact receive_receiver hrecv (h.typed _ hd) hr hlive
    next =>
      cases hrecv
      exact ⟨r, hr, .inl rfl⟩
  have htimers (id : ℕ) (job : ActiveJob) (r : ReceiverTransfer)
      (hjob : S.sched.active.lookup id = some job)
      (hr : S.node.registry.receivers.lookup id = some r) (hlive : r.Live) :
      ∃ t, (S1.timers P T).1.node.registry.receivers.lookup id = some t ∧
        (t.outcome ≠ none ∨ (t.Live ∧ (t.patience < r.patience ∨
          (t.patience = r.patience ∧ t.due = r.due ∧ T.now < r.due)))) := by
    obtain ⟨t, ht, hstate⟩ := hdatagram id r hr hlive
    have hin : id ∈ S1.sched.active := HashMap.mem_iff_lookup.mpr ⟨job, hactive ▸ hjob⟩
    obtain ⟨clk, htick⟩ := timers_receiver (P := P) (T := T) ht (hprompt S1 sent hrecv id hin t ht)
    refine ⟨_, htick, ?_⟩
    by_cases hout : t.outcome.isSome
    · rw [if_pos hout]
      exact .inl (Option.isSome_iff_ne_none.mp hout)
    rw [if_neg hout]
    rcases hstate with rfl | hdone | ⟨htlive, hless⟩
    · exact hlive.tick _ _ _
    · exact absurd (Option.isSome_iff_ne_none.mpr hdone) hout
    · rcases htlive.tick P.settings.transfer T.now clk with hdone | ⟨hlive', hlt | ⟨heq, -, -⟩⟩
      · exact .inl hdone
      · exact .inr ⟨hlive', .inl (hlt.trans hless)⟩
      · exact .inr ⟨hlive', .inl (heq ▸ hless)⟩
  have hanswered : Answered (S1.timers P T).1.node (S1.timers P T).1.sched := by
    intro id hid
    rw [timers_active, hactive] at hid
    obtain ⟨job, hjob⟩ := HashMap.mem_iff_lookup.mp hid
    obtain ⟨r, hr, hlive⟩ := hS id hid
    obtain ⟨t, ht, hstate⟩ := htimers id job r hjob hr hlive
    exact ⟨t, ht, hstate.imp_right And.left⟩
  obtain ⟨hserving, hkept⟩ := schedule_serving (P := P) T hanswered
  refine ⟨hserving, fun id job r hjob hr hlive => ?_⟩
  obtain ⟨t, ht, hstate⟩ := htimers id job r hjob hr hlive
  have hjob' : (S1.timers P T).1.sched.active.lookup id = some job := by
    rw [timers_active, hactive]
    exact hjob
  rcases hstate with hout | ⟨htlive, hpatience⟩
  · obtain ⟨o, ho⟩ := Option.ne_none_iff_exists'.mp hout
    refine .inl ?_
    rw [Peer.collected, hrecv]
    obtain ⟨f, hf, hfin⟩ := mem_finishedJobs T.reapWorld.ord hjob' ht ho
    exact ⟨f, hf, finishedOf_id hfin⟩
  · obtain ⟨hact, hrecv'⟩ := hkept id job t hjob' ht htlive.outcome
    exact .inr ⟨hact, t, hrecv', htlive, hpatience⟩

theorem serving_of_run {Ts : List Turn} (h : Run (guarded (Prompt P) (TurnStep P)) S Ts S')
    (hS : Serving S.node S.sched) : Serving S'.node S'.sched :=
  h.invariant (I := fun S => Serving S.node S.sched)
    (fun _ _ _ hU hstep => (hstep.2.slot hstep.1 hU).1) hS

theorem serving_initial (P : PeerConfig) (w : World) (dir : Dir) (nonce : UInt32)
    (claimed : Option SocketAddr) (seed : UInt64) :
    Serving (initial P w dir nonce claimed seed).node (initial P w dir nonce claimed seed).sched :=
  fun id hid => absurd hid (AList.notMem_empty id)

/-- A quantity of the receiver of download `id`. -/
def ofReceiver (S : Peer) (id : ℕ) (g : ReceiverTransfer → ℕ) : ℕ :=
  (S.node.registry.receivers.lookup id).elim 0 g

/-- The wait for a job is over: it is not in flight, or the turn collects it. -/
def WaitOver (P : PeerConfig) (S : Peer) (T : Turn) (id : ℕ) (job : ActiveJob) : Prop :=
  S.sched.active.lookup id ≠ some job ∨ ∃ f ∈ S.collected P T, f.id = id ∧ f.job = job

theorem TurnStep.waits {T : Turn} (h : TurnStep P S T S') (hprompt : S.Prompt P T)
    (hS : Serving S.node S.sched) (id : ℕ) (job : ActiveJob) :
    S.WaitOver P T id job ∨ (S'.sched.active.lookup id = some job ∧
      (S'.ofReceiver id ReceiverTransfer.patience < S.ofReceiver id ReceiverTransfer.patience ∨
        (S'.ofReceiver id ReceiverTransfer.patience = S.ofReceiver id ReceiverTransfer.patience ∧
          S'.ofReceiver id ReceiverTransfer.due = S.ofReceiver id ReceiverTransfer.due ∧
          T.now < S.ofReceiver id ReceiverTransfer.due))) := by
  by_cases hactive : S.sched.active.lookup id = some job
  · obtain ⟨r, hr, hlive⟩ := hS id (HashMap.mem_iff_lookup.mpr ⟨job, hactive⟩)
    rcases (h.slot hprompt hS).2 id job r hactive hr hlive with
      hdone | ⟨hnext, t, ht, -, hmeasure⟩
    · exact .inl (.inr hdone)
    · refine .inr ⟨hnext, ?_⟩
      simpa only [ofReceiver, hr, ht, Option.elim_some] using hmeasure
  · exact .inl (.inl hactive)

/-- In an endless run of prompt turns a job in flight is collected at some turn. -/
theorem collected_of_run {Ts : ℕ → Turn} {Ss : ℕ → Peer}
    (hrun : ∀ k, guarded (Prompt P) (TurnStep P) (Ss k) (Ts k) (Ss (k + 1)))
    (hserving : ∀ k, Serving (Ss k).node (Ss k).sched)
    (htime : ∀ t, ∃ K, ∀ k ≥ K, t ≤ (Ts k).now) {k : ℕ}
    (hjob : (Ss k).sched.active.lookup id = some job) :
    ∃ j ≥ k, ∃ f ∈ (Ss j).collected P (Ts j), f.id = id ∧ f.job = job := by
  have hwaits (j : ℕ) := (hrun j).2.waits (hrun j).1 (hserving j) id job
  have hover : ∃ j ≥ k, (Ss j).WaitOver P (Ts j) id job := by
    refine @exists_done_of_deadlines (fun j => (Ss j).ofReceiver id ReceiverTransfer.patience)
      (fun j => (Ss j).ofReceiver id ReceiverTransfer.due) _ _ htime (fun j => ?_) k
    exact (hwaits j).imp_right And.right
  -- the first turn from `k` on where the wait is over collects the job
  classical
  obtain ⟨hle, hfirst⟩ := Nat.find_spec hover
  refine ⟨_, hle, hfirst.resolve_left fun hgone => hgone ?_⟩
  rcases Nat.eq_or_lt_of_le hle with heq | hlt
  · rw [← heq]
    exact hjob
  · obtain ⟨i, hi⟩ : ∃ i, Nat.find hover = i + 1 := ⟨Nat.find hover - 1, by omega⟩
    have hearlier : ¬ (Ss i).WaitOver P (Ts i) id job :=
      fun hi' => Nat.find_min hover (by omega) ⟨by omega, hi'⟩
    rw [hi]
    exact ((hwaits i).resolve_left hearlier).1

end Peer

/-- No slot is lost: in every run of prompt turns each job in flight has a receiver without an
outcome at the end of every turn, and while time passes each of them is collected at some turn. -/
theorem no_slot_lost (P : PeerConfig) (w : World) (dir : Dir) (nonce : UInt32)
    (claimed : Option SocketAddr) (seed : UInt64) :
    (∀ Ts S, Run (guarded (Peer.Prompt P) (Peer.TurnStep P))
        (.initial P w dir nonce claimed seed) Ts S →
      ∀ id ∈ S.sched.active, ∃ r, S.node.registry.receivers.lookup id = some r ∧
        r.outcome = none) ∧
    ∀ (Ts : ℕ → Peer.Turn) (Ss : ℕ → Peer), Ss 0 = .initial P w dir nonce claimed seed →
      (∀ k, guarded (Peer.Prompt P) (Peer.TurnStep P) (Ss k) (Ts k) (Ss (k + 1))) →
      (∀ t, ∃ K, ∀ k ≥ K, t ≤ (Ts k).now) →
      ∀ k id job, (Ss k).sched.active.lookup id = some job →
        ∃ j ≥ k, ∃ f ∈ (Ss j).collected P (Ts j), f.id = id ∧ f.job = job := by
  have hinit := Peer.serving_initial P w dir nonce claimed seed
  refine ⟨fun Ts S hrun id hid => ?_, fun Ts Ss hstart hrun htime k id job hjob => ?_⟩
  · obtain ⟨r, hr, hlive⟩ := Peer.serving_of_run hrun hinit id hid
    exact ⟨r, hr, hlive.outcome⟩
  · have hserving (j : ℕ) : Peer.Serving (Ss j).node (Ss j).sched := by
      induction j with
      | zero => rw [hstart]; exact hinit
      | succ j ih => exact ((hrun j).2.slot (hrun j).1 ih).1
    exact Peer.collected_of_run hrun hserving htime hjob

namespace Peer
variable {P : PeerConfig} {S : Peer} {T : Turn}

/-- The state after a turn; a turn that ends the process leaves it as it is. -/
def next (P : PeerConfig) (S : Peer) (T : Turn) : Peer :=
  ((S.turn P T).toOption.map Prod.fst).getD S

theorem TurnStep.next (h : (S.turn P T).toOption.isSome) (ht : ∀ d ∈ T.datagram, d.2.2.1.Typed) :
    TurnStep P S T (S.next P T) := by
  obtain ⟨r, hr⟩ := Option.isSome_iff_exists.mp h
  exact ⟨ht, r.2, by rw [Peer.next, hr]; exact ok_of_toOption hr⟩

/-- A turn in which nothing arrives is prompt. -/
theorem silent_step (hS : Serving S.node S.sched) (hT : T.datagram = none) :
    guarded (Prompt P) (TurnStep P) S T (S.next P T) := by
  refine ⟨fun S1 sent hrecv id hid r hr hout => ?_, .next ?_ (by simp [hT])⟩
  · rw [received, hT] at hrecv
    cases hrecv
    obtain ⟨t, ht, hlive⟩ := hS id hid
    obtain rfl : r = t := Option.some.inj (hr.symm.trans ht)
    rw [hlive.outcome] at hout
    cases hout
  · unfold turn
    rw [hT]
    rfl

/-- So is a turn that starts with no job in flight. -/
theorem idle_prompt (hidle : S.sched.active.keys = []) : S.Prompt P T := by
  intro S1 sent hrecv id hid
  have hin := AList.mem_keys.mp hid
  rw [received_active hrecv, hidle] at hin
  cases hin

end Peer

/-- A turn with at most one datagram, which is read at time `heard`; the timers run at `now`. -/
def demoTurn (d : Option (Message × SocketAddr)) (heard now : ℕ) : Peer.Turn :=
  ⟨d.map fun (m, src) => (demoWorld heard, demoWorld heard, m, src), demoWorld now, demoWorld now,
    demoWorld now, smallestId, now⟩

/-- The handshake, a manifest, and from then on silence. -/
def demoTurns : ℕ → Peer.Turn
  | 0 => demoTurn (some (.handshakeResponse demoLocal "origin", demoBootstrap)) 1 1
  | 1 => demoTurn (some (.manifestResponse (demoManifest ["a.ts"]), demoBootstrap)) 2 2
  | k + 2 => demoTurn none (secs k) (secs k)

def demoStates : ℕ → Peer
  | 0 => demoStart emptyDir
  | k + 1 => (demoStates k).next demoConfig (demoTurns k)

/-- The file is pulled in the second turn, the bootstrap never answers, and the pull is collected
all the same. -/
theorem no_slot_lost_demo :
    (∀ id ∈ (demoStates 2).sched.active, ∃ r,
      (demoStates 2).node.registry.receivers.lookup id = some r ∧ r.outcome = none) ∧
    ∃ j ≥ 2, ∃ f ∈ (demoStates j).collected demoConfig (demoTurns j),
      f.id = 1 ∧ f.job = ⟨"a.ts", demoBootstrap⟩ := by
  have hfirst : guarded (Peer.Prompt demoConfig) (Peer.TurnStep demoConfig) (demoStates 0)
      (demoTurns 0) (demoStates 1) := by
    refine ⟨Peer.idle_prompt (by decide +kernel), .next (by decide +kernel) fun d hd => ?_⟩
    cases hd
    exact (by decide : (5000 : ℕ) < 65536)
  have hsecond : guarded (Peer.Prompt demoConfig) (Peer.TurnStep demoConfig) (demoStates 1)
      (demoTurns 1) (demoStates 2) := by
    refine ⟨Peer.idle_prompt (by decide +kernel), .next (by decide +kernel) fun d hd => ?_⟩
    cases hd
    trivial
  have hserving : ∀ k, Peer.Serving (demoStates (k + 2)).node (demoStates (k + 2)).sched := by
    intro k
    induction k with
    | zero =>
      exact Peer.serving_of_run (.cons hfirst (.one hsecond)) (Peer.serving_initial _ _ _ _ _ _)
    | succ k ih =>
      have hstep := Peer.silent_step (P := demoConfig) (T := demoTurns (k + 2)) ih rfl
      exact (hstep.2.slot hstep.1 ih).1
  have hrun : ∀ k, guarded (Peer.Prompt demoConfig) (Peer.TurnStep demoConfig) (demoStates k)
      (demoTurns k) (demoStates (k + 1)) := by
    intro k
    match k with
    | 0 => exact hfirst
    | 1 => exact hsecond
    | k + 2 => exact Peer.silent_step (hserving k) rfl
  have htime : ∀ t, ∃ K, ∀ k ≥ K, t ≤ (demoTurns k).now := by
    intro t
    refine ⟨t + 2, fun k hk => ?_⟩
    obtain ⟨i, rfl⟩ : ∃ i, k = i + 2 := ⟨k - 2, by omega⟩
    show t ≤ i * 1000000000
    omega
  obtain ⟨hslots, hcollected⟩ := no_slot_lost demoConfig (demoWorld 0) emptyDir 1 none 1
  exact ⟨hslots _ _ (.cons hfirst (.one hsecond)),
    hcollected demoTurns demoStates rfl hrun htime 2 1 _ (by decide +kernel)⟩

/-- The refusal of the pull is read at second 5 and the timers of the same turn run at second 10:
they drop the receiver before its job is collected, and the slot is lost. -/
theorem late_timers_lose_slot :
    ∃ S, Run (Peer.TurnStep demoConfig) (demoStart emptyDir)
        [demoTurns 0, demoTurns 1,
          demoTurn (some (.segmentNotFound 1 none false, demoBootstrap)) (secs 5) (secs 10)] S ∧
      1 ∈ S.sched.active ∧ 1 ∉ S.node.registry.receivers ∧ "a.ts" ∈ S.sched.queued := by
  let late := demoTurn (some (.segmentNotFound 1 none false, demoBootstrap)) (secs 5) (secs 10)
  have hfirst : Peer.TurnStep demoConfig (demoStates 0) (demoTurns 0) (demoStates 1) := by
    refine .next (by decide +kernel) fun d hd => ?_
    cases hd
    exact (by decide : (5000 : ℕ) < 65536)
  have hsecond : Peer.TurnStep demoConfig (demoStates 1) (demoTurns 1) (demoStates 2) := by
    refine .next (by decide +kernel) fun d hd => ?_
    cases hd
    trivial
  have hthird : Peer.TurnStep demoConfig (demoStates 2) late
      ((demoStates 2).next demoConfig late) := by
    refine .next (by decide +kernel) fun d hd => ?_
    cases hd
    exact ⟨by decide, nofun⟩
  exact ⟨_, .cons hfirst (.cons hsecond (.one hthird)), by decide +kernel, by decide +kernel,
    by decide +kernel⟩

end Qstream

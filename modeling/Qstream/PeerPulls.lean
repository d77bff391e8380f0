import Qstream.PeerNames
import Qstream.PeerSlots
import Qstream.PlaybackMirror

/-! What a peer downloads, and what a download may do to its files. -/
namespace Qstream
open Transfer Runs

namespace Transfer.ReceiverTransfer
variable {cfg : Settings} {env : World} {r : ReceiverTransfer} {dir : Dir} {p t : ℕ} {d : Bytes}

theorem complete_dir (env : World) (r : ReceiverTransfer) (dir : Dir) :
    ∃ file, (r.complete env dir).2.2 = (dir.saveAtomic env.io env.wall r.filename file).1 ∧
      (env.io = .ok → (r.complete env dir).1.outcome = some (.ok ())) := by
  simp only [complete]
  split
  next dir' e hsave =>
    refine ⟨_, by rw [hsave], fun hio => ?_⟩
    rw [hio] at hsave
    cases hsave
  next dir' hsave => exact ⟨_, by rw [hsave], fun _ => rfl⟩

/-- Content leaves the files alone, or saves the file of a download that has no outcome yet. -/
theorem onContent_dir (cfg : Settings) (env : World) (r : ReceiverTransfer) (dir : Dir)
    (p t : ℕ) (d : Bytes) :
    (r.onContent cfg env dir p t d).2.2 = dir ∨ (r.outcome = none ∧ ∃ file,
      (r.onContent cfg env dir p t d).2.2 =
        (dir.saveAtomic env.io env.wall r.filename file).1 ∧
      (env.io = .ok → (r.onContent cfg env dir p t d).1.outcome = some (.ok ()))) := by
  have hname : ((r.latchTotal cfg env.clk t).store cfg env.clk p d).filename = r.filename :=
    (store_same cfg env.clk (r.latchTotal cfg env.clk t) p d).filename.trans
      (latchTotal_same cfg env.clk r t).filename
  have hcomplete := complete_dir env ((r.latchTotal cfg env.clk t).store cfg env.clk p d) dir
  rw [hname] at hcomplete
  have hres := onContent_result cfg env r dir p t d
  generalize r.onContent cfg env dir p t d = res at hres ⊢
  cases hres with
  | saved => exact .inl rfl
  | failed => exact .inl rfl
  | dropped => exact .inl rfl
  | nudged => exact .inl rfl
  | stored => exact .inl rfl
  | advanced hnone =>
    simp only [advance]
    split
    · exact .inr ⟨hnone, hcomplete⟩
    · exact .inl rfl
  | completed hnone => exact .inr ⟨hnone, hcomplete⟩

end Transfer.ReceiverTransfer

namespace Transfer.TransferRegistry
variable {cfg : Settings} {reg : TransferRegistry}

theorem serve_dir (clk : Clock) (id : ℕ) (filename : String) (src : SocketAddr) :
    (reg.serve clk id filename src).1.dir = reg.dir := by
  unfold serve
  repeat' split
  all_goals rfl

theorem onAck_dir (clk : Clock) (id : ℕ) (ackType : AckType) (a b : ℕ) :
    (reg.onAck cfg clk id ackType a b).dir = reg.dir := by
  unfold onAck
  repeat' split
  all_goals rfl

end Transfer.TransferRegistry

namespace Node
variable {n : Node} {cfg : NodeSettings} {w : World} {m : Message} {src : SocketAddr} {id : ℕ}
variable {r : ReceiverTransfer}

/-- A download without an outcome had none before, and is of the same file. -/
theorem handle_open (hr : (n.handle cfg w m src).1.registry.receivers.lookup id = some r)
    (hnone : r.outcome = none) :
    ∃ t, n.registry.receivers.lookup id = some t ∧ t.outcome = none ∧
      t.filename = r.filename := by
  rw [handle_registry] at hr
  cases m with
  | segmentContents id' p t d =>
    simp only [TransferRegistry.onContent] at hr
    split at hr
    next t' ht' =>
      rw [HashMap.lookup_insert'] at hr
      split at hr
      next hid =>
        cases hr
        subst hid
        refine ⟨t', ht', ?_, (ReceiverTransfer.onContent_spec _ _ _ _ _ _ _).1.filename.symm⟩
        by_contra hdone
        rw [ReceiverTransfer.onContent_of_outcome hdone] at hnone
        exact hdone hnone
      next => exact ⟨r, hr, hnone, rfl⟩
    next => exact ⟨r, hr, hnone, rfl⟩
  | segmentNotFound id' av retryable =>
    simp only [TransferRegistry.onNotFound] at hr
    split at hr
    next t' ht' =>
      rw [HashMap.lookup_insert'] at hr
      split at hr
      next =>
        cases hr
        cases hnone
      next => exact ⟨r, hr, hnone, rfl⟩
    next => exact ⟨r, hr, hnone, rfl⟩
  | segmentRequest id' filename =>
    simp only at hr
    split at hr
    · exact ⟨r, hr, hnone, rfl⟩
    · rw [TransferRegistry.serve_receivers] at hr
      exact ⟨r, hr, hnone, rfl⟩
  | ack id' ackType a b =>
    simp only [TransferRegistry.onAck_receivers] at hr
    exact ⟨r, hr, hnone, rfl⟩
  | _ => exact ⟨r, hr, hnone, rfl⟩

theorem tick_open {now : ℕ} (hr : (n.tick cfg w now).1.registry.receivers.lookup id = some r)
    (hnone : r.outcome = none) :
    ∃ t, n.registry.receivers.lookup id = some t ∧ t.outcome = none ∧
      t.filename = r.filename := by
  rw [tick_registry] at hr
  simp only [TransferRegistry.tick, HashMap.lookup_mapVal, HashMap.lookup_retain,
    Option.map_eq_some_iff, Option.filter_eq_some_iff] at hr
  obtain ⟨-, ⟨t, ⟨ht, -⟩, rfl⟩, rfl⟩ := hr
  obtain ⟨hsame, hout, -⟩ := ReceiverTransfer.onTick_spec cfg.transfer t now fun i => w.clk (i + id)
  split at hnone
  next hdone => exact absurd hnone (Option.isSome_iff_ne_none.mp hdone)
  next hopen =>
    rw [if_neg hopen]
    exact ⟨t, ht, Option.not_isSome_iff_eq_none.mp hopen, hsame.same.filename.symm⟩

/-- A datagram leaves the files alone, or completes a download that has no outcome yet. -/
theorem handle_dir (n : Node) (cfg : NodeSettings) (w : World) (m : Message) (src : SocketAddr) :
    (n.handle cfg w m src).1.registry.dir = n.registry.dir ∨ ∃ id r file,
      n.registry.receivers.lookup id = some r ∧ r.outcome = none ∧
      (n.handle cfg w m src).1.registry.dir =
        (n.registry.dir.saveAtomic w.io w.wall r.filename file).1 ∧
      (w.io = .ok → ∃ t, (n.handle cfg w m src).1.registry.receivers.lookup id = some t ∧
        t.outcome = some (.ok ())) := by
  rw [handle_registry]
  cases m with
  | segmentContents id p t d =>
    simp only [TransferRegistry.onContent]
    split
    next r hr =>
      rcases ReceiverTransfer.onContent_dir cfg.transfer (w.after 2) r n.registry.dir p t d with
        hsame | ⟨hnone, file, hsaved, hout⟩
      · exact .inl hsame
      · exact .inr ⟨id, r, file, hr, hnone, hsaved, fun hio =>
          ⟨_, AList.lookup_insert _, hout hio⟩⟩
    next => exact .inl rfl
  | segmentNotFound id av retryable =>
    simp only [TransferRegistry.onNotFound]
    split <;> exact .inl rfl
  | segmentRequest id filename =>
    simp only
    split
    · exact .inl rfl
    · exact .inl (TransferRegistry.serve_dir _ _ _ _)
  | ack id ackType a b => exact .inl (TransferRegistry.onAck_dir _ _ _ _ _)
  | _ => exact .inl rfl

end Node

namespace Peer
variable {P : PeerConfig} {S S' : Peer} {id : ℕ} {r : ReceiverTransfer} {f : String}

/-- The file is to be downloaded, or being downloaded. -/
def Pulls (S : Peer) (f : String) : Prop := f ∈ S.sched.queue ∨ S.sched.InFlight f

/-- Every download without an outcome belongs to a job in flight, and no file is pulled before
there is a manifest, nor in its place. -/
structure Grounded (S : Peer) : Prop where
  employed : ∀ id r, S.node.registry.receivers.lookup id = some r → r.outcome = none →
    ∃ job, S.sched.active.lookup id = some job ∧ job.filename = r.filename
  stored : ∀ f, S.Pulls f → f ≠ LIVE_MANIFEST ∧ (S.node.registry.dir.read LIVE_MANIFEST).isSome
  manifestName : S.node.manifestName = LIVE_MANIFEST

theorem initial_grounded (P : PeerConfig) (w : World) (dir : Dir) (nonce : UInt32)
    (claimed : Option SocketAddr) (seed : UInt64) : (initial P w dir nonce claimed seed).Grounded where
  employed id r hr := by cases hr
  stored f hf := by
    rcases hf with hq | ⟨id, job, hjob, -⟩
    · cases hq
    · cases hjob
  manifestName := rfl

theorem Grounded.pulls_open (h : S.Grounded) (hr : S.node.registry.receivers.lookup id = some r)
    (hnone : r.outcome = none) : S.Pulls r.filename := by
  obtain ⟨job, hjob, hname⟩ := h.employed id r hr hnone
  exact .inr ⟨id, job, hjob, hname⟩

/-- Outside of manifests the files after a datagram are the node's. -/
theorem receive_dir {w refresh : World} {m : Message} {src : SocketAddr} {sent : Outbox}
    (h : S.receive P w refresh m src = .ok (S', sent)) (hm : ∀ data, m ≠ .manifestResponse data) :
    S'.node.registry.dir = (S.node.handle P.settings (w.after 1) m src).1.registry.dir := by
  rw [receive_node h]
  cases m with
  | manifestResponse data => exact absurd rfl (hm data)
  | _ => rfl

/-- A new manifest is stored, and what it does to the files. -/
theorem receive_written {w refresh : World} {data : Bytes} {src : SocketAddr} {sent : Outbox}
    (h : S.receive P w refresh (.manifestResponse data) src = .ok (S', sent)) :
    (S'.node.registry.dir = S.node.registry.dir ∧ S'.sched = S.sched ∧
      (data = [] ∨ S.node.registry.dir.read LIVE_MANIFEST = some data)) ∨
    (data ≠ [] ∧ S.node.registry.dir.read LIVE_MANIFEST ≠ some data ∧
      let dir := (S.node.registry.dir.saveAtomic .ok w.wall LIVE_MANIFEST data).1
      S'.sched = syncQueue (w.after 32).clk dir data S.sched ∧
        S'.node.registry.dir = (refreshPlaybackManifest refresh dir P.playbackHoldback).1 ∧
        dir.read LIVE_MANIFEST = some data ∧ S'.node.registry.dir.read LIVE_MANIFEST = some data) := by
  rcases onManifest_cases (receive_manifest h) with ⟨rfl, hsame⟩ | ⟨hne, hdiff, hsync, hdir⟩
  · exact .inl ⟨rfl, rfl, hsame⟩
  · have hread : (S.node.registry.dir.saveAtomic .ok w.wall LIVE_MANIFEST data).1.read
        LIVE_MANIFEST = some data := by
      simp only [Dir.read, Dir.lookup_saveAtomic_ok _ _ plain_live]
    refine .inr ⟨hne, hdiff, hsync, hdir, hread, ?_⟩
    rw [hdir, Dir.read, lookup_live_refresh]
    exact hread

/-- The stored manifest changes when another one is received, and not otherwise. -/
theorem Step.live {e : PeerEvent} (h : Step P S e S') (hS : S.Grounded) :
    S'.node.registry.dir.lookup LIVE_MANIFEST = S.node.registry.dir.lookup LIVE_MANIFEST ∨
      ∃ w refresh data src, e = .datagram w refresh (.manifestResponse data) src ∧
        S'.node.registry.dir.read LIVE_MANIFEST = some data := by
  cases h with
  | mk hen happ =>
    cases e with
    | datagram w refresh m src =>
      by_cases hm : ∃ data, m = .manifestResponse data
      · obtain ⟨data, rfl⟩ := hm
        rcases receive_written happ with ⟨hdir, -, -⟩ | ⟨-, -, -, -, -, hread⟩
        · exact .inl (by rw [hdir])
        · exact .inr ⟨w, refresh, data, src, rfl, hread⟩
      · rw [receive_dir happ fun data heq => hm ⟨data, heq⟩]
        rcases Node.handle_dir S.node P.settings (w.after 1) m src with
          hsame | ⟨id, r, file, hr, hnone, hsaved, -⟩
        · exact .inl (by rw [hsame])
        · rw [hsaved]
          have hne := (hS.stored _ (hS.pulls_open hr hnone)).1
          exact .inl (Dir.lookup_saveAtomic _ _ _ _ _ (not_visited plain_live hne.symm _)
            (not_visited plain_live (live_ne_tmpName _) _))
    | tick w now =>
      obtain rfl := fst_of_ok happ
      have hdir : (S.onTick P w now).1.node.registry.dir = S.node.prunedDir P.settings w now := by
        simp only [onTick, Node.tick_registry]
      rw [hdir]
      exact .inl lookup_live_pruned
    | prunePeers | retryHandshake | expirePending | pollManifest | pollPeerlist =>
      exact .inl (by rw [apply_quiet_registry P happ trivial])
    | reap w now f =>
      obtain rfl := fst_of_ok happ
      simp only [reap, reapJob_registry]
      split
      · exact .inl (lookup_live_refresh _ _ _)
      · exact .inl rfl
    | fill ids w =>
      obtain rfl := fst_of_ok happ
      rcases fillStep_cases P ids w S.node S.sched with
        ⟨rng, hstep⟩ | ⟨filename, rest, peer, rng, r, -, -, -, -, hstep⟩
      · left
        simp only [fillOne, hstep]
      · left
        simp only [fillOne, hstep]
        rfl

/-- A manifest queues only files that are missing. -/
theorem syncQueue_queue {clk : Clock} {dir : Dir} {data : Bytes} {s : Scheduler}
    (hf : f ∈ (syncQueue clk dir data s).queue) : f ∈ s.queue ∨ dir.exists' f = false := by
  have hone (t : Scheduler) (e : String × ℕ)
      (ht : f ∈ t.queue → f ∈ s.queue ∨ dir.exists' f = false)
      (hin : f ∈ (enqueue clk dir t e).queue) : f ∈ s.queue ∨ dir.exists' f = false := by
    unfold enqueue at hin
    split at hin
    next hwanted =>
      rcases List.mem_cons.mp hin with rfl | hin
      · simp only [wanted, decide_eq_true_eq] at hwanted
        exact .inr (by simpa using hwanted.2.1)
      · exact ht hin
    next => exact ht hin
  exact Scheduler.foldl_enqueue (I := fun t => f ∈ t.queue → f ∈ s.queue ∨ dir.exists' f = false)
    hone _ (fun hin => .inl (List.mem_filter.mp hin).1) hf

/-- A step pulls nothing new but what a manifest lacks. -/
theorem Step.pulls {e : PeerEvent} (h : Step P S e S') (hf : S'.Pulls f) :
    S.Pulls f ∨ (f ≠ LIVE_MANIFEST ∧ (S'.node.registry.dir.read LIVE_MANIFEST).isSome) := by
  have hkept (hq : S'.sched.queue = S.sched.queue) (ha : S'.sched.active = S.sched.active) :
      S.Pulls f := by
    rcases hf with hin | hin
    · exact .inl (hq ▸ hin)
    · exact .inr ((Scheduler.InFlight.congr ha).mp hin)
  rcases h.books_cases with ⟨ha, hq, -⟩ | ⟨w, refresh, data, src, -, rfl, hne, hdiff, -⟩ |
    ⟨w, now, f', rfl, ⟨hjob, -⟩, hs⟩ | ⟨ids, w, filename, rest, peer, rng, rfl, hq, hs⟩
  · exact .inl (hkept hq ha)
  · cases h with
    | mk hen happ =>
      have hrecv : S.receive P w refresh (.manifestResponse data) src = .ok (S', _) := happ
      rcases receive_written hrecv with
        ⟨-, -, hnil | hsame⟩ | ⟨-, -, hsync, -, hwritten, hread⟩
      · exact absurd hnil hne
      · exact absurd hsame hdiff
      · rcases hf with hin | hin
        · rw [hsync] at hin
          rcases syncQueue_queue hin with hold | hmissing
          · exact .inl (.inl hold)
          · refine .inr ⟨?_, Option.isSome_of_eq_some hread⟩
            rintro rfl
            exact absurd hwritten (read_of_missing hmissing)
        · exact .inl (.inr ((Scheduler.InFlight.congr (receive_active hrecv)).mp hin))
  · refine .inl ?_
    rw [Pulls, hs] at hf
    rcases hf with hin | hin
    · rcases reapJob_cases P w now f' S.node S.sched with ⟨-, hq, -⟩ | ⟨-, hq, -⟩ |
        ⟨-, -, ⟨hq, -⟩ | ⟨hq, -⟩⟩
      · exact .inl (hq ▸ hin)
      · rw [hq] at hin
        rcases List.mem_append.mp hin with hin | hin
        · exact .inl hin
        · exact .inr ⟨_, _, hjob, (List.mem_singleton.mp hin).symm⟩
      · rw [hq] at hin
        rcases List.mem_cons.mp hin with hin | hin
        · exact .inr ⟨_, _, hjob, hin.symm⟩
        · exact .inl hin
      · exact .inl (hq ▸ hin)
    · exact .inr (Scheduler.inFlight_erase (reapJob_active P w now f' S.node S.sched) hin)
  · refine .inl ?_
    rw [Pulls, hs] at hf
    rcases hf with hin | ⟨id, job, hjob, hname⟩
    · exact .inl (hq ▸ List.mem_cons_of_mem _ hin)
    · simp only [Scheduler.started, HashMap.lookup_insert'] at hjob
      split at hjob
      next =>
        cases hjob
        exact .inl (by rw [hq, ← hname]; exact List.mem_cons_self)
      next => exact .inr ⟨id, job, hjob, hname⟩

/-- A collected download has no receiver without an outcome any more. -/
theorem reapJob_done {w : World} {now : ℕ} {f : Finished} (hf : S.IsFinished f)
    (hr : (reapJob P w now f S.node S.sched).1.registry.receivers.lookup f.id = some r) :
    r.outcome ≠ none := by
  obtain ⟨-, t, ht, hfin⟩ := hf
  rw [reapJob_registry] at hr
  unfold finishedOf at hfin
  cases hout : t.outcome with
  | none => simp [hout] at hfin
  | some o =>
    rw [hout, Option.map_some] at hfin
    have houtcome : f.outcome = o := congrArg Finished.outcome (Option.some.inj hfin).symm
    simp only [collect, houtcome] at hr
    cases o with
    | ok u =>
      simp only [recordPull_registry, ht, Option.some.injEq] at hr
      rw [← hr, hout]
      exact Option.some_ne_none _
    | error e => simp [TransferRegistry.removeReceiver] at hr

theorem Step.employed {e : PeerEvent} (h : Step P S e S') (hS : S.Grounded)
    (hr : S'.node.registry.receivers.lookup id = some r) (hnone : r.outcome = none) :
    ∃ job, S'.sched.active.lookup id = some job ∧ job.filename = r.filename := by
  cases h with
  | mk hen happ =>
    cases e with
    | datagram w refresh m src =>
      rw [receive_receivers happ] at hr
      obtain ⟨t, ht, hopen, hname⟩ := Node.handle_open hr hnone
      rw [receive_active happ, ← hname]
      exact hS.employed id t ht hopen
    | tick w now =>
      obtain rfl := fst_of_ok happ
      obtain ⟨t, ht, hopen, hname⟩ := Node.tick_open hr hnone
      rw [← hname]
      exact hS.employed id t ht hopen
    | prunePeers | retryHandshake | expirePending | pollManifest | pollPeerlist =>
      obtain ⟨rng, hs⟩ := apply_quiet_sched P happ trivial
      rw [apply_quiet_registry P happ trivial] at hr
      rw [hs]
      exact hS.employed id r hr hnone
    | reap w now f =>
      obtain rfl := fst_of_ok happ
      -- the collected job takes no receiver without an outcome with it
      have hne : id ≠ f.id := by
        rintro rfl
        exact reapJob_done hen hr hnone
      obtain ⟨job, hjob, hname⟩ :=
        hS.employed id r ((reapJob_receivers P w now f S.node S.sched hne).symm.trans hr) hnone
      refine ⟨job, ?_, hname⟩
      simp only [reap, reapJob_active]
      rw [AList.lookup_erase_ne hne]
      exact hjob
    | fill ids w =>
      obtain rfl := fst_of_ok happ
      have hlookup := @fillStep_lookup P ids w S.node S.sched id r hr
      rcases fillStep_cases P ids w S.node S.sched with
        ⟨rng, hstep⟩ | ⟨filename, rest, peer, rng, t, hq, -, hroom, -, hstep⟩
      · simp only [fillOne, hstep] at hr ⊢
        exact hS.employed id r hr hnone
      · simp only [fillOne, hstep] at hr ⊢
        -- the drawn id is new to the registry: its receiver is the one just started
        by_cases hid : id = ids.draw S.node.registry
        · refine ⟨⟨filename, peer⟩, by rw [hid]; exact AList.lookup_insert _, ?_⟩
          rcases hlookup with hold | ⟨-, hhead⟩
          · exact absurd (HashMap.mem_iff_lookup.mpr ⟨r, hid ▸ hold⟩)
              (ids.fresh S.node.registry hroom).2.2.2
          · rw [hq, List.head?_cons] at hhead
            exact Option.some.inj hhead
        · obtain ⟨job, hjob, hname⟩ :=
            hS.employed id r ((AList.lookup_insert_ne hid).symm.trans hr) hnone
          exact ⟨job, (AList.lookup_insert_ne hid).trans hjob, hname⟩

/-- Every step keeps the downloads grounded. -/
theorem Step.grounded {e : PeerEvent} (h : Step P S e S') (hS : S.Grounded) : S'.Grounded where
  employed id r hr hnone := h.employed hS hr hnone
  stored f hf := by
    rcases h.pulls hf with hold | hnew
    · obtain ⟨hne, hread⟩ := hS.stored f hold
      refine ⟨hne, ?_⟩
      rcases h.live hS with hkept | ⟨w, refresh, data, src, -, hread'⟩
      · simpa only [Dir.read, hkept] using hread
      · exact Option.isSome_of_eq_some hread'
    · exact hnew
  manifestName := (congrArg (fun s => s.2.2.1) h.self_eq).trans hS.manifestName

end Peer
end Qstream

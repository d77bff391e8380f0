import Qstream.PeerPulls

/-! The player's playlist over whole runs of the peer. A segment that arrives makes it stale only
until its job is collected, which happens in the same turn of the loop; what goes wrong is a
restart, after which the stored manifest is received again and nothing is refreshed. -/
namespace Qstream
open Transfer Runs Text UnixPath

/-- The playlist is missing or right. -/
def Tidy (dir : Dir) (holdback : ℕ) : Prop :=
  dir.lookup PLAYBACK_MANIFEST = none ∨ Mirrored dir holdback

section Files
variable {dir : Dir} {holdback : ℕ}

theorem Mirrored.plain (h : Mirrored dir holdback) :
    dir.lookup PLAYBACK_MANIFEST ≠ some .directory := by
  intro hdir
  unfold Mirrored at h
  split at h
  · rw [Dir.read, hdir] at h
    cases h
  · rw [Dir.exists', hdir] at h
    cases h

theorem Tidy.plain (h : Tidy dir holdback) : dir.lookup PLAYBACK_MANIFEST ≠ some .directory := by
  rcases h with hnone | h
  · simp [hnone]
  · exact h.plain

/-- A playlist that is there whenever one is due is right. -/
theorem Tidy.mirrored (h : Tidy dir holdback)
    (hthere : (playlistDue dir holdback).isSome → dir.exists' PLAYBACK_MANIFEST = true) :
    Mirrored dir holdback := by
  rcases h with hnone | h
  · have hgone : dir.exists' PLAYBACK_MANIFEST = false := by rw [Dir.exists', hnone]; rfl
    unfold Mirrored
    split
    next data hdue =>
      rw [hdue, hgone] at hthere
      exact absurd (hthere rfl) Bool.false_ne_true
    next => exact hgone
  · exact h

end Files

namespace Peer
variable {P : PeerConfig} {S S' S1 : Peer} {T : Turn} {n : Node} {s : Scheduler}

/-- The manifest leaves the playlist's own files alone, and pruning reads it as the playlist
does. -/
def Sound (P : PeerConfig) (root : Path) (data : Bytes) : Prop :=
  SparesPlayback root data ∧
    (P.settings.retentionSecs = 0 ∨ (fromUtf8 data).isSome ∧ ListsVisited root data)

instance (P : PeerConfig) (root : Path) (data : Bytes) : Decidable (Sound P root data) := by
  unfold Sound
  infer_instance

/-- The manifest that the turn receives. -/
def Turn.manifest (T : Turn) : Option Bytes :=
  match T.datagram with
  | some (_, _, .manifestResponse data, _) => some data
  | _ => none

theorem Turn.manifest_eq {w refresh : World} {m : Message} {src : SocketAddr} {data : Bytes}
    (hd : T.datagram = some (w, refresh, m, src)) :
    T.manifest = some data ↔ m = .manifestResponse data := by
  rw [manifest, hd]
  cases m <;> simp

/-- The turn's file operations succeed, its timers run within the grace period of a segment it
has saved, the manifests at hand are sound, and the stored one is not received again while the
playlist that is due is missing. -/
structure Undisturbed (P : PeerConfig) (S : Peer) (T : Turn) : Prop where
  reapIo : T.reapWorld.io = .ok
  datagramIo : ∀ d ∈ T.datagram, d.1.io = .ok ∧ d.2.1.io = .ok
  prompt : ∀ S1 sent, S.received P T = .ok (S1, sent) → ∀ id ∈ S1.sched.active, ∀ r,
    S1.node.registry.receivers.lookup id = some r → r.outcome = some (.ok ()) → T.now < r.deadline
  sound : ∀ data, S.node.registry.dir.read LIVE_MANIFEST = some data ∨ T.manifest = some data →
    Sound P S.node.registry.dir.root data
  resumed : ∀ data, data ≠ [] → T.manifest = some data →
    S.node.registry.dir.read LIVE_MANIFEST = some data →
    (playlistDue S.node.registry.dir P.playbackHoldback).isSome →
    S.node.registry.dir.exists' PLAYBACK_MANIFEST = true

instance (P : PeerConfig) (S : Peer) (T : Turn) : Decidable (S.Undisturbed P T) :=
  decidable_of_iff (T.reapWorld.io = .ok ∧ (∀ d ∈ T.datagram, d.1.io = .ok ∧ d.2.1.io = .ok) ∧
    (∀ x ∈ (S.received P T).toOption, ∀ id ∈ x.1.sched.active.keys,
      ∀ r ∈ x.1.node.registry.receivers.lookup id, r.outcome = some (.ok ()) → T.now < r.deadline) ∧
    (∀ data ∈ S.node.registry.dir.read LIVE_MANIFEST, Sound P S.node.registry.dir.root data) ∧
    (∀ data ∈ T.manifest, Sound P S.node.registry.dir.root data) ∧
    ∀ data ∈ T.manifest, data ≠ [] → S.node.registry.dir.read LIVE_MANIFEST = some data →
      (playlistDue S.node.registry.dir P.playbackHoldback).isSome →
      S.node.registry.dir.exists' PLAYBACK_MANIFEST = true) (by
    constructor
    · rintro ⟨hreap, hio, hprompt, hstored, hheard, hresumed⟩
      refine ⟨hreap, hio, fun S1 sent h id hid r hr => ?_, fun data hdata => ?_,
        fun data hne hdata => hresumed data hdata hne⟩
      · exact hprompt (S1, sent) (by rw [h]; rfl) id hid r hr
      · exact hdata.elim (hstored data) (hheard data)
    · intro h
      refine ⟨h.reapIo, h.datagramIo, fun x hx id hid r hr => ?_, fun data hdata =>
        h.sound data (.inl hdata), fun data hdata => h.sound data (.inr hdata),
        fun data hdata hne => h.resumed data hne hdata⟩
      cases hrecv : S.received P T with
      | error e =>
        rw [hrecv] at hx
        cases hx
      | ok y =>
        rw [hrecv] at hx
        cases hx
        exact h.prompt x.1 x.2 hrecv id hid r hr)

/-- A job in flight whose segment has been saved. -/
def Saved (S : Peer) : Prop :=
  ∃ id job r, S.sched.active.lookup id = some job ∧
    S.node.registry.receivers.lookup id = some r ∧ r.outcome = some (.ok ())

/-- The state between the datagram of a turn and the collection of its jobs. -/
structure Settling (P : PeerConfig) (S : Peer) : Prop where
  sound : ∀ data, S.node.registry.dir.read LIVE_MANIFEST = some data →
    Sound P S.node.registry.dir.root data
  plain : S.node.registry.dir.lookup PLAYBACK_MANIFEST ≠ some .directory
  state : Tidy S.node.registry.dir P.playbackHoldback ∨ S.Saved

/-- A new manifest is followed by a refresh; the stored one finds the playlist as it was. -/
theorem receive_mirrored {w refresh : World} {data : Bytes} {src : SocketAddr} {sent : Outbox}
    (h : S.receive P w refresh (.manifestResponse data) src = .ok (S1, sent))
    (hio : refresh.io = .ok) (htidy : Tidy S.node.registry.dir P.playbackHoldback)
    (hsound : ∀ data', S.node.registry.dir.read LIVE_MANIFEST = some data' ∨ data' = data →
      Sound P S.node.registry.dir.root data')
    (hresumed : data ≠ [] → S.node.registry.dir.read LIVE_MANIFEST = some data →
      (playlistDue S.node.registry.dir P.playbackHoldback).isSome →
      S.node.registry.dir.exists' PLAYBACK_MANIFEST = true) :
    S1.Settling P ∧ (data ≠ [] → Mirrored S1.node.registry.dir P.playbackHoldback) := by
  rcases receive_written h with ⟨hdir, -, hsame⟩ | ⟨-, -, -, hdir, hwritten, hread⟩
  · rw [hdir]
    refine ⟨⟨?_, ?_, ?_⟩, fun hne => htidy.mirrored (hresumed hne (hsame.resolve_left hne))⟩
    · rw [hdir]
      exact fun data' hdata => hsound data' (.inl hdata)
    · rw [hdir]
      exact htidy.plain
    · rw [hdir]
      exact .inl htidy
  · have hroot : S1.node.registry.dir.root = S.node.registry.dir.root := by
      rw [hdir, root_refresh, Dir.root_saveAtomic]
    have hmirrored : Mirrored S1.node.registry.dir P.playbackHoldback := by
      rw [hdir]
      refine mirrored_refresh hio (Option.isSome_of_eq_some hwritten) (fun data' hdata' => ?_) ?_
      · rw [hwritten] at hdata'
        rw [Dir.root_saveAtomic]
        exact (hsound data' (.inr (Option.some.inj hdata').symm)).1
      · rw [Dir.lookup_saveAtomic _ _ _ _ _ (not_visited plain_playback (by decide) _)
          (not_visited plain_playback (playback_ne_tmpName _) _)]
        exact htidy.plain
    refine ⟨⟨fun data' hdata' => ?_, hmirrored.plain, .inl (.inr hmirrored)⟩, fun _ => hmirrored⟩
    rw [hread] at hdata'
    rw [hroot]
    exact hsound data' (.inr (Option.some.inj hdata').symm)

/-- Any other datagram leaves the files alone, or saves a segment whose job is in flight. -/
theorem receive_settling {w refresh : World} {m : Message} {src : SocketAddr} {sent : Outbox}
    (h : S.receive P w refresh m src = .ok (S1, sent)) (hm : ∀ data, m ≠ .manifestResponse data)
    (hio : w.io = .ok) (hS : S.Grounded)
    (htidy : Tidy S.node.registry.dir P.playbackHoldback)
    (hsound : ∀ data, S.node.registry.dir.read LIVE_MANIFEST = some data →
      Sound P S.node.registry.dir.root data) :
    S1.Settling P := by
  have hdir := receive_dir h hm
  rcases Node.handle_dir S.node P.settings (w.after 1) m src with
    hsame | ⟨id, r, file, hr, hnone, hsaved, hdone⟩
  · rw [hsame] at hdir
    constructor <;> rw [hdir]
    · exact hsound
    · exact htidy.plain
    · exact .inl htidy
  · have hworld : (w.after 1).io = .ok := hio
    rw [hsaved, hworld] at hdir
    have hne := (hS.stored _ (hS.pulls_open hr hnone)).1
    refine ⟨fun data hdata => ?_, ?_, .inr ?_⟩
    · rw [hdir, Dir.read, Dir.lookup_saveAtomic _ _ _ _ _ (not_visited plain_live hne.symm _)
        (not_visited plain_live (live_ne_tmpName _) _)] at hdata
      rw [hdir, Dir.root_saveAtomic]
      exact hsound data hdata
    · rw [hdir]
      by_cases hname : r.filename = PLAYBACK_MANIFEST
      · simp [hname, Dir.lookup_saveAtomic_ok _ _ plain_playback]
      · rw [Dir.lookup_saveAtomic _ _ _ _ _ (not_visited plain_playback (Ne.symm hname) _)
          (not_visited plain_playback (playback_ne_tmpName _) _)]
        exact htidy.plain
    · -- the playlist may be stale now, but the segment's job waits to be collected
      obtain ⟨job, hjob, -⟩ := hS.employed id r hr hnone
      obtain ⟨t, ht, hout⟩ := hdone hworld
      exact ⟨id, job, t, by rw [receive_active h]; exact hjob,
        by rw [receive_receivers h]; exact ht, hout⟩

theorem received_settling {sent : Outbox} (h : S.received P T = .ok (S1, sent)) (hS : S.Grounded)
    (htidy : Tidy S.node.registry.dir P.playbackHoldback) (hT : S.Undisturbed P T) :
    S1.Settling P ∧ ∀ data, data ≠ [] → T.manifest = some data →
      Mirrored S1.node.registry.dir P.playbackHoldback := by
  unfold received at h
  split at h
  next w refresh m src hd =>
    obtain ⟨hio, hrefresh⟩ := hT.datagramIo _ hd
    by_cases hm : ∃ data, m = .manifestResponse data
    · obtain ⟨data, rfl⟩ := hm
      have hheard : T.manifest = some data := (Turn.manifest_eq hd).mpr rfl
      obtain ⟨hsettling, hmirrored⟩ := receive_mirrored h hrefresh htidy
        (fun data' hdata' => hT.sound data' (hdata'.imp_right (by rintro rfl; exact hheard)))
        fun hne => hT.resumed data hne hheard
      refine ⟨hsettling, fun data' hne hdata' => hmirrored ?_⟩
      rwa [Option.some.inj (hheard.symm.trans hdata')]
    · refine ⟨receive_settling h (fun data heq => hm ⟨data, heq⟩) hio hS htidy
        fun data hdata => hT.sound data (.inl hdata), fun data _ hdata => ?_⟩
      exact absurd ⟨data, (Turn.manifest_eq hd).mp hdata⟩ hm
  next hd =>
    cases h
    refine ⟨⟨fun data hdata => hT.sound data (.inl hdata), htidy.plain, .inl htidy⟩, ?_⟩
    intro data _ hdata
    rw [Turn.manifest, hd] at hdata
    cases hdata

/-- The timers prune no listed segment and drop no saved download. -/
theorem Settling.timers (h : S.Settling P) (hname : S.node.manifestName = LIVE_MANIFEST)
    (hprompt : ∀ id ∈ S.sched.active, ∀ r, S.node.registry.receivers.lookup id = some r →
      r.outcome = some (.ok ()) → T.now < r.deadline) : (S.timers P T).1.Settling P := by
  have hdir : (S.timers P T).1.node.registry.dir =
      S.node.prunedDir P.settings T.tickWorld T.now := by rw [timers_registry, Node.tick_registry]
  have hread : (S.node.prunedDir P.settings T.tickWorld T.now).read LIVE_MANIFEST =
      S.node.registry.dir.read LIVE_MANIFEST := by
    simp only [Dir.read, lookup_live_pruned]
  have hplayback : (S.node.prunedDir P.settings T.tickWorld T.now).lookup PLAYBACK_MANIFEST =
      S.node.registry.dir.lookup PLAYBACK_MANIFEST := lookup_playback_pruned
  have hutf : P.settings.retentionSecs = 0 ∨
      ∀ data, S.node.registry.dir.read LIVE_MANIFEST = some data →
        (fromUtf8 data).isSome ∧ ListsVisited S.node.registry.dir.root data := by
    by_cases hidle : P.settings.retentionSecs = 0
    · exact .inl hidle
    · exact .inr fun data hdata => (h.sound data hdata).2.resolve_left hidle
  refine ⟨?_, ?_, ?_⟩
  · rw [hdir, hread, root_prunedDir]
    exact h.sound
  · rw [hdir, hplayback]
    exact h.plain
  · rcases h.state with htidy | ⟨id, job, r, hjob, hr, hout⟩
    · rw [hdir, Tidy, hplayback, mirrored_prunedDir hname hutf]
      exact .inl htidy
    · have hgrace (hsome : r.outcome.isSome) : T.now < r.deadline :=
        hprompt id (HashMap.mem_iff_lookup.mpr ⟨job, hjob⟩) r hr hout
      obtain ⟨clk, htick⟩ := timers_receiver (P := P) (T := T) hr hgrace
      rw [if_pos (by rw [hout]; rfl)] at htick
      exact .inr ⟨id, job, r, by rw [timers_active]; exact hjob, htick, hout⟩

/-- Every collected segment refreshes the playlist, and nothing else in the collection makes it
stale. -/
theorem reapAll_mirrored {fs : List Finished} {w : World} (now : ℕ) (hio : w.io = .ok)
    (hspares : ∀ data, n.registry.dir.read LIVE_MANIFEST = some data →
      SparesPlayback n.registry.dir.root data)
    (hplain : n.registry.dir.lookup PLAYBACK_MANIFEST ≠ some .directory)
    (hlive : fs ≠ [] → (n.registry.dir.read LIVE_MANIFEST).isSome)
    (hstate : Tidy n.registry.dir P.playbackHoldback ∨ ∃ f ∈ fs, f.result = .ok) :
    Tidy (reapAll P w now fs n s).1.registry.dir P.playbackHoldback ∧
      ∀ before f after, fs = before ++ f :: after → f.result = .ok →
        Mirrored (reapAll P w now (before ++ [f]) n s).1.registry.dir P.playbackHoldback := by
  -- the playlist is as it was until the first segment is collected, and right from then on
  induction fs generalizing n s w with
  | nil =>
    exact ⟨hstate.resolve_right (by simp), fun before f after heq => by simp at heq⟩
  | cons g fs ih =>
    have hstored := hlive (List.cons_ne_nil g fs)
    have hdir := congrArg TransferRegistry.dir (reapJob_registry P w now g n s)
    have hfirst (hok : g.result = .ok) :
        Mirrored (reapJob P w now g n s).1.registry.dir P.playbackHoldback := by
      rw [hdir, if_pos hok]
      exact mirrored_refresh hio hstored hspares hplain
    have hread : (reapJob P w now g n s).1.registry.dir.read LIVE_MANIFEST =
        n.registry.dir.read LIVE_MANIFEST := by
      rw [hdir]
      split
      · simp only [Dir.read, lookup_live_refresh]
      · rfl
    have hroot : (reapJob P w now g n s).1.registry.dir.root = n.registry.dir.root := by
      rw [hdir]
      split
      · exact root_refresh _ _ _
      · rfl
    have hkept (hnot : g.result ≠ .ok) :
        (reapJob P w now g n s).1.registry.dir = n.registry.dir := by rw [hdir, if_neg hnot]
    have hplain' : (reapJob P w now g n s).1.registry.dir.lookup PLAYBACK_MANIFEST ≠
        some .directory := by
      by_cases hok : g.result = .ok
      · exact (hfirst hok).plain
      · rw [hkept hok]
        exact hplain
    have hstate' : Tidy (reapJob P w now g n s).1.registry.dir P.playbackHoldback ∨
        ∃ f ∈ fs, f.result = .ok := by
      by_cases hok : g.result = .ok
      · exact .inl (.inr (hfirst hok))
      · rw [hkept hok]
        refine hstate.imp_right ?_
        rintro ⟨f, hf, hfok⟩
        rcases List.mem_cons.mp hf with rfl | hf
        · exact absurd hfok hok
        · exact ⟨f, hf, hfok⟩
    obtain ⟨htidy, hrest⟩ := ih (w := w.after 8) (n := (reapJob P w now g n s).1)
      (s := (reapJob P w now g n s).2.1) hio (by rw [hread, hroot]; exact hspares) hplain'
      (fun _ => by rw [hread]; exact hstored) hstate'
    refine ⟨htidy, fun before f after heq hok => ?_⟩
    cases before with
    | nil =>
      obtain ⟨rfl, -⟩ := List.cons.inj heq
      exact hfirst hok
    | cons g' before =>
      obtain ⟨rfl, hfs⟩ := List.cons.inj heq
      exact hrest before f after hfs hok

theorem fillLoop_dir (P : PeerConfig) (ids : TransferRegistry.IdSource) (k : ℕ) (w : World)
    (n : Node) (s : Scheduler) :
    (fillLoop P ids k w n s).1.registry.dir = n.registry.dir := by
  induction k generalizing n s w with
  | zero => rfl
  | succ k ih =>
    have hone : (fillStep P ids w n s).1.registry.dir = n.registry.dir := by
      rcases fillStep_cases P ids w n s with
        ⟨rng, hstep⟩ | ⟨filename, rest, peer, rng, r, -, -, -, -, hstep⟩
      · rw [hstep]
      · rw [hstep]
        rfl
    rcases hres : fillStep P ids w n s with ⟨n1, s1, sent, go⟩
    rw [hres] at hone
    cases go with
    | false => simpa only [fillLoop, hres] using hone
    | true =>
      simp only [fillLoop, hres]
      exact (ih (w.after 2) n1 s1).trans hone

/-- The playlist mirrors the stored state right after the turn's manifest, unless it is empty, and
right after each segment that the turn collects. -/
def MirroredInTurn (P : PeerConfig) (S : Peer) (T : Turn) : Prop :=
  ∀ S1 sent, S.received P T = .ok (S1, sent) →
    (∀ data, data ≠ [] → T.manifest = some data →
      Mirrored S1.node.registry.dir P.playbackHoldback) ∧
    ∀ before f after, S.collected P T = before ++ f :: after → f.result = .ok →
      Mirrored (reapAll P T.reapWorld T.now (before ++ [f]) (S1.timers P T).1.node
        (S1.timers P T).1.sched).1.registry.dir P.playbackHoldback

/-- The jobs of a turn are collected while a manifest is stored, and that of a saved segment is
among them. -/
theorem Settling.collect (h : S.Settling P) (hS : S.Grounded) (w : World) (now : ℕ)
    (hio : w.io = .ok) :
    Tidy (reapAll P w now (finishedJobs w.ord S.node S.sched) S.node S.sched).1.registry.dir
        P.playbackHoldback ∧
      ∀ before f after, finishedJobs w.ord S.node S.sched = before ++ f :: after →
        f.result = .ok →
        Mirrored (reapAll P w now (before ++ [f]) S.node S.sched).1.registry.dir
          P.playbackHoldback := by
  refine reapAll_mirrored now hio (fun data hdata => (h.sound data hdata).1) h.plain
    (fun hne => ?_) (h.state.imp_right ?_)
  · obtain ⟨f, hf⟩ := List.exists_mem_of_ne_nil _ hne
    obtain ⟨hjob, -⟩ := isFinished_of_mem hf
    exact (hS.stored _ (.inr ⟨_, _, hjob, rfl⟩)).2
  · rintro ⟨id, job, r, hjob, hr, hout⟩
    obtain ⟨f, hf, hfin⟩ := mem_finishedJobs w.ord hjob hr hout
    refine ⟨f, hf, ?_⟩
    rw [finishedOf, hout] at hfin
    cases hfin
    rfl

theorem received_grounded {sent : Outbox} (h : S.received P T = .ok (S1, sent))
    (hS : S.Grounded) : S1.Grounded := by
  unfold received at h
  split at h
  next w refresh m src _ =>
    have hstep : Step P S (.datagram w refresh m src) S1 := .mk trivial h
    exact hstep.grounded hS
  next =>
    cases h
    exact hS

/-- The state in which the jobs of an undisturbed turn are collected. -/
theorem Undisturbed.settling {sent : Outbox} (hT : S.Undisturbed P T) (hS : S.Grounded)
    (htidy : Tidy S.node.registry.dir P.playbackHoldback)
    (h : S.received P T = .ok (S1, sent)) :
    (S1.timers P T).1.Settling P ∧ (S1.timers P T).1.Grounded := by
  have hground := received_grounded h hS
  obtain ⟨es, hrun⟩ := timers_run (P := P) (S := S1) T
  exact ⟨(received_settling h hS htidy hT).1.timers hground.manifestName (hT.prompt S1 sent h),
    hrun.invariant (fun _ _ _ hU hstep => hstep.grounded hU) hground⟩

theorem Undisturbed.mirrored (hT : S.Undisturbed P T) (hS : S.Grounded)
    (htidy : Tidy S.node.registry.dir P.playbackHoldback) : S.MirroredInTurn P T := by
  intro S1 sent h
  refine ⟨(received_settling h hS htidy hT).2, ?_⟩
  obtain ⟨hsettling, hground⟩ := hT.settling hS htidy h
  rw [collected, h]
  exact (hsettling.collect hground T.reapWorld T.now hT.reapIo).2

/-- At the end of an undisturbed turn the playlist is missing or right. -/
theorem TurnStep.tidy (h : TurnStep P S T S') (hT : S.Undisturbed P T) (hS : S.Grounded)
    (htidy : Tidy S.node.registry.dir P.playbackHoldback) :
    Tidy S'.node.registry.dir P.playbackHoldback := by
  obtain ⟨S1, sent, hrecv, rfl⟩ := h.received
  obtain ⟨hsettling, hground⟩ := hT.settling hS htidy hrecv
  have hcollect := (hsettling.collect hground T.reapWorld T.now hT.reapIo).1
  simp only [schedule, scheduleJobs, fill, fillLoop_dir]
  exact hcollect

theorem TurnStep.grounded (h : TurnStep P S T S') (hS : S.Grounded) : S'.Grounded := by
  obtain ⟨sent, hturn⟩ := h.taken
  exact turn_invariant (fun _ _ _ hU hstep => hstep.grounded hU) hturn hS

/-- The stored manifest, received again, changes no file. -/
theorem received_stored {sent : Outbox} {data : Bytes} (h : S.received P T = .ok (S1, sent))
    (hdata : T.manifest = some data)
    (hstored : S.node.registry.dir.read LIVE_MANIFEST = some data) :
    S1.node.registry.dir = S.node.registry.dir := by
  unfold received at h
  split at h
  next w refresh m src hd =>
    obtain rfl := (Turn.manifest_eq hd).mp hdata
    rcases receive_written h with ⟨hdir, -, -⟩ | ⟨-, hdiff, -⟩
    · exact hdir
    · exact absurd hstored hdiff
  next =>
    cases h
    rfl

end Peer

/-- In every run of undisturbed turns the playlist mirrors the stored state right after each
manifest that is not empty and right after each collected segment. It stays missing when it is
missing though due and the stored manifest is received again. -/
theorem playback_mirrors (P : PeerConfig) (w : World) {dir : Dir} (nonce : UInt32)
    (claimed : Option SocketAddr) (seed : UInt64)
    (hdir : dir.lookup PLAYBACK_MANIFEST ≠ some .directory) :
    (∀ Ts S T, Run (guarded (Peer.Undisturbed P) (Peer.TurnStep P))
        (.initial P w dir nonce claimed seed) Ts S →
      S.Undisturbed P T → S.MirroredInTurn P T) ∧
    ∀ (S S1 : Peer) (T : Peer.Turn) sent data, S.received P T = .ok (S1, sent) →
      T.manifest = some data → S.node.registry.dir.read LIVE_MANIFEST = some data →
      (playlistDue S.node.registry.dir P.playbackHoldback).isSome →
      S.node.registry.dir.exists' PLAYBACK_MANIFEST = false →
      ¬ Mirrored S1.node.registry.dir P.playbackHoldback := by
  refine ⟨fun Ts S T hrun hT => ?_, fun S S1 T sent data h hdata hstored hdue hgone => ?_⟩
  · have hstart : Tidy (Peer.initial P w dir nonce claimed seed).node.registry.dir
        P.playbackHoldback := .inl (Dir.lookup_removed plain_playback hdir)
    obtain ⟨hS, htidy⟩ : S.Grounded ∧ Tidy S.node.registry.dir P.playbackHoldback :=
      hrun.invariant (I := fun S => S.Grounded ∧ Tidy S.node.registry.dir P.playbackHoldback)
        (fun _ _ _ hU hstep => ⟨hstep.2.grounded hU.1, hstep.2.tidy hstep.1 hU.1 hU.2⟩)
        ⟨Peer.initial_grounded P w dir nonce claimed seed, hstart⟩
    exact hT.mirrored hS htidy
  · obtain ⟨playlist, hplaylist⟩ := Option.isSome_iff_exists.mp hdue
    rw [Peer.received_stored h hdata hstored, Mirrored, hplaylist]
    exact read_of_missing hgone

def demoFiles (files : List (String × Bytes)) : Dir :=
  ⟨files.foldl (fun m f => m.insert f.1 (.file f.2 true 0)) ∅, ["srv"], fun _ => none⟩

def demoReplicated : Bytes := demoManifest ["a.ts", "b.ts", "c.ts", "d.ts"]

/-- The handshake, a manifest, and the segment that is missing. -/
def demoReplication : ℕ → Peer.Turn
  | 0 => demoTurn (some (.handshakeResponse demoLocal "origin", demoBootstrap)) 1 1
  | 1 => demoTurn (some (.manifestResponse demoReplicated, demoBootstrap)) 2 2
  | _ => demoTurn (some (.segmentContents 1 1 1 [4], demoBootstrap)) 3 3

def demoReplica : ℕ → Peer
  | 0 => demoStart (demoFiles [("a.ts", [1]), ("b.ts", [2]), ("c.ts", [3])])
  | k + 1 => (demoReplica k).next demoConfig (demoReplication k)

/-- The pull of the fourth segment is collected, and the first is listed. -/
theorem playback_mirrors_demo :
    ∃ S1 sent f, (demoReplica 2).received demoConfig (demoReplication 2) = .ok (S1, sent) ∧
      (demoReplica 2).collected demoConfig (demoReplication 2) = [f] ∧
      Mirrored (reapAll demoConfig (demoReplication 2).reapWorld 3 [f]
        (S1.timers demoConfig (demoReplication 2)).1.node
        (S1.timers demoConfig (demoReplication 2)).1.sched).1.registry.dir 3 := by
  have hfirst : guarded (Peer.Undisturbed demoConfig) (Peer.TurnStep demoConfig) (demoReplica 0)
      (demoReplication 0) (demoReplica 1) := by
    refine ⟨by decide +kernel, .next (by decide +kernel) fun d hd => ?_⟩
    cases hd
    exact (by decide : (5000 : ℕ) < 65536)
  have hsecond : guarded (Peer.Undisturbed demoConfig) (Peer.TurnStep demoConfig) (demoReplica 1)
      (demoReplication 1) (demoReplica 2) := by
    refine ⟨by decide +kernel, .next (by decide +kernel) fun d hd => ?_⟩
    cases hd
    trivial
  obtain ⟨f, hf⟩ := List.length_eq_one_iff.mp (by decide +kernel :
    ((demoReplica 2).collected demoConfig (demoReplication 2)).length = 1)
  have hok : ((demoReplica 2).collected demoConfig (demoReplication 2)).map Finished.result =
      [.ok] := by decide +kernel
  rw [hf] at hok
  have hplain : (demoFiles [("a.ts", [1]), ("b.ts", [2]), ("c.ts", [3])]).lookup
      PLAYBACK_MANIFEST ≠ some .directory := by decide +kernel
  obtain ⟨hmirrors, -⟩ := playback_mirrors demoConfig (demoWorld 0) 1 none 1 hplain
  have hturn := hmirrors _ _ (demoReplication 2) (.cons hfirst (.one hsecond)) (by decide +kernel)
  refine ⟨_, _, f, rfl, hf, (hturn _ _ rfl).2 [] f [] hf (List.cons.inj hok).1⟩

/-- The directory of a peer that was stopped with the whole manifest replicated. -/
def demoShelf : Dir :=
  demoFiles [("live.m3u8", demoReplicated), ("a.ts", [1]), ("b.ts", [2]), ("c.ts", [3]), ("d.ts", [4])]

/-- After a restart the stored manifest is received again, and the playlist stays missing. -/
theorem restart_leaves_playlist_missing :
    Peer.TurnStep demoConfig (demoStart demoShelf) (demoReplication 1)
      ((demoStart demoShelf).next demoConfig (demoReplication 1)) ∧
    (∀ d ∈ (demoReplication 1).datagram, d.1.io = .ok ∧ d.2.1.io = .ok) ∧
    ¬ (demoStart demoShelf).MirroredInTurn demoConfig (demoReplication 1) := by
  refine ⟨.next (by decide +kernel) fun d hd => ?_, fun d hd => ?_, fun hmirrored => ?_⟩
  · cases hd
    trivial
  · cases hd
    exact ⟨rfl, rfl⟩
  · have hmissing : ((demoStart demoShelf).received demoConfig (demoReplication 1)).toOption.any
        (fun x => ¬ Mirrored x.1.node.registry.dir demoConfig.playbackHoldback) = true := by
      decide +kernel
    cases hrecv : (demoStart demoShelf).received demoConfig (demoReplication 1) with
    | error e =>
      rw [hrecv] at hmissing
      cases hmissing
    | ok x =>
      rw [hrecv] at hmissing
      exact of_decide_eq_true hmissing ((hmirrored x.1 x.2 hrecv).1 demoReplicated (by decide +kernel) rfl)

end Qstream

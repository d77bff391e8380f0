import Qstream.PeerSelectComplete
import Qstream.Playlist

/-! The peer's job scheduler: reconciling the queue with a manifest, collecting finished
downloads, and filling free slots. -/
namespace Qstream
open Transfer

/-- How long to wait before retrying a segment whose pull failed. -/
def FAIL_RETRY_COOLDOWN : ℕ := secs 5
/-- Unresponsive pulls before a peer is evicted. -/
def EVICT_AFTER_UNRESPONSIVE : ℕ := 3

def LIVE_MANIFEST : String := "live.m3u8"
def PLAYBACK_MANIFEST : String := "playback.m3u8"

/-- Store the manifest unless it is the stored one; true when it was written. -/
def writeManifest (w : World) (dir : Dir) (data : Bytes) : Dir × Except String Bool :=
  if dir.read LIVE_MANIFEST = some data then (dir, .ok false)
  else match dir.saveAtomic w.io w.wall LIVE_MANIFEST data with
    | (dir', none) => (dir', .ok true)
    | (dir', some e) => (dir', .error e)

/-- Update the player-only playlist. -/
def refreshPlaybackManifest (w : World) (dir : Dir) (holdback : ℕ) : Dir × Except String Unit :=
  match dir.read LIVE_MANIFEST with
  | none => (dir, .error "live.m3u8 cannot be read")
  | some manifest =>
    match playbackPlaylist dir manifest holdback with
    | none => (dir.removeFile PLAYBACK_MANIFEST, .ok ())
    | some data =>
      if dir.read PLAYBACK_MANIFEST = some data then (dir, .ok ())
      else match dir.saveAtomic w.io w.wall PLAYBACK_MANIFEST data with
        | (dir', none) => (dir', .ok ())
        | (dir', some e) => (dir', .error e)

/-- Whether `sync_queue` enqueues a manifest segment, judged at time `t`. -/
def wanted (dir : Dir) (s : Scheduler) (t : ℕ) (filename : String) : Bool :=
  validFilename filename ∧ ¬ dir.exists' filename ∧ filename ∉ s.queued ∧
    ¬ (s.failedAt.lookup filename).any fun failed => t - failed < FAIL_RETRY_COOLDOWN

def enqueue (clk : Clock) (dir : Dir) (s : Scheduler) (e : String × ℕ) : Scheduler :=
  if wanted dir s (clk e.2) e.1 then
    { s with queued := insert e.1 s.queued, queue := e.1 :: s.queue }
  else s

/-- Drop jobs that rolled out of the manifest and enqueue what is missing, newest first. -/
def syncQueue (clk : Clock) (dir : Dir) (manifest : Bytes) (s : Scheduler) : Scheduler :=
  let segments := parseManifest manifest
  segments.zipIdx.foldl (enqueue clk dir)
    { s with
      queue := s.queue.filter fun f => f ∈ segments
      queued := s.queued.filter fun f => f ∈ segments }

/-- A download that has an outcome, with what the registry says about it. -/
structure Finished where
  id : ℕ
  job : ActiveJob
  outcome : Except FailReason Unit
  unresponsive : Bool
  notFound : Bool
  retryableNotFound : Bool
  firstPacketMs : Option ℕ
  savedBytes : Option ℕ
  deriving DecidableEq

def finishedOf (id : ℕ) (job : ActiveJob) (r : ReceiverTransfer) : Option Finished :=
  r.outcome.map fun outcome =>
    ⟨id, job, outcome, r.unresponsive, r.notFound, r.retryableNotFound, r.firstPacketLatency,
      r.savedBytes⟩

def finishedJobs (ord : HashOrder) (n : Node) (s : Scheduler) : List Finished :=
  (ord.iter s.active).filterMap fun (id, job) =>
    (n.registry.receivers.lookup id).bind (finishedOf id job)

def Finished.result (f : Finished) : PullResult :=
  match f.outcome with
  | .ok _ => .ok
  | .error _ =>
    if f.unresponsive then .timeout
    else if f.retryableNotFound then .retryableNotFound
    else if f.notFound then .notFound
    else .other

/-- Take a finished job out of the active ones and record how it ended. -/
def collect (w : World) (f : Finished) (n : Node) (s : Scheduler) : Node × Scheduler :=
  let n1 : Node := match f.outcome with
    | .ok _ => n
    | .error _ => { n with registry := n.registry.removeReceiver f.id }
  (n1.recordPull w.clk f.job.peer f.result f.firstPacketMs (f.savedBytes.getD 0),
    { s with active := s.active.erase f.id })

/-- A saved segment. -/
def reapOk (P : PeerConfig) (w : World) (f : Finished) (n : Node) (s : Scheduler) :
    Node × Scheduler × Outbox :=
  let dir := (refreshPlaybackManifest w n.registry.dir P.playbackHoldback).1
  let n1 := n.withDir dir
  (n1, { s with
    queued := s.queued.erase f.job.filename
    tried := s.tried.erase f.job.filename
    retryAfter := s.retryAfter.retain fun k _ => k.1 ≠ f.job.filename
    unresponsiveHits := s.unresponsiveHits.erase f.job.peer }, n1.announceAvailability w.ord)

/-- The source has the segment but may not give it out yet. -/
def reapRetryable (now : ℕ) (f : Finished) (s : Scheduler) : Scheduler :=
  { s with
    retryAfter := s.retryAfter.insert (f.job.filename, f.job.peer) (now + FAIL_RETRY_COOLDOWN)
    tried := s.tried.modify f.job.filename fun t => t.erase f.job.peer
    queue := s.queue ++ [f.job.filename] }

def Scheduler.hits (s : Scheduler) (p : SocketAddr) : ℕ := (s.unresponsiveHits.lookup p).getD 0

/-- A failed job whose source did not answer, for the third time running. -/
def evicts (f : Finished) (s : Scheduler) : Bool :=
  f.unresponsive ∧ s.hits f.job.peer + 1 ≥ EVICT_AFTER_UNRESPONSIVE

/-- Count a source that did not answer, and evict it when it has become a pattern. -/
def countUnresponsive (f : Finished) (n : Node) (s : Scheduler) : Node × Scheduler :=
  let peer := f.job.peer
  if evicts f s then
    (n.removePeer peer, { s with unresponsiveHits := s.unresponsiveHits.erase peer })
  else if f.unresponsive then
    (n, { s with unresponsiveHits := s.unresponsiveHits.insert peer (s.hits peer + 1) })
  else (n, { s with unresponsiveHits := s.unresponsiveHits.erase peer })

/-- Whether the reap step judges that another peer can be tried: by raw addresses. -/
def anyUntried (P : PeerConfig) (n : Node) (s : Scheduler) (filename : String) : Bool :=
  n.peers.keys.any fun p => p ≠ P.localAddr ∧ s.untried filename p

/-- Try the file elsewhere, or give it up for a while. -/
def reapFailed (P : PeerConfig) (now : ℕ) (f : Finished) (n : Node) (s : Scheduler) :
    Node × Scheduler :=
  let (n1, s1) := countUnresponsive f n s
  if anyUntried P n1 s1 f.job.filename then
    (n1, { s1 with queue := f.job.filename :: s1.queue })
  else (n1, { s1 with
    queued := s1.queued.erase f.job.filename
    tried := s1.tried.erase f.job.filename
    failedAt := s1.failedAt.insert f.job.filename now })

/-- Collect one finished download. -/
def reapJob (P : PeerConfig) (w : World) (now : ℕ) (f : Finished) (n : Node) (s : Scheduler) :
    Node × Scheduler × Outbox :=
  let (n1, s1) := collect w f n s
  match f.result with
  | .ok => reapOk P (w.after 2) f n1 s1
  | .retryableNotFound => (n1, reapRetryable now f s1, [])
  | _ =>
    let (n2, s2) := reapFailed P now f n1 s1
    (n2, s2, [])

/-- One turn of the loop that fills free slots; the flag says whether it goes on. -/
def fillStep (P : PeerConfig) (ids : TransferRegistry.IdSource) (w : World) (n : Node)
    (s : Scheduler) : Node × Scheduler × Outbox × Bool :=
  if s.active.len ≥ MAX_PARALLEL_DOWNLOADS then (n, s, [], false)
  else match s.queue with
    | [] => (n, s, [], false)
    | filename :: rest =>
      match pickPeer P n s w.ord (w.clk 0) filename with
      | (none, rng) => (n, { s with rng := rng }, [], false)
      | (some peer, rng) =>
        match n.registry.startReceiver P.settings.transfer ids (w.after 1).clk peer filename with
        | (reg, sent, some id) =>
          ({ n with registry := reg }, { s with
            queue := rest
            active := s.active.insert id ⟨filename, peer⟩
            tried := s.tried.insert filename (insert peer ((s.tried.lookup filename).getD ∅))
            rng := rng }, sent, true)
        | (reg, sent, none) => ({ n with registry := reg }, { s with rng := rng }, sent, false)

/-- The loop that fills free slots: every turn that goes on shortens the queue, so as many
turns as it is long are enough. -/
def fillLoop (P : PeerConfig) (ids : TransferRegistry.IdSource) :
    ℕ → World → Node → Scheduler → Node × Scheduler × Outbox
  | 0, _, n, s => (n, s, [])
  | k + 1, w, n, s =>
    match fillStep P ids w n s with
    | (n1, s1, sent, true) =>
      let (n2, s2, sent') := fillLoop P ids k (w.after 2) n1 s1
      (n2, s2, sent ++ sent')
    | (n1, s1, sent, false) => (n1, s1, sent)

def fill (P : PeerConfig) (ids : TransferRegistry.IdSource) (w : World) (n : Node)
    (s : Scheduler) : Node × Scheduler × Outbox :=
  fillLoop P ids s.queue.length w n s

/-- Collect finished downloads one after the other. -/
def reapAll (P : PeerConfig) (w : World) (now : ℕ) :
    List Finished → Node → Scheduler → Node × Scheduler × Outbox
  | [], n, s => (n, s, [])
  | f :: fs, n, s =>
    let (n1, s1, sent) := reapJob P w now f n s
    let (n2, s2, sent') := reapAll P (w.after 8) now fs n1 s1
    (n2, s2, sent ++ sent')

/-- Collect finished downloads, then fill free slots. -/
def scheduleJobs (P : PeerConfig) (ids : TransferRegistry.IdSource) (w wf : World) (now : ℕ)
    (n : Node) (s : Scheduler) : Node × Scheduler × Outbox :=
  let (n1, s1, sent) := reapAll P w now (finishedJobs w.ord n s) n s
  let (n2, s2, sent') := fill P ids wf n1 s1
  (n2, s2, sent ++ sent')

/-! What one turn of the fill loop and one collected job do. -/

theorem startReceiver_room (cfg : Settings) (ids : TransferRegistry.IdSource) (clk : Clock)
    {reg : TransferRegistry} (h : reg.activeCount < MAX_CONCURRENT_TRANSFERS)
    (remote : SocketAddr) (filename : String) :
    ∃ r, reg.startReceiver cfg ids clk remote filename =
      ({ reg with receivers := reg.receivers.insert (ids.draw reg) r },
        [(.segmentRequest (ids.draw reg) filename, remote)], some (ids.draw reg)) :=
  ⟨.new cfg clk (ids.draw reg) remote filename, by
    simp [TransferRegistry.startReceiver, Nat.not_le.mpr h]⟩

/-- The scheduler after a pull of the first queued file from `peer` was started. -/
def Scheduler.started (s : Scheduler) (id : ℕ) (filename : String) (rest : List String)
    (peer : SocketAddr) (rng : UInt64) : Scheduler :=
  { s with
    queue := rest
    active := s.active.insert id ⟨filename, peer⟩
    tried := s.tried.insert filename (insert peer ((s.tried.lookup filename).getD ∅))
    rng := rng }

/-- A turn of the loop starts a pull of the front file when there is a slot, room in the
registry and a source; otherwise it changes nothing but the generator, and stops. -/
theorem fillStep_cases (P : PeerConfig) (ids : TransferRegistry.IdSource) (w : World) (n : Node)
    (s : Scheduler) :
    (∃ rng, fillStep P ids w n s = (n, { s with rng := rng }, [], false)) ∨
    ∃ filename rest peer rng r, s.queue = filename :: rest ∧
      s.active.len < MAX_PARALLEL_DOWNLOADS ∧
      n.registry.activeCount < MAX_CONCURRENT_TRANSFERS ∧
      (pickPeer P n s w.ord (w.clk 0) filename).1 = some peer ∧
      fillStep P ids w n s =
        (n.addReceiver (ids.draw n.registry) r, s.started (ids.draw n.registry) filename rest peer rng,
          [(.segmentRequest (ids.draw n.registry) filename, peer)], true) := by
  by_cases hact : s.active.len ≥ MAX_PARALLEL_DOWNLOADS
  · have h : fillStep P ids w n s = (n, s, [], false) := by simp only [fillStep, if_pos hact]
    exact .inl ⟨s.rng, h⟩
  by_cases hnil : s.queue = []
  · have h : fillStep P ids w n s = (n, s, [], false) := by
      simp only [fillStep, if_neg hact, hnil]
    exact .inl ⟨s.rng, h⟩
  obtain ⟨filename, rest, hq⟩ := List.exists_cons_of_ne_nil hnil
  rcases hpick : pickPeer P n s w.ord (w.clk 0) filename with ⟨_ | peer, rng⟩
  · exact .inl ⟨rng, by simp only [fillStep, if_neg hact, hq, hpick]⟩
  rcases Nat.lt_or_ge n.registry.activeCount MAX_CONCURRENT_TRANSFERS with hroom | hfull
  · obtain ⟨r, hstart⟩ := startReceiver_room P.settings.transfer ids (w.after 1).clk hroom peer
      filename
    exact .inr ⟨filename, rest, peer, rng, r, hq, by omega, hroom, by rw [hpick], by
      simp only [fillStep, if_neg hact, hq, hpick, hstart, Scheduler.started, Node.addReceiver]⟩
  · have hstart : n.registry.startReceiver P.settings.transfer ids (w.after 1).clk peer filename =
        (n.registry, [], none) := by simp [TransferRegistry.startReceiver, hfull]
    exact .inl ⟨rng, by simp only [fillStep, if_neg hact, hq, hpick, hstart]⟩

/-- Whether a collected job has definitively failed. -/
def Finished.Failed (f : Finished) : Prop := f.result ≠ .ok ∧ f.result ≠ .retryableNotFound

/-- The node after a failed job's source was counted, and perhaps evicted. -/
def afterEviction (f : Finished) (n : Node) (s : Scheduler) : Node :=
  if evicts f s then n.removePeer f.job.peer else n

theorem countUnresponsive_spec (f : Finished) (n : Node) (s : Scheduler) :
    ∃ hits, countUnresponsive f n s =
      (afterEviction f n s, { s with unresponsiveHits := hits }) := by
  unfold countUnresponsive afterEviction
  split
  · exact ⟨_, rfl⟩
  · split <;> exact ⟨_, rfl⟩

/-- A failed job goes back to the front of the queue, or is given up for a while. -/
theorem reapFailed_spec (P : PeerConfig) (now : ℕ) (f : Finished) (n : Node) (s : Scheduler) :
    ∃ hits, reapFailed P now f n s = (afterEviction f n s,
      if anyUntried P (afterEviction f n s) s f.job.filename then
        { s with unresponsiveHits := hits, queue := f.job.filename :: s.queue }
      else { s with
        unresponsiveHits := hits
        queued := s.queued.erase f.job.filename
        tried := s.tried.erase f.job.filename
        failedAt := s.failedAt.insert f.job.filename now }) := by
  obtain ⟨hits, hcount⟩ := countUnresponsive_spec f n s
  refine ⟨hits, ?_⟩
  have hany : anyUntried P (afterEviction f n s) { s with unresponsiveHits := hits }
      f.job.filename = anyUntried P (afterEviction f n s) s f.job.filename := rfl
  simp only [reapFailed, hcount, hany]
  split <;> rfl

theorem reapJob_failed (P : PeerConfig) (w : World) (now : ℕ) {f : Finished} (hf : f.Failed)
    (n : Node) (s : Scheduler) :
    ∃ hits, reapJob P w now f n s = (afterEviction f (collect w f n s).1 s,
      (if anyUntried P (afterEviction f (collect w f n s).1 s) s f.job.filename then
        { s with
          active := s.active.erase f.id
          unresponsiveHits := hits
          queue := f.job.filename :: s.queue }
      else { s with
        active := s.active.erase f.id
        unresponsiveHits := hits
        queued := s.queued.erase f.job.filename
        tried := s.tried.erase f.job.filename
        failedAt := s.failedAt.insert f.job.filename now }), []) := by
  obtain ⟨hits, hspec⟩ := reapFailed_spec P now f (collect w f n s).1
    { s with active := s.active.erase f.id }
  refine ⟨hits, ?_⟩
  have hjob : reapJob P w now f n s =
      ((reapFailed P now f (collect w f n s).1 { s with active := s.active.erase f.id }).1,
        (reapFailed P now f (collect w f n s).1 { s with active := s.active.erase f.id }).2, []) := by
    unfold reapJob
    cases hres : f.result with
    | ok => exact absurd hres hf.1
    | retryableNotFound => exact absurd hres hf.2
    | _ => rfl
  -- neither the eviction nor the test for an untried peer looks at the active jobs
  rw [hjob, hspec]
  rfl

@[simp] theorem recordPull_registry (n : Node) (clk : Clock) (p : SocketAddr) (res : PullResult)
    (latency : Option ℕ) (bytes : ℕ) :
    (n.recordPull clk p res latency bytes).registry = n.registry := by
  cases res <;> rfl

@[simp] theorem collect_peers (w : World) (f : Finished) (n : Node) (s : Scheduler) :
    (collect w f n s).1.peers = n.peers := by
  unfold collect
  cases f.outcome <;> simp

theorem collect_receivers (w : World) (f : Finished) (n : Node) (s : Scheduler) {id : ℕ}
    (h : id ≠ f.id) :
    (collect w f n s).1.registry.receivers.lookup id = n.registry.receivers.lookup id := by
  unfold collect
  cases f.outcome with
  | ok u => simp
  | error e => simp [TransferRegistry.removeReceiver, h]

theorem afterEviction_registry (f : Finished) (n : Node) (s : Scheduler) :
    (afterEviction f n s).registry = n.registry := by
  unfold afterEviction
  split <;> rfl

theorem afterEviction_peers {n n' : Node} (h : n'.peers = n.peers) (f : Finished) (s : Scheduler) :
    (afterEviction f n' s).peers = (afterEviction f n s).peers := by
  unfold afterEviction
  split
  · simp only [Node.removePeer, h]
  · exact h

section Reap
variable (P : PeerConfig) (w : World) (now : ℕ) (f : Finished) (n : Node) (s : Scheduler)

/-- Collecting a job takes it, and no other, out of the active ones. -/
theorem reapJob_active : (reapJob P w now f n s).2.1.active = s.active.erase f.id := by
  cases hres : f.result with
  | ok => simp only [reapJob, hres, reapOk, collect]
  | retryableNotFound => simp only [reapJob, hres, reapRetryable, collect]
  | _ =>
    have hf : f.Failed := ⟨by simp [hres], by simp [hres]⟩
    obtain ⟨hits, hspec⟩ := reapJob_failed P w now hf n s
    rw [hspec]
    simp only
    split <;> rfl

/-- Collecting a saved segment refreshes the playlist; no other job touches the files. -/
theorem reapJob_registry : (reapJob P w now f n s).1.registry =
    { (collect w f n s).1.registry with
      dir := if f.result = .ok then
          (refreshPlaybackManifest (w.after 2) n.registry.dir P.playbackHoldback).1
        else n.registry.dir } := by
  have hdir : (collect w f n s).1.registry.dir = n.registry.dir := by
    unfold collect
    cases f.outcome <;> simp [TransferRegistry.removeReceiver]
  cases hres : f.result with
  | ok => simp only [reapJob, hres, reapOk, Node.withDir, hdir, if_true]
  | retryableNotFound => simp [reapJob, hres, ← hdir]
  | _ =>
    have hf : f.Failed := ⟨by simp [hres], by simp [hres]⟩
    obtain ⟨hits, hspec⟩ := reapJob_failed P w now hf n s
    rw [hspec, afterEviction_registry]
    simp [← hdir]

theorem reapJob_receivers {id : ℕ} (h : id ≠ f.id) :
    (reapJob P w now f n s).1.registry.receivers.lookup id = n.registry.receivers.lookup id := by
  rw [reapJob_registry, collect_receivers w f n s h]

/-- What collecting a job does to the queue and the known peers: a saved file leaves the
queue alone, one to come back for goes to its end, a failed one to its front or nowhere. -/
theorem reapJob_cases :
    let S' := (reapJob P w now f n s).2.1
    let peers' := (reapJob P w now f n s).1.peers
    (f.result = .ok ∧ S'.queue = s.queue ∧ S'.queued = s.queued.erase f.job.filename ∧
      peers' = n.peers) ∨
    (f.result = .retryableNotFound ∧ S'.queue = s.queue ++ [f.job.filename] ∧
      S'.queued = s.queued ∧ peers' = n.peers) ∨
    (f.Failed ∧ peers' = (afterEviction f n s).peers ∧
      ((S'.queue = f.job.filename :: s.queue ∧ S'.queued = s.queued) ∨
        (S'.queue = s.queue ∧ S'.queued = s.queued.erase f.job.filename))) := by
  cases hres : f.result with
  | ok =>
    refine .inl ⟨rfl, ?_⟩
    simp [reapJob, hres, reapOk, collect, Node.withDir]
    cases f.outcome <;> simp
  | retryableNotFound =>
    refine .inr (.inl ⟨rfl, ?_⟩)
    simp [reapJob, hres, reapRetryable, collect]
    cases f.outcome <;> simp
  | _ =>
    have hf : f.Failed := ⟨by simp [hres], by simp [hres]⟩
    refine .inr (.inr ⟨hf, ?_⟩)
    obtain ⟨hits, hspec⟩ := reapJob_failed P w now hf n s
    rw [hspec]
    refine ⟨afterEviction_peers (collect_peers w f n s) f s, ?_⟩
    simp only
    split
    · exact .inl ⟨rfl, rfl⟩
    · exact .inr ⟨rfl, rfl⟩

end Reap
end Qstream

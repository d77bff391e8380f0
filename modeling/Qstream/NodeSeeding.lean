import Qstream.NodeHandle
import Qstream.Runs

/-! Origin seeding: how many peers a master seeds one file to. A requester gets a lease while
the lease holders of its reachability class are fewer than the limit, and beyond it when
nobody else could serve it. -/
namespace Qstream
open Transfer Runs

namespace Node

/-- The lease holders of a file. -/
def leases (n : Node) (filename : String) : Finset SocketAddr :=
  (n.originSeeders.lookup filename).getD ∅

/-- A peer that is known, has a fresh path and has not said it lacks the file. -/
def viable (n : Node) (filename : String) (now : ℕ) (c : SocketAddr) : Bool :=
  c ∈ n.peers ∧ n.pathFresh c now ∧ n.peerAvailability c filename now ≠ some false

def viableLeases (n : Node) (filename : String) (now : ℕ) : Finset SocketAddr :=
  (n.leases filename).filter fun c => n.viable filename now c

/-- The viable lease holders of the requester's class. -/
def classHolders (n : Node) (filename : String) (now : ℕ) (peer : SocketAddr) :
    Finset SocketAddr :=
  (n.viableLeases filename now).filter fun c => remotePublic c = remotePublic peer

/-- Another known peer of the class has a fresh path and says it has the file. -/
def otherSource (n : Node) (filename : String) (now : ℕ) (peer : SocketAddr) : Bool :=
  n.peers.keys.any fun c => c ≠ peer ∧ remotePublic c = remotePublic peer ∧
    n.pathFresh c now ∧ n.peerAvailability c filename now = some true

/-- How a request fares with the origin. -/
inductive Admission
  | exempt
  | holder
  | leased
  | recovery
  | denied
  deriving DecidableEq, Repr

def admission (n : Node) (cfg : NodeSettings) (clk : Clock) (filename : String)
    (peer : SocketAddr) : Admission :=
  if n.role ≠ .master ∨ ¬ n.registry.hasSegment filename then .exempt
  else if peer ∈ n.viableLeases filename (clk 0) then .holder
  else if (n.classHolders filename (clk 0) peer).card < cfg.originSeeders then .leased
  else if ¬ n.otherSource filename (clk 1) peer then .recovery
  else .denied

/-- The leases of the requested file after each kind of admission. -/
def leasesAfter (n : Node) (filename : String) (now : ℕ) (peer : SocketAddr) :
    Admission → Finset SocketAddr
  | .exempt => n.leases filename
  | .holder | .denied => n.viableLeases filename now
  | .leased | .recovery => insert peer (n.viableLeases filename now)

variable {n : Node} {cfg : NodeSettings} {clk : Clock} {filename : String} {peer : SocketAddr}

theorem seedLeaseAllowed_iff (now : ℕ) :
    seedLeaseAllowed (n.classHolders filename now peer) peer cfg.originSeeders = true ↔
      peer ∈ n.viableLeases filename now ∨
        (n.classHolders filename now peer).card < cfg.originSeeders := by
  simp [seedLeaseAllowed, classHolders]

/-- `origin_seed_allowed` by the kind of admission. -/
theorem originSeedAllowed_eq (n : Node) (cfg : NodeSettings) (clk : Clock) (filename : String)
    (peer : SocketAddr) :
    n.originSeedAllowed cfg clk filename peer =
      let kept := n.originSeeders.insert filename (n.viableLeases filename (clk 0))
      let leased := n.originSeeders.insert filename (insert peer (n.viableLeases filename (clk 0)))
      match n.admission cfg clk filename peer with
      | .exempt => (n, true)
      | .holder => ({ n with originSeeders := kept }, true)
      | .leased | .recovery => ({ n with
          originSeeders := leased, originSeedAssignments := n.originSeedAssignments + 1 }, true)
      | .denied => ({ n with
          originSeeders := kept, originSeedDenials := n.originSeedDenials + 1 }, false) := by
  have hviable : ((n.originSeeders.lookup filename).getD ∅).filter (fun c =>
      c ∈ n.peers ∧ n.pathFresh c (clk 0) ∧ n.peerAvailability c filename (clk 0) ≠ some false) =
      n.viableLeases filename (clk 0) := by
    refine Finset.filter_congr fun c _ => ?_
    simp [viable]
  have hclass : (n.viableLeases filename (clk 0)).filter (fun c =>
      remotePublic c = remotePublic peer) = n.classHolders filename (clk 0) peer := rfl
  have hother : (n.peers.keys.any fun c => c ≠ peer ∧ remotePublic c = remotePublic peer ∧
      n.pathFresh c (clk 1) ∧ n.peerAvailability c filename (clk 1) = some true) =
      n.otherSource filename (clk 1) peer := rfl
  unfold originSeedAllowed admission
  simp only [hviable, hclass, hother, seedLeaseAllowed_iff]
  by_cases hexempt : n.role ≠ .master ∨ ¬ n.registry.hasSegment filename = true
  · simp only [if_pos hexempt]
  simp only [if_neg hexempt]
  by_cases hholder : peer ∈ n.viableLeases filename (clk 0)
  · simp only [hholder, true_or, if_true]
  by_cases hroom : (n.classHolders filename (clk 0) peer).card < cfg.originSeeders
  · simp only [hholder, hroom, or_true, if_true, if_false]
  cases hsource : n.otherSource filename (clk 1) peer
  · simp [hholder, hroom]
  · simp [hholder, hroom]

/-- A request is allowed unless it is denied. -/
theorem originSeedAllowed_result (n : Node) (cfg : NodeSettings) (clk : Clock)
    (filename : String) (peer : SocketAddr) :
    (n.originSeedAllowed cfg clk filename peer).2 = true ↔
      n.admission cfg clk filename peer ≠ .denied := by
  rw [originSeedAllowed_eq]
  cases n.admission cfg clk filename peer <;> simp

theorem leases_insert {m : HashMap String (Finset SocketAddr)} (f : String)
    (X : Finset SocketAddr) :
    ((m.insert filename X).lookup f).getD ∅ = if f = filename then X else (m.lookup f).getD ∅ := by
  rw [HashMap.lookup_insert']
  split <;> rfl

theorem leases_originSeedAllowed (n : Node) (cfg : NodeSettings) (clk : Clock)
    (filename : String) (peer : SocketAddr) (f : String) :
    (n.originSeedAllowed cfg clk filename peer).1.leases f =
      if f = filename then
        n.leasesAfter filename (clk 0) peer (n.admission cfg clk filename peer)
      else n.leases f := by
  rw [originSeedAllowed_eq]
  cases n.admission cfg clk filename peer with
  | exempt =>
    by_cases hf : f = filename
    · simp [hf, leasesAfter]
    · simp [hf]
  | holder => exact leases_insert f _
  | leased => exact leases_insert f _
  | recovery => exact leases_insert f _
  | denied => exact leases_insert f _

theorem admission_denied :
    n.admission cfg clk filename peer = .denied ↔
      n.role = .master ∧ n.registry.hasSegment filename ∧
        peer ∉ n.viableLeases filename (clk 0) ∧
        cfg.originSeeders ≤ (n.classHolders filename (clk 0) peer).card ∧
        n.otherSource filename (clk 1) peer = true := by
  unfold admission
  split
  next hexempt => exact iff_of_false (by simp) fun h => by simp [h.1, h.2.1] at hexempt
  next hmaster =>
  split
  next hholder => exact iff_of_false (by simp) fun h => h.2.2.1 hholder
  next hholder =>
  split
  next hroom => exact iff_of_false (by simp) fun h => absurd hroom (Nat.not_lt.mpr h.2.2.2.1)
  next hroom =>
  split
  next hsource => exact iff_of_false (by simp) fun h => hsource h.2.2.2.2
  next hsource =>
    refine iff_of_true rfl ⟨?_, ?_, hholder, Nat.le_of_not_lt hroom, not_not.mp hsource⟩
    · by_contra h
      exact hmaster (.inl h)
    · by_contra h
      exact hmaster (.inr h)

theorem mem_viableLeases {now : ℕ} {c : SocketAddr} :
    c ∈ n.viableLeases filename now ↔ c ∈ n.leases filename ∧ n.viable filename now c :=
  Finset.mem_filter

theorem mem_classHolders {now : ℕ} {c : SocketAddr} :
    c ∈ n.classHolders filename now peer ↔
      c ∈ n.viableLeases filename now ∧ remotePublic c = remotePublic peer :=
  Finset.mem_filter

theorem leasesAfter_subset (n : Node) (filename : String) (now : ℕ) (peer : SocketAddr)
    (a : Admission) : n.leasesAfter filename now peer a ⊆ insert peer (n.leases filename) := by
  have hviable : n.viableLeases filename now ⊆ n.leases filename := Finset.filter_subset _ _
  cases a with
  | exempt => exact Finset.subset_insert _ _
  | holder => exact hviable.trans (Finset.subset_insert _ _)
  | denied => exact hviable.trans (Finset.subset_insert _ _)
  | leased => exact Finset.insert_subset_insert _ hviable
  | recovery => exact Finset.insert_subset_insert _ hviable

theorem viableLeases_subset_leasesAfter (n : Node) (filename : String) (now : ℕ)
    (peer : SocketAddr) (a : Admission) :
    n.viableLeases filename now ⊆ n.leasesAfter filename now peer a := by
  cases a with
  | exempt => exact Finset.filter_subset _ _
  | holder => exact Finset.Subset.refl _
  | denied => exact Finset.Subset.refl _
  | leased => exact Finset.subset_insert _ _
  | recovery => exact Finset.subset_insert _ _

/-- What one call of `origin_seed_allowed` may do. -/
structure SafeAdmission (n : Node) (cfg : NodeSettings) (clk : Clock) (filename : String)
    (peer : SocketAddr) : Prop where
  denied : (n.originSeedAllowed cfg clk filename peer).2 = false →
    (∃ H : Finset SocketAddr, cfg.originSeeders ≤ H.card ∧ ∀ c ∈ H, c ≠ peer ∧
      remotePublic c = remotePublic peer ∧ c ∈ n.leases filename ∧ n.viable filename (clk 0) c) ∧
    ∃ c ∈ n.peers, c ≠ peer ∧ remotePublic c = remotePublic peer ∧ n.pathFresh c (clk 1) ∧
      n.peerAvailability c filename (clk 1) = some true
  granted : ∀ f, ∀ c ∈ (n.originSeedAllowed cfg clk filename peer).1.leases f,
    c ∈ n.leases f ∨
      f = filename ∧ c = peer ∧ (n.originSeedAllowed cfg clk filename peer).2 = true
  kept : ∀ c ∈ n.leases filename, n.viable filename (clk 0) c →
    c ∈ (n.originSeedAllowed cfg clk filename peer).1.leases filename
  others : ∀ f ≠ filename,
    (n.originSeedAllowed cfg clk filename peer).1.leases f = n.leases f

theorem safeAdmission (n : Node) (cfg : NodeSettings) (clk : Clock) (filename : String)
    (peer : SocketAddr) : SafeAdmission n cfg clk filename peer where
  denied := by
    intro hfalse
    have hdenied : n.admission cfg clk filename peer = .denied := by
      by_contra h
      rw [(originSeedAllowed_result n cfg clk filename peer).mpr h] at hfalse
      cases hfalse
    obtain ⟨-, -, hholder, hfull, hsource⟩ := admission_denied.mp hdenied
    refine ⟨⟨n.classHolders filename (clk 0) peer, hfull, fun c hc => ?_⟩, ?_⟩
    · obtain ⟨hv, hclass⟩ := mem_classHolders.mp hc
      obtain ⟨hlease, hviable⟩ := mem_viableLeases.mp hv
      exact ⟨fun heq => hholder (heq ▸ hv), hclass, hlease, hviable⟩
    · obtain ⟨c, hc, hprops⟩ := List.any_eq_true.mp hsource
      simp only [decide_eq_true_eq] at hprops
      exact ⟨c, AList.mem_keys.mpr hc, hprops⟩
  granted := by
    intro f c hc
    rw [leases_originSeedAllowed] at hc
    split at hc
    next hf =>
      subst hf
      by_cases hold : c ∈ n.leases f
      · exact .inl hold
      have hpeer : c = peer :=
        (Finset.mem_insert.mp (leasesAfter_subset n f (clk 0) peer _ hc)).resolve_right hold
      refine .inr ⟨rfl, hpeer, (originSeedAllowed_result n cfg clk f peer).mpr fun hdenied => ?_⟩
      rw [hdenied] at hc
      exact hold (mem_viableLeases.mp hc).1
    next => exact .inl hc
  kept := by
    intro c hc hviable
    rw [leases_originSeedAllowed, if_pos rfl]
    exact viableLeases_subset_leasesAfter _ _ _ _ _ (mem_viableLeases.mpr ⟨hc, hviable⟩)
  others := by
    intro f hf
    rw [leases_originSeedAllowed, if_neg hf]

end Node

/-- A node with the leases whose last grant was a recovery seed. -/
structure Seeding where
  node : Node
  recovered : Finset (String × SocketAddr)

/-- A call of `origin_seed_allowed`, or anything else that happens to the node. -/
inductive SeedEvent
  | request (clk : Clock) (filename : String) (peer : SocketAddr)
  | change (n' : Node)

namespace Seeding
open Node

def apply (cfg : NodeSettings) (S : Seeding) : SeedEvent → Seeding
  | .request clk filename peer =>
    ⟨(S.node.originSeedAllowed cfg clk filename peer).1,
      match S.node.admission cfg clk filename peer with
      | .leased => S.recovered.erase (filename, peer)
      | .recovery => insert (filename, peer) S.recovered
      | _ => S.recovered⟩
  | .change n' => ⟨n', S.recovered⟩

/-- Nothing but `origin_seed_allowed` grants a lease. -/
inductive Step (cfg : NodeSettings) : Seeding → SeedEvent → Seeding → Prop
  | request (S : Seeding) (clk : Clock) (filename : String) (peer : SocketAddr) :
    Step cfg S (.request clk filename peer) (S.apply cfg (.request clk filename peer))
  | change (S : Seeding) (n' : Node) (h : ∀ f, n'.leases f ⊆ S.node.leases f) :
    Step cfg S (.change n') (S.apply cfg (.change n'))

/-- The leases of one class on a file that were granted within the limit. -/
def regular (S : Seeding) (filename : String) (remote : Bool) : Finset SocketAddr :=
  (S.node.leases filename).filter fun c =>
    remotePublic c = remote ∧ (filename, c) ∉ S.recovered

/-- The recovery seeds of one class on a file. -/
def recoverySeeds (S : Seeding) (filename : String) (remote : Bool) : Finset SocketAddr :=
  (S.node.leases filename).filter fun c =>
    remotePublic c = remote ∧ (filename, c) ∈ S.recovered

def Bounded (cfg : NodeSettings) (S : Seeding) : Prop :=
  ∀ f b, (S.regular f b).card ≤ cfg.originSeeders

theorem mem_regular {S : Seeding} {f : String} {b : Bool} {c : SocketAddr} :
    c ∈ S.regular f b ↔ c ∈ S.node.leases f ∧ remotePublic c = b ∧ (f, c) ∉ S.recovered :=
  Finset.mem_filter

/-- A request with no new regular lease of this class on this file. -/
theorem card_regular_of_subset {S S' : Seeding} {f : String} {b : Bool} {limit : ℕ}
    (h : ∀ c ∈ S'.regular f b, c ∈ S.regular f b) (hS : (S.regular f b).card ≤ limit) :
    (S'.regular f b).card ≤ limit := (Finset.card_le_card h).trans hS

variable {cfg : NodeSettings} {S : Seeding} {clk : Clock} {filename : String} {peer : SocketAddr}

theorem request_other_file {f : String} (hf : f ≠ filename) (b : Bool) :
    ∀ c ∈ (S.apply cfg (.request clk filename peer)).regular f b, c ∈ S.regular f b := by
  intro c hc
  obtain ⟨hlease, hclass, hnot⟩ := mem_regular.mp hc
  have hpair : (f, c) ≠ (filename, peer) := fun h => hf (congrArg Prod.fst h)
  refine mem_regular.mpr ⟨?_, hclass, fun hrec => hnot ?_⟩
  · simpa [apply, leases_originSeedAllowed, hf] using hlease
  · simp only [apply]
    cases S.node.admission cfg clk filename peer with
    | leased => exact Finset.mem_erase.mpr ⟨hpair, hrec⟩
    | recovery => exact Finset.mem_insert_of_mem hrec
    | _ => exact hrec

/-- What the leases and the recovery seeds of the requested file become. -/
theorem request_same_file {b : Bool} {c : SocketAddr}
    (hc : c ∈ (S.apply cfg (.request clk filename peer)).regular filename b) :
    c ∈ S.regular filename b ∨ c = peer ∧ remotePublic peer = b ∧
      S.node.admission cfg clk filename peer = .leased := by
  obtain ⟨hlease, hclass, hnot⟩ := mem_regular.mp hc
  simp only [apply, leases_originSeedAllowed, if_true] at hlease hnot
  cases ha : S.node.admission cfg clk filename peer with
  | exempt =>
    rw [ha] at hlease hnot
    exact .inl (mem_regular.mpr ⟨hlease, hclass, hnot⟩)
  | holder =>
    rw [ha] at hlease hnot
    exact .inl (mem_regular.mpr ⟨(mem_viableLeases.mp hlease).1, hclass, hnot⟩)
  | denied =>
    rw [ha] at hlease hnot
    exact .inl (mem_regular.mpr ⟨(mem_viableLeases.mp hlease).1, hclass, hnot⟩)
  | leased =>
    rw [ha] at hlease hnot
    by_cases hpeer : c = peer
    · exact .inr ⟨hpeer, hpeer ▸ hclass, rfl⟩
    · have hv := (Finset.mem_insert.mp hlease).resolve_left hpeer
      have hpair : (filename, c) ≠ (filename, peer) := fun h => hpeer (congrArg Prod.snd h)
      exact .inl (mem_regular.mpr ⟨(mem_viableLeases.mp hv).1, hclass,
        fun hrec => hnot (Finset.mem_erase.mpr ⟨hpair, hrec⟩)⟩)
  | recovery =>
    rw [ha] at hlease hnot
    have hpeer : c ≠ peer := fun h => hnot (h ▸ Finset.mem_insert_self _ _)
    have hv := (Finset.mem_insert.mp hlease).resolve_left hpeer
    exact .inl (mem_regular.mpr ⟨(mem_viableLeases.mp hv).1, hclass,
      fun hrec => hnot (Finset.mem_insert_of_mem hrec)⟩)

theorem admission_leased_room (h : S.node.admission cfg clk filename peer = .leased) :
    (S.node.classHolders filename (clk 0) peer).card < cfg.originSeeders := by
  unfold admission at h
  split at h
  next => cases h
  split at h
  next => cases h
  split at h
  next hroom => exact hroom
  split at h
  next => cases h
  next => cases h

/-- A regular lease is granted only while the viable leases of the class are below the limit. -/
theorem request_leased (h : S.node.admission cfg clk filename peer = .leased) :
    ((S.apply cfg (.request clk filename peer)).regular filename (remotePublic peer)).card ≤
      cfg.originSeeders := by
  have hsub : (S.apply cfg (.request clk filename peer)).regular filename (remotePublic peer) ⊆
      insert peer (S.node.classHolders filename (clk 0) peer) := by
    intro c hc
    obtain ⟨hlease, hclass, -⟩ := mem_regular.mp hc
    simp only [apply, leases_originSeedAllowed, if_true, h] at hlease
    rcases Finset.mem_insert.mp hlease with rfl | hv
    · exact Finset.mem_insert_self _ _
    · exact Finset.mem_insert_of_mem (mem_classHolders.mpr ⟨hv, hclass⟩)
  have hroom := admission_leased_room h
  have hcard := (Finset.card_le_card hsub).trans (Finset.card_insert_le _ _)
  omega

theorem Step.bounded {S' : Seeding} {e : SeedEvent} (h : Step cfg S e S') (hS : S.Bounded cfg) :
    S'.Bounded cfg := by
  intro f b
  cases h with
  | change n' hsub =>
    refine card_regular_of_subset (fun c hc => ?_) (hS f b)
    obtain ⟨hlease, hclass, hnot⟩ := mem_regular.mp hc
    exact mem_regular.mpr ⟨hsub f hlease, hclass, hnot⟩
  | request clk filename peer =>
    by_cases hf : f = filename
    · subst hf
      by_cases hleased : S.node.admission cfg clk f peer = .leased ∧ remotePublic peer = b
      · obtain ⟨hleased, rfl⟩ := hleased
        exact request_leased hleased
      · refine card_regular_of_subset (fun c hc => ?_) (hS f b)
        rcases request_same_file hc with hold | ⟨-, hclass, ha⟩
        · exact hold
        · exact absurd ⟨ha, hclass⟩ hleased
    · exact card_regular_of_subset (request_other_file hf b) (hS f b)

/-- The leases of a class are the regular ones and the recovery seeds. -/
theorem card_leases (S : Seeding) (f : String) (b : Bool) :
    ((S.node.leases f).filter fun c => remotePublic c = b).card =
      (S.regular f b).card + (S.recoverySeeds f b).card := by
  have hsplit := Finset.card_filter_add_card_filter_not
    (s := (S.node.leases f).filter fun c => remotePublic c = b) fun c => (f, c) ∈ S.recovered
  rw [Finset.filter_filter, Finset.filter_filter] at hsplit
  rw [regular, recoverySeeds, ← hsplit, Nat.add_comm]

/-! What a node does is made of such steps: its own handling of a datagram grants leases by
`origin_seed_allowed` only, and its timers grant none. -/

theorem Step.change_of_eq {n : Node} (h : n.originSeeders = S.node.originSeeders) :
    Step cfg S (.change n) ⟨n, S.recovered⟩ :=
  .change S n fun f => by rw [leases, leases, h]

theorem discover_originSeeders (n : Node) (clk : Clock) (src : SocketAddr) (name : String) :
    (n.discover clk src name).originSeeders = n.originSeeders := by
  unfold discover
  split
  · split <;> rfl
  · rfl

theorem handle_originSeeders (n : Node) (w : World) {m : Message} (src : SocketAddr)
    (hm : ∀ id filename, m ≠ .segmentRequest id filename) :
    (n.handle cfg w m src).1.originSeeders = n.originSeeders := by
  cases m with
  | segmentRequest id filename => exact absurd rfl (hm id filename)
  | ping nonce name =>
    simp only [handle]
    split
    · rfl
    · exact discover_originSeeders _ _ _ _
  | pong availability => cases availability <;> rfl
  | segmentNotFound id availability retryable =>
    simp only [handle]
    split
    · unfold recordMissing
      split <;> cases availability <;> rfl
    · cases availability <;> rfl
  | _ => rfl

/-- Handling a datagram is a run of seeding steps. -/
theorem exists_run_handle (cfg : NodeSettings) (n : Node) (recovered : Finset (String × SocketAddr))
    (w : World) (m : Message) (src : SocketAddr) :
    ∃ es recovered', Run (Step cfg) ⟨n, recovered⟩ es ⟨(n.handle cfg w m src).1, recovered'⟩ := by
  by_cases hm : ∀ id filename, m ≠ .segmentRequest id filename
  · exact ⟨_, _, .one (Step.change_of_eq (handle_originSeeders n w src hm))⟩
  obtain ⟨id, filename, rfl⟩ : ∃ id filename, m = .segmentRequest id filename := by
    simpa using hm
  have htouch : Step cfg ⟨n, recovered⟩ _ ⟨n.touchPeer w.clk src, recovered⟩ :=
    Step.change_of_eq rfl
  have hask : Step cfg ⟨n.touchPeer w.clk src, recovered⟩ _ _ :=
    Step.request _ (w.after 2).clk filename src
  have hserve : (n.handle cfg w (.segmentRequest id filename) src).1.originSeeders =
      ((n.touchPeer w.clk src).originSeedAllowed cfg (w.after 2).clk filename src).1.originSeeders :=
    rfl
  exact ⟨_, _, .cons htouch (.cons hask (.one (Step.change_of_eq hserve)))⟩

theorem leases_pruneOriginSeeders (n : Node) (f : String) :
    n.pruneOriginSeeders.leases f ⊆ n.leases f := by
  unfold pruneOriginSeeders leases
  simp only [HashMap.lookup_retain, HashMap.lookup_mapVal]
  cases n.originSeeders.lookup f with
  | none => exact Finset.Subset.refl _
  | some seeders =>
    rw [Option.map_some, Option.filter_some]
    split
    · exact Finset.filter_subset _ _
    · exact Finset.empty_subset _

theorem pingCycle_originSeeders (n : Node) (ord : HashOrder) (now : ℕ) :
    (n.pingCycle ord now).1.originSeeders = n.originSeeders :=
  pingCycle_proj (·.originSeeders) (fun _ _ _ _ => rfl) n ord now

theorem pruneSegments_originSeeders (n : Node) (cfg : NodeSettings) (w : World) (now : ℕ) :
    (n.pruneSegments cfg w now).1.originSeeders = n.originSeeders :=
  pruneSegments_proj (·.originSeeders) (fun _ _ _ => rfl) n cfg w now

theorem foldl_recordServe_originSeeders (n : Node) (clk : Clock) (es : List RegEvent) :
    (es.foldl (fun n e => n.recordServe clk e) n).originSeeders = n.originSeeders :=
  foldl_recordServe (·.originSeeders) (fun n clk e => by cases e <;> rfl) n clk es

/-- The timers only end leases. -/
theorem tick_step (cfg : NodeSettings) (n : Node) (recovered : Finset (String × SocketAddr))
    (w : World) (now : ℕ) :
    Step cfg ⟨n, recovered⟩ (.change (n.tick cfg w now).1) ⟨(n.tick cfg w now).1, recovered⟩ := by
  refine .change _ _ fun f => ?_
  simp only [tick]
  rw [leases, pruneSegments_originSeeders]
  refine (leases_pruneOriginSeeders _ f).trans (Finset.Subset.antisymm_iff.mp ?_).1
  rw [leases, pingCycle_originSeeders, foldl_recordServe_originSeeders]
  rfl

end Seeding

/-- Origin admission: what one call may do, and the bound on the leases in every run of calls
among other changes, for a node that starts with none. -/
theorem origin_admission (cfg : NodeSettings) :
    (∀ n clk filename peer, Node.SafeAdmission n cfg clk filename peer) ∧
    ∀ clk name role manifestName dir localAddr nonce es S,
      Run (Seeding.Step cfg) ⟨.new clk name role manifestName dir localAddr nonce, ∅⟩ es S →
      ∀ f b, ((S.node.leases f).filter fun c => remotePublic c = b).card ≤
        cfg.originSeeders + (S.recoverySeeds f b).card := by
  refine ⟨fun n clk filename peer => Node.safeAdmission n cfg clk filename peer,
    fun clk name role manifestName dir localAddr nonce es S h f b => ?_⟩
  have hbound : S.Bounded cfg := by
    refine h.invariant (fun T e T' hT hstep => hstep.bounded hT) fun f b => ?_
    exact (Finset.card_eq_zero.mpr rfl).le.trans (Nat.zero_le _)
  rw [S.card_leases]
  exact Nat.add_le_add_right (hbound f b) _

end Qstream

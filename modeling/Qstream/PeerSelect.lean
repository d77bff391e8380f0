import Qstream.Fault
import Qstream.NodeHandle
import Qstream.WeightedDraw

/-! Source selection of the peer: which known peers are candidates for a file, how they
are narrowed down, and when a source is found. -/
namespace Qstream
open Transfer

/-- Concurrent segment downloads. -/
def MAX_PARALLEL_DOWNLOADS : ℕ := 4
/-- Concurrent pulls from one peer. -/
def MAX_INFLIGHT_PER_PEER : ℕ := 2

/-- An in-flight download: which file from which peer. -/
structure ActiveJob where
  filename : String
  peer : SocketAddr
  deriving DecidableEq, Repr

/-- What a peer is started with. -/
structure PeerConfig where
  settings : NodeSettings
  name : String
  localAddr : SocketAddr
  bootstrap : SocketAddr
  playbackHoldback : ℕ

/-- The state of the job scheduler. -/
structure Scheduler where
  active : HashMap ℕ ActiveJob
  queue : List String
  /-- Queued or in flight. -/
  queued : Finset String
  tried : HashMap String (Finset SocketAddr)
  failedAt : HashMap String ℕ
  retryAfter : HashMap (String × SocketAddr) ℕ
  parents : Finset SocketAddr
  unresponsiveHits : HashMap SocketAddr ℕ
  rng : UInt64

namespace Scheduler

def new (rng : UInt64) : Scheduler := ⟨∅, [], ∅, ∅, ∅, ∅, ∅, ∅, rng⟩

def inflight (s : Scheduler) (p : SocketAddr) : ℕ := (s.active.pairs.filter fun e => e.2.peer = p).length

def cooling (s : Scheduler) (filename : String) (p : SocketAddr) (now : ℕ) : Bool :=
  (s.retryAfter.lookup (filename, p)).any fun until' => now < until'

def untried (s : Scheduler) (filename : String) (p : SocketAddr) : Bool :=
  match s.tried.lookup filename with
  | some t => p ∉ t
  | none => true

end Scheduler

/-- A non-origin source that has the piece beats the origin; an origin that has it beats
peers of which nothing is known. -/
def preferAdvertisedPeers (candidates : List SocketAddr) (bootstrap : SocketAddr)
    (availability : SocketAddr → Option Bool) : List SocketAddr :=
  let peerSources := candidates.filter fun p => p ≠ bootstrap ∧ availability p = some true
  if peerSources ≠ [] then peerSources
  else if availability bootstrap = some true then candidates.filter fun p => p = bootstrap
  else candidates

def isBootstrapRecoveryCandidate (bootstrapKnown cooling inflightLimitReached notTried
    manifestAuthoritative : Bool) : Bool :=
  bootstrapKnown && !cooling && !inflightLimitReached && notTried && manifestAuthoritative

section Select
variable (P : PeerConfig) (n : Node) (s : Scheduler) (ord : HashOrder) (now : ℕ) (filename : String)

/-- The filters a resolved address has to pass. -/
def eligible (a : SocketAddr) : Bool :=
  a ≠ P.localAddr ∧ (a = P.bootstrap ∨ n.peerMayHave a filename now) ∧
    (¬ s.cooling filename a now ∧ s.untried filename a) ∧ s.inflight a < MAX_INFLIGHT_PER_PEER

def candidates : List SocketAddr :=
  ((ord.iter n.peers).map fun (p, _) => n.effectiveAddr ord p).filter
    (eligible P n s now filename)

def parentSources : List SocketAddr :=
  (candidates P n s ord now filename).filter fun p =>
    p ∈ s.parents ∧ n.peerAvailability p filename now = some true

/-- The candidates left after assigned parents and advertised copies took precedence. -/
def sources : List SocketAddr :=
  let parents := parentSources P n s ord now filename
  preferAdvertisedPeers (if parents ≠ [] then parents else candidates P n s ord now filename)
    P.bootstrap fun p => n.peerAvailability p filename now

def bootstrapRecovery : Bool :=
  isBootstrapRecoveryCandidate (P.bootstrap ∈ n.peers) (s.cooling filename P.bootstrap now)
    (s.inflight P.bootstrap ≥ MAX_INFLIGHT_PER_PEER) (s.untried filename P.bootstrap) true

/-- Weight of a candidate, in exact arithmetic. -/
def weight (p : SocketAddr) : ℚ :=
  let score : ℚ := match n.peerStats.lookup p with
    | some stat => stat.score
    | none => 50
  let fresh : ℚ := if n.pathFresh p now then 5 / 4 else 7 / 10
  let availability : ℚ := match n.peerAvailability p filename now with
    | some true => 3
    | some false => 0
    | none => 35 / 100
  let w := (score + 1) / ((s.inflight p : ℚ) + 1) * fresh * availability
  let w := if p = P.bootstrap then w * (9 / 10) else w
  max w (1 / 1000)

/-- Choose a source for `filename`; the second component is the state of the generator. Past the
random number, sums and products are exact here. -/
def pickPeer : Option SocketAddr × UInt64 :=
  let candidates := sources P n s ord now filename
  if candidates = [] then
    if bootstrapRecovery P n s now filename then (some P.bootstrap, s.rng) else (none, s.rng)
  else
    let weight := weight P n s now filename
    let total := (candidates.map weight).sum
    let (random, rng) := Rng.next s.rng
    (WeightedDraw.draw weight (WeightedDraw.fraction random * total) candidates, rng)

end Select

/-! When a source is found. -/

theorem preferAdvertisedPeers_eq_nil {l : List SocketAddr} {b : SocketAddr}
    {av : SocketAddr → Option Bool} :
    preferAdvertisedPeers l b av = [] ↔
      l = [] ∨ (av b = some true ∧ b ∉ l ∧ ∀ a ∈ l, a ≠ b → av a ≠ some true) := by
  unfold preferAdvertisedPeers
  by_cases hsrc : (l.filter fun p => p ≠ b ∧ av p = some true) = []
  · have hno : ∀ a ∈ l, a ≠ b → av a ≠ some true := by
      intro a ha hne hpos
      have := List.filter_eq_nil_iff.mp hsrc a ha
      simp [hne, hpos] at this
    simp only [hsrc, ne_eq, not_true_eq_false, if_false]
    by_cases hb : av b = some true
    · simp only [hb, if_true, List.filter_eq_nil_iff, decide_eq_true_eq, true_and]
      constructor
      · intro h
        exact .inr ⟨fun hmem => h b hmem rfl, hno⟩
      · rintro (rfl | ⟨hmem, -⟩) a ha
        · cases ha
        · exact fun heq => hmem (heq ▸ ha)
    · simp [hb]
  · simp only [ne_eq, hsrc, not_false_eq_true, if_true, false_iff]
    obtain ⟨a, ha⟩ := List.exists_mem_of_ne_nil _ hsrc
    obtain ⟨hmem, hsel⟩ := List.mem_filter.mp ha
    simp only [decide_eq_true_eq] at hsel
    rintro (rfl | ⟨-, -, hno⟩)
    · cases hmem
    · exact hno a hmem hsel.1 hsel.2

section Found
variable {P : PeerConfig} {n : Node} {s : Scheduler} {ord : HashOrder} {now : ℕ} {filename : String}

theorem mem_candidates {a : SocketAddr} :
    a ∈ candidates P n s ord now filename ↔
      (∃ p ∈ n.peers, n.effectiveAddr ord p = a) ∧ eligible P n s now filename a := by
  simp only [candidates, List.mem_filter, List.mem_map, Prod.exists]
  constructor
  · rintro ⟨⟨p, info, hp, rfl⟩, hel⟩
    exact ⟨⟨p, HashMap.mem_iff_lookup.mpr ⟨info, HashOrder.mem_iter.mp hp⟩, rfl⟩, hel⟩
  · rintro ⟨⟨p, hp, rfl⟩, hel⟩
    obtain ⟨info, hinfo⟩ := HashMap.mem_iff_lookup.mp hp
    exact ⟨⟨p, info, HashOrder.mem_iter.mpr hinfo, rfl⟩, hel⟩

/-- A resolved address is itself a known one. -/
theorem effectiveAddr_mem {p : SocketAddr} (hp : p ∈ n.peers) : n.effectiveAddr ord p ∈ n.peers := by
  unfold Node.effectiveAddr
  split
  · split
    · rename_i a info hfind
      exact HashMap.mem_iff_lookup.mpr ⟨info, HashOrder.mem_iter.mp (List.mem_of_find?_eq_some hfind)⟩
    · exact hp
  · exact hp

/-- Preferring assigned parents never empties the list of sources. -/
theorem sources_eq_nil :
    sources P n s ord now filename = [] ↔
      candidates P n s ord now filename = [] ∨
      (n.peerAvailability P.bootstrap filename now = some true ∧
        P.bootstrap ∉ candidates P n s ord now filename ∧
        ∀ a ∈ candidates P n s ord now filename, a ≠ P.bootstrap →
          n.peerAvailability a filename now ≠ some true) := by
  unfold sources
  by_cases hp : parentSources P n s ord now filename = []
  · simp only [hp, ne_eq, not_true_eq_false, if_false]
    exact preferAdvertisedPeers_eq_nil
  simp only [ne_eq, hp, not_false_eq_true, if_true]
  obtain ⟨a, ha⟩ := List.exists_mem_of_ne_nil _ hp
  have hmem : a ∈ candidates P n s ord now filename := (List.mem_filter.mp ha).1
  have hpos : n.peerAvailability a filename now = some true := by
    have := (List.mem_filter.mp ha).2
    simp only [decide_eq_true_eq] at this
    exact this.2
  -- either list has a source that advertises the file
  have hboth : ∀ l : List SocketAddr, a ∈ l → ¬ (l = [] ∨
      (n.peerAvailability P.bootstrap filename now = some true ∧ P.bootstrap ∉ l ∧
        ∀ a ∈ l, a ≠ P.bootstrap → n.peerAvailability a filename now ≠ some true)) := by
    rintro l hal (rfl | ⟨-, hboot, hno⟩)
    · cases hal
    · exact hno a hal (fun heq => hboot (heq ▸ hal)) hpos
  rw [preferAdvertisedPeers_eq_nil]
  exact iff_of_false (hboth _ ha) (hboth _ hmem)

theorem bootstrapRecovery_iff :
    bootstrapRecovery P n s now filename = true ↔
      P.bootstrap ∈ n.peers ∧ s.cooling filename P.bootstrap now = false ∧
      s.inflight P.bootstrap < MAX_INFLIGHT_PER_PEER ∧ s.untried filename P.bootstrap = true := by
  simp only [bootstrapRecovery, isBootstrapRecoveryCandidate, Bool.and_true, Bool.and_eq_true,
    decide_eq_true_eq, Bool.not_eq_true', decide_eq_false_iff_not, not_le, ge_iff_le, and_assoc]

/-- A source is found exactly when the narrowed candidates or the recovery path offer one. -/
theorem pickPeer_isSome :
    (pickPeer P n s ord now filename).1.isSome ↔
      sources P n s ord now filename ≠ [] ∨ bootstrapRecovery P n s now filename = true := by
  unfold pickPeer
  by_cases hs : sources P n s ord now filename = []
  · by_cases hr : bootstrapRecovery P n s now filename = true <;> simp [hs, hr]
  · simp only [hs, if_false, ne_eq, not_false_eq_true, true_or, iff_true]
    refine WeightedDraw.draw_isSome _ hs
      (mul_le_of_le_one_left (List.sum_nonneg ?_) (WeightedDraw.fraction_le_one _))
    simp only [List.mem_map]
    rintro x ⟨a, -, rfl⟩
    exact le_trans (by norm_num) (le_max_right _ _)

/-- A chosen source is one of the narrowed candidates, or the bootstrap by recovery. -/
theorem pickPeer_mem {a : SocketAddr} (h : (pickPeer P n s ord now filename).1 = some a) :
    a ∈ sources P n s ord now filename ∨
    (a = P.bootstrap ∧ bootstrapRecovery P n s now filename = true) := by
  unfold pickPeer at h
  by_cases hs : sources P n s ord now filename = []
  · by_cases hr : bootstrapRecovery P n s now filename = true
    · simp only [hs, hr, if_true, Option.some.injEq] at h
      exact .inr ⟨h.symm, hr⟩
    · simp [hs, hr] at h
  · simp only [hs, if_false] at h
    exact .inl (WeightedDraw.mem_of_draw h)

end Found
end Qstream

import Qstream.PeerBooks

/-! Which of the known sources is chosen for a file, and what the choice means for the pulls
in flight: at no time more than two from one address, and four in all. -/
namespace Qstream
open Transfer Runs

/-- The peer has a fresh positive answer about the file. -/
def Node.Advertises (n : Node) (p : SocketAddr) (filename : String) (now : ℕ) : Prop :=
  n.peerAvailability p filename now = some true

section Choice
variable (P : PeerConfig) (n : Node) (s : Scheduler) (ord : HashOrder) (now : ℕ) (filename : String)

/-- A source that may be asked for the file now. -/
structure SoundSource (a : SocketAddr) : Prop where
  known : a = P.bootstrap ∨ ∃ p ∈ n.peers, n.effectiveAddr ord p = a
  notLocal : a ≠ P.localAddr
  untried : s.untried filename a = true
  notCooling : s.cooling filename a now = false
  below : s.inflight a < MAX_INFLIGHT_PER_PEER
  mayHave : a = P.bootstrap ∨ n.peerAvailability a filename now ≠ some false

/-- An eligible source that advertises the file and satisfies `Q`. -/
def Advertised (Q : SocketAddr → Prop) (a : SocketAddr) : Prop :=
  (∃ p ∈ n.peers, n.effectiveAddr ord p = a) ∧ eligible P n s now filename a ∧ Q a ∧
    n.Advertises a filename now

/-- Advertising parents come first, then other advertising peers, then the bootstrap if it
advertises the file. -/
structure BestSource (a : SocketAddr) : Prop where
  parent : (∃ q, Advertised P n s ord now filename (· ∈ s.parents) q) →
    Advertised P n s ord now filename (· ∈ s.parents) a
  peer : (¬ ∃ q, Advertised P n s ord now filename (· ∈ s.parents) q) →
    (∃ q, Advertised P n s ord now filename (· ≠ P.bootstrap) q) →
    Advertised P n s ord now filename (· ≠ P.bootstrap) a
  origin : (¬ ∃ q, Advertised P n s ord now filename (· ∈ s.parents) q) →
    (¬ ∃ q, Advertised P n s ord now filename (· ≠ P.bootstrap) q) →
    n.Advertises P.bootstrap filename now → a = P.bootstrap

end Choice

section Sources
variable {P : PeerConfig} {n : Node} {s : Scheduler} {ord : HashOrder} {now : ℕ} {filename : String}
variable {a : SocketAddr}

theorem mem_preferAdvertisedPeers {l : List SocketAddr} {b : SocketAddr}
    {av : SocketAddr → Option Bool} (h : a ∈ preferAdvertisedPeers l b av) :
    a ∈ l ∧ ((∃ q ∈ l, q ≠ b ∧ av q = some true) → a ≠ b ∧ av a = some true) ∧
      ((¬ ∃ q ∈ l, q ≠ b ∧ av q = some true) → av b = some true → a = b) := by
  unfold preferAdvertisedPeers at h
  by_cases hsrc : (l.filter fun p => p ≠ b ∧ av p = some true) = []
  · have hno : ¬ ∃ q ∈ l, q ≠ b ∧ av q = some true := by
      rintro ⟨q, hq, hsel⟩
      exact List.filter_eq_nil_iff.mp hsrc q hq (decide_eq_true hsel)
    simp only [hsrc, ne_eq, not_true_eq_false, if_false] at h
    by_cases hb : av b = some true
    · rw [if_pos hb, List.mem_filter, decide_eq_true_eq] at h
      exact ⟨h.1, fun hyes => absurd hyes hno, fun _ _ => h.2⟩
    · rw [if_neg hb] at h
      exact ⟨h, fun hyes => absurd hyes hno, fun _ hyes => absurd hyes hb⟩
  · simp only [hsrc, ne_eq, not_false_eq_true, if_true, List.mem_filter, decide_eq_true_eq] at h
    exact ⟨h.1, fun _ => h.2, fun hno => absurd ⟨a, h.1, h.2⟩ hno⟩

theorem mem_parentSources :
    a ∈ parentSources P n s ord now filename ↔ Advertised P n s ord now filename (· ∈ s.parents) a := by
  simp only [parentSources, List.mem_filter, mem_candidates, decide_eq_true_eq, Advertised,
    Node.Advertises, and_assoc]

/-- A chosen source is eligible, or it is the bootstrap by recovery. -/
theorem eligible_of_mem_sources (h : a ∈ sources P n s ord now filename) :
    a ∈ candidates P n s ord now filename := by
  have hmem := (mem_preferAdvertisedPeers h).1
  by_cases hp : parentSources P n s ord now filename = []
  · simpa only [hp, ne_eq, not_true_eq_false, if_false] using hmem
  · simp only [hp, ne_eq, not_false_eq_true, if_true] at hmem
    exact (List.mem_filter.mp hmem).1

theorem SoundSource.of_eligible (hknown : ∃ p ∈ n.peers, n.effectiveAddr ord p = a)
    (hel : eligible P n s now filename a = true) : SoundSource P n s ord now filename a := by
  simp only [eligible, decide_eq_true_eq, Bool.not_eq_true] at hel
  obtain ⟨hlocal, hmay, ⟨hcool, huntried⟩, hbelow⟩ := hel
  refine ⟨.inr hknown, hlocal, huntried, hcool, hbelow, hmay.imp_right fun hmay => ?_⟩
  simpa [Node.peerMayHave] using hmay

/-- Whatever is chosen may be asked. -/
theorem pickPeer_spec (hlocal : P.bootstrap ≠ P.localAddr)
    (h : (pickPeer P n s ord now filename).1 = some a) : SoundSource P n s ord now filename a := by
  rcases pickPeer_mem h with hsrc | ⟨rfl, hrec⟩
  · obtain ⟨hknown, hel⟩ := mem_candidates.mp (eligible_of_mem_sources hsrc)
    exact .of_eligible hknown hel
  · obtain ⟨-, hcool, hbelow, huntried⟩ := bootstrapRecovery_iff.mp hrec
    exact ⟨.inl rfl, hlocal, huntried, hcool, hbelow, .inl rfl⟩

theorem pickPeer_below (h : (pickPeer P n s ord now filename).1 = some a) :
    s.inflight a < MAX_INFLIGHT_PER_PEER := by
  rcases pickPeer_mem h with hsrc | ⟨rfl, hrec⟩
  · obtain ⟨hknown, hel⟩ := mem_candidates.mp (eligible_of_mem_sources hsrc)
    exact (SoundSource.of_eligible hknown hel).below
  · exact (bootstrapRecovery_iff.mp hrec).2.2.1

/-- Recovery is tried when there is no source at all. -/
theorem pickPeer_cases (h : (pickPeer P n s ord now filename).1 = some a) :
    a ∈ sources P n s ord now filename ∨
      (sources P n s ord now filename = [] ∧ a = P.bootstrap) := by
  by_cases hs : sources P n s ord now filename = []
  · exact .inr ⟨hs, (pickPeer_mem h).elim (fun hmem => by rw [hs] at hmem; cases hmem) (·.1)⟩
  · unfold pickPeer at h
    simp only [hs, if_false] at h
    exact .inl (WeightedDraw.mem_of_draw h)

/-- Another source that advertises the file is never passed over for recovery. -/
theorem sources_ne_nil {Q : SocketAddr → Prop} {q : SocketAddr}
    (hq : Advertised P n s ord now filename Q q) (hne : q ≠ P.bootstrap) :
    sources P n s ord now filename ≠ [] := by
  have hmem : q ∈ candidates P n s ord now filename := mem_candidates.mpr ⟨hq.1, hq.2.1⟩
  intro hnil
  rcases sources_eq_nil.mp hnil with hcand | ⟨-, -, hno⟩
  · rw [hcand] at hmem
    cases hmem
  · exact hno q hmem hne hq.2.2.2

/-- With a parent that advertises the file, such a parent is chosen. -/
theorem pickPeer_parent (hboot : P.bootstrap ∉ s.parents)
    (h : (pickPeer P n s ord now filename).1 = some a)
    (hex : ∃ q, Advertised P n s ord now filename (· ∈ s.parents) q) :
    Advertised P n s ord now filename (· ∈ s.parents) a := by
  obtain ⟨q, hq⟩ := hex
  have hparents : parentSources P n s ord now filename ≠ [] :=
    List.ne_nil_of_mem (mem_parentSources.mpr hq)
  have hqne : q ≠ P.bootstrap := fun heq => hboot (heq ▸ hq.2.2.1)
  rcases pickPeer_cases h with hsrc | ⟨hnil, -⟩
  · have hmem := (mem_preferAdvertisedPeers hsrc).1
    rw [if_pos hparents] at hmem
    exact mem_parentSources.mp hmem
  · exact absurd hnil (sources_ne_nil hq hqne)

/-- Without one, the choice is between the candidates as they are. -/
theorem sources_of_no_parent
    (hno : ¬ ∃ q, Advertised P n s ord now filename (· ∈ s.parents) q) :
    sources P n s ord now filename =
      preferAdvertisedPeers (candidates P n s ord now filename) P.bootstrap
        fun p => n.peerAvailability p filename now := by
  have hnil : parentSources P n s ord now filename = [] := by
    refine List.eq_nil_iff_forall_not_mem.mpr fun q hq => hno ⟨q, mem_parentSources.mp hq⟩
  simp only [sources, hnil, ne_eq, not_true_eq_false, if_false]

theorem exists_advertised_peer :
    (∃ q ∈ candidates P n s ord now filename,
      q ≠ P.bootstrap ∧ n.peerAvailability q filename now = some true) ↔
      ∃ q, Advertised P n s ord now filename (· ≠ P.bootstrap) q := by
  simp only [mem_candidates, Advertised, Node.Advertises, and_assoc]

theorem pickPeer_best (hboot : P.bootstrap ∉ s.parents)
    (h : (pickPeer P n s ord now filename).1 = some a) : BestSource P n s ord now filename a where
  parent hex := pickPeer_parent hboot h hex
  peer hno hex := by
    rcases pickPeer_cases h with hsrc | ⟨hnil, -⟩
    · rw [sources_of_no_parent hno] at hsrc
      obtain ⟨hmem, hpeer, -⟩ := mem_preferAdvertisedPeers hsrc
      obtain ⟨hne, hav⟩ := hpeer (exists_advertised_peer.mpr hex)
      obtain ⟨hknown, hel⟩ := mem_candidates.mp hmem
      exact ⟨hknown, hel, hne, hav⟩
    · obtain ⟨q, hq⟩ := hex
      exact absurd hnil (sources_ne_nil hq hq.2.2.1)
  origin hno hnone hav := by
    rcases pickPeer_cases h with hsrc | ⟨-, hboot⟩
    · rw [sources_of_no_parent hno] at hsrc
      exact (mem_preferAdvertisedPeers hsrc).2.2 (fun hex => hnone (exists_advertised_peer.mp hex)) hav
    · exact hboot

end Sources

/-! The pulls in flight along a run. -/

namespace Scheduler

/-- No more than two pulls from one address, and four in all. -/
structure Bounded (s : Scheduler) : Prop where
  each : ∀ p, s.inflight p ≤ MAX_INFLIGHT_PER_PEER
  total : s.active.len ≤ MAX_PARALLEL_DOWNLOADS

theorem new_bounded (rng : UInt64) : (new rng).Bounded := ⟨fun _ => Nat.zero_le _, Nat.zero_le _⟩

variable {s t : Scheduler}

theorem Bounded.congr (h : s.Bounded) (ha : t.active = s.active) : t.Bounded := by
  refine ⟨fun p => ?_, ha ▸ h.total⟩
  have hp := h.each p
  unfold inflight at hp ⊢
  rwa [ha]

theorem inflight_erase_le {id : ℕ} (ha : t.active = s.active.erase id) (p : SocketAddr) :
    t.inflight p ≤ s.inflight p := by
  unfold inflight
  rw [ha]
  exact ((HashMap.pairs_erase_sublist s.active id).filter _).length_le

theorem len_erase_le {id : ℕ} (ha : t.active = s.active.erase id) :
    t.active.len ≤ s.active.len := by
  rw [ha, ← HashMap.length_pairs, ← HashMap.length_pairs]
  exact (HashMap.pairs_erase_sublist s.active id).length_le

theorem Bounded.erased (h : s.Bounded) {id : ℕ} (ha : t.active = s.active.erase id) : t.Bounded :=
  ⟨fun p => (inflight_erase_le ha p).trans (h.each p), (len_erase_le ha).trans h.total⟩

/-- A pull started within the limits, which may take the place of one in flight. -/
theorem Bounded.started (h : s.Bounded) {id : ℕ} {filename : String} {rest : List String}
    {peer : SocketAddr} {rng : UInt64} (hfree : s.active.len < MAX_PARALLEL_DOWNLOADS)
    (hpeer : s.inflight peer < MAX_INFLIGHT_PER_PEER) :
    (s.started id filename rest peer rng).Bounded := by
  have hpairs : (s.started id filename rest peer rng).active.pairs =
      (id, ⟨filename, peer⟩) :: HashMap.pairs (s.active.erase id) := HashMap.pairs_insert _ _ _
  have hsub := HashMap.pairs_erase_sublist s.active id
  refine ⟨fun p => ?_, ?_⟩
  · have hrest := (hsub.filter fun e => decide (e.2.peer = p)).length_le
    have hp := h.each p
    unfold inflight at hp hpeer ⊢
    rw [hpairs, List.filter_cons]
    split
    next heq =>
      obtain rfl : peer = p := of_decide_eq_true heq
      rw [List.length_cons]
      omega
    next => omega
  · have hrest := hsub.length_le
    rw [HashMap.length_pairs s.active] at hrest
    rw [← HashMap.length_pairs, hpairs, List.length_cons]
    omega

theorem Bounded.syncQueue (h : s.Bounded) (clk : Clock) (dir : Dir) (data : Bytes) :
    (Qstream.syncQueue clk dir data s).Bounded :=
  foldl_enqueue (fun s e hs => hs.congr (enqueue_spec clk dir s e).1) _ (h.congr rfl)

end Scheduler

namespace Peer
variable {P : PeerConfig} {S S' : Peer}

theorem Step.bounded {e : PeerEvent} (hstep : Step P S e S') (h : S.sched.Bounded) :
    S'.sched.Bounded := by
  rcases hstep.books_cases with ⟨ha, -, -⟩ | ⟨w, refresh, data, src, dir, rfl, -, -, hs⟩ |
    ⟨w, now, f, rfl, -, hs⟩ | ⟨ids, w, filename, rest, peer, rng, rfl, -, -⟩
  · exact h.congr ha
  · rw [hs]
    exact h.syncQueue _ _ _
  · rw [hs]
    exact h.erased (reapJob_active P w now f S.node S.sched)
  · cases hstep with
    | mk hen happ =>
      obtain rfl := fst_of_ok happ
      rcases fillStep_cases P ids w S.node S.sched with
        ⟨rng, hfill⟩ | ⟨filename, rest, peer, rng, r, -, hfree, -, hpick, hfill⟩
      · simp only [fillOne, hfill]
        exact h.congr rfl
      · simp only [fillOne, hfill]
        exact h.started hfree (pickPeer_below hpick)

end Peer

/-- Whatever is chosen may be asked and is of the best tier there is, and no run ever has more
than two pulls in flight from one address, or four in all. -/
theorem source_selection :
    (∀ (P : PeerConfig) (n : Node) (s : Scheduler) (ord : HashOrder) (now : ℕ)
      (filename : String) (a : SocketAddr), P.bootstrap ∉ s.parents → P.bootstrap ≠ P.localAddr →
      (pickPeer P n s ord now filename).1 = some a →
        SoundSource P n s ord now filename a ∧ BestSource P n s ord now filename a) ∧
    ∀ (P : PeerConfig) (w : World) (dir : Dir) (nonce : UInt32) (claimed : Option SocketAddr)
      (seed : UInt64) (es : List PeerEvent) (S : Peer),
      Run (Peer.Step P) (Peer.initial P w dir nonce claimed seed) es S → S.sched.Bounded := by
  refine ⟨?_, ?_⟩
  · intro P n s ord now filename a hboot hlocal h
    exact ⟨pickPeer_spec hlocal h, pickPeer_best hboot h⟩
  · intro P w dir nonce claimed seed es S hrun
    exact hrun.invariant (I := fun S => S.sched.Bounded) (fun _ _ _ hS hstep => hstep.bounded hS)
      (Scheduler.new_bounded _)

/-- Both peers have just advertised `seg_1.ts`. -/
def demoCopies : Node := demoKnown.recordAvailability (fun _ => 0) demoOther ⟨1, 1⟩

/-- The other peer is chosen, a parent or not; and a run has a pull in flight. -/
theorem source_selection_demo :
    (pickPeer demoConfig demoCopies { Scheduler.new 1 with parents := {demoOther} } default 5
      "seg_1.ts").1 = some demoOther ∧
    BestSource demoConfig demoCopies { Scheduler.new 1 with parents := {demoOther} } default 5
      "seg_1.ts" demoOther ∧
    SoundSource demoConfig demoCopies (.new 1) default 5 "seg_1.ts" demoOther ∧
    ∃ S, Run (Peer.Step demoConfig) (demoStart emptyDir) [demoHello, demoNews ["a.ts"], demoFill] S ∧
      S.sched.inflight demoBootstrap = 1 ∧ S.sched.Bounded := by
  refine ⟨by decide +kernel, ?_, ?_, ?_⟩
  · exact (source_selection.1 demoConfig demoCopies
      { Scheduler.new 1 with parents := {demoOther} } default 5 "seg_1.ts" demoOther
      (by decide) (by decide) (by decide +kernel)).2
  · exact (source_selection.1 demoConfig demoCopies (.new 1) default 5 "seg_1.ts" demoOther
      (by decide) (by decide) (by decide +kernel)).1
  · obtain ⟨S, hrun, hp⟩ := Peer.exists_run demoConfig (demoStart emptyDir)
      [demoHello, demoNews ["a.ts"], demoFill] (fun S => S.sched.inflight demoBootstrap = 1)
      (by decide +kernel)
    exact ⟨S, hrun, of_decide_eq_true hp,
      source_selection.2 demoConfig (demoWorld 0) emptyDir 1 none 1 _ S hrun⟩

end Qstream

import Qstream.PeerSelect

/-! How complete source selection is: for one moment, and for all later moments at which
nothing but the clock has changed. -/
namespace Qstream
open Transfer

section Complete
variable {P : PeerConfig} {n : Node} {s : Scheduler} {ord : HashOrder} {now : ℕ} {filename : String}

/-- The bootstrap has the file and was not asked for it, but is cooling down or busy. -/
def BootstrapBusy (P : PeerConfig) (n : Node) (s : Scheduler) (now : ℕ) (filename : String) : Prop :=
  n.peerAvailability P.bootstrap filename now = some true ∧
  s.untried filename P.bootstrap = true ∧
  (s.cooling filename P.bootstrap now = true ∨ MAX_INFLIGHT_PER_PEER ≤ s.inflight P.bootstrap)

theorem eligible_untried {a : SocketAddr} (h : eligible P n s now filename a = true) :
    s.untried filename a = true := by
  simp only [eligible, decide_eq_true_eq] at h
  exact h.2.2.1.2

/-- With an eligible candidate at hand, no source is found in just one situation: the
bootstrap advertises the file but is not to be asked, and no candidate that may be asked
advertises it. -/
theorem sources_eq_nil_iff (h : ∃ p ∈ n.peers, eligible P n s now filename (n.effectiveAddr ord p)) :
    sources P n s ord now filename = [] ↔
      n.peerAvailability P.bootstrap filename now = some true ∧
      P.bootstrap ∉ candidates P n s ord now filename ∧
      ∀ a ∈ candidates P n s ord now filename, a ≠ P.bootstrap →
        n.peerAvailability a filename now ≠ some true := by
  rw [sources_eq_nil]
  refine or_iff_right fun hnil => ?_
  obtain ⟨p, hp, hel⟩ := h
  have hmem : n.effectiveAddr ord p ∈ candidates P n s ord now filename :=
    mem_candidates.mpr ⟨⟨p, hp, rfl⟩, hel⟩
  rw [hnil] at hmem
  cases hmem

/-- An eligible candidate yields a source, the bootstrap being busy excepted, exactly
when the bootstrap does not advertise the file, or was not tried for it and is known,
cooling down or busy, or an eligible other source advertises it too. -/
theorem pickPeer_complete_iff
    (h : ∃ p ∈ n.peers, eligible P n s now filename (n.effectiveAddr ord p)) :
    (¬ BootstrapBusy P n s now filename → (pickPeer P n s ord now filename).1.isSome) ↔
      n.peerAvailability P.bootstrap filename now ≠ some true ∨
      (s.untried filename P.bootstrap = true ∧
        (P.bootstrap ∈ n.peers ∨ s.cooling filename P.bootstrap now = true ∨
          MAX_INFLIGHT_PER_PEER ≤ s.inflight P.bootstrap)) ∨
      ∃ p ∈ n.peers, eligible P n s now filename (n.effectiveAddr ord p) ∧
        n.effectiveAddr ord p ≠ P.bootstrap ∧
        n.peerAvailability (n.effectiveAddr ord p) filename now = some true := by
  rw [pickPeer_isSome, ne_eq, sources_eq_nil_iff h, bootstrapRecovery_iff]
  constructor
  · intro hclaim
    by_contra hno
    obtain ⟨hadv, hboot, hpos⟩ : _ ∧ _ ∧ _ := by simpa only [not_or, ne_eq, not_not] using hno
    have hnot : P.bootstrap ∉ candidates P n s ord now filename := by
      intro hmem
      obtain ⟨⟨p, hp, heq⟩, hel⟩ := mem_candidates.mp hmem
      exact hboot ⟨eligible_untried hel, .inl (heq ▸ effectiveAddr_mem hp)⟩
    rcases hclaim (fun hbusy => hboot ⟨hbusy.2.1, .inr hbusy.2.2⟩) with hsrc | hrec
    · refine hsrc ⟨hadv, hnot, fun a ha hne hav => hpos ?_⟩
      obtain ⟨⟨p, hp, rfl⟩, hel⟩ := mem_candidates.mp ha
      exact ⟨p, hp, hel, hne, hav⟩
    · exact hboot ⟨hrec.2.2.2, .inl hrec.1⟩
  · rintro (hadv | ⟨huntried, hboot⟩ | ⟨p, hp, hel, hne, hav⟩) hfree
    · exact .inl fun hnil => hadv hnil.1
    · by_cases hadv : n.peerAvailability P.bootstrap filename now = some true
      · have hidle : s.cooling filename P.bootstrap now = false ∧
            s.inflight P.bootstrap < MAX_INFLIGHT_PER_PEER := by
          constructor
          · by_contra hc
            exact hfree ⟨hadv, huntried, .inl (by simpa using hc)⟩
          · by_contra hc
            exact hfree ⟨hadv, huntried, .inr (by omega)⟩
        rcases hboot with hknown | hcool | hlim
        · exact .inr ⟨hknown, hidle.1, hidle.2, huntried⟩
        · exact absurd (hidle.1.symm.trans hcool) (by simp)
        · omega
      · exact .inl fun hnil => hadv hnil.1
    · exact .inl fun hnil => hnil.2.2 _ (mem_candidates.mpr ⟨⟨p, hp, rfl⟩, hel⟩) hne hav

end Complete

/-! A small swarm: a peer at `demoLocal`, its bootstrap, and one other peer. -/

def demoLocal : SocketAddr := ⟨.v4 ⟨0, 0, 0, 0⟩, 5000⟩
def demoBootstrap : SocketAddr := ⟨.v4 ⟨203, 0, 113, 1⟩, 4000⟩
def demoOther : SocketAddr := ⟨.v4 ⟨203, 0, 113, 2⟩, 4000⟩

def demoConfig : PeerConfig :=
  ⟨⟨defaultSettings, 2, 0⟩, "peer", demoLocal, demoBootstrap, 3⟩

def demoNode (dir : Dir) : Node := .new (fun _ => 0) "peer" .peer "live.m3u8" dir demoLocal 1

/-- Both peers are known, and the bootstrap has just advertised `seg_1.ts`. -/
def demoKnown : Node :=
  (((demoNode ⟨∅, ["srv"], fun _ => none⟩).registerPeer (fun _ => 0) demoBootstrap
    "origin").registerPeer (fun _ => 0) demoOther "other").recordAvailability (fun _ => 0)
    demoBootstrap ⟨1, 1⟩

/-- The bootstrap advertises the file and was not tried: it is the source. -/
theorem pickPeer_complete_demo :
    (pickPeer demoConfig demoKnown (.new 1) default 5 "seg_1.ts").1.isSome := by
  refine (pickPeer_complete_iff (P := demoConfig) ?_).mpr (.inr (.inl ⟨?_, .inl ?_⟩)) ?_
  · exact ⟨demoBootstrap, by decide +kernel, by decide +kernel⟩
  · decide +kernel
  · decide +kernel
  · rintro ⟨-, -, hcool | hlimit⟩
    · exact absurd hcool (by decide +kernel)
    · exact absurd hlimit (by decide +kernel)

/-- Once the bootstrap was tried for a file it advertises, a peer nothing is known of is
not asked although it is eligible. -/
theorem tried_bootstrap_hides_others :
    (∃ p ∈ demoKnown.peers, eligible demoConfig demoKnown
      { Scheduler.new 1 with tried := AList.insert "seg_1.ts" {demoBootstrap} ∅ } 5 "seg_1.ts"
      (demoKnown.effectiveAddr default p)) ∧
    ¬ BootstrapBusy demoConfig demoKnown
      { Scheduler.new 1 with tried := AList.insert "seg_1.ts" {demoBootstrap} ∅ } 5 "seg_1.ts" ∧
    (pickPeer demoConfig demoKnown
      { Scheduler.new 1 with tried := AList.insert "seg_1.ts" {demoBootstrap} ∅ } default 5
      "seg_1.ts").1 = none := by
  refine ⟨⟨demoOther, by decide +kernel, by decide +kernel⟩, ?_, by decide +kernel⟩
  rintro ⟨-, huntried, -⟩
  exact absurd huntried (by decide +kernel)

end Qstream

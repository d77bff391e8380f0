import Qstream.FaultRuns

/-! What reaches the socket has been through the configured link, unless a held datagram was
released by the clock: that release neither delays nor drops. -/
namespace Qstream
open Runs

/-- A datagram, stamped with the time it was handed over, left a link at time `now`. -/
def FaultLink.Passes {δ : Type*} (l : FaultLink) (now : ℕ) (x : ℕ × δ) : Prop :=
  x.1 + millis l.delayMs ≤ now ∧ l.dropPct < 100

namespace FaultInjector
variable {ρ δ : Type*} [RandomSource ρ] {f : FaultInjector ρ (ℕ × δ)} {x : ℕ × δ} {now : ℕ}

/-- What is kept is kept long enough. -/
structure Scheduled (f : FaultInjector ρ (ℕ × δ)) : Prop where
  delayed : ∀ e ∈ f.delayed, f.link.Passes e.1 e.2
  held : ∀ e ∈ f.held, e.1 = e.2.1

omit [RandomSource ρ] in
theorem Copied.scheduled {n : ℕ} {r : FaultInjector ρ (ℕ × δ) × List (ℕ × δ)}
    (h : f.Copied x now n r) (hf : f.Scheduled) (hx : x.1 ≤ now) :
    r.1.Scheduled ∧ ∀ y ∈ r.2, f.link.Passes now y := by
  obtain ⟨rng, lost, kept, sent, rfl, hsum, hsent, -, hall, -⟩ := h
  refine ⟨⟨fun e he => ?_, hf.held⟩, fun y hy => ?_⟩
  · rcases List.mem_append.mp he with hold | hnew
    · exact hf.delayed e hold
    · obtain ⟨hkept, rfl⟩ := List.mem_replicate.mp hnew
      refine ⟨Nat.add_le_add_right hx _, ?_⟩
      show f.dropPct < 100
      by_contra hlost
      have := hall (Nat.le_of_not_lt hlost)
      omega
  · obtain ⟨hone, rfl⟩ := List.mem_replicate.mp hy
    have hdelay : f.delayMs = 0 := by
      by_contra hdelay
      exact hone (hsent (Nat.pos_of_ne_zero hdelay))
    refine ⟨?_, ?_⟩
    · simpa only [link, hdelay, millis, Nat.zero_mul, Nat.add_zero] using hx
    · show f.dropPct < 100
      by_contra hlost
      have := hall (Nat.le_of_not_lt hlost)
      omega

theorem send_scheduled (hf : f.Scheduled) (hpast : ∀ y ∈ f.inFlight, y.1 ≤ now)
    (hx : x.1 = now) :
    (f.send x now).1.Scheduled ∧ ∀ y ∈ (f.send x now).2, f.link.Passes now y := by
  unfold send
  split
  · exact ⟨⟨hf.delayed, hf.held⟩, fun y hy => by cases hy⟩
  split
  · cases hkept : f.held with
    | some e =>
      have hfree : f.unheld.Scheduled := ⟨hf.delayed, fun e he => by cases he⟩
      obtain ⟨hmid, hout⟩ := (f.unheld.pipeline_copied x now).scheduled hfree hx.le
      have hlink := (f.unheld.pipeline_accounts x now).link
      have hold : e.2.1 ≤ now := hpast e.2 (by simp [inFlight, hkept])
      obtain ⟨hend, hout'⟩ :=
        ((f.unheld.pipeline x now).1.pipeline_copied e.2 now).scheduled hmid hold
      refine ⟨hend, fun y hy => ?_⟩
      rcases List.mem_append.mp hy with hy | hy
      · exact hout y hy
      · exact hlink ▸ hout' y hy
    | none =>
      obtain ⟨⟨rng, hrng⟩, -, -⟩ := rollIf_eq f f.reorderPct
      simp only [hrng]
      split
      · refine ⟨⟨hf.delayed, fun e he => ?_⟩, fun y hy => by cases hy⟩
        obtain rfl : (now, x) = e := Option.some.inj he
        exact hx.symm
      · have hrolled : ({ f with rng := rng } : FaultInjector ρ (ℕ × δ)).Scheduled :=
          ⟨hf.delayed, hf.held⟩
        exact (pipeline_copied _ x now).scheduled hrolled hx.le
  · exact (f.pipeline_copied x now).scheduled hf hx.le

omit [RandomSource ρ] in
theorem release_scheduled (hf : f.Scheduled) :
    (f.release now).1.Scheduled ∧ ∀ y ∈ (f.release now).2, f.link.Passes now y := by
  refine ⟨⟨fun e he => hf.delayed e ?_, hf.held⟩, fun y hy => ?_⟩
  · exact (List.dropWhile_sublist _).subset he
  · obtain ⟨e, he, rfl⟩ := List.mem_map.mp hy
    have hdue : e.1 ≤ now := by simpa using List.mem_takeWhile_imp he
    have hpasses := hf.delayed e ((List.takeWhile_sublist _).subset he)
    exact ⟨hpasses.1.trans hdue, hpasses.2⟩

/-- The timed release of the held datagram finds the link passed. -/
def HeldPasses {δ : Type*} (f : FaultInjector ρ δ) (now : ℕ) : Prop :=
  ∀ e ∈ f.held, HOLD_MAX ≤ now - e.1 → e.1 + millis f.delayMs ≤ now ∧ f.dropPct < 100

omit [RandomSource ρ] in
theorem drain_scheduled (hf : f.Scheduled) :
    (f.drain now).1.Scheduled ∧
      ((∀ y ∈ (f.drain now).2, f.link.Passes now y) ↔ f.HeldPasses now) := by
  obtain ⟨hkept, hout⟩ : (f.release now).1.Scheduled ∧
      ∀ y ∈ (f.release now).2, f.link.Passes now y := f.release_scheduled hf
  obtain ⟨heldAt, z, hheld, hdue, heq⟩ | ⟨hearly, heq⟩ := f.drain_cases now
  · have hstamp : heldAt = z.1 := hf.held _ hheld
    rw [heq]
    refine ⟨⟨hkept.delayed, fun e he => by cases he⟩, fun hall e he _ => ?_, fun hheld' y hy => ?_⟩
    · obtain rfl : (heldAt, z) = e := Option.some.inj (hheld.symm.trans he)
      have hz := hall z (List.mem_append_right _ List.mem_cons_self)
      exact hstamp ▸ hz
    · rcases List.mem_append.mp hy with hy | hy
      · exact hout y hy
      · obtain rfl : y = z := List.mem_singleton.mp hy
        have hpasses := hheld' _ hheld hdue
        rwa [hstamp] at hpasses
  · rw [heq]
    refine ⟨hkept, fun _ e he hdue => ?_, fun _ => hout⟩
    exact absurd hdue (Nat.not_le_of_lt (hearly e he))

end FaultInjector
/-- The same call with its datagram stamped with its time. -/
def FaultEvent.stamped {δ : Type*} : FaultEvent δ → FaultEvent (ℕ × δ)
  | .send x now => .send (now, x) now
  | .drain now => .drain now

namespace Outgoing
variable {ρ δ : Type*} [RandomSource ρ] {f : FaultInjector ρ δ} {S S' : Outgoing ρ δ}
  {T T' : Outgoing ρ (ℕ × δ)} {l : FaultLink} {e : FaultEvent δ} {es : List (FaultEvent δ)}

/-- A call as the one who stamps the datagrams sees it. -/
def StampedStep (T : Outgoing ρ (ℕ × δ)) (e : FaultEvent δ) (T' : Outgoing ρ (ℕ × δ)) : Prop :=
  Step T e.stamped T'

/-- Forget the stamps. -/
def plain (T : Outgoing ρ (ℕ × δ)) : Outgoing ρ δ :=
  { injector := T.injector.map Prod.snd
    clock := T.clock
    sent := T.sent.map fun y => (y.1, y.2.2)
    emitted := T.emitted.map fun y => (y.1, y.2.2)
    duplicated := T.duplicated }

theorem take_stamped (T : Outgoing ρ (ℕ × δ)) (e : FaultEvent δ) :
    (T.take e.stamped).plain = T.plain.take e := by
  cases e with
  | send x now =>
    have hsend := FaultInjector.send_map Prod.snd T.injector (now, x) now
    have hdups := FaultInjector.sendDups_map Prod.snd T.injector (now, x) now
    simp only [plain, take, FaultEvent.stamped, hsend, hdups, List.map_append, List.map_map]
    rfl
  | drain now =>
    have hdrain := FaultInjector.drain_map Prod.snd T.injector now
    simp only [plain, take, FaultEvent.stamped, hdrain, List.map_append, List.map_map]
    rfl

/-- A call that does not release the held datagram before its link has passed. -/
def Covered (S : Outgoing ρ δ) : FaultEvent δ → Prop
  | .send _ _ => True
  | .drain now => S.injector.HeldPasses now

/-- What is kept on a stamped run. -/
structure Stamped (l : FaultLink) (T : Outgoing ρ (ℕ × δ)) : Prop where
  link : T.injector.link = l
  scheduled : T.injector.Scheduled
  past : ∀ y ∈ T.injector.inFlight, y.1 ≤ T.clock

def Passed (l : FaultLink) (T : Outgoing ρ (ℕ × δ)) : Prop :=
  ∀ y ∈ T.emitted, l.Passes y.1 y.2

omit [RandomSource ρ] in
theorem passed_append (l : FaultLink) (ys : List (ℕ × ℕ × δ)) (out : List (ℕ × δ)) (now : ℕ) :
    (∀ y ∈ ys ++ out.map (now, ·), l.Passes y.1 y.2) ↔
      (∀ y ∈ ys, l.Passes y.1 y.2) ∧ ∀ y ∈ out, l.Passes now y := by
  simp only [List.forall_mem_append, List.forall_mem_map]

/-- A call keeps the datagrams as long as their link asks, and sends what has passed it just
when it is covered. -/
theorem StampedStep.stamped (h : StampedStep T e T') (hT : T.Stamped l) :
    T'.Stamped l ∧ (T'.Passed l ↔ T.Passed l ∧ T.plain.Covered e) := by
  obtain ⟨htime, rfl⟩ := h
  obtain ⟨rfl, hsched, hpast⟩ := hT
  cases e with
  | send x now =>
    have hpast' (y : ℕ × δ) (hy : y ∈ T.injector.inFlight) : y.1 ≤ now := (hpast y hy).trans htime
    have hsend := T.injector.send_accounts (now, x) now
    obtain ⟨hkept, hout⟩ := FaultInjector.send_scheduled hsched hpast' (x := (now, x)) rfl
    refine ⟨⟨hsend.link, hkept, fun y hy => ?_⟩, ?_⟩
    · rcases List.mem_append.mp (hsend.sources y (List.mem_append_right _ hy)) with hold | hnew
      · exact hpast' y hold
      · obtain rfl : y = (now, x) := List.mem_singleton.mp hnew
        exact le_rfl
    · rw [Passed, FaultEvent.stamped, take, passed_append]
      exact and_congr_right fun _ => iff_of_true hout trivial
  | drain now =>
    have hdrain := T.injector.drain_accounts now
    obtain ⟨hkept, hout⟩ : (T.injector.drain now).1.Scheduled ∧
        ((∀ y ∈ (T.injector.drain now).2, T.injector.link.Passes now y) ↔
          T.injector.HeldPasses now) := FaultInjector.drain_scheduled hsched
    refine ⟨⟨hdrain.link, hkept, fun y hy => ?_⟩, ?_⟩
    · have hold := hdrain.sources y (List.mem_append_right _ hy)
      rw [List.append_nil] at hold
      exact (hpast y hold).trans htime
    · rw [Passed, FaultEvent.stamped, take, passed_append, hout]
      refine and_congr_right fun _ => ?_
      simp only [Covered, FaultInjector.HeldPasses, plain, FaultInjector.map, Option.mem_map]
      constructor
      · rintro hall e ⟨e', he', rfl⟩ hdue
        exact hall e' he' hdue
      · exact fun hall e he hdue => hall _ ⟨e, he, rfl⟩ hdue

/-- Every run is one of stamped datagrams, and all that was sent on it has passed the link just
when every call was covered. -/
theorem run_stamped (h : Run Step S es S') (hT : T.Stamped l) (hplain : T.plain = S) :
    ∃ T', Run StampedStep T es T' ∧ T'.plain = S' ∧ T'.Stamped l ∧
      (T'.Passed l ↔ T.Passed l ∧ Run (guarded Covered Step) S es S') := by
  induction h generalizing T with
  | nil S => exact ⟨T, .nil T, hplain, hT, by simp [Run.nil]⟩
  | @cons S U S' e es hstep hrest ih =>
    obtain ⟨htime, rfl⟩ := hstep
    subst hplain
    have hclock : T.clock ≤ e.stamped.now := by cases e <;> exact htime
    have hstamped : StampedStep T e (T.take e.stamped) := ⟨hclock, rfl⟩
    obtain ⟨hnext, hiff⟩ := hstamped.stamped hT
    obtain ⟨T', hrun, hplain', hT', hiff'⟩ := ih hnext (take_stamped T e)
    refine ⟨T', .cons hstamped hrun, hplain', hT', hiff'.trans ?_⟩
    rw [hiff, and_assoc]
    refine and_congr_right fun _ => ⟨fun ⟨hcovered, hguarded⟩ => ?_, fun hguarded => ?_⟩
    · exact .cons ⟨hcovered, htime, rfl⟩ hguarded
    · cases hguarded with
      | cons hstep hguarded =>
        obtain ⟨hcovered, -, rfl⟩ := hstep
        exact ⟨hcovered, hguarded⟩

/-- Nothing is sent before its latency is over, and nothing at all over a link that loses
everything, just on the runs on which no held datagram is released by the clock while its link
would still delay or drop it. -/
theorem link_passed_iff {f : FaultInjector ρ δ} (hf : f.Unused) {start : ℕ}
    {es : List (FaultEvent δ)} {S : Outgoing ρ δ} (h : Run Step (initial f start) es S) :
    ∃ T : Outgoing ρ (ℕ × δ), Run StampedStep (initial (f.map (0, ·)) start) es T ∧ T.plain = S ∧
      (((∀ y ∈ T.emitted, y.2.1 + millis f.delayMs ≤ y.1) ∧ (100 ≤ f.dropPct → T.emitted = [])) ↔
        Run (guarded Covered Step) (initial f start) es S) := by
  have hplain : (initial (f.map fun x => (0, x)) start).plain = initial f start := by
    cases f
    obtain ⟨rfl, rfl, -⟩ := hf
    rfl
  have hinit : (initial (f.map fun x => (0, x)) start).Stamped f.link := by
    refine ⟨rfl, ⟨fun e he => ?_, fun e he => ?_⟩, fun y hy => ?_⟩
    · simp [initial, FaultInjector.map, hf.delayed] at he
    · simp [initial, FaultInjector.map, hf.held] at he
    · simp [initial, FaultInjector.map, FaultInjector.inFlight, hf.held, hf.delayed] at hy
  obtain ⟨T, hrun, hT, -, hiff⟩ := run_stamped h hinit hplain
  refine ⟨T, hrun, hT, ?_⟩
  have hpassed : T.Passed f.link ↔ Run (guarded Covered Step) (initial f start) es S :=
    hiff.trans (and_iff_right fun y hy => by cases hy)
  rw [← hpassed]
  constructor
  · rintro ⟨hdelay, hlost⟩ y hy
    refine ⟨hdelay y hy, ?_⟩
    show f.dropPct < 100
    by_contra hall
    rw [hlost (Nat.le_of_not_lt hall)] at hy
    cases hy
  · intro hpassed
    refine ⟨fun y hy => (hpassed y hy).1, fun hall => List.eq_nil_iff_forall_not_mem.mpr ?_⟩
    exact fun y hy => Nat.not_lt_of_le hall (hpassed y hy).2

/-- A datagram held to be swapped leaves after 50 ms whatever the link does. -/
theorem held_datagram_bypasses_link :
    (∃ T, Run StampedStep (initial ((numbered 0 0 100 1000).map (0, ·)) 0)
      [.send 1 0, .drain (millis 50)] T ∧
      ¬ ∀ y ∈ T.emitted, y.2.1 + millis (numbered 0 0 100 1000).delayMs ≤ y.1) ∧
    ∃ T, Run StampedStep (initial ((numbered 100 0 100 0).map (0, ·)) 0)
      [.send 1 0, .drain (millis 50)] T ∧ T.emitted ≠ [] := by
  constructor
  · exact ⟨_, .cons ⟨by decide, rfl⟩ (.cons ⟨by decide, rfl⟩ (.nil _)), by decide +kernel⟩
  · exact ⟨_, .cons ⟨by decide, rfl⟩ (.cons ⟨by decide, rfl⟩ (.nil _)), by decide +kernel⟩

theorem link_passed_in_order : ∃ T,
    Run StampedStep (initial ((numbered 0 0 0 1000).map (0, ·)) 0)
      [.send 1 0, .drain (millis 1000)] T ∧
    T.emitted = [(millis 1000, 0, 1)] ∧
      ∀ y ∈ T.emitted, y.2.1 + millis (numbered 0 0 0 1000).delayMs ≤ y.1 := by
  have hrun : Run Step (initial (numbered 0 0 0 1000) 0) [.send 1 0, .drain (millis 1000)] _ :=
    .cons ⟨by decide, rfl⟩ (.cons ⟨by decide, rfl⟩ (.nil _))
  obtain ⟨T, hT, -, hiff⟩ := link_passed_iff ⟨rfl, rfl, rfl⟩ hrun
  have hfree : ((initial (numbered 0 0 0 1000) 0).take (.send 1 0)).injector.held = none := by
    decide +kernel
  have hcovered : Run (guarded Covered Step) (initial (numbered 0 0 0 1000) 0)
      [.send 1 0, .drain (millis 1000)] _ :=
    .cons ⟨trivial, by decide, rfl⟩
      (.cons ⟨fun e he => absurd (hfree.symm.trans he) nofun, by decide, rfl⟩ (.nil _))
  refine ⟨T, hT, ?_, (hiff.mpr hcovered).1⟩
  cases hT with
  | cons h1 hrest =>
    cases hrest with
    | cons h2 hnil =>
      cases hnil
      obtain ⟨-, rfl⟩ := h1
      obtain ⟨-, rfl⟩ := h2
      decide +kernel

end Outgoing
end Qstream

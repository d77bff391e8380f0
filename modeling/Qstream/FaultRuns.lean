import Qstream.Fault
import Qstream.Runs

/-! Sequences of calls of the fault injector: no datagram is lost or doubled on the way but by
a fault that is counted. -/
namespace Qstream
open Runs

/-- The faults of a link. -/
structure FaultLink where
  dropPct : ℕ
  dupPct : ℕ
  reorderPct : ℕ
  delayMs : ℕ
  burstEveryMs : ℕ
  burstDurMs : ℕ

namespace FaultInjector
variable {ρ δ : Type*} [RandomSource ρ] {f f' : FaultInjector ρ δ} {x : δ} {now : ℕ}

/-- The duplications that one pass through the pipeline rolls. -/
def rollsDup (f : FaultInjector ρ δ) : ℕ := if (f.rollIf f.dupPct).1 then 1 else 0

/-- The duplications that a call of `send` rolls. -/
def sendDups (f : FaultInjector ρ δ) (x : δ) (now : ℕ) : ℕ :=
  if f.inBurst now then 0
  else if f.reorderPct > 0 then
    match f.held with
    | some _ => f.unheld.rollsDup + (f.unheld.pipeline x now).1.rollsDup
    | none =>
      let (hold, f) := f.rollIf f.reorderPct
      if hold then 0 else f.rollsDup
  else f.rollsDup

theorem rollsDup_map {ε : Type*} (g : δ → ε) (f : FaultInjector ρ δ) :
    (f.map g).rollsDup = f.rollsDup := by
  have hpct : (f.map g).dupPct = f.dupPct := rfl
  simp only [rollsDup, rollIf_map, hpct]

theorem sendDups_map {ε : Type*} (g : δ → ε) (f : FaultInjector ρ δ) (x : δ) (now : ℕ) :
    (f.map g).sendDups (g x) now = f.sendDups x now := by
  have hburst : (f.map g).inBurst now = f.inBurst now := rfl
  have hpct : (f.map g).reorderPct = f.reorderPct := rfl
  have hunheld : (f.map g).unheld = f.unheld.map g := rfl
  have hheld : (f.map g).held = f.held.map fun e => (e.1, g e.2) := rfl
  simp only [sendDups, hburst, hpct, hunheld, hheld, pipeline_map, rollIf_map, rollsDup_map]
  cases f.held <;> rfl

/-- The injector after `lost` datagrams were dropped, `kept` copies of `x` delayed and `sent`
of them sent. -/
def after (f : FaultInjector ρ δ) (x : δ) (now : ℕ) (rng : ρ) (lost kept sent : ℕ) :
    FaultInjector ρ δ :=
  { f with
    rng := rng
    delayed := f.delayed ++ List.replicate kept (now + millis f.delayMs, x)
    stats := ⟨f.stats.dropped + lost, f.stats.emitted + sent⟩ }

omit [RandomSource ρ] in
theorem after_after (f : FaultInjector ρ δ) (x : δ) (now : ℕ) (rng rng' : ρ)
    (lost kept sent lost' kept' sent' : ℕ) :
    (f.after x now rng lost kept sent).after x now rng' lost' kept' sent' =
      f.after x now rng' (lost + lost') (kept + kept') (sent + sent') := by
  simp only [after, List.append_assoc, List.replicate_append_replicate, Nat.add_assoc]

theorem rollIf_eq (f : FaultInjector ρ δ) (pct : ℕ) :
    (∃ rng, (f.rollIf pct).2 = { f with rng := rng }) ∧
      (100 ≤ pct → (f.rollIf pct).1 = true) ∧ (pct = 0 → f.rollIf pct = (false, f)) := by
  unfold rollIf
  split
  next hpos =>
    refine ⟨⟨_, rfl⟩, fun hall => ?_, fun hzero => absurd hzero (Nat.ne_of_gt hpos)⟩
    simp only [roll, if_pos (show pct ≥ 100 from hall)]
  next hzero => exact ⟨⟨f.rng, rfl⟩, fun hall => by omega, fun _ => rfl⟩

/-- What becomes of copies: some are lost, and the others are all delayed or all sent. -/
def Copied (f : FaultInjector ρ δ) (x : δ) (now n : ℕ) (r : FaultInjector ρ δ × List δ) : Prop :=
  ∃ rng lost kept sent, r = (f.after x now rng lost kept sent, List.replicate sent x) ∧
    lost + kept + sent = n ∧ (0 < f.delayMs → sent = 0) ∧ (f.delayMs = 0 → kept = 0) ∧
    (100 ≤ f.dropPct → lost = n) ∧ (f.dropPct = 0 → lost = 0)

theorem sendCopy_copied (f : FaultInjector ρ δ) (x : δ) (now : ℕ) :
    f.Copied x now 1 (f.sendCopy x now) := by
  obtain ⟨⟨rng, hrng⟩, hall, hnone⟩ := rollIf_eq f f.dropPct
  have hkeep (f : FaultInjector ρ δ) : f.delayed ++ List.replicate 0 (now + millis f.delayMs, x) =
    f.delayed := List.append_nil _
  simp only [sendCopy, hrng]
  split
  next hlost =>
    refine ⟨rng, 1, 0, 0, ?_, rfl, fun _ => rfl, fun _ => rfl, fun _ => rfl, fun hzero => ?_⟩
    · simp only [after, drop, hkeep]
      rfl
    · rw [hnone hzero] at hlost
      cases hlost
  next hlost =>
  split
  next hdelay =>
    refine ⟨rng, 0, 1, 0, rfl, rfl, fun _ => rfl, fun hzero => ?_, fun h => absurd (hall h) hlost,
      fun _ => rfl⟩
    exact absurd hzero (Nat.ne_of_gt hdelay)
  next hdelay =>
    refine ⟨rng, 0, 0, 1, ?_, rfl, fun hpos => absurd hpos hdelay, fun _ => rfl,
      fun h => absurd (hall h) hlost, fun _ => rfl⟩
    simp only [after, emit, hkeep]
    rfl

theorem sendCopies_copied (x : δ) (now n : ℕ) (f : FaultInjector ρ δ) :
    f.Copied x now n (sendCopies x now n f) := by
  induction n generalizing f with
  | zero =>
    refine ⟨f.rng, 0, 0, 0, ?_, rfl, fun _ => rfl, fun _ => rfl, fun _ => rfl, fun _ => rfl⟩
    simp only [sendCopies, after, List.replicate_zero, List.append_nil, Nat.add_zero]
  | succ n ih =>
    obtain ⟨rng, lost, kept, sent, heq, hsum, hsent, hkept, hall, hnone⟩ := sendCopy_copied f x now
    obtain ⟨rng', lost', kept', sent', heq', hsum', hsent', hkept', hall', hnone'⟩ :=
      ih (f.after x now rng lost kept sent)
    refine ⟨rng', lost + lost', kept + kept', sent + sent', ?_, by omega, fun h => ?_, fun h => ?_,
      fun h => ?_, fun h => ?_⟩
    · simp only [sendCopies, heq, heq', after_after, List.replicate_append_replicate]
    · rw [hsent h, hsent' h]
    · rw [hkept h, hkept' h]
    · rw [hall h, hall' h, Nat.add_comm]
    · rw [hnone h, hnone' h]

theorem pipeline_copied (f : FaultInjector ρ δ) (x : δ) (now : ℕ) :
    f.Copied x now (1 + f.rollsDup) (f.pipeline x now) := by
  obtain ⟨⟨rng, hrng⟩, -, -⟩ := rollIf_eq f f.dupPct
  have hcopies : f.copies = (1 + f.rollsDup, { f with rng := rng }) := by
    simp only [copies, rollsDup, hrng]
    split <;> rfl
  simp only [pipeline, hcopies]
  exact sendCopies_copied x now _ _

/-- The datagrams that were taken and neither sent nor dropped yet. -/
def inFlight (f : FaultInjector ρ δ) : List δ :=
  f.delayed.map Prod.snd ++ (f.held.map Prod.snd).toList

/-- What the environment configured. -/
def link (f : FaultInjector ρ δ) : FaultLink :=
  ⟨f.dropPct, f.dupPct, f.reorderPct, f.delayMs, f.burstEveryMs, f.burstDurMs⟩

/-- From `f` a call that was given `xs`, with `dups` duplications, leads to `r.1` and sends `r.2`. -/
structure Accounts (f : FaultInjector ρ δ) (xs : List δ) (dups : ℕ)
    (r : FaultInjector ρ δ × List δ) : Prop where
  counted : r.2.length + r.1.stats.dropped + r.1.inFlight.length =
    f.stats.dropped + f.inFlight.length + xs.length + dups
  emitted : r.1.stats.emitted = f.stats.emitted + r.2.length
  sources : ∀ y ∈ r.2 ++ r.1.inFlight, y ∈ f.inFlight ++ xs
  link : r.1.link = f.link

omit [RandomSource ρ] in
theorem inFlight_length (f : FaultInjector ρ δ) :
    f.inFlight.length = f.delayed.length + f.held.toList.length := by
  cases hheld : f.held <;> simp [inFlight, hheld]

theorem pipeline_accounts (f : FaultInjector ρ δ) (x : δ) (now : ℕ) :
    f.Accounts [x] f.rollsDup (f.pipeline x now) := by
  obtain ⟨rng, lost, kept, sent, heq, hsum, -⟩ := f.pipeline_copied x now
  rw [heq]
  refine ⟨?_, ?_, fun y hy => ?_, rfl⟩
  · simp only [inFlight_length, after, List.length_replicate, List.length_append,
      List.length_cons, List.length_nil]
    omega
  · simp only [after, List.length_replicate]
  · simp only [inFlight, after, List.mem_append, List.map_append, List.map_replicate,
      List.mem_replicate, List.mem_singleton] at hy ⊢
    tauto

theorem send_accounts (f : FaultInjector ρ δ) (x : δ) (now : ℕ) :
    f.Accounts [x] (f.sendDups x now) (f.send x now) := by
  unfold send sendDups
  split
  · refine ⟨?_, rfl, fun y hy => List.mem_append_left _ hy, rfl⟩
    simp only [inFlight_length, drop, List.length_nil, List.length_cons]
    omega
  split
  · cases hheld : f.held with
    | some e =>
      have hfirst := f.unheld.pipeline_accounts x now
      have hsecond := (f.unheld.pipeline x now).1.pipeline_accounts e.2 now
      refine ⟨?_, ?_, fun y hy => ?_, hsecond.link.trans hfirst.link⟩
      · have hone := hfirst.counted
        have htwo := hsecond.counted
        simp only [inFlight_length, unheld, hheld, List.length_append, List.length_cons,
          List.length_nil, Option.toList_none, Option.toList_some] at hone htwo ⊢
        omega
      · rw [hsecond.emitted, hfirst.emitted, List.length_append, ← Nat.add_assoc]
        rfl
      · have hone := hfirst.sources
        have htwo := hsecond.sources y
        have hkept : ∀ y ∈ f.unheld.inFlight, y ∈ f.inFlight := fun y hy => by
          simp only [inFlight, unheld, List.mem_append, Option.map_none, Option.toList_none,
            List.not_mem_nil, or_false] at hy ⊢
          exact .inl hy
        have hheld' : e.2 ∈ f.inFlight := by simp [inFlight, hheld]
        simp only [List.mem_append, List.mem_singleton] at hone htwo hy ⊢
        grind
    | none =>
      obtain ⟨⟨rng, hrng⟩, -, -⟩ := rollIf_eq f f.reorderPct
      simp only [hrng]
      split
      · refine ⟨?_, rfl, fun y hy => ?_, rfl⟩
        · simp only [inFlight_length, hheld, List.length_nil, List.length_cons,
            Option.toList_none, Option.toList_some]
          omega
        · simpa [inFlight, hheld] using hy
      · have hrest := ({ f with rng := rng } : FaultInjector ρ δ).pipeline_accounts x now
        exact ⟨hrest.counted, hrest.emitted, hrest.sources, hrest.link⟩
  · exact f.pipeline_accounts x now

omit [RandomSource ρ] in
theorem release_accounts (f : FaultInjector ρ δ) (now : ℕ) : f.Accounts [] 0 (f.release now) := by
  have hsplit := List.takeWhile_append_dropWhile (p := fun e => decide (e.1 ≤ now)) (l := f.delayed)
  refine ⟨?_, ?_, fun y hy => ?_, rfl⟩
  · have hlength := congrArg List.length hsplit
    rw [List.length_append] at hlength
    simp only [release, inFlight_length, emit, List.length_map, List.length_nil]
    omega
  · simp only [release, emit, List.length_map]
  · have hmap := congrArg (List.map Prod.snd) hsplit
    rw [List.map_append] at hmap
    have hdelayed := iff_of_eq (congrArg (y ∈ ·) hmap)
    simp only [release, inFlight, emit, List.mem_append, List.append_nil] at hy hdelayed ⊢
    tauto

omit [RandomSource ρ] in
theorem drain_accounts (f : FaultInjector ρ δ) (now : ℕ) : f.Accounts [] 0 (f.drain now) := by
  have hrelease := f.release_accounts now
  obtain ⟨heldAt, z, hheld, -, heq⟩ | ⟨-, heq⟩ := f.drain_cases now
  · have hkept : (f.release now).1.held = some (heldAt, z) := hheld
    rw [heq]
    refine ⟨?_, ?_, fun y hy => hrelease.sources y ?_, hrelease.link⟩
    · have hcounted := hrelease.counted
      simp only [inFlight_length, emit, unheld, hkept, List.length_append, List.length_nil,
        List.length_cons, Option.toList_some, Option.toList_none] at hcounted ⊢
      omega
    · simp only [emit, unheld, hrelease.emitted, List.length_append, List.length_cons,
        List.length_nil, Nat.add_assoc]
    · simp only [inFlight, emit, unheld, hkept, List.mem_append, Option.map_some, Option.map_none,
        Option.toList_some, Option.toList_none] at hy ⊢
      tauto
  · rwa [heq]

/-- Without faults a datagram is sent at once. -/
theorem send_of_not_enabled (hoff : f.enabled = false) (x : δ) (now : ℕ) :
    f.send x now = (f.emit 1, [x]) := by
  simp only [enabled, Bool.or_eq_false_iff, decide_eq_false_iff_not, Nat.not_lt, Nat.le_zero,
    gt_iff_lt] at hoff
  obtain ⟨⟨⟨⟨hdrop, hdup⟩, hreorder⟩, hdelay⟩, hburst⟩ := hoff
  simp [send, inBurst, hburst, hreorder, pipeline, copies, rollIf, hdup, sendCopies, sendCopy,
    hdrop, hdelay]

omit [RandomSource ρ] in
theorem drain_of_empty (hdelayed : f.delayed = []) (hheld : f.held = none) (now : ℕ) :
    f.drain now = (f, []) := by
  cases f
  subst hdelayed hheld
  rfl

end FaultInjector

/-- A call of the fault injector. -/
inductive FaultEvent (δ : Type*)
  | send (x : δ) (now : ℕ)
  | drain (now : ℕ)

def FaultEvent.now {δ : Type*} : FaultEvent δ → ℕ
  | .send _ now => now
  | .drain now => now

/-- An injector, the time of its last call, and with their times the datagrams that were handed
to it and those that reached the socket. -/
structure Outgoing (ρ δ : Type*) where
  injector : FaultInjector ρ δ
  clock : ℕ
  sent : List (ℕ × δ)
  emitted : List (ℕ × δ)
  duplicated : ℕ

namespace Outgoing
variable {ρ δ : Type*} [RandomSource ρ] {f : FaultInjector ρ δ} {S T : Outgoing ρ δ}
  {e : FaultEvent δ} {es : List (FaultEvent δ)} {start : ℕ}

def initial (f : FaultInjector ρ δ) (start : ℕ) : Outgoing ρ δ := ⟨f, start, [], [], 0⟩

def take (S : Outgoing ρ δ) : FaultEvent δ → Outgoing ρ δ
  | .send x now =>
    { injector := (S.injector.send x now).1
      clock := now
      sent := S.sent ++ [(now, x)]
      emitted := S.emitted ++ (S.injector.send x now).2.map (now, ·)
      duplicated := S.duplicated + S.injector.sendDups x now }
  | .drain now =>
    { S with
      injector := (S.injector.drain now).1
      clock := now
      emitted := S.emitted ++ (S.injector.drain now).2.map (now, ·) }

/-- Time does not go back. -/
def Step (S : Outgoing ρ δ) (e : FaultEvent δ) (T : Outgoing ρ δ) : Prop :=
  S.clock ≤ e.now ∧ T = S.take e

/-- Every datagram and every copy is where it is counted, and all that is sent on or still to be
sent was handed over before. -/
structure Conserved (S : Outgoing ρ δ) : Prop where
  counted : S.emitted.length + S.injector.stats.dropped + S.injector.inFlight.length =
    S.sent.length + S.duplicated
  emitted : S.injector.stats.emitted = S.emitted.length
  kept : ∀ y ∈ S.injector.inFlight, ∃ t ≤ S.clock, (t, y) ∈ S.sent
  sources : ∀ y ∈ S.emitted, ∃ t ≤ y.1, (t, y.2) ∈ S.sent

omit [RandomSource ρ] in
theorem initial_conserved (hf : f.Unused) : (initial f start).Conserved := by
  refine ⟨?_, ?_, ?_, ?_⟩
  · simp [initial, FaultInjector.inFlight, hf.held, hf.delayed, hf.stats]
  · simp [initial, hf.stats]
  · simp [initial, FaultInjector.inFlight, hf.held, hf.delayed]
  · simp [initial]

/-- A call that accounts for what it was given conserves it. -/
theorem Conserved.step (hS : S.Conserved) (h : Step S e T) : T.Conserved := by
  obtain ⟨htime, rfl⟩ := h
  cases e with
  | send x now =>
    have hsend := S.injector.send_accounts x now
    have hnew : (now, x) ∈ S.sent ++ [(now, x)] := List.mem_append_right _ List.mem_cons_self
    have hsource (y : δ) (hy : y ∈ S.injector.inFlight ++ [x]) :
        ∃ t ≤ now, (t, y) ∈ S.sent ++ [(now, x)] := by
      rcases List.mem_append.mp hy with hold | hy
      · obtain ⟨t, ht, hin⟩ := hS.kept y hold
        exact ⟨t, ht.trans htime, List.mem_append_left _ hin⟩
      · obtain rfl : y = x := List.mem_singleton.mp hy
        exact ⟨now, le_rfl, hnew⟩
    refine ⟨?_, ?_, fun y hy => ?_, fun y hy => ?_⟩
    · have hcounted := hsend.counted
      have hbefore := hS.counted
      simp only [take, List.length_append, List.length_map, List.length_cons,
        List.length_nil] at hcounted ⊢
      omega
    · simp only [take, hsend.emitted, hS.emitted, List.length_append, List.length_map]
    · exact hsource y (hsend.sources y (List.mem_append_right _ hy))
    · rcases List.mem_append.mp hy with hold | hy
      · obtain ⟨t, ht, hin⟩ := hS.sources y hold
        exact ⟨t, ht, List.mem_append_left _ hin⟩
      · obtain ⟨z, hz, rfl⟩ := List.mem_map.mp hy
        exact hsource z (hsend.sources z (List.mem_append_left _ hz))
  | drain now =>
    have hdrain := S.injector.drain_accounts now
    have hsource (y : δ) (hy : y ∈ S.injector.inFlight ++ []) : ∃ t ≤ now, (t, y) ∈ S.sent := by
      rw [List.append_nil] at hy
      obtain ⟨t, ht, hin⟩ := hS.kept y hy
      exact ⟨t, ht.trans htime, hin⟩
    refine ⟨?_, ?_, fun y hy => ?_, fun y hy => ?_⟩
    · have hcounted := hdrain.counted
      have hbefore := hS.counted
      simp only [take, List.length_append, List.length_map, List.length_nil] at hcounted ⊢
      omega
    · simp only [take, hdrain.emitted, hS.emitted, List.length_append, List.length_map]
    · exact hsource y (hdrain.sources y (List.mem_append_right _ hy))
    · rcases List.mem_append.mp hy with hold | hy
      · exact hS.sources y hold
      · obtain ⟨z, hz, rfl⟩ := List.mem_map.mp hy
        exact hsource z (hdrain.sources z (List.mem_append_left _ hz))

theorem Conserved.run (hf : f.Unused) (h : Run Step (initial f start) es S) : S.Conserved :=
  h.invariant (fun _ _ _ hI hstep => hI.step hstep) (initial_conserved hf)

/-- An injector without faults passes everything on. -/
structure Transparent (S : Outgoing ρ δ) : Prop where
  off : S.injector.enabled = false
  delayed : S.injector.delayed = []
  held : S.injector.held = none
  emitted : S.emitted = S.sent

theorem Transparent.step (hS : S.Transparent) (h : Step S e T) : T.Transparent := by
  obtain ⟨-, rfl⟩ := h
  cases e with
  | send x now =>
    have hsend := FaultInjector.send_of_not_enabled hS.off x now
    refine ⟨?_, ?_, ?_, ?_⟩ <;> simp only [take, hsend]
    · exact hS.off
    · exact hS.delayed
    · exact hS.held
    · rw [hS.emitted]
      rfl
  | drain now =>
    have hdrain := FaultInjector.drain_of_empty hS.delayed hS.held now
    refine ⟨?_, ?_, ?_, ?_⟩ <;> simp only [take, hdrain]
    · exact hS.off
    · exact hS.delayed
    · exact hS.held
    · rw [hS.emitted]
      exact List.append_nil _

/-- Whatever the faults and the random numbers, every datagram handed over and every copy rolled
is sent on, dropped, delayed or held, nothing else is sent on, and without faults every datagram
is sent on at once. -/
theorem conserved {f : FaultInjector ρ δ} (hf : f.Unused) {start : ℕ}
    {es : List (FaultEvent δ)} {S : Outgoing ρ δ} (h : Run Step (initial f start) es S) :
    S.emitted.length + S.injector.stats.dropped + S.injector.delayed.length +
        S.injector.held.toList.length = S.sent.length + S.duplicated ∧
      S.injector.stats.emitted = S.emitted.length ∧
      (∀ y ∈ S.emitted, ∃ t ≤ y.1, (t, y.2) ∈ S.sent) ∧
      (f.enabled = false → S.emitted = S.sent) := by
  have hS := Conserved.run hf h
  refine ⟨?_, hS.emitted, hS.sources, fun hoff => ?_⟩
  · have hcounted := hS.counted
    rw [FaultInjector.inFlight_length] at hcounted
    omega
  · have hinit : (initial f start).Transparent := ⟨hoff, hf.delayed, hf.held, rfl⟩
    exact (h.invariant (fun _ _ _ hI hstep => hI.step hstep) hinit).emitted

/-- A new injector for numbered datagrams. -/
def numbered (dropPct dupPct reorderPct delayMs : ℕ) : FaultInjector UInt64 ℕ :=
  { rng := 7, started := 0, dropPct, dupPct, reorderPct, delayMs, burstEveryMs := 0,
    burstDurMs := 0, held := none, delayed := [], stats := ⟨0, 0⟩ }

theorem conserved_doubled : ∃ S,
    Run Step (initial (numbered 0 100 100 1000) 0)
      [.send 1 0, .send 2 (millis 10), .drain (millis 2000), .send 3 (millis 2001)] S ∧
    S.emitted.map Prod.snd = [2, 2, 1, 1] ∧ S.injector.held.map Prod.snd = some 3 ∧
    S.emitted.length + S.injector.stats.dropped + S.injector.delayed.length +
      S.injector.held.toList.length = S.sent.length + S.duplicated := by
  have hrun : Run Step (initial (numbered 0 100 100 1000) 0)
      [.send 1 0, .send 2 (millis 10), .drain (millis 2000), .send 3 (millis 2001)] _ :=
    .cons ⟨by decide, rfl⟩ (.cons ⟨by decide, rfl⟩ (.cons ⟨by decide, rfl⟩
      (.cons ⟨by decide, rfl⟩ (.nil _))))
  exact ⟨_, hrun, by decide +kernel, by decide +kernel, (conserved ⟨rfl, rfl, rfl⟩ hrun).1⟩

end Outgoing
end Qstream

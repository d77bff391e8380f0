import Qstream.Protocol

/-! The fault injector that every outgoing datagram passes. Nothing in it looks into a datagram,
so it is generic in them, and in the source of its random numbers. -/
namespace Qstream

/-- SplitMix64: the next output and the next state. -/
def Rng.next (state : UInt64) : UInt64 × UInt64 :=
  let s := state + 0x9E3779B97F4A7C15
  let z := (s ^^^ (s >>> 30)) * 0xBF58476D1CE4E5B9
  let z := (z ^^^ (z >>> 27)) * 0x94D049BB133111EB
  (z ^^^ (z >>> 31), s)

/-- A stream of random numbers. -/
class RandomSource (ρ : Type*) where
  next : ρ → UInt64 × ρ

instance : RandomSource UInt64 := ⟨Rng.next⟩

/-- True with probability `pct`/100. -/
def roll {ρ : Type*} [RandomSource ρ] (rng : ρ) (pct : ℕ) : Bool × ρ :=
  if pct ≥ 100 then (true, rng)
  else if pct = 0 then (false, rng)
  else
    let (x, rng) := RandomSource.next rng
    (x.toNat % 100 < pct, rng)

structure FaultStats where
  dropped : ℕ
  emitted : ℕ
  deriving DecidableEq, Repr

structure FaultInjector (ρ δ : Type*) where
  rng : ρ
  started : ℕ
  dropPct : ℕ
  dupPct : ℕ
  reorderPct : ℕ
  delayMs : ℕ
  burstEveryMs : ℕ
  burstDurMs : ℕ
  /-- Datagram held back for reordering (sent after the next one). -/
  held : Option (ℕ × δ)
  /-- Datagrams waiting out their artificial latency. -/
  delayed : List (ℕ × δ)
  stats : FaultStats

def HOLD_MAX : ℕ := millis 50

namespace FaultInjector
variable {ρ δ ε : Type*} [RandomSource ρ]

/-- An injector that has done nothing yet. -/
structure Unused (f : FaultInjector ρ δ) : Prop where
  held : f.held = none
  delayed : f.delayed = []
  stats : f.stats = ⟨0, 0⟩

def enabled (f : FaultInjector ρ δ) : Bool :=
  f.dropPct > 0 || f.dupPct > 0 || f.reorderPct > 0 || f.delayMs > 0 || f.burstEveryMs > 0

def inBurst (f : FaultInjector ρ δ) (now : ℕ) : Bool :=
  f.burstEveryMs ≠ 0 ∧
    (now - f.started) / millis 1 % 2 ^ 64 % f.burstEveryMs < f.burstDurMs

/-- A roll that is only made for a fault that is switched on. -/
def rollIf (f : FaultInjector ρ δ) (pct : ℕ) : Bool × FaultInjector ρ δ :=
  if pct > 0 then
    let (hit, rng) := roll f.rng pct
    (hit, { f with rng := rng })
  else (false, f)

def drop (f : FaultInjector ρ δ) : FaultInjector ρ δ :=
  { f with stats := { f.stats with dropped := f.stats.dropped + 1 } }

/-- The socket takes every datagram. -/
def emit (f : FaultInjector ρ δ) (n : ℕ) : FaultInjector ρ δ :=
  { f with stats := { f.stats with emitted := f.stats.emitted + n } }

/-- Nothing is held back. -/
def unheld (f : FaultInjector ρ δ) : FaultInjector ρ δ := { f with held := none }

/-- One copy: dropped, delayed or sent. -/
def sendCopy (f : FaultInjector ρ δ) (x : δ) (now : ℕ) : FaultInjector ρ δ × List δ :=
  let (lost, f) := f.rollIf f.dropPct
  if lost then (f.drop, [])
  else if f.delayMs > 0 then
    ({ f with delayed := f.delayed ++ [(now + millis f.delayMs, x)] }, [])
  else (f.emit 1, [x])

def sendCopies (x : δ) (now : ℕ) : ℕ → FaultInjector ρ δ → FaultInjector ρ δ × List δ
  | 0, f => (f, [])
  | copies + 1, f =>
    let (f1, out1) := f.sendCopy x now
    let (f2, out2) := sendCopies x now copies f1
    (f2, out1 ++ out2)

/-- The injector after `pipeline` counted the copies, and their number. -/
def copies (f : FaultInjector ρ δ) : ℕ × FaultInjector ρ δ :=
  let (dup, f) := f.rollIf f.dupPct
  (if dup then 2 else 1, f)

def pipeline (f : FaultInjector ρ δ) (x : δ) (now : ℕ) : FaultInjector ρ δ × List δ :=
  let (copies, f) := f.copies
  sendCopies x now copies f

/-- Inject faults into one outgoing datagram, then send (or schedule) it: the new state and
what reaches the socket. -/
def send (f : FaultInjector ρ δ) (x : δ) (now : ℕ) : FaultInjector ρ δ × List δ :=
  if f.inBurst now then (f.drop, [])
  else if f.reorderPct > 0 then
    match f.held with
    | some (_, y) =>
      -- release the new one first, then the held one
      let (f1, out1) := f.unheld.pipeline x now
      let (f2, out2) := f1.pipeline y now
      (f2, out1 ++ out2)
    | none =>
      let (hold, f) := f.rollIf f.reorderPct
      if hold then ({ f with held := some (now, x) }, []) else f.pipeline x now
  else f.pipeline x now

/-- Release the delayed datagrams whose time has come. -/
def release (f : FaultInjector ρ δ) (now : ℕ) : FaultInjector ρ δ × List δ :=
  let due := f.delayed.takeWhile fun e => e.1 ≤ now
  ({ f with delayed := f.delayed.dropWhile fun e => e.1 ≤ now }.emit due.length, due.map Prod.snd)

/-- Release delayed/held datagrams whose time has come. -/
def drain (f : FaultInjector ρ δ) (now : ℕ) : FaultInjector ρ δ × List δ :=
  let (f, out) := f.release now
  match f.held with
  | some (heldAt, y) =>
    if now - heldAt ≥ HOLD_MAX then (f.unheld.emit 1, out ++ [y]) else (f, out)
  | none => (f, out)

/-- When the event loop must wake up, with a datagram to release. -/
def nextDeadline (f : FaultInjector ρ δ) (now : ℕ) : Option ℕ :=
  let d := (f.delayed.head?.map Prod.fst).or (f.held.map fun e => e.1 + HOLD_MAX)
  d.map fun t => if t > now then t else now + 1

/-- The same injector with other datagrams in the place of those it keeps. -/
def map (g : δ → ε) (f : FaultInjector ρ δ) : FaultInjector ρ ε :=
  { f with
    held := f.held.map fun e => (e.1, g e.2)
    delayed := f.delayed.map fun e => (e.1, g e.2) }

/-! The datagrams do not matter to what happens to them. -/

theorem rollIf_map (g : δ → ε) (f : FaultInjector ρ δ) (pct : ℕ) :
    (f.map g).rollIf pct = ((f.rollIf pct).1, (f.rollIf pct).2.map g) := by
  unfold rollIf
  split <;> rfl

theorem sendCopy_map (g : δ → ε) (f : FaultInjector ρ δ) (x : δ) (now : ℕ) :
    (f.map g).sendCopy (g x) now = ((f.sendCopy x now).1.map g, (f.sendCopy x now).2.map g) := by
  have hpct : (f.map g).dropPct = f.dropPct := rfl
  simp only [sendCopy, rollIf_map, hpct]
  split
  · rfl
  have hdelay : ((f.rollIf f.dropPct).2.map g).delayMs = (f.rollIf f.dropPct).2.delayMs := rfl
  rw [hdelay]
  split
  · simp only [map, List.map_append, List.map_cons, List.map_nil]
  · rfl

theorem sendCopies_map (g : δ → ε) (x : δ) (now copies : ℕ) (f : FaultInjector ρ δ) :
    sendCopies (g x) now copies (f.map g) =
      ((sendCopies x now copies f).1.map g, (sendCopies x now copies f).2.map g) := by
  induction copies generalizing f with
  | zero => rfl
  | succ copies ih => simp only [sendCopies, sendCopy_map, ih, List.map_append]

theorem pipeline_map (g : δ → ε) (f : FaultInjector ρ δ) (x : δ) (now : ℕ) :
    (f.map g).pipeline (g x) now = ((f.pipeline x now).1.map g, (f.pipeline x now).2.map g) := by
  have hpct : (f.map g).dupPct = f.dupPct := rfl
  simp only [pipeline, copies, rollIf_map, hpct, sendCopies_map]

theorem send_map (g : δ → ε) (f : FaultInjector ρ δ) (x : δ) (now : ℕ) :
    (f.map g).send (g x) now = ((f.send x now).1.map g, (f.send x now).2.map g) := by
  have hburst : (f.map g).inBurst now = f.inBurst now := rfl
  have hpct : (f.map g).reorderPct = f.reorderPct := rfl
  simp only [send, hburst, hpct]
  split
  · rfl
  split
  · cases hheld : f.held with
    | none =>
      have hheld' : (f.map g).held = none := by simp [map, hheld]
      simp only [hheld', rollIf_map, pipeline_map]
      split <;> rfl
    | some e =>
      have hheld' : (f.map g).held = some (e.1, g e.2) := by simp [map, hheld]
      have hunheld : (f.map g).unheld = f.unheld.map g := rfl
      simp only [hheld', hunheld, pipeline_map, List.map_append]
  · exact pipeline_map g f x now

omit [RandomSource ρ] in
/-- The held datagram is released after its time, and after the delayed ones. -/
theorem drain_cases (f : FaultInjector ρ δ) (now : ℕ) :
    (∃ heldAt y, f.held = some (heldAt, y) ∧ HOLD_MAX ≤ now - heldAt ∧
      f.drain now = ((f.release now).1.unheld.emit 1, (f.release now).2 ++ [y])) ∨
    ((∀ e ∈ f.held, now - e.1 < HOLD_MAX) ∧ f.drain now = f.release now) := by
  have hkept : (f.release now).1.held = f.held := rfl
  simp only [drain, hkept]
  cases hheld : f.held with
  | none => exact .inr ⟨fun e he => (by cases he), rfl⟩
  | some e =>
    obtain ⟨heldAt, y⟩ := e
    by_cases hdue : now - heldAt ≥ HOLD_MAX
    · exact .inl ⟨heldAt, y, rfl, hdue, if_pos hdue⟩
    · refine .inr ⟨fun e he => ?_, if_neg hdue⟩
      obtain rfl : (heldAt, y) = e := Option.some.inj he
      exact Nat.lt_of_not_le hdue

omit [RandomSource ρ] in
theorem release_map (g : δ → ε) (f : FaultInjector ρ δ) (now : ℕ) :
    (f.map g).release now = ((f.release now).1.map g, (f.release now).2.map g) := by
  have htake : (f.map g).delayed.takeWhile (fun e => decide (e.1 ≤ now)) =
      (f.delayed.takeWhile fun e => decide (e.1 ≤ now)).map fun e => (e.1, g e.2) :=
    List.takeWhile_map
  have hdrop : (f.map g).delayed.dropWhile (fun e => decide (e.1 ≤ now)) =
      (f.delayed.dropWhile fun e => decide (e.1 ≤ now)).map fun e => (e.1, g e.2) :=
    List.dropWhile_map
  simp only [release, htake, hdrop, List.length_map, List.map_map]
  rfl

omit [RandomSource ρ] in
theorem drain_map (g : δ → ε) (f : FaultInjector ρ δ) (now : ℕ) :
    (f.map g).drain now = ((f.drain now).1.map g, (f.drain now).2.map g) := by
  have hheld : ((f.release now).1.map g).held = ((f.release now).1.held).map fun e => (e.1, g e.2) :=
    rfl
  simp only [drain, release_map, hheld]
  cases (f.release now).1.held with
  | none => rfl
  | some e =>
    obtain ⟨heldAt, y⟩ := e
    dsimp only [Option.map_some]
    split
    · simp only [List.map_append, List.map_cons, List.map_nil]
      rfl
    · rfl

end FaultInjector
end Qstream

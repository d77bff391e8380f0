import Mathlib

/-! Finite labelled runs of a transition relation, the invariant rule for them,
and the termination rule for a partial step function driven by a measure. -/
namespace Runs
variable {σ ε : Type*}

/-- `Run step s es t`: the events `es`, oldest first, lead from `s` to `t`. -/
inductive Run (step : σ → ε → σ → Prop) : σ → List ε → σ → Prop
  | nil (s) : Run step s [] s
  | cons {s t u e es} : step s e t → Run step t es u → Run step s (e :: es) u

variable {step step' : σ → ε → σ → Prop}

theorem Run.one {s t : σ} {e : ε} (h : step s e t) : Run step s [e] t := .cons h (.nil t)

theorem Run.append {s t u : σ} {es fs : List ε} (h : Run step s es t) (g : Run step t fs u) :
    Run step s (es ++ fs) u := by
  induction h with
  | nil => exact g
  | cons hs _ ih => exact .cons hs (ih g)

/-- A run over `es ++ fs` passes through a state reached by `es`. -/
theorem Run.split {s u : σ} {es fs : List ε} (h : Run step s (es ++ fs) u) :
    ∃ t, Run step s es t ∧ Run step t fs u := by
  induction es generalizing s with
  | nil => exact ⟨s, .nil s, h⟩
  | cons e es ih =>
    cases h with
    | cons hs hr =>
      obtain ⟨t, h1, h2⟩ := ih hr
      exact ⟨t, .cons hs h1, h2⟩

theorem Run.mono {s t : σ} {es : List ε} (hm : ∀ s e t, step s e t → step' s e t)
    (h : Run step s es t) : Run step' s es t := by
  induction h with
  | nil s => exact .nil s
  | cons hs _ ih => exact .cons (hm _ _ _ hs) ih

/-- What one step preserves, a run preserves. -/
theorem Run.invariant {I : σ → Prop} (hI : ∀ s e t, I s → step s e t → I t)
    {s t : σ} {es : List ε} (h : Run step s es t) (h0 : I s) : I t := by
  induction h with
  | nil => exact h0
  | cons hs _ ih => exact ih (hI _ _ _ h0 hs)

/-- The invariant rule when the steps preserve `I` only for events satisfying `P`. -/
theorem Run.invariant_of_events {I : σ → Prop} {P : ε → Prop}
    (hI : ∀ s e t, P e → I s → step s e t → I t)
    {s t : σ} {es : List ε} (h : Run step s es t) (hP : ∀ e ∈ es, P e) (h0 : I s) : I t := by
  induction h with
  | nil => exact h0
  | cons hs _ ih =>
    exact ih (fun e he => hP e (List.mem_cons_of_mem _ he))
      (hI _ _ _ (hP _ List.mem_cons_self) h0 hs)

/-- The invariant rule for what relates a state to the events that led to it. -/
theorem Run.history {I : List ε → σ → Prop} {s t : σ} {es : List ε} (h : Run step s es t)
    (h0 : I [] s) (hI : ∀ es u e v, Run step s es u → I es u → step u e v → I (es ++ [e]) v) :
    I es t := by
  induction es using List.reverseRecOn generalizing t with
  | nil =>
    cases h
    exact h0
  | append_singleton es e ih =>
    obtain ⟨u, hes, hlast⟩ := h.split
    cases hlast with
    | cons hstep hnil =>
      cases hnil
      exact hI es u e t hes (ih hes) hstep

/-- `m` was put out by some step of a run from `s` over `es` to `t`. -/
inductive Emitted {μ : Type*} (step : σ → ε → σ → Prop) (emits : σ → ε → μ → Prop) (s : σ) :
    List ε → σ → μ → Prop
  | now {es t e u m} : Run step s es t → step t e u → emits t e m → Emitted step emits s (es ++ [e]) u m
  | before {es t e u m} : Emitted step emits s es t m → step t e u →
      Emitted step emits s (es ++ [e]) u m

/-- What holds of all that a step puts out, and is kept by later steps, holds of all put out. -/
theorem Emitted.invariant {μ : Type*} {emits : σ → ε → μ → Prop} {Q : σ → μ → Prop} {s t : σ}
    {es : List ε} {m : μ} (h : Emitted step emits s es t m)
    (hnow : ∀ t e u m, step t e u → emits t e m → Q u m)
    (hkept : ∀ t e u m, step t e u → Q t m → Q u m) : Q t m := by
  induction h with
  | now _ hstep hm => exact hnow _ _ _ _ hstep hm
  | before _ hstep ih => exact hkept _ _ _ _ hstep ih

/-- Take the steps of a list of events, where the step is a partial function. -/
def exec (f : σ → ε → Option σ) : σ → List ε → Option σ
  | s, [] => some s
  | s, e :: es => (f s e).bind fun t => exec f t es

theorem Run.of_exec {f : σ → ε → Option σ} (hf : ∀ s e t, f s e = some t → step s e t)
    {s t : σ} {es : List ε} (h : exec f s es = some t) : Run step s es t := by
  induction es generalizing s with
  | nil =>
    obtain rfl : s = t := Option.some.inj h
    exact .nil s
  | cons e es ih =>
    obtain ⟨u, hu, hrest⟩ := Option.bind_eq_some_iff.mp h
    exact .cons (hf s e u hu) (ih hrest)

/-- What is computed of the end of a run holds of the end of some run. -/
theorem Run.exists_of_exec {f : σ → ε → Option σ} (hf : ∀ s e t, f s e = some t → step s e t)
    {p : σ → Bool} {s : σ} {es : List ε} (h : (exec f s es).any p = true) :
    ∃ t, Run step s es t ∧ p t = true := by
  obtain ⟨t, ht, hp⟩ := (Option.any_eq_true p (exec f s es)).mp h
  exact ⟨t, .of_exec hf ht, hp⟩

/-- A step taken in a state and with an event that meet condition `C`. -/
def guarded (C : σ → ε → Prop) (step : σ → ε → σ → Prop) (s : σ) (e : ε) (t : σ) : Prop :=
  C s e ∧ step s e t

/-- Some run from `s` ends in a state satisfying `Q`. -/
def CanReach (step : σ → ε → σ → Prop) (s : σ) (Q : σ → Prop) : Prop :=
  ∃ es t, Run step s es t ∧ Q t

theorem CanReach.refl {s : σ} {Q : σ → Prop} (h : Q s) : CanReach step s Q := ⟨[], s, .nil s, h⟩

theorem CanReach.one {s t : σ} {e : ε} {Q : σ → Prop} (hs : step s e t) (h : Q t) :
    CanReach step s Q := ⟨[e], t, .one hs, h⟩

theorem CanReach.bind {s : σ} {Q R : σ → Prop} (h : CanReach step s Q)
    (hQ : ∀ t, Q t → CanReach step t R) : CanReach step s R := by
  obtain ⟨es, t, hr, ht⟩ := h
  obtain ⟨fs, u, hr', hu⟩ := hQ t ht
  exact ⟨es ++ fs, u, hr.append hr', hu⟩

theorem CanReach.cons {s t : σ} {e : ε} {Q : σ → Prop} (hs : step s e t)
    (h : CanReach step t Q) : CanReach step s Q :=
  (CanReach.one (Q := fun u => u = t) hs rfl).bind fun _ hu => hu ▸ h

theorem CanReach.mono {s : σ} {Q R : σ → Prop} (hQR : ∀ t, Q t → R t)
    (h : CanReach step s Q) : CanReach step s R := h.bind fun t ht => .refl (hQR t ht)

/-- Iterate a step that either continues in a new state or stops (`none`);
`stopsWithin f n s` says that it has stopped after at most `n` iterations. -/
def stopsWithin (f : σ → Option σ) : ℕ → σ → Bool
  | 0, _ => false
  | n + 1, s => match f s with
    | none => true
    | some t => stopsWithin f n t

/-- A measure that drops at every continuing step bounds the iterations. -/
theorem stopsWithin_of_measure {f : σ → Option σ} {I : σ → Prop} (μ : σ → ℕ)
    (hf : ∀ s t, I s → f s = some t → I t ∧ μ t < μ s) {s : σ} (h0 : I s) :
    stopsWithin f (μ s + 1) s = true := by
  suffices h : ∀ n s, I s → μ s < n → stopsWithin f n s = true from h _ s h0 (Nat.lt_succ_self _)
  intro n
  induction n with
  | zero => intro s _ hlt; omega
  | succ n ih =>
    intro s hI hlt
    cases hs : f s with
    | none => simp [stopsWithin, hs]
    | some t =>
      obtain ⟨hIt, hdrop⟩ := hf s t hI hs
      have := ih t hIt (by omega)
      simpa [stopsWithin, hs] using this

/-- A set of states closed under continuing steps, none of which stops, never stops. -/
theorem not_stopsWithin_of_closed {f : σ → Option σ} {I : σ → Prop}
    (hf : ∀ s, I s → ∃ t, f s = some t ∧ I t) {s : σ} (h0 : I s) (n : ℕ) :
    stopsWithin f n s = false := by
  induction n generalizing s with
  | zero => rfl
  | succ n ih =>
    obtain ⟨t, ht, hI⟩ := hf s h0
    simpa [stopsWithin, ht] using ih hI

theorem stopsWithin_mono {f : σ → Option σ} {n m : ℕ} (hnm : n ≤ m) {s : σ}
    (h : stopsWithin f n s = true) : stopsWithin f m s = true := by
  induction n generalizing m s with
  | zero => simp [stopsWithin] at h
  | succ n ih =>
    obtain ⟨m, rfl⟩ : ∃ k, m = k + 1 := ⟨m - 1, by omega⟩
    cases hs : f s with
    | none => simp [stopsWithin, hs]
    | some t =>
      simp only [stopsWithin, hs] at h ⊢
      exact ih (by omega) h

/-- Time passes every deadline: when each step ends the wait, lowers the measure, or leaves
measure and deadline alone before the deadline, every wait ends. -/
theorem exists_done_of_deadlines {μ due t : ℕ → ℕ} {done : ℕ → Prop}
    (ht : ∀ d, ∃ K, ∀ k ≥ K, d ≤ t k)
    (hstep : ∀ k, done k ∨ μ (k + 1) < μ k ∨
      (μ (k + 1) = μ k ∧ due (k + 1) = due k ∧ t k < due k)) (k : ℕ) : ∃ j ≥ k, done j := by
  induction hm : μ k using Nat.strong_induction_on generalizing k with
  | _ m ih =>
    by_contra hnever
    have hwaits (i : ℕ) (hi : μ (k + i) = μ k) :
        μ (k + i + 1) = μ (k + i) ∧ due (k + i + 1) = due (k + i) ∧ t (k + i) < due (k + i) := by
      rcases hstep (k + i) with hdone | hdrop | hsame
      · exact absurd ⟨k + i, Nat.le_add_right k i, hdone⟩ hnever
      · obtain ⟨j, hj, hdone⟩ := ih _ (by omega) (k + i + 1) rfl
        exact absurd ⟨j, by omega, hdone⟩ hnever
      · exact hsame
    have hstill (i : ℕ) : μ (k + i) = μ k ∧ due (k + i) = due k := by
      induction i with
      | zero => exact ⟨rfl, rfl⟩
      | succ i ihi =>
        obtain ⟨hμ, hdue, -⟩ := hwaits i ihi.1
        exact ⟨hμ.trans ihi.1, hdue.trans ihi.2⟩
    obtain ⟨K, hK⟩ := ht (due k)
    obtain ⟨hμ, hdue⟩ := hstill K
    have hlate := hK (k + K) (Nat.le_add_left K k)
    have hearly := (hwaits K hμ).2.2
    omega

end Runs

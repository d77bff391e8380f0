import Qstream.Runs

/-! What the steps of a run add up to, and costs that a potential bounds. -/
namespace Runs
variable {σ ε M N : Type*} {step : σ → ε → σ → Prop}

/-- `Sums step cost s es t k`: on the run over `es` from `s` to `t`, the costs of the steps add
up to `k`. -/
inductive Sums [AddMonoid M] (step : σ → ε → σ → Prop) (cost : σ → ε → M) :
    σ → List ε → σ → M → Prop
  | nil (s) : Sums step cost s [] s 0
  | cons {s t u e es k} : step s e t → Sums step cost t es u k →
      Sums step cost s (e :: es) u (cost s e + k)

section
variable [AddMonoid M] {cost : σ → ε → M} {s t : σ} {es : List ε} {k : M}

theorem Sums.run (h : Sums step cost s es t k) : Run step s es t := by
  induction h with
  | nil s => exact .nil s
  | cons hs _ ih => exact .cons hs ih

/-- Costs that only depend on the events. -/
theorem Run.sums_events (h : Run step s es t) (c : ε → M) :
    Sums step (fun _ e => c e) s es t (es.map c).sum := by
  induction h with
  | nil s => exact .nil s
  | cons hs _ ih =>
    rw [List.map_cons, List.sum_cons]
    exact .cons hs ih

theorem sum_map_toNat (c : ε → Bool) (es : List ε) :
    (es.map fun e => (c e).toNat).sum = es.countP c := by
  induction es with
  | nil => rfl
  | cons e es ih =>
    rw [List.map_cons, List.sum_cons, ih, List.countP_cons]
    cases c e
    · exact Nat.zero_add _
    · exact Nat.add_comm _ _

theorem Sums.with_events [AddMonoid N] (h : Sums step cost s es t k) (c : ε → N) :
    Sums step (fun s e => (cost s e, c e)) s es t (k, (es.map c).sum) := by
  induction h with
  | nil s => exact .nil s
  | cons hs _ ih =>
    rw [List.map_cons, List.sum_cons]
    exact .cons hs ih

/-- Take the steps of a list of events and add up their costs. -/
def tally (f : σ → ε → Option σ) (cost : σ → ε → M) : σ → List ε → Option (σ × M)
  | s, [] => some (s, 0)
  | s, e :: es => (f s e).bind fun t => (tally f cost t es).map fun r => (r.1, cost s e + r.2)

theorem Sums.of_tally {f : σ → ε → Option σ} (hf : ∀ s e t, f s e = some t → step s e t)
    (h : tally f cost s es = some (t, k)) : Sums step cost s es t k := by
  induction es generalizing s k with
  | nil =>
    obtain ⟨rfl, rfl⟩ := Prod.mk.inj (Option.some.inj h)
    exact .nil s
  | cons e es ih =>
    obtain ⟨u, hu, hrest⟩ := Option.bind_eq_some_iff.mp h
    obtain ⟨⟨v, j⟩, hv, heq⟩ := Option.map_eq_some_iff.mp hrest
    obtain ⟨rfl, rfl⟩ := Prod.mk.inj heq
    exact .cons (hf s e u hu) (ih hv)

/-- What is computed of the end and the total of a run holds of those of some run. -/
theorem Sums.exists_of_tally {f : σ → ε → Option σ} (hf : ∀ s e t, f s e = some t → step s e t)
    {p : σ × M → Bool} (h : (tally f cost s es).any p = true) :
    ∃ t k, Sums step cost s es t k ∧ p (t, k) = true := by
  obtain ⟨⟨t, k⟩, ht, hp⟩ := (Option.any_eq_true p (tally f cost s es)).mp h
  exact ⟨t, k, .of_tally hf ht, hp⟩

end

/-- What goes out is paid for by the potential or by what comes in, if every step pays. -/
theorem Sums.bounded [AddMonoid M] {cost : σ → ε → M} {s t : σ} {es : List ε} {k : M}
    {f : σ → ℕ} {I : σ → Prop} (out inp : M →+ ℕ) (h : Sums step cost s es t k)
    (hI : ∀ s e t, I s → step s e t → I t)
    (hstep : ∀ s e t, I s → step s e t → f t + out (cost s e) ≤ f s + inp (cost s e))
    (h0 : I s) : f t + out k ≤ f s + inp k := by
  induction h with
  | nil s => rw [map_zero, map_zero]
  | cons hs _ ih =>
    have hrest := ih (hI _ _ _ h0 hs)
    have hone := hstep _ _ _ h0 hs
    rw [map_add, map_add]
    omega

end Runs

import Mathlib

/-! Periodic timers that somebody looks at now and then: one that is found due acts and is set
again, one that is not due is left alone. -/
namespace Periodic
variable {limit now last due due' done : ℕ} {acts : Prop}

/-- A look at a timer at `now`: it is set again, no further than `limit` ahead, after `acts`, or
it is not due yet. -/
inductive Looked (limit now : ℕ) (acts : Prop) : ℕ → ℕ → Prop
  | due {old new : ℕ} (h : acts) (hnear : new ≤ now + limit) : Looked limit now acts old new
  | early {old : ℕ} (h : now < old) : Looked limit now acts old old

theorem Looked.mono {acts' : Prop} (h : Looked limit now acts due due') (hacts : acts → acts') :
    Looked limit now acts' due due' := by
  cases h with
  | due h hnear => exact .due (hacts h) hnear
  | early h => exact .early h

/-- However it is looked at, a timer is not set further ahead than `limit`. -/
theorem Looked.near (h : Looked limit now acts due due') (hdue : due ≤ now + limit) :
    due' ≤ now + limit := by
  cases h with
  | due hacts hnear => exact hnear
  | early hearly => exact hdue

/-- After the look at `last` the timer is due no later than `limit` after it has acted at `done`. -/
structure Kept (limit last due done : ℕ) : Prop where
  recent : last ≤ done + limit
  near : due ≤ done + limit

theorem Kept.start (h : due ≤ last + limit) : Kept limit last due last :=
  ⟨Nat.le_add_right _ _, h⟩

/-- A look at a timer that does not act. -/
theorem Kept.quiet (h : Kept limit last due done) (hlook : Looked limit now acts due due')
    (hacts : ¬ acts) : Kept limit now due' done := by
  cases hlook with
  | due hdue hnear => exact absurd hdue hacts
  | early hearly =>
    have hnear := h.near
    exact ⟨(hearly.trans_le hnear).le, hnear⟩

/-- The next look, when it is at most `late` after the timer is due or the look before. -/
theorem Kept.next {late : ℕ} (h : Kept limit last due done) (hnow : now ≤ max last due + late) :
    now ≤ done + limit + late := by
  obtain ⟨hrecent, hnear⟩ := h
  omega

end Periodic

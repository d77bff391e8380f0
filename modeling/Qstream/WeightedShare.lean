import Qstream.WeightedDraw

/-! How often a weighted draw hits each element when its roll steps through the total weight, in
steps that are even up to an error: in proportion to the weight, up to a few steps for each of its
places in the list. -/
namespace WeightedDraw
open Finset
variable {α : Type*} {weight : α → ℚ} {l : List α} {p : α} {c o v δ t : ℚ} {N : ℕ} {f : ℕ → ℚ}

/-- The first `N` values of `f` are those of its argument, up to `δ`. -/
def Near (δ : ℚ) (N : ℕ) (f : ℕ → ℚ) : Prop := ∀ x < N, |f x - x| ≤ δ

theorem near_asF64 : Near 1024 (2 ^ 64) fun x => asF64 x := by
  intro x hx
  obtain ⟨hhigh, hlow⟩ := asF64_near hx
  have hhigh : (asF64 x : ℚ) ≤ x + 1024 := by exact_mod_cast hhigh
  have hlow : (x : ℚ) ≤ asF64 x + 1024 := by exact_mod_cast hlow
  rw [abs_le]
  constructor <;> linarith

/-- The values up to a bound are about as many as that bound. -/
theorem Near.card_le (h : Near δ N f) (hδ : 0 ≤ δ) (ht : 0 ≤ t) (hN : t ≤ N) :
    t - δ ≤ #((range N).filter fun x => f x ≤ t) ∧
      #((range N).filter fun x => f x ≤ t) ≤ t + δ + 1 := by
  constructor
  · have hsub : range ⌈t - δ⌉₊ ⊆ (range N).filter fun x => f x ≤ t := by
      intro x hx
      have hlt : (x : ℚ) < t - δ := Nat.lt_ceil.mp (mem_range.mp hx)
      have hxN : (x : ℚ) < N := by linarith
      have hmem : x < N := by exact_mod_cast hxN
      have hnear := abs_le.mp (h x hmem)
      exact mem_filter.mpr ⟨mem_range.mpr hmem, by linarith⟩
    have hcard := card_le_card hsub
    rw [card_range] at hcard
    exact (Nat.le_ceil _).trans (by exact_mod_cast hcard)
  · have hsub : (range N).filter (fun x => f x ≤ t) ⊆ range (⌊t + δ⌋₊ + 1) := by
      intro x hx
      obtain ⟨hmem, hle⟩ := mem_filter.mp hx
      have hnear := abs_le.mp (h x (mem_range.mp hmem))
      have hfloor : x ≤ ⌊t + δ⌋₊ := Nat.le_floor (by linarith)
      exact mem_range.mpr (Nat.lt_succ_of_le hfloor)
    have hcard := card_le_card hsub
    rw [card_range] at hcard
    have hfloor := Nat.floor_le (add_nonneg ht hδ)
    have hcast : (#((range N).filter fun x => f x ≤ t) : ℚ) ≤ ⌊t + δ⌋₊ + 1 := by exact_mod_cast hcard
    linarith

/-- The steps that end in a stretch of the total weight. -/
theorem Near.card_steps (h : Near δ N f) (hδ : 0 ≤ δ) (hc : 0 < c) (ho : 0 ≤ o) (hv : 0 ≤ v)
    (hN : o + v ≤ N * c) :
    |(#((range N).filter fun x => o < f x * c ∧ f x * c ≤ o + v) : ℚ) - v / c| ≤ 2 * δ + 1 := by
  have hsplit : (o + v) / c = o / c + v / c := add_div o v c
  have hvc : 0 ≤ v / c := div_nonneg hv hc.le
  have hend : (o + v) / c ≤ N := (div_le_iff₀ hc).mpr hN
  have hlow := h.card_le hδ (div_nonneg ho hc.le) (by linarith)
  have hhigh := h.card_le hδ (div_nonneg (add_nonneg ho hv) hc.le) hend
  -- the steps up to the end of the stretch are those up to its start and those in it
  have hall : (range N).filter (fun x => f x ≤ (o + v) / c) =
      (range N).filter (fun x => f x ≤ o / c) ∪
        (range N).filter (fun x => o < f x * c ∧ f x * c ≤ o + v) := by
    rw [← filter_or]
    refine filter_congr fun x _ => ?_
    rw [le_div_iff₀ hc, le_div_iff₀ hc]
    constructor
    · intro hx
      by_cases hstart : f x * c ≤ o
      · exact .inl hstart
      · exact .inr ⟨lt_of_not_ge hstart, hx⟩
    · rintro (hx | hx)
      · linarith
      · exact hx.2
  have hdisjoint : Disjoint ((range N).filter fun x => f x ≤ o / c)
      ((range N).filter fun x => o < f x * c ∧ f x * c ≤ o + v) :=
    disjoint_filter.mpr fun x _ hx hx' => hx'.1.not_ge ((le_div_iff₀ hc).mp hx)
  rw [hall, card_union_of_disjoint hdisjoint, Nat.cast_add] at hhigh
  rw [abs_le]
  constructor <;> linarith

variable [DecidableEq α]

/-- The steps past `o` from which the element is drawn. -/
theorem Near.card_draws (h : Near δ N f) (hδ : 0 ≤ δ) (hc : 0 < c) (hw : ∀ q, 0 ≤ weight q)
    (ho : 0 ≤ o) (hN : o + (l.map weight).sum ≤ N * c) :
    |(#((range N).filter fun x => o < f x * c ∧ draw weight (f x * c - o) l = some p) : ℚ) -
      l.count p * (weight p / c)| ≤ l.count p * (2 * δ + 1) := by
  induction l generalizing o with
  | nil => simp [draw]
  | cons q l ih =>
    rw [List.map_cons, List.sum_cons, ← add_assoc] at hN
    have hsum : 0 ≤ (l.map weight).sum := List.sum_nonneg fun x hx => by
      obtain ⟨r, -, rfl⟩ := List.mem_map.mp hx
      exact hw r
    have hrest := ih (add_nonneg ho (hw q)) hN
    have hfirst := h.card_steps hδ hc ho (hw q) ((le_add_of_nonneg_right hsum).trans hN)
    -- a step draws the first element while it is in its stretch, and from the others after it
    have hdraw (x : ℕ) : (o < f x * c ∧ draw weight (f x * c - o) (q :: l) = some p) ↔
        (q = p ∧ o < f x * c ∧ f x * c ≤ o + weight q) ∨
          (o + weight q < f x * c ∧ draw weight (f x * c - (o + weight q)) l = some p) := by
      have hq := hw q
      simp only [draw, sub_sub, sub_nonpos]
      by_cases hx : f x * c ≤ o + weight q
      · simp [hx, hx.not_gt, and_comm]
      · have hlt := lt_of_not_ge hx
        simp [hx, hlt, (le_add_of_nonneg_right hq).trans_lt hlt]
    have hdisjoint : Disjoint
        ((range N).filter fun x => q = p ∧ o < f x * c ∧ f x * c ≤ o + weight q)
        ((range N).filter fun x =>
          o + weight q < f x * c ∧ draw weight (f x * c - (o + weight q)) l = some p) :=
      disjoint_filter.mpr fun x _ hx hx' => hx'.1.not_ge hx.2.2
    simp only [hdraw]
    rw [filter_or, card_union_of_disjoint hdisjoint, List.count_cons, Nat.cast_add, Nat.cast_add]
    by_cases heq : q = p
    · subst heq
      simp only [true_and, beq_self_eq_true, if_true, Nat.cast_one]
      rw [abs_le] at hrest hfirst ⊢
      constructor <;> linarith
    · simp only [heq, false_and, filter_false, card_empty, beq_iff_eq, if_false, Nat.cast_zero,
        zero_add, add_zero]
      exact hrest

/-- An element is drawn in proportion to its weight. -/
theorem Near.card_draw (h : Near δ N f) (hδ : 0 ≤ δ) (hc : 0 < c) (hw : ∀ q, 0 ≤ weight q)
    (hN : (l.map weight).sum ≤ N * c) :
    |(#((range N).filter fun x => draw weight (f x * c) l = some p) : ℚ) -
      l.count p * (weight p / c)| ≤ l.count p * (2 * δ + 1) + (δ + 1) := by
  have hdraws := h.card_draws (p := p) hδ hc hw le_rfl ((zero_add _).trans_le hN)
  simp only [sub_zero] at hdraws
  -- only few steps do not get past the start
  have hstart := (h.card_le hδ le_rfl (Nat.cast_nonneg N)).2
  have hlow : #((range N).filter fun x => 0 < f x * c ∧ draw weight (f x * c) l = some p) ≤
      #((range N).filter fun x => draw weight (f x * c) l = some p) :=
    card_le_card (monotone_filter_right _ fun x _ hx => hx.2)
  have hhigh : #((range N).filter fun x => draw weight (f x * c) l = some p) ≤
      #((range N).filter fun x => 0 < f x * c ∧ draw weight (f x * c) l = some p) +
        #((range N).filter fun x => f x ≤ 0) := by
    refine (card_le_card fun x hx => ?_).trans (card_union_le _ _)
    obtain ⟨hmem, hdraw⟩ := mem_filter.mp hx
    rcases le_or_gt (f x) 0 with hneg | hpos
    · exact mem_union_right _ (mem_filter.mpr ⟨hmem, hneg⟩)
    · exact mem_union_left _ (mem_filter.mpr ⟨hmem, mul_pos hpos hc, hdraw⟩)
  have hlow : (_ : ℚ) ≤ _ := Nat.cast_le.mpr hlow
  have hhigh : (_ : ℚ) ≤ _ := Nat.cast_le.mpr hhigh
  rw [Nat.cast_add] at hhigh
  rw [abs_le] at hdraws ⊢
  constructor <;> linarith

end WeightedDraw

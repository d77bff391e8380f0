import Mathlib

/-! The entries of a list in the order of a rank, and the first few of them. -/
namespace Ranking
variable {α β : Type} [LinearOrder β] {rank : α → β} {l l' : List α}

def sorted (rank : α → β) (l : List α) : List α := l.mergeSort fun a b => rank a ≤ rank b

theorem sorted_perm (rank : α → β) (l : List α) : (sorted rank l).Perm l := List.mergeSort_perm _ _

theorem mem_sorted {a : α} : a ∈ sorted rank l ↔ a ∈ l := (sorted_perm rank l).mem_iff

theorem sorted_pairwise_le (rank : α → β) (l : List α) :
    (sorted rank l).Pairwise fun a b => rank a ≤ rank b := by
  have h : (sorted rank l).Pairwise fun a b => decide (rank a ≤ rank b) = true :=
    List.pairwise_mergeSort
      (fun a b c hab hbc => decide_eq_true ((of_decide_eq_true hab).trans (of_decide_eq_true hbc)))
      (fun a b => by simpa using le_total (rank a) (rank b)) l
  exact h.imp of_decide_eq_true

/-- With distinct ranks the order is strict. -/
theorem sorted_pairwise (hinj : Set.InjOn rank {a | a ∈ l}) (hnd : l.Nodup) :
    (sorted rank l).Pairwise fun a b => rank a < rank b := by
  have hdistinct : (sorted rank l).Nodup := (sorted_perm rank l).nodup_iff.mpr hnd
  have hboth := (sorted_pairwise_le rank l).and hdistinct
  refine hboth.imp_of_mem fun {a b} ha hb h => lt_of_le_of_ne h.1 fun heq => h.2 ?_
  exact hinj (mem_sorted.mp ha) (mem_sorted.mp hb) heq

/-- With distinct ranks the order in which the entries come does not matter. -/
theorem sorted_congr (hinj : Set.InjOn rank {a | a ∈ l}) (h : l'.Perm l) :
    sorted rank l' = sorted rank l := by
  refine List.Perm.eq_of_pairwise (fun a b ha hb hab hba => ?_) (sorted_pairwise_le rank l')
    (sorted_pairwise_le rank l) (((sorted_perm rank l').trans h).trans (sorted_perm rank l).symm)
  exact hinj (h.mem_iff.mp (mem_sorted.mp ha)) (mem_sorted.mp hb) (le_antisymm hab hba)

theorem mem_take_of_pairwise (h : l.Pairwise fun a b => rank a < rank b) (k : ℕ) (p : α) :
    p ∈ l.take k ↔ p ∈ l ∧ (l.countP fun a => rank a < rank p) < k := by
  induction l generalizing k with
  | nil => simp
  | cons a l ih =>
    obtain ⟨hfirst, hrest⟩ := List.pairwise_cons.mp h
    cases k with
    | zero => simp
    | succ k =>
      rw [List.take_succ_cons, List.mem_cons, List.mem_cons, ih hrest, List.countP_cons]
      constructor
      · rintro (rfl | ⟨hp, hlt⟩)
        · have hnone : (l.countP fun b => rank b < rank p) = 0 := by
            simpa using fun b hb => (hfirst b hb).le
          simp [hnone]
        · exact ⟨.inr hp, by simpa [hfirst p hp] using hlt⟩
      · rintro ⟨rfl | hp, hlt⟩
        · exact .inl rfl
        · exact .inr ⟨hp, by simpa [hfirst p hp] using hlt⟩

/-- An entry is among the first `k` exactly when fewer than `k` entries rank below it. -/
theorem mem_take_sorted (hinj : Set.InjOn rank {a | a ∈ l}) (hnd : l.Nodup) (k : ℕ) (p : α) :
    p ∈ (sorted rank l).take k ↔ p ∈ l ∧ (l.countP fun a => rank a < rank p) < k := by
  rw [mem_take_of_pairwise (sorted_pairwise hinj hnd), mem_sorted, (sorted_perm rank l).countP_eq]

end Ranking

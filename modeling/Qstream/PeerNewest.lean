import Qstream.PeerBooks

/-! The order that reconciling with a manifest gives the queue. -/
namespace Qstream
open Transfer

/-- Two parts of a list without repeats can be read off it one after the other exactly when
every entry of the first stands before every entry of the second. -/
theorem append_sublist_iff_idxOf {α : Type} [DecidableEq α] {l xs ys : List α} (hnd : l.Nodup)
    (hxs : xs.Sublist l) (hys : ys.Sublist l) :
    (xs ++ ys).Sublist l ↔ ∀ x ∈ xs, ∀ y ∈ ys, l.idxOf x < l.idxOf y := by
  have hsorted : l.Pairwise fun x y => l.idxOf x < l.idxOf y := by
    refine List.pairwise_iff_getElem.mpr fun i j hi hj hij => ?_
    rwa [hnd.idxOf_getElem i hi, hnd.idxOf_getElem j hj]
  constructor
  · intro h
    exact (List.pairwise_append.mp (hsorted.sublist h)).2.2
  · intro h
    have hpair : (xs ++ ys).Pairwise fun x y => l.idxOf x < l.idxOf y :=
      List.pairwise_append.mpr ⟨hsorted.sublist hxs, hsorted.sublist hys, h⟩
    have hnodup : (xs ++ ys).Nodup := by
      refine hpair.imp ?_
      rintro x y hlt rfl
      exact lt_irrefl _ hlt
    have : Std.Antisymm fun x y => l.idxOf x < l.idxOf y :=
      ⟨fun x y hlt hgt => absurd hlt (Nat.lt_asymm hgt)⟩
    exact List.sublist_of_subperm_of_pairwise
      (List.subperm_of_subset hnodup (List.append_subset.mpr ⟨hxs.subset, hys.subset⟩)) hpair hsorted

/-- Dropping repeats leaves a list with the first occurrences in their order. -/
theorem eraseDups_sublist {α : Type} [DecidableEq α] (l : List α) : l.eraseDups.Sublist l := by
  induction hlen : l.length using Nat.strong_induction_on generalizing l with
  | h n ih =>
    cases l with
    | nil => exact .refl _
    | cons a l =>
      subst hlen
      have hrest := ih _ (Nat.lt_succ_of_le (List.length_filter_le (fun b => !b == a) l)) _ rfl
      rw [List.eraseDups_cons]
      exact (hrest.trans List.filter_sublist).cons_cons a

/-- What of the queue the manifest names stands in its order, newest first. -/
def NewestFirst (segments queue : List String) : Prop :=
  (queue.filter fun f => f ∈ segments).Sublist segments.reverse

instance (segments queue : List String) : Decidable (NewestFirst segments queue) :=
  inferInstanceAs (Decidable (List.Sublist _ _))

namespace Scheduler
variable {clk : Clock} {dir : Dir} {manifest : Bytes} {s : Scheduler}

/-- The queued files that the manifest still names. -/
def waiting (s : Scheduler) (manifest : Bytes) : List String :=
  s.queue.filter fun f => f ∈ parseManifest manifest

/-- The files that reconciling adds, in manifest order. -/
def eligible (clk : Clock) (dir : Dir) (s : Scheduler) (manifest : Bytes) : List String :=
  (((parseManifest manifest).zipIdx.filter fun e => wanted dir s (clk e.2) e.1).map
    Prod.fst).eraseDups

/-- The manifest can be cut so that the files waiting stand before and those added after the
cut. -/
def AddsNewer (clk : Clock) (dir : Dir) (s : Scheduler) (manifest : Bytes) : Prop :=
  ∃ older newer, parseManifest manifest = older ++ newer ∧
    (s.waiting manifest).reverse.Sublist older ∧ (s.eligible clk dir manifest).Sublist newer

/-- Entries that are wanted are pushed to the front, each name once. -/
theorem foldl_enqueue_queue (l : List (String × ℕ)) (s : Scheduler) :
    (l.foldl (enqueue clk dir) s).queue =
      ((l.filter fun e => wanted dir s (clk e.2) e.1).map Prod.fst).eraseDups.reverse ++ s.queue := by
  induction l generalizing s with
  | nil => rfl
  | cons e l ih =>
    rw [List.foldl_cons, ih, List.filter_cons]
    unfold enqueue
    split
    next hw =>
      -- the name is marked as queued, so that later entries with it are not wanted
      have hlater : (l.filter fun e' => wanted dir { s with
            queued := insert e.1 s.queued, queue := e.1 :: s.queue } (clk e'.2) e'.1) =
          (l.filter fun e' => wanted dir s (clk e'.2) e'.1).filter fun e' => !e'.1 == e.1 := by
        rw [List.filter_filter]
        refine List.filter_congr fun e' _ => ?_
        rw [Bool.eq_iff_iff]
        simp only [wanted, Finset.mem_insert, Bool.and_eq_true, decide_eq_true_eq, Bool.not_eq_true',
          beq_eq_false_iff_ne]
        tauto
      rw [hlater, List.map_cons, List.eraseDups_cons, List.reverse_cons, List.append_assoc,
        List.filter_map]
      rfl
    next => rfl

theorem syncQueue_queue (clk : Clock) (dir : Dir) (manifest : Bytes) (s : Scheduler) :
    (syncQueue clk dir manifest s).queue =
      (s.eligible clk dir manifest).reverse ++ s.waiting manifest := by
  unfold syncQueue
  rw [foldl_enqueue_queue]
  congr 3
  refine congrArg _ (List.filter_congr fun e he => ?_)
  have hnamed : e.1 ∈ parseManifest manifest :=
    List.mem_of_getElem? (List.mem_zipIdx_iff_getElem?.mp he)
  simp only [wanted, Finset.mem_filter, hnamed, and_true]

theorem mem_eligible {g : String} : g ∈ s.eligible clk dir manifest ↔
    ∃ j, (parseManifest manifest)[j]? = some g ∧ wanted dir s (clk j) g = true := by
  simp only [eligible, List.mem_eraseDups, List.mem_map, List.mem_filter, Prod.exists]
  constructor
  · rintro ⟨f, j, ⟨hmem, hw⟩, rfl⟩
    exact ⟨j, List.mem_zipIdx_iff_getElem?.mp hmem, hw⟩
  · rintro ⟨j, hj, hw⟩
    exact ⟨g, j, ⟨List.mem_zipIdx_iff_getElem?.mpr hj, hw⟩, rfl⟩

theorem eligible_sublist : (s.eligible clk dir manifest).Sublist (parseManifest manifest) := by
  have hlines : ((((parseManifest manifest).zipIdx.filter fun e =>
      wanted dir s (clk e.2) e.1).map Prod.fst).Sublist (parseManifest manifest)) := by
    simpa using (List.filter_sublist (l := (parseManifest manifest).zipIdx)).map Prod.fst
  exact (eraseDups_sublist _).trans hlines

/-- After reconciling, all of the queue is named by the manifest. -/
theorem newestFirst_syncQueue : NewestFirst (parseManifest manifest)
      (syncQueue clk dir manifest s).queue ↔
    ((s.waiting manifest).reverse ++ s.eligible clk dir manifest).Sublist
      (parseManifest manifest) := by
  have hnamed : ∀ f ∈ (syncQueue clk dir manifest s).queue, f ∈ parseManifest manifest := by
    intro f hf
    rw [syncQueue_queue, List.mem_append, List.mem_reverse] at hf
    rcases hf with hf | hf
    · exact eligible_sublist.subset hf
    · simpa using (List.mem_filter.mp hf).2
  rw [NewestFirst, List.filter_eq_self.mpr (by simpa using hnamed), syncQueue_queue,
    ← List.reverse_sublist, List.reverse_reverse, List.reverse_append, List.reverse_reverse]

/-- From a queue that is newest first, reconciling leads to such a queue exactly when the files
added are newer than those waiting: for a manifest without repeats, when no file that stands at
or before one that is queued is wanted. -/
theorem syncQueue_newestFirst_iff (clk : Clock) (dir : Dir) (manifest : Bytes) (s : Scheduler)
    (h : NewestFirst (parseManifest manifest) s.queue) :
    (NewestFirst (parseManifest manifest) (syncQueue clk dir manifest s).queue ↔
      s.AddsNewer clk dir manifest) ∧
    ((parseManifest manifest).Nodup →
      (NewestFirst (parseManifest manifest) (syncQueue clk dir manifest s).queue ↔
        ∀ f ∈ s.queue, ∀ i j g, (parseManifest manifest)[i]? = some f →
          (parseManifest manifest)[j]? = some g → wanted dir s (clk j) g = true → i < j)) := by
  refine ⟨newestFirst_syncQueue.trans List.append_sublist_iff, fun hnd => ?_⟩
  have hwaiting : (s.waiting manifest).reverse.Sublist (parseManifest manifest) :=
    List.reverse_sublist.mp (by rwa [List.reverse_reverse])
  have hat {i : ℕ} {f : String} (hi : (parseManifest manifest)[i]? = some f) :
      (parseManifest manifest).idxOf f = i := by
    obtain ⟨hlt, rfl⟩ := List.getElem?_eq_some_iff.mp hi
    exact hnd.idxOf_getElem i hlt
  rw [newestFirst_syncQueue, append_sublist_iff_idxOf hnd hwaiting eligible_sublist]
  constructor
  · intro hbefore f hf i j g hi hj hw
    have hlt := hbefore f (List.mem_reverse.mpr (List.mem_filter.mpr
      ⟨hf, by simpa using List.mem_of_getElem? hi⟩)) g (mem_eligible.mpr ⟨j, hj, hw⟩)
    rwa [hat hi, hat hj] at hlt
  · intro hbefore f hf g hg
    obtain ⟨hqueued, hnamed⟩ := List.mem_filter.mp (List.mem_reverse.mp hf)
    obtain ⟨i, hi⟩ := List.mem_iff_getElem?.mp (of_decide_eq_true hnamed)
    obtain ⟨j, hj, hw⟩ := mem_eligible.mp hg
    rw [hat hi, hat hj]
    exact hbefore f hqueued i j g hi hj hw

/-- A scheduler with `b.ts` queued. -/
def demoBehind (failedAt : HashMap String ℕ) : Scheduler :=
  { new 1 with queue := ["b.ts"], queued := {"b.ts"}, failedAt := failedAt }

theorem syncQueue_newestFirst_demo :
    NewestFirst (parseManifest (demoManifest ["b.ts", "c.ts"]))
      (syncQueue (fun _ => 0) emptyDir (demoManifest ["b.ts", "c.ts"]) (demoBehind ∅)).queue := by
  refine (syncQueue_newestFirst_iff _ _ _ _ (by decide +kernel)).1.mpr ?_
  exact ⟨["b.ts"], ["c.ts"], by decide +kernel, by decide +kernel, by decide +kernel⟩

/-- The pull of `a.ts` failed a minute ago; now it goes before the newer `b.ts`. -/
theorem cooled_segment_overtakes :
    NewestFirst (parseManifest (demoManifest ["a.ts", "b.ts"]))
      (demoBehind ((∅ : HashMap String ℕ).insert "a.ts" 0)).queue ∧
    (syncQueue (fun _ => secs 60) emptyDir (demoManifest ["a.ts", "b.ts"])
      (demoBehind ((∅ : HashMap String ℕ).insert "a.ts" 0))).queue = ["a.ts", "b.ts"] ∧
    ¬ NewestFirst (parseManifest (demoManifest ["a.ts", "b.ts"]))
      (syncQueue (fun _ => secs 60) emptyDir (demoManifest ["a.ts", "b.ts"])
        (demoBehind ((∅ : HashMap String ℕ).insert "a.ts" 0))).queue :=
  ⟨by decide +kernel, by decide +kernel, by decide +kernel⟩

end Scheduler
end Qstream

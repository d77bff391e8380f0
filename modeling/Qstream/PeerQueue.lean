import Qstream.PeerSchedule

/-! The scheduler's books: the queue, the jobs in flight, and the set `queued` that is
meant to be their union. -/
namespace Qstream
open Transfer

namespace Scheduler

def InFlight (s : Scheduler) (filename : String) : Prop :=
  ∃ id job, s.active.lookup id = some job ∧ job.filename = filename

theorem inFlight_iff {s : Scheduler} {f : String} :
    (∃ e ∈ s.active.pairs, e.2.filename = f) ↔ s.InFlight f := by
  constructor
  · rintro ⟨⟨id, job⟩, he, hf⟩
    exact ⟨id, job, HashMap.mem_pairs.mp he, hf⟩
  · rintro ⟨id, job, hl, hf⟩
    exact ⟨(id, job), HashMap.mem_pairs.mpr hl, hf⟩

instance (s : Scheduler) (f : String) : Decidable (s.InFlight f) :=
  decidable_of_iff _ inFlight_iff

instance (s : Scheduler) (fs : List String) : Decidable (∀ f, s.InFlight f → f ∈ fs) :=
  decidable_of_iff (∀ e ∈ s.active.pairs, e.2.filename ∈ fs) (by
    simp only [← inFlight_iff]
    grind)

/-- Every queued file is queued once, no file is pulled twice or pulled while queued, and
`queued` is what is queued or in flight. -/
structure Booked (s : Scheduler) : Prop where
  queue_nodup : s.queue.Nodup
  flights : ∀ id id' job job', s.active.lookup id = some job → s.active.lookup id' = some job' →
    job.filename = job'.filename → id = id'
  apart : ∀ f ∈ s.queue, ¬ s.InFlight f
  queued : ∀ f, f ∈ s.queued ↔ f ∈ s.queue ∨ s.InFlight f

/-- One half of it: what is marked as queued is queued or in flight. -/
def Marked (s : Scheduler) : Prop := ∀ f ∈ s.queued, f ∈ s.queue ∨ s.InFlight f

theorem new_booked (rng : UInt64) : (new rng).Booked where
  queue_nodup := List.nodup_nil
  flights := by simp [new]
  apart := by simp [new]
  queued := by simp [new, InFlight]

variable {s t : Scheduler}

theorem InFlight.congr (h : t.active = s.active) {f : String} : t.InFlight f ↔ s.InFlight f := by
  unfold InFlight
  rw [h]

theorem Booked.congr (h : s.Booked) (ha : t.active = s.active) (hq : t.queue = s.queue)
    (hm : t.queued = s.queued) : t.Booked where
  queue_nodup := hq ▸ h.queue_nodup
  flights := by
    rw [ha]
    exact h.flights
  apart := by
    intro f hf
    rw [InFlight.congr ha]
    exact h.apart f (hq ▸ hf)
  queued := by
    intro f
    rw [hm, hq, InFlight.congr ha]
    exact h.queued f

theorem Marked.congr (h : s.Marked) (ha : t.active = s.active) (hq : t.queue = s.queue)
    (hm : t.queued = s.queued) : t.Marked := by
  intro f hf
  rw [hq, InFlight.congr ha]
  exact h f (hm ▸ hf)

/-- What is in flight after a job was taken out, and after one was put in. -/
theorem inFlight_erase {id : ℕ} {f : String} (ha : t.active = s.active.erase id)
    (h : t.InFlight f) : s.InFlight f := by
  obtain ⟨id', job, hl, hf⟩ := h
  rw [ha, HashMap.lookup_erase'] at hl
  split at hl
  · cases hl
  · exact ⟨id', job, hl, hf⟩

theorem inFlight_erase_of_ne {id : ℕ} {job : ActiveJob} {f : String}
    (ha : t.active = s.active.erase id) (hjob : s.active.lookup id = some job)
    (hne : f ≠ job.filename) (h : s.InFlight f) : t.InFlight f := by
  obtain ⟨id', job', hl, hf⟩ := h
  refine ⟨id', job', ?_, hf⟩
  rw [ha, HashMap.lookup_erase', if_neg]
  · exact hl
  · rintro rfl
    rw [hjob] at hl
    cases hl
    exact hne hf.symm

theorem Booked.not_inFlight_erased (h : s.Booked) {id : ℕ} {job : ActiveJob}
    (ha : t.active = s.active.erase id) (hjob : s.active.lookup id = some job) :
    ¬ t.InFlight job.filename := by
  rintro ⟨id', job', hl, hf⟩
  rw [ha, HashMap.lookup_erase'] at hl
  split at hl
  · cases hl
  · rename_i hne
    exact hne (h.flights _ _ _ _ hl hjob hf)

theorem inFlight_insert {id : ℕ} {job : ActiveJob} {f : String}
    (ha : t.active = s.active.insert id job) (hid : id ∉ s.active) :
    t.InFlight f ↔ f = job.filename ∨ s.InFlight f := by
  constructor
  · rintro ⟨id', job', hl, hf⟩
    rw [ha, HashMap.lookup_insert'] at hl
    split at hl
    · cases hl
      exact .inl hf.symm
    · exact .inr ⟨id', job', hl, hf⟩
  · rintro (rfl | ⟨id', job', hl, hf⟩)
    · exact ⟨id, job, by rw [ha, HashMap.lookup_insert', if_pos rfl], rfl⟩
    · refine ⟨id', job', ?_, hf⟩
      rw [ha, HashMap.lookup_insert', if_neg]
      · exact hl
      · rintro rfl
        exact hid (HashMap.mem_iff_lookup.mpr ⟨job', hl⟩)

/-! Starting a pull moves a file from the queue into flight. -/

section Started
variable {id : ℕ} {filename : String} {rest : List String} {peer : SocketAddr} {rng : UInt64}

theorem inFlight_started (hid : id ∉ s.active) {f : String} :
    (s.started id filename rest peer rng).InFlight f ↔ f = filename ∨ s.InFlight f := by
  have hins : (s.started id filename rest peer rng).active =
      s.active.insert id ⟨filename, peer⟩ := rfl
  exact inFlight_insert hins hid

theorem Booked.started (h : s.Booked) (hq : s.queue = filename :: rest) (hid : id ∉ s.active) :
    (s.started id filename rest peer rng).Booked := by
  have hfl : ∀ f, (s.started id filename rest peer rng).InFlight f ↔ f = filename ∨ s.InFlight f :=
    fun f => inFlight_started hid
  have hnd := h.queue_nodup
  rw [hq, List.nodup_cons] at hnd
  have hfree : ¬ s.InFlight filename := h.apart _ (hq ▸ List.mem_cons_self)
  exact {
    queue_nodup := hnd.2
    flights := by
      intro i j job job' hi hj heq
      simp only [Scheduler.started, HashMap.lookup_insert'] at hi hj
      split at hi <;> split at hj
      · exact ‹i = id›.trans ‹j = id›.symm
      · cases hi
        exact absurd ⟨j, job', hj, heq.symm⟩ hfree
      · cases hj
        exact absurd ⟨i, job, hi, heq⟩ hfree
      · exact h.flights _ _ _ _ hi hj heq
    apart := by
      intro f hf hin
      rcases (hfl f).mp hin with rfl | hin
      · exact hnd.1 hf
      · exact h.apart f (hq ▸ List.mem_cons_of_mem _ hf) hin
    queued := by
      intro f
      rw [hfl]
      show f ∈ s.queued ↔ f ∈ rest ∨ f = filename ∨ s.InFlight f
      rw [h.queued, hq, List.mem_cons]
      tauto }

theorem Marked.started (h : s.Marked) (hq : s.queue = filename :: rest) (hid : id ∉ s.active) :
    (s.started id filename rest peer rng).Marked := by
  intro f hf
  rw [inFlight_started hid]
  show f ∈ rest ∨ f = filename ∨ s.InFlight f
  rcases h f hf with hin | hin
  · rw [hq, List.mem_cons] at hin
    tauto
  · exact .inr (.inr hin)

end Started

/-! Collecting a job takes its file out of flight, back into the queue or off the books. -/

section Collected
variable {id : ℕ} {job : ActiveJob}

theorem Booked.flights_erase (h : s.Booked) (ha : t.active = s.active.erase id) :
    ∀ i j job job', t.active.lookup i = some job → t.active.lookup j = some job' →
      job.filename = job'.filename → i = j := by
  intro i j job job' hi hj heq
  rw [ha, HashMap.lookup_erase'] at hi hj
  split at hi
  · cases hi
  split at hj
  · cases hj
  exact h.flights _ _ _ _ hi hj heq

theorem Booked.requeued (h : s.Booked) (hjob : s.active.lookup id = some job)
    (ha : t.active = s.active.erase id)
    (hq : t.queue = job.filename :: s.queue ∨ t.queue = s.queue ++ [job.filename])
    (hm : t.queued = s.queued) : t.Booked := by
  have hmem : ∀ f, f ∈ t.queue ↔ f = job.filename ∨ f ∈ s.queue := by
    intro f
    rcases hq with hq | hq <;> simp [hq, or_comm]
  have hout : job.filename ∉ s.queue := fun hin => h.apart _ hin ⟨id, job, hjob, rfl⟩
  exact {
    queue_nodup := by
      rcases hq with hq | hq <;> rw [hq]
      · exact List.nodup_cons.mpr ⟨hout, h.queue_nodup⟩
      · exact (List.nodup_append_comm).mp (List.nodup_cons.mpr ⟨hout, h.queue_nodup⟩)
    flights := h.flights_erase ha
    apart := by
      intro f hf hin
      rcases (hmem f).mp hf with rfl | hf
      · exact h.not_inFlight_erased ha hjob hin
      · exact h.apart f hf (inFlight_erase ha hin)
    queued := by
      intro f
      rw [hm, h.queued, hmem]
      constructor
      · rintro (hin | hin)
        · exact .inl (.inr hin)
        · by_cases hf : f = job.filename
          · exact .inl (.inl hf)
          · exact .inr (inFlight_erase_of_ne ha hjob hf hin)
      · rintro ((rfl | hin) | hin)
        · exact .inr ⟨id, job, hjob, rfl⟩
        · exact .inl hin
        · exact .inr (inFlight_erase ha hin) }

theorem Booked.dropped (h : s.Booked) (hjob : s.active.lookup id = some job)
    (ha : t.active = s.active.erase id) (hq : t.queue = s.queue)
    (hm : t.queued = s.queued.erase job.filename) : t.Booked := by
  have hout : job.filename ∉ s.queue := fun hin => h.apart _ hin ⟨id, job, hjob, rfl⟩
  exact {
    queue_nodup := hq ▸ h.queue_nodup
    flights := h.flights_erase ha
    apart := fun f hf hin => h.apart f (hq ▸ hf) (inFlight_erase ha hin)
    queued := by
      intro f
      rw [hm, hq, Finset.mem_erase, h.queued]
      constructor
      · rintro ⟨hne, hin | hin⟩
        · exact .inl hin
        · exact .inr (inFlight_erase_of_ne ha hjob hne hin)
      · rintro (hin | hin)
        · exact ⟨fun heq => hout (heq ▸ hin), .inl hin⟩
        · exact ⟨fun heq => h.not_inFlight_erased ha hjob (heq ▸ hin),
            .inr (inFlight_erase ha hin)⟩ }

theorem Marked.collected (h : s.Marked) (hjob : s.active.lookup id = some job)
    (ha : t.active = s.active.erase id) (hq : ∀ f ∈ s.queue, f ∈ t.queue)
    (hm : ∀ f ∈ t.queued, f ∈ s.queued ∧ (f = job.filename → f ∈ t.queue)) : t.Marked := by
  intro f hf
  obtain ⟨hs, hown⟩ := hm f hf
  rcases h f hs with hin | hin
  · exact .inl (hq f hin)
  · by_cases heq : f = job.filename
    · exact .inl (hown heq)
    · exact .inr (inFlight_erase_of_ne ha hjob heq hin)

section Reaped
variable (P : PeerConfig) (w : World) (now : ℕ) (f : Finished) (n : Node)

theorem Booked.reaped (h : s.Booked) (hjob : s.active.lookup f.id = some f.job) :
    (reapJob P w now f n s).2.1.Booked := by
  have ha := reapJob_active P w now f n s
  rcases reapJob_cases P w now f n s with ⟨-, hq, hm, -⟩ | ⟨-, hq, hm, -⟩ |
    ⟨-, -, ⟨hq, hm⟩ | ⟨hq, hm⟩⟩
  · exact h.dropped hjob ha hq hm
  · exact h.requeued hjob ha (.inr hq) hm
  · exact h.requeued hjob ha (.inl hq) hm
  · exact h.dropped hjob ha hq hm

theorem Marked.reaped (h : s.Marked) (hjob : s.active.lookup f.id = some f.job) :
    (reapJob P w now f n s).2.1.Marked := by
  have ha := reapJob_active P w now f n s
  have hdropped : ∀ t : Scheduler, t.queued = s.queued.erase f.job.filename →
      ∀ g ∈ t.queued, g ∈ s.queued ∧ (g = f.job.filename → g ∈ t.queue) := by
    intro t hm g hg
    obtain ⟨hne, hg⟩ := Finset.mem_erase.mp (hm ▸ hg)
    exact ⟨hg, fun heq => absurd heq hne⟩
  rcases reapJob_cases P w now f n s with ⟨-, hq, hm, -⟩ | ⟨-, hq, hm, -⟩ |
    ⟨-, -, ⟨hq, hm⟩ | ⟨hq, hm⟩⟩
  · exact h.collected hjob ha (by simp [hq]) (hdropped _ hm)
  · exact h.collected hjob ha (by simp +contextual [hq])
      fun g hg => ⟨hm ▸ hg, fun heq => by simp [hq, heq]⟩
  · exact h.collected hjob ha (by simp +contextual [hq])
      fun g hg => ⟨hm ▸ hg, fun heq => by simp [hq, heq]⟩
  · exact h.collected hjob ha (by simp [hq]) (hdropped _ hm)

end Reaped
end Collected

/-! Reconciling with a manifest. -/

section Sync
variable {clk : Clock} {dir : Dir}

theorem enqueue_spec (clk : Clock) (dir : Dir) (s : Scheduler) (e : String × ℕ) :
    (enqueue clk dir s e).active = s.active ∧ (enqueue clk dir s e).failedAt = s.failedAt ∧
    ((enqueue clk dir s e).queue = s.queue ∧ (enqueue clk dir s e).queued = s.queued ∨
      e.1 ∉ s.queued ∧ (enqueue clk dir s e).queue = e.1 :: s.queue ∧
      (enqueue clk dir s e).queued = insert e.1 s.queued) := by
  unfold enqueue
  split
  · rename_i hw
    simp only [wanted, decide_eq_true_eq] at hw
    exact ⟨rfl, rfl, .inr ⟨hw.2.2.1, rfl, rfl⟩⟩
  · exact ⟨rfl, rfl, .inl ⟨rfl, rfl⟩⟩

theorem Booked.enqueue (h : s.Booked) (e : String × ℕ) : (enqueue clk dir s e).Booked := by
  obtain ⟨ha, -, ⟨hq, hm⟩ | ⟨hnew, hq, hm⟩⟩ := enqueue_spec clk dir s e
  · exact h.congr ha hq hm
  have hfree := (not_congr (h.queued e.1)).mp hnew
  exact {
    queue_nodup := hq ▸ List.nodup_cons.mpr ⟨fun hin => hfree (.inl hin), h.queue_nodup⟩
    flights := by
      rw [ha]
      exact h.flights
    apart := by
      intro f hf
      rw [InFlight.congr ha]
      rcases List.mem_cons.mp (hq ▸ hf) with rfl | hf
      · exact fun hin => hfree (.inr hin)
      · exact h.apart f hf
    queued := by
      intro f
      rw [hm, hq, InFlight.congr ha, Finset.mem_insert, List.mem_cons, h.queued, or_assoc] }

theorem Marked.enqueue (h : s.Marked) (e : String × ℕ) : (enqueue clk dir s e).Marked := by
  obtain ⟨ha, -, ⟨hq, hm⟩ | ⟨-, hq, hm⟩⟩ := enqueue_spec clk dir s e
  · exact h.congr ha hq hm
  · intro f hf
    rw [hq, InFlight.congr ha, List.mem_cons, or_assoc]
    rw [hm, Finset.mem_insert] at hf
    exact hf.imp_right (h f)

/-- What one entry preserves, the whole manifest preserves. -/
theorem foldl_enqueue {I : Scheduler → Prop} (hI : ∀ s e, I s → I (enqueue clk dir s e))
    (l : List (String × ℕ)) (h : I s) : I (l.foldl (Qstream.enqueue clk dir) s) := by
  induction l generalizing s with
  | nil => exact h
  | cons e l ih => exact ih (hI s e h)

/-- As long as the manifest names all files in flight, reconciling with it keeps the books. -/
theorem Booked.syncQueue (h : s.Booked) {data : Bytes}
    (hnamed : ∀ f, s.InFlight f → f ∈ parseManifest data) : (syncQueue clk dir data s).Booked := by
  refine foldl_enqueue (fun _ e hs => hs.enqueue e) _ ?_
  exact {
    queue_nodup := h.queue_nodup.filter _
    flights := h.flights
    apart := fun f hf => h.apart f (List.mem_filter.mp hf).1
    queued := by
      intro f
      simp only [Finset.mem_filter, List.mem_filter, decide_eq_true_eq]
      rw [h.queued]
      constructor
      · rintro ⟨hin | hin, hseg⟩
        · exact .inl ⟨hin, hseg⟩
        · exact .inr hin
      · rintro (⟨hin, hseg⟩ | hin)
        · exact ⟨.inl hin, hseg⟩
        · exact ⟨.inr hin, hnamed f hin⟩ }

theorem Marked.syncQueue (h : s.Marked) (data : Bytes) : (syncQueue clk dir data s).Marked := by
  refine foldl_enqueue (fun _ e hs => hs.enqueue e) _ ?_
  intro f hf
  obtain ⟨hin, hseg⟩ := Finset.mem_filter.mp hf
  rcases h f hin with hq | hfl
  · exact .inl (List.mem_filter.mpr ⟨hq, by simpa using hseg⟩)
  · exact .inr hfl

theorem mem_queued_foldl {f : String} (l : List (String × ℕ)) (h : f ∈ s.queued) :
    f ∈ (l.foldl (Qstream.enqueue clk dir) s).queued := by
  refine foldl_enqueue (I := fun s => f ∈ s.queued) (fun s e hs => ?_) l h
  obtain ⟨-, -, ⟨-, hm⟩ | ⟨-, -, hm⟩⟩ := enqueue_spec clk dir s e
  · exact hm ▸ hs
  · exact hm ▸ Finset.mem_insert_of_mem hs

theorem mem_queued_foldl_of_mem {f : String} {i : ℕ} (hvalid : validFilename f = true)
    (hmissing : dir.exists' f = false) (l : List (String × ℕ)) (hmem : (f, i) ∈ l)
    (hcool : ∀ t, s.failedAt.lookup f = some t → FAIL_RETRY_COOLDOWN ≤ clk i - t) :
    f ∈ (l.foldl (Qstream.enqueue clk dir) s).queued := by
  induction l generalizing s with
  | nil => cases hmem
  | cons e l ih =>
    obtain ⟨-, hfail, -⟩ := enqueue_spec clk dir s e
    rcases List.mem_cons.mp hmem with rfl | hmem
    · refine mem_queued_foldl l ?_
      unfold Qstream.enqueue
      split
      · exact Finset.mem_insert_self _ _
      · rename_i hw
        by_contra hnot
        apply hw
        simp only [wanted, hvalid, hmissing, hnot, not_false_eq_true, true_and, Bool.false_eq_true,
          decide_eq_true_eq]
        cases hlook : s.failedAt.lookup f with
        | none => simp
        | some t => simpa using hcool t hlook
    · exact ih hmem fun t ht => hcool t (hfail ▸ ht)

/-- A missing segment that is not in its failure cooldown is marked as queued. -/
theorem mem_queued_syncQueue {data : Bytes} {f : String} {i : ℕ}
    (hi : (parseManifest data)[i]? = some f) (hvalid : validFilename f = true)
    (hmissing : dir.exists' f = false)
    (hcool : ∀ t, s.failedAt.lookup f = some t → FAIL_RETRY_COOLDOWN ≤ clk i - t) :
    f ∈ (Qstream.syncQueue clk dir data s).queued :=
  mem_queued_foldl_of_mem hvalid hmissing _ (List.mem_zipIdx_iff_getElem?.mpr hi) hcool

end Sync
end Scheduler
end Qstream

import Qstream.PeerSchedule

/-! Filling free slots: how long the loop runs, and when it starts a pull at all. Only
the front of the queue is ever looked at. -/
namespace Qstream
open Transfer

/-- Some datagram asks for a segment. -/
def StartsPull (sent : Outbox) : Prop := ∃ id filename a, (Message.segmentRequest id filename, a) ∈ sent

section Fill
variable {P : PeerConfig} {ids : TransferRegistry.IdSource} {w : World} {n : Node} {s : Scheduler}

/-- More turns than the queue is long change nothing. -/
theorem fillLoop_enough (P : PeerConfig) (ids : TransferRegistry.IdSource) {k : ℕ}
    (h : s.queue.length ≤ k) : fillLoop P ids k w n s = fill P ids w n s := by
  unfold fill
  induction k generalizing w n s with
  | zero => rw [Nat.le_zero.mp h]
  | succ k ih =>
    rcases fillStep_cases P ids w n s with ⟨rng, hstep⟩ | ⟨f, rest, peer, rng, r, hq, -, -, -, hstep⟩
    · cases hlen : s.queue.length with
      | zero =>
        have hnil : s.queue = [] := List.length_eq_zero_iff.mp hlen
        have hidle : fillStep P ids w n s = (n, s, [], false) := by
          unfold fillStep
          split <;> simp [hnil]
        simp only [fillLoop, hidle]
      | succ m => simp only [fillLoop, hstep]
    · rw [hq] at h ⊢
      have hrest : (s.started (ids.draw n.registry) f rest peer rng).queue = rest := rfl
      have hk : (s.started (ids.draw n.registry) f rest peer rng).queue.length ≤ k :=
        Nat.le_of_succ_le_succ h
      simp only [fillLoop, hstep, List.length_cons, ih hk, hrest]

/-- With a slot and room in the registry, the loop starts a pull exactly when the front
file has a source. -/
theorem fill_starts (hact : s.active.len < MAX_PARALLEL_DOWNLOADS)
    (hroom : n.registry.activeCount < MAX_CONCURRENT_TRANSFERS) :
    StartsPull (fill P ids w n s).2.2 ↔
      ∃ f, s.queue.head? = some f ∧ (pickPeer P n s w.ord (w.clk 0) f).1.isSome := by
  unfold fill
  by_cases hnil : s.queue = []
  · simp [hnil, fillLoop, StartsPull]
  obtain ⟨f, rest, hq⟩ := List.exists_cons_of_ne_nil hnil
  simp only [hq, List.length_cons, List.head?_cons, Option.some.injEq, exists_eq_left']
  rcases hpick : pickPeer P n s w.ord (w.clk 0) f with ⟨_ | peer, rng⟩
  · have hstep : fillStep P ids w n s = (n, { s with rng := rng }, [], false) := by
      simp only [fillStep, if_neg (Nat.not_le.mpr hact), hq, hpick]
    simp [fillLoop, hstep, StartsPull]
  · obtain ⟨r, hstart⟩ := startReceiver_room P.settings.transfer ids (w.after 1).clk hroom peer f
    have hstep : ∃ n1 s1, fillStep P ids w n s =
        (n1, s1, [(.segmentRequest (ids.draw n.registry) f, peer)], true) := by
      simp only [fillStep, if_neg (Nat.not_le.mpr hact), hq, hpick, hstart]
      exact ⟨_, _, rfl⟩
    obtain ⟨n1, s1, hstep⟩ := hstep
    simp only [fillLoop, hstep, StartsPull, Option.isSome_some, iff_true]
    exact ⟨_, f, peer, List.mem_append_left _ List.mem_cons_self⟩

/-- If some queued file has a source then a pull is started: this holds exactly when the
front file has one, or no queued file does. -/
theorem fill_not_blocked_iff (hact : s.active.len < MAX_PARALLEL_DOWNLOADS)
    (hroom : n.registry.activeCount < MAX_CONCURRENT_TRANSFERS) :
    ((∃ f ∈ s.queue, (pickPeer P n s w.ord (w.clk 0) f).1.isSome) →
      StartsPull (fill P ids w n s).2.2) ↔
    (∃ f, s.queue.head? = some f ∧ (pickPeer P n s w.ord (w.clk 0) f).1.isSome) ∨
      ∀ f ∈ s.queue, (pickPeer P n s w.ord (w.clk 0) f).1 = none := by
  rw [fill_starts hact hroom]
  constructor
  · intro h
    by_cases hsome : ∃ f ∈ s.queue, (pickPeer P n s w.ord (w.clk 0) f).1.isSome
    · exact .inl (h hsome)
    · refine .inr fun f hf => Option.not_isSome_iff_eq_none.mp fun hs => hsome ⟨f, hf, hs⟩
  · rintro (hhead | hnone) ⟨f, hf, hs⟩
    · exact hhead
    · rw [hnone f hf] at hs
      cases hs

end Fill

/-- Some id is free while the registry has room. -/
theorem exists_freshId {reg : TransferRegistry} (h : reg.activeCount < MAX_CONCURRENT_TRANSFERS) :
    ∃ id ≤ 32, reg.FreshId id := by
  by_contra hno
  have hused : ∀ id ∈ Finset.Icc 1 32, id ∈ reg.senders ∨ id ∈ reg.receivers := by
    intro id hid
    obtain ⟨hlo, hhi⟩ := Finset.mem_Icc.mp hid
    by_contra hfree
    exact hno ⟨id, hhi, by omega, by omega, fun hs => hfree (.inl hs), fun hr => hfree (.inr hr)⟩
  have hcard : (Finset.Icc 1 32).card ≤ reg.senders.len + reg.receivers.len := by
    have hsub : Finset.Icc 1 32 ⊆ reg.senders.keys.toFinset ∪ reg.receivers.keys.toFinset := by
      intro id hid
      simpa [AList.mem_keys] using hused id hid
    refine (Finset.card_le_card hsub).trans ((Finset.card_union_le _ _).trans ?_)
    exact Nat.add_le_add ((List.toFinset_card_le _).trans (HashMap.length_keys _).le)
      ((List.toFinset_card_le _).trans (HashMap.length_keys _).le)
  rw [Nat.card_Icc] at hcard
  unfold TransferRegistry.activeCount MAX_CONCURRENT_TRANSFERS at h
  omega

instance (reg : TransferRegistry) (id : ℕ) : Decidable (reg.FreshId id) :=
  inferInstanceAs (Decidable (_ ∧ _ ∧ _ ∧ _))

/-- The smallest free id. -/
def smallestId : TransferRegistry.IdSource where
  draw reg := ((List.range 33).find? fun id => reg.FreshId id).getD 0
  fresh reg hroom := by
    obtain ⟨id, hle, hid⟩ := exists_freshId hroom
    cases hfind : (List.range 33).find? fun id => reg.FreshId id with
    | none =>
      have := List.find?_eq_none.mp hfind id (List.mem_range.mpr (by omega))
      simp [hid] at this
    | some id' => simpa using List.find?_some hfind

def demoWorld (now : ℕ) : World := ⟨fun _ => now, default, .ok, 0⟩

/-- A queue of two files, the first of which is cooling down at both peers. -/
def demoBlocked : Scheduler :=
  { Scheduler.new 1 with
    queue := ["x.ts", "y.ts"]
    retryAfter := AList.insert ("x.ts", demoBootstrap) 10 (AList.insert ("x.ts", demoOther) 10 ∅) }

theorem fill_not_blocked_demo :
    StartsPull (fill demoConfig smallestId (demoWorld 5) demoKnown
      { demoBlocked with queue := ["y.ts"] }).2.2 := by
  have hsrc : (pickPeer demoConfig demoKnown { demoBlocked with queue := ["y.ts"] } default 5
      "y.ts").1.isSome := pickPeer_isSome.mpr (.inl (by decide +kernel))
  exact (fill_not_blocked_iff (P := demoConfig) (w := demoWorld 5)
    (s := { demoBlocked with queue := ["y.ts"] }) (by decide) (by decide)).mpr
    (.inl ⟨"y.ts", rfl, hsrc⟩) ⟨"y.ts", List.mem_singleton_self _, hsrc⟩

/-- The front file has no source at the moment, and the next one, which has, is not pulled. -/
theorem cooling_front_blocks_queue :
    demoBlocked.active.len < MAX_PARALLEL_DOWNLOADS ∧
    demoKnown.registry.activeCount < MAX_CONCURRENT_TRANSFERS ∧
    (∃ f ∈ demoBlocked.queue, (pickPeer demoConfig demoKnown demoBlocked default 5 f).1.isSome) ∧
    ¬ StartsPull (fill demoConfig smallestId (demoWorld 5) demoKnown demoBlocked).2.2 := by
  refine ⟨by decide, by decide, ⟨"y.ts", by decide, pickPeer_isSome.mpr (.inl (by decide +kernel))⟩, ?_⟩
  rw [fill_starts (by decide) (by decide)]
  rintro ⟨f, hf, hs⟩
  obtain rfl : "x.ts" = f := Option.some.inj hf
  rcases pickPeer_isSome.mp hs with hsrc | hrec
  · exact hsrc (by decide +kernel)
  · exact absurd hrec (by decide +kernel)

end Qstream

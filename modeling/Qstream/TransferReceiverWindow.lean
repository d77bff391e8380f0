import Qstream.TransferReceiver

/-! The receiver's window: while a download is in progress the packets below the
current range are all stored, and the range itself is not yet complete. -/
namespace Qstream.Transfer
open Chunks

/-- The size of the window that follows a window of `count` packets when the next
packet to ask for is `next`. -/
def nextWindow (total next count : ℕ) : ℕ :=
  min (min (count * 2) MAX_WINDOW) (total - next + 1)

namespace ReceiverTransfer

/-- Nothing arrived yet. -/
structure Fresh (r : ReceiverTransfer) : Prop where
  outcome : r.outcome = none
  total : r.total = none
  range : r.range = none
  packets : r.packets = ∅

/-- In progress with range `(s, c)` of `N` packets: everything below `s` is stored,
nothing from `s + c` on, and the range itself is not complete. -/
structure InRange (r : ReceiverTransfer) (N s c : ℕ) : Prop where
  outcome : r.outcome = none
  total : r.total = some N
  range : r.range = some (s, c)
  total_le : N ≤ 65535
  start_pos : 1 ≤ s
  count_pos : 1 ≤ c
  count_le : c ≤ MAX_WINDOW
  fits : s + c ≤ N + 1
  below : ∀ p, 1 ≤ p → p < s → p ∈ r.packets
  stored : ∀ p ∈ r.packets, 1 ≤ p ∧ p < s + c
  missing : ∃ p, s ≤ p ∧ p < s + c ∧ p ∉ r.packets

/-- The fields that no event of a transfer changes. -/
structure SameTransfer (r t : ReceiverTransfer) : Prop where
  transferId : t.transferId = r.transferId
  remote : t.remote = r.remote
  filename : t.filename = r.filename
  startedAt : t.startedAt = r.startedAt

theorem SameTransfer.refl (r : ReceiverTransfer) : SameTransfer r r := ⟨rfl, rfl, rfl, rfl⟩

theorem SameTransfer.trans {r t u : ReceiverTransfer} (h : SameTransfer r t)
    (g : SameTransfer t u) : SameTransfer r u :=
  ⟨g.transferId.trans h.transferId, g.remote.trans h.remote, g.filename.trans h.filename,
    g.startedAt.trans h.startedAt⟩

theorem new_fresh (cfg : Settings) (clk : Clock) (id : ℕ) (remote : SocketAddr)
    (filename : String) : (new cfg clk id remote filename).Fresh := ⟨rfl, rfl, rfl, rfl⟩

theorem rangeComplete_iff {r : ReceiverTransfer} {s c : ℕ} (hmax : s + c ≤ 65536) :
    r.rangeComplete s c = true ↔ ∀ p, s ≤ p → p < s + c → p ∈ r.packets := by
  simp only [rangeComplete, List.all_eq_true, List.mem_range, decide_eq_true_eq]
  constructor
  · intro h p hlo hhi
    have hp := h (p - s) (by omega)
    rwa [u16_of_lt (by omega), Nat.add_sub_cancel' hlo] at hp
  · intro h i hi
    rw [u16_of_lt (by omega)]
    exact h _ (by omega) (by omega)

section Fields
variable (cfg : Settings) (clk : Clock) (r : ReceiverTransfer) (p : ℕ) (d : Bytes)

@[simp] theorem store_packets : (r.store cfg clk p d).packets = r.packets.insert p d := rfl

theorem store_same : SameTransfer r (r.store cfg clk p d) := ⟨rfl, rfl, rfl, rfl⟩

theorem latchTotal_of_some {N : ℕ} (h : r.total = some N) (t : ℕ) :
    r.latchTotal cfg clk t = r := by
  simp [latchTotal, h]

theorem latchTotal_same (t : ℕ) : SameTransfer r (r.latchTotal cfg clk t) := by
  unfold latchTotal
  split <;> exact ⟨rfl, rfl, rfl, rfl⟩

theorem latchTotal_packets (t : ℕ) : (r.latchTotal cfg clk t).packets = r.packets := by
  unfold latchTotal
  split <;> rfl

end Fields

/-- The first content packet opens the first window. -/
theorem latchTotal_inRange (cfg : Settings) (clk : Clock) {r : ReceiverTransfer} {N : ℕ}
    (h : r.Fresh) (h1 : 1 ≤ N) (hN : N ≤ 65535) :
    (r.latchTotal cfg clk N).InRange N 1 (min INITIAL_WINDOW N) := by
  have hw : 1 ≤ min INITIAL_WINDOW N ∧ min INITIAL_WINDOW N ≤ N :=
    ⟨le_min (by decide) h1, min_le_right _ _⟩
  have hpk : (r.latchTotal cfg clk N).packets = ∅ := by rw [latchTotal_packets, h.packets]
  have hl : r.latchTotal cfg clk N = { r with
      total := some N
      firstPacketLatency := some ((clk 0 - r.startedAt) / millis 1)
      range := some (1, min INITIAL_WINDOW N)
      firstResponseDeadline := clk 1 + secs 3600
      quietDeadline := clk 2 + adaptiveQuiet cfg r.gapEst 0 } := by
    simp [latchTotal, h.total]
  exact {
    outcome := by rw [hl]; exact h.outcome
    total := by rw [hl]
    range := by rw [hl]
    total_le := hN
    start_pos := le_rfl
    count_pos := hw.1
    count_le := (min_le_left _ _).trans (by decide)
    fits := by omega
    below := by omega
    stored := by rw [hpk]; simp
    missing := ⟨1, le_rfl, by omega, by rw [hpk]; simp⟩ }

/-- The packet is one of the latched total, in the current range, and not yet stored. -/
def Wants (r : ReceiverTransfer) (packetNumber : ℕ) : Prop :=
  ∃ total start count, r.total = some total ∧ r.range = some (start, count) ∧
    packetNumber ≠ 0 ∧ packetNumber ≤ total ∧
    start ≤ packetNumber ∧ packetNumber < start + count ∧ packetNumber ∉ r.packets

/-- What content can do to any receiver. While the download is in progress the total is
latched first; a packet that is then wanted is stored, any other is dropped or nudged. -/
inductive ContentResult (cfg : Settings) (env : World) (r : ReceiverTransfer) (dir : Dir)
    (p t : ℕ) (d : Bytes) : ReceiverTransfer × List Message × Dir → Prop
  | saved (h : r.outcome = some (.ok ())) :
      ContentResult cfg env r dir p t d (r, [r.completeMessage], dir)
  | failed {e : FailReason} (h : r.outcome = some (.error e)) :
      ContentResult cfg env r dir p t d (r, [], dir)
  | dropped (h : r.outcome = none) (hw : ¬ (r.latchTotal cfg env.clk t).Wants p) :
      ContentResult cfg env r dir p t d (r.latchTotal cfg env.clk t, [], dir)
  | nudged {rg : ℕ × ℕ} (h : r.outcome = none) (hw : ¬ (r.latchTotal cfg env.clk t).Wants p) :
      ContentResult cfg env r dir p t d
        (r.latchTotal cfg env.clk t, [(r.latchTotal cfg env.clk t).ackMessage rg], dir)
  | stored (h : r.outcome = none) (hw : (r.latchTotal cfg env.clk t).Wants p) :
      ContentResult cfg env r dir p t d
        ((r.latchTotal cfg env.clk t).store cfg env.clk p d, [], dir)
  | advanced {s c N : ℕ} (h : r.outcome = none) (hw : (r.latchTotal cfg env.clk t).Wants p) :
      ContentResult cfg env r dir p t d
        (((r.latchTotal cfg env.clk t).store cfg env.clk p d).advance cfg env dir s c N)
  | completed (h : r.outcome = none) (hw : (r.latchTotal cfg env.clk t).Wants p) :
      ContentResult cfg env r dir p t d
        (((r.latchTotal cfg env.clk t).store cfg env.clk p d).complete env dir)

theorem onContent_result (cfg : Settings) (env : World) (r : ReceiverTransfer) (dir : Dir)
    (p t : ℕ) (d : Bytes) :
    ContentResult cfg env r dir p t d (r.onContent cfg env dir p t d) := by
  unfold onContent
  split
  next h => exact .saved h
  next h => exact .failed h
  next h =>
    dsimp only
    split
    next N s c htotal hrange =>
      have hwants : (r.latchTotal cfg env.clk t).Wants p ↔
          p ≠ 0 ∧ p ≤ N ∧ s ≤ p ∧ p < s + c ∧ p ∉ (r.latchTotal cfg env.clk t).packets := by
        simp [Wants, htotal, hrange]
      split
      next hbad => exact .dropped h (hwants.not.mpr (by omega))
      next hok =>
        split
        next hstray => exact .nudged h (hwants.not.mpr (by omega))
        next hin =>
          split
          next hdup => exact .dropped h (hwants.not.mpr fun hw => hw.2.2.2.2 hdup)
          next hnew =>
            have hw := hwants.mpr ⟨by omega, by omega, by omega, by omega, hnew⟩
            split
            · exact .completed h hw
            split
            · exact .advanced h hw
            · exact .stored h hw
    next hnone =>
      refine .dropped h ?_
      rintro ⟨N, s, c, htotal, hrange, -⟩
      exact hnone N s c htotal hrange

variable {cfg : Settings} {env : World} {r : ReceiverTransfer} {dir : Dir} {N s c p : ℕ}
variable {d : Bytes}

/-- In an unfinished window the packet map is smaller than the total. -/
theorem InRange.len_lt (h : r.InRange N s c) : r.packets.len < N := by
  by_contra hge
  have hsub : ∀ k ∈ r.packets, k ∈ Finset.Icc 1 N := by
    intro k hk
    have := h.stored k hk
    have := h.fits
    exact Finset.mem_Icc.mpr ⟨by omega, by omega⟩
  have hall := HashMap.covers_of_card_le hsub (by rw [Nat.card_Icc]; omega)
  obtain ⟨p, hlo, hhi, hp⟩ := h.missing
  have := h.start_pos
  have := h.fits
  exact hp (hall p (Finset.mem_Icc.mpr ⟨by omega, by omega⟩))

/-- Before the first packet and after it, content is handled as in an open window. -/
theorem onContent_of_fresh (h : r.Fresh) (h1 : 1 ≤ N) (hN : N ≤ 65535) :
    r.onContent cfg env dir p N d =
      (r.latchTotal cfg env.clk N).onContent cfg env dir p N d := by
  have hl := latchTotal_inRange cfg env.clk h h1 hN
  simp only [onContent, h.outcome, hl.outcome, latchTotal_of_some cfg env.clk _ hl.total]

theorem onContent_malformed (h : r.InRange N s c) (t : ℕ) (hp : p = 0 ∨ N < p) :
    r.onContent cfg env dir p t d = (r, [], dir) := by
  have hp' : p = 0 ∨ p > N := hp
  simp only [onContent, h.outcome, latchTotal_of_some cfg env.clk r h.total, h.total, h.range,
    if_pos hp']

/-- A packet of another window is answered with the current range. -/
theorem onContent_stray (h : r.InRange N s c) (t : ℕ) (h1 : 1 ≤ p) (hN : p ≤ N)
    (hp : p < s ∨ s + c ≤ p) :
    r.onContent cfg env dir p t d = (r, [r.ackMessage (s, c)], dir) := by
  have hok : ¬ (p = 0 ∨ p > N) := by omega
  have hp' : p < s ∨ p ≥ s + c := hp
  simp only [onContent, h.outcome, latchTotal_of_some cfg env.clk r h.total, h.total, h.range,
    if_neg hok, if_pos hp']

theorem onContent_duplicate (h : r.InRange N s c) (t : ℕ) (hlo : s ≤ p) (hhi : p < s + c)
    (hdup : p ∈ r.packets) : r.onContent cfg env dir p t d = (r, [], dir) := by
  have := h.start_pos
  have := h.fits
  have hok : ¬ (p = 0 ∨ p > N) := by omega
  have hin : ¬ (p < s ∨ p ≥ s + c) := by omega
  simp only [onContent, h.outcome, latchTotal_of_some cfg env.clk r h.total, h.total, h.range,
    if_neg hok, if_neg hin, if_pos hdup]

/-- A new packet of the range is stored; what follows depends on whether it was the
last one of the file or of the range. -/
theorem onContent_store (h : r.InRange N s c) (t : ℕ) (hlo : s ≤ p) (hhi : p < s + c)
    (hnew : p ∉ r.packets) :
    r.onContent cfg env dir p t d =
      let r1 := r.store cfg env.clk p d
      if r1.packets.len ≥ N then r1.complete env dir
      else if r1.rangeComplete s c then r1.advance cfg env dir s c N
      else (r1, [], dir) := by
  have := h.start_pos
  have := h.fits
  have hok : ¬ (p = 0 ∨ p > N) := by omega
  have hin : ¬ (p < s ∨ p ≥ s + c) := by omega
  simp only [onContent, h.outcome, latchTotal_of_some cfg env.clk r h.total, h.total, h.range,
    if_neg hok, if_neg hin, if_neg hnew]

theorem mem_store (cfg : Settings) (clk : Clock) (r : ReceiverTransfer) (p : ℕ) (d : Bytes)
    (q : ℕ) : q ∈ (r.store cfg clk p d).packets ↔ q = p ∨ q ∈ r.packets := by
  rw [store_packets, AList.mem_insert]

theorem InRange.stored_of_store (h : r.InRange N s c) (hlo : s ≤ p) (hhi : p < s + c)
    {q : ℕ} (hq : q ∈ (r.store cfg env.clk p d).packets) : 1 ≤ q ∧ q < s + c := by
  rcases (mem_store cfg env.clk r p d q).mp hq with rfl | hq
  · have := h.start_pos
    omega
  · exact h.stored q hq

/-- With the range filled up, everything below its end is stored. -/
theorem InRange.cover_of_store (h : r.InRange N s c)
    (hall : ∀ q, s ≤ q → q < s + c → q ∈ (r.store cfg env.clk p d).packets) {q : ℕ}
    (h1 : 1 ≤ q) (h2 : q < s + c) : q ∈ (r.store cfg env.clk p d).packets := by
  rcases Nat.lt_or_ge q s with hq | hq
  · exact (mem_store _ _ _ _ _ _).mpr (.inr (h.below q h1 hq))
  · exact hall q hq h2

/-- The stored packet left a gap in the range. -/
theorem InRange.store_missing (h : r.InRange N s c) (hlo : s ≤ p) (hhi : p < s + c)
    (hm : ∃ q, s ≤ q ∧ q < s + c ∧ q ∉ (r.store cfg env.clk p d).packets) :
    (r.store cfg env.clk p d).InRange N s c :=
  { outcome := h.outcome, total := h.total, range := h.range, total_le := h.total_le
    start_pos := h.start_pos, count_pos := h.count_pos, count_le := h.count_le, fits := h.fits
    below := fun q h1 h2 => (mem_store _ _ _ _ _ _).mpr (.inr (h.below q h1 h2))
    stored := fun _ hq => h.stored_of_store hlo hhi hq
    missing := hm }

theorem complete_outcome (env : World) (r : ReceiverTransfer) (dir : Dir) :
    (r.complete env dir).1.outcome ≠ none := by
  unfold complete
  dsimp only
  split
  · exact Option.some_ne_none _
  · exact Option.some_ne_none _

theorem complete_range (env : World) (r : ReceiverTransfer) (dir : Dir) :
    (r.complete env dir).1.range = r.range := by
  unfold complete
  dsimp only
  split <;> rfl

/-- With the range complete and packets left, `advance` opens the next window: its
subtraction does not underflow and its last branch is not taken. -/
theorem advance_inRange (h : r.InRange N s c) (hlo : s ≤ p) (hhi : p < s + c)
    (hall : ∀ q, s ≤ q → q < s + c → q ∈ (r.store cfg env.clk p d).packets)
    (hleft : s + c ≤ N) :
    ∃ r2, (r.store cfg env.clk p d).advance cfg env dir s c N =
        (r2, [r.ackMessage (s + c, nextWindow N (s + c) c)], dir) ∧
      r2.InRange N (s + c) (nextWindow N (s + c) c) ∧
      r2.packets = (r.store cfg env.clk p d).packets ∧ SameTransfer r r2 ∧
      r2.retryCount = 0 := by
  have hN := h.total_le
  have hcpos := h.count_pos
  have hrem : u32 (u32sub N (s + c) + 1) = N - (s + c) + 1 := by
    simp only [u32sub, u32]
    omega
  have hw : 1 ≤ nextWindow N (s + c) c ∧ nextWindow N (s + c) c ≤ N - (s + c) + 1 :=
    ⟨le_min (le_min (by omega) (by decide)) (Nat.le_add_left 1 _), min_le_right _ _⟩
  have hs16 : u16 (s + c) = s + c := u16_of_lt (by omega)
  have hw16 : u16 (nextWindow N (s + c) c) = nextWindow N (s + c) c := u16_of_lt (by omega)
  have hne : N - (s + c) + 1 ≠ 0 := Nat.succ_ne_zero _
  have hst : ∀ q ∈ (r.store cfg env.clk p d).packets, 1 ≤ q ∧ q < s + c :=
    fun _ hq => h.stored_of_store hlo hhi hq
  refine ⟨{ r.store cfg env.clk p d with
      range := some (s + c, nextWindow N (s + c) c)
      retryCount := 0
      quietDeadline := env.clk 6 + adaptiveQuiet cfg (r.store cfg env.clk p d).gapEst 0 },
    ?_, ?_, rfl, ⟨rfl, rfl, rfl, rfl⟩, rfl⟩
  · simp only [advance, hrem, hs16, if_neg hne]
    unfold nextWindow at hw16 ⊢
    rw [hw16]
    rfl
  · exact {
      outcome := h.outcome
      total := h.total
      range := rfl
      total_le := h.total_le
      start_pos := by have := h.start_pos; omega
      count_pos := hw.1
      count_le := (min_le_left _ _).trans (min_le_right _ _)
      fits := by omega
      below := fun q h1 h2 => h.cover_of_store hall h1 h2
      stored := fun q hq => ⟨(hst q hq).1, Nat.lt_add_right _ (hst q hq).2⟩
      missing := ⟨s + c, le_rfl, by omega, fun hq => lt_irrefl _ (hst _ hq).2⟩ }

/-- What a content packet does to a download in progress: nothing, a nudge, a packet
stored, the next window, or the end. -/
theorem onContent_inRange (h : r.InRange N s c) (t : ℕ) :
    ((p = 0 ∨ N < p) ∧ r.onContent cfg env dir p t d = (r, [], dir)) ∨
    (1 ≤ p ∧ p ≤ N ∧ (p < s ∨ s + c ≤ p) ∧
      r.onContent cfg env dir p t d = (r, [r.ackMessage (s, c)], dir)) ∨
    (p ∈ r.packets ∧ s ≤ p ∧ p < s + c ∧ r.onContent cfg env dir p t d = (r, [], dir)) ∨
    (p ∉ r.packets ∧ s ≤ p ∧ p < s + c ∧
      (((r.store cfg env.clk p d).InRange N s c ∧
          r.onContent cfg env dir p t d = (r.store cfg env.clk p d, [], dir)) ∨
        (s + c ≤ N ∧ ∃ r2, r.onContent cfg env dir p t d =
            (r2, [r.ackMessage (s + c, nextWindow N (s + c) c)], dir) ∧
          r2.InRange N (s + c) (nextWindow N (s + c) c) ∧
          r2.packets = (r.store cfg env.clk p d).packets ∧ SameTransfer r r2 ∧
          r2.retryCount = 0) ∨
        ((∀ q, 1 ≤ q → q ≤ N → q ∈ (r.store cfg env.clk p d).packets) ∧
          r.onContent cfg env dir p t d = (r.store cfg env.clk p d).complete env dir))) := by
  have hfits := h.fits
  by_cases hbad : p = 0 ∨ N < p
  · exact .inl ⟨hbad, onContent_malformed h t hbad⟩
  by_cases hstray : p < s ∨ s + c ≤ p
  · exact .inr (.inl ⟨by omega, by omega, hstray,
      onContent_stray h t (by omega) (by omega) hstray⟩)
  have hlo : s ≤ p := by omega
  have hhi : p < s + c := by omega
  by_cases hdup : p ∈ r.packets
  · exact .inr (.inr (.inl ⟨hdup, hlo, hhi, onContent_duplicate h t hlo hhi hdup⟩))
  refine .inr (.inr (.inr ⟨hdup, hlo, hhi, ?_⟩))
  rw [onContent_store h t hlo hhi hdup]
  by_cases hm : ∃ q, s ≤ q ∧ q < s + c ∧ q ∉ (r.store cfg env.clk p d).packets
  · have hin := h.store_missing hlo hhi hm
    have hlen : ¬ (r.store cfg env.clk p d).packets.len ≥ N := Nat.not_le.mpr hin.len_lt
    have hgap : ¬ (r.store cfg env.clk p d).rangeComplete s c = true := by
      have := h.total_le
      rw [rangeComplete_iff (by omega)]
      obtain ⟨q, h1, h2, h3⟩ := hm
      exact fun hall => h3 (hall q h1 h2)
    exact .inl ⟨hin, by simp only [if_neg hlen, if_neg hgap]⟩
  have hall : ∀ q, s ≤ q → q < s + c → q ∈ (r.store cfg env.clk p d).packets := by
    intro q h1 h2
    by_contra h3
    exact hm ⟨q, h1, h2, h3⟩
  have hcover : ∀ q, 1 ≤ q → q < s + c → q ∈ (r.store cfg env.clk p d).packets :=
    fun q h1 h2 => h.cover_of_store hall h1 h2
  rcases Nat.lt_or_ge N (s + c) with hlast | hleft
  · -- the range ends at the last packet of the file
    have hevery : ∀ q, 1 ≤ q → q ≤ N → q ∈ (r.store cfg env.clk p d).packets :=
      fun q h1 h2 => hcover q h1 (by omega)
    have hcard := HashMap.le_len_of_numbered hevery
    refine .inr (.inr ⟨hevery, ?_⟩)
    simp only [ge_iff_le, hcard, if_true]
  · obtain ⟨r2, hadv, hin, hpk, hsame, hretry⟩ :=
      advance_inRange h hlo hhi hall hleft
    have hlen : ¬ (r.store cfg env.clk p d).packets.len ≥ N := by
      have := hin.len_lt
      rw [hpk] at this
      omega
    have hdone : (r.store cfg env.clk p d).rangeComplete s c = true := by
      have := h.total_le
      rw [rangeComplete_iff (by omega)]
      exact hall
    refine .inr (.inl ⟨hleft, r2, ?_, hin, hpk, hsame, hretry⟩)
    simp only [if_neg hlen, hdone, if_true]
    exact hadv

/-- The range the receiver wants: its current one, or the one its first packet will open. -/
def wanted (r : ReceiverTransfer) (N : ℕ) : ℕ × ℕ := r.range.getD (1, min INITIAL_WINDOW N)

theorem InRange.wanted_eq (h : r.InRange N s c) : r.wanted N = (s, c) := by
  simp [wanted, h.range]

/-- A download in progress handles content as one with an open window does, whether or
not its first packet has arrived. -/
theorem exists_opened (cfg : Settings) (env : World)
    (hw : r.Fresh ∨ ∃ s c, r.InRange N s c) (h1 : 1 ≤ N) (hN : N ≤ 65535) :
    ∃ r1 s c, r1.InRange N s c ∧ r1.packets = r.packets ∧ SameTransfer r r1 ∧
      r.wanted N = (s, c) ∧
      ∀ dir p d, r.onContent cfg env dir p N d = r1.onContent cfg env dir p N d := by
  rcases hw with hf | ⟨s, c, hr⟩
  · refine ⟨r.latchTotal cfg env.clk N, 1, min INITIAL_WINDOW N,
      latchTotal_inRange cfg env.clk hf h1 hN, latchTotal_packets _ _ _ _,
      latchTotal_same _ _ _ _, ?_, fun dir p d => onContent_of_fresh hf h1 hN⟩
    simp [wanted, hf.range]
  · exact ⟨r, s, c, hr, rfl, SameTransfer.refl r, hr.wanted_eq, fun _ _ _ => rfl⟩

/-! A tick repeats the request or the current range, or fails the download. -/

theorem resendRequest_cases (cfg : Settings) (r : ReceiverTransfer) (now : ℕ) :
    r.resendRequest cfg now = (r, []) ∨
    r.resendRequest cfg now = ({ r with
      requestResent := true
      firstResponseDeadline := now + millis cfg.firstTimeoutMs }, [r.requestMessage]) := by
  unfold resendRequest
  split
  · exact .inr rfl
  · exact .inl rfl

/-- What ticks do not touch. -/
structure SameProgress (r t : ReceiverTransfer) : Prop where
  same : SameTransfer r t
  packets : t.packets = r.packets
  total : t.total = r.total
  range : t.range = r.range
  savedBytes : t.savedBytes = r.savedBytes

theorem SameProgress.trans {r t u : ReceiverTransfer} (h : SameProgress r t)
    (g : SameProgress t u) : SameProgress r u :=
  ⟨h.same.trans g.same, g.packets.trans h.packets, g.total.trans h.total,
    g.range.trans h.range, g.savedBytes.trans h.savedBytes⟩

theorem quietExpired_spec (cfg : Settings) (r : ReceiverTransfer) (now : ℕ) (clk : Clock) :
    SameProgress r (r.quietExpired cfg now clk).1 ∧
    ((r.quietExpired cfg now clk).1.outcome = r.outcome ∨
      ∃ e, (r.quietExpired cfg now clk).1.outcome = some (.error e)) ∧
    ∀ m ∈ (r.quietExpired cfg now clk).2, ∃ rg, r.range = some rg ∧ m = r.ackMessage rg := by
  cases hrg : r.range with
  | none =>
    simp only [quietExpired, hrg]
    exact ⟨⟨⟨rfl, rfl, rfl, rfl⟩, rfl, rfl, hrg.symm, rfl⟩, .inl trivial, by simp⟩
  | some rg =>
    obtain ⟨s, c⟩ := rg
    simp only [quietExpired, hrg]
    split
    · exact ⟨⟨⟨rfl, rfl, rfl, rfl⟩, rfl, rfl, hrg.symm, rfl⟩, .inl rfl, by simp⟩
    split
    · exact ⟨⟨⟨rfl, rfl, rfl, rfl⟩, rfl, rfl, hrg.symm, rfl⟩, .inr ⟨_, rfl⟩, by simp⟩
    · refine ⟨⟨⟨rfl, rfl, rfl, rfl⟩, rfl, rfl, hrg.symm, rfl⟩, .inl rfl, ?_⟩
      simp only [List.mem_singleton]
      rintro m rfl
      exact ⟨_, rfl, rfl⟩

theorem onTick_spec (cfg : Settings) (r : ReceiverTransfer) (now : ℕ) (clk : Clock) :
    SameProgress r (r.onTick cfg now clk).1 ∧
    ((r.onTick cfg now clk).1.outcome = r.outcome ∨
      r.outcome = none ∧ ∃ e, (r.onTick cfg now clk).1.outcome = some (.error e)) ∧
    ∀ m ∈ (r.onTick cfg now clk).2,
      m = r.requestMessage ∨ ∃ rg, r.range = some rg ∧ m = r.ackMessage rg := by
  have hrefl : SameProgress r r := ⟨SameTransfer.refl r, rfl, rfl, rfl, rfl⟩
  cases hout : r.outcome with
  | some o => simp only [onTick, hout, Option.isSome_some, if_true]; exact ⟨hrefl, by simp, by simp⟩
  | none =>
    obtain ⟨r1, sent1, hres, hsame1, hout1, hmsg1⟩ : ∃ r1 sent1,
        r.resendRequest cfg now = (r1, sent1) ∧ SameProgress r r1 ∧ r1.outcome = none ∧
        ∀ m ∈ sent1, m = r.requestMessage := by
      rcases resendRequest_cases cfg r now with h | h
      · exact ⟨_, _, h, hrefl, hout, by simp⟩
      · exact ⟨_, _, h, ⟨⟨rfl, rfl, rfl, rfl⟩, rfl, rfl, rfl, rfl⟩, hout, by simp⟩
    simp only [onTick, hout, Option.isSome_none, Bool.false_eq_true, if_false, hres]
    split
    · refine ⟨⟨⟨?_, ?_, ?_, ?_⟩, hsame1.packets, hsame1.total, hsame1.range, hsame1.savedBytes⟩,
        .inr ⟨trivial, _, rfl⟩, fun m hm => .inl (hmsg1 m hm)⟩
      · exact hsame1.same.transferId
      · exact hsame1.same.remote
      · exact hsame1.same.filename
      · exact hsame1.same.startedAt
    split
    · obtain ⟨hsame2, hout2, hmsg2⟩ := quietExpired_spec cfg r1 now clk
      refine ⟨hsame1.trans hsame2, ?_, ?_⟩
      · rcases hout2 with h | h
        · exact .inl (h.trans hout1)
        · exact .inr ⟨trivial, h⟩
      · intro m hm
        rcases List.mem_append.mp hm with hm | hm
        · exact .inl (hmsg1 m hm)
        · obtain ⟨rg, hrg, rfl⟩ := hmsg2 m hm
          refine .inr ⟨rg, by rw [← hsame1.range]; exact hrg, ?_⟩
          simp only [ackMessage, hsame1.same.transferId]
    · exact ⟨hsame1, .inl hout1, fun m hm => .inl (hmsg1 m hm)⟩

theorem SameProgress.inRange {r t : ReceiverTransfer} (h : SameProgress r t)
    (hout : t.outcome = none) (hr : r.InRange N s c) : t.InRange N s c :=
  { hr with
    outcome := hout
    total := h.total.trans hr.total
    range := h.range.trans hr.range
    below := by rw [h.packets]; exact hr.below
    stored := by rw [h.packets]; exact hr.stored
    missing := by rw [h.packets]; exact hr.missing }

theorem SameProgress.fresh {r t : ReceiverTransfer} (h : SameProgress r t)
    (hout : t.outcome = none) (hf : r.Fresh) : t.Fresh :=
  ⟨hout, h.total.trans hf.total, h.range.trans hf.range, h.packets.trans hf.packets⟩

/-- A tick that does not fail the download keeps its window. -/
theorem SameProgress.window {r t : ReceiverTransfer} (h : SameProgress r t)
    (hout : t.outcome = none) (hw : r.Fresh ∨ ∃ s c, r.InRange N s c) :
    t.Fresh ∨ ∃ s c, t.InRange N s c := by
  rcases hw with hf | ⟨s, c, hr⟩
  · exact .inl (h.fresh hout hf)
  · exact .inr ⟨s, c, h.inRange hout hr⟩

end ReceiverTransfer
end Qstream.Transfer

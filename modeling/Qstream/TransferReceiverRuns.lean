import Qstream.TransferReceiverWindow

/-! Whole downloads: any sequence of contents and ticks, with the ranges requested on the way. -/
namespace Qstream.Transfer

/-- Ranges that follow one another from `a` up to `e`, the latter excluded. -/
inductive Tiles : ℕ → List (ℕ × ℕ) → ℕ → Prop
  | nil (a) : Tiles a [] a
  | cons {a c e rs} : 1 ≤ c → Tiles (a + c) rs e → Tiles a ((a, c) :: rs) e

theorem Tiles.snoc {a c e : ℕ} {rs : List (ℕ × ℕ)} (h : Tiles a rs e) (hc : 1 ≤ c) :
    Tiles a (rs ++ [(e, c)]) (e + c) := by
  induction h with
  | nil a => exact .cons hc (.nil _)
  | cons h1 _ ih => exact .cons h1 ih

/-- A receiver with its directory; `requested` records every range it has asked for. -/
structure Download where
  receiver : ReceiverTransfer
  dir : Dir
  requested : List (ℕ × ℕ)

inductive ReceiverEvent
  | content (env : World) (packetNumber totalPackets : ℕ) (data : Bytes)
  | tick (now : ℕ) (clk : Clock)

/-- Packet numbers and totals are values of the type `u16`. -/
def ReceiverEvent.Typed : ReceiverEvent → Prop
  | .content _ packetNumber totalPackets _ => packetNumber < 65536 ∧ totalPackets < 65536
  | .tick _ _ => True

def ReceiverEvent.total? : ReceiverEvent → Option ℕ
  | .content _ _ totalPackets _ => some totalPackets
  | .tick _ _ => none

/-- The first content carries a packet total of at least 1. -/
def OpensWell (es : List ReceiverEvent) : Prop := ∀ t ∈ es.findSome? ReceiverEvent.total?, 1 ≤ t

namespace Download

def start (r : ReceiverTransfer) (dir : Dir) : Download := ⟨r, dir, []⟩

def put (S : Download) (r : ReceiverTransfer) (dir : Dir) : Download :=
  ⟨r, dir, if r.range = S.receiver.range then S.requested else S.requested ++ r.range.toList⟩

def apply (cfg : Settings) (S : Download) : ReceiverEvent → Download
  | .content env packetNumber totalPackets data =>
    let (r, _, dir) := S.receiver.onContent cfg env S.dir packetNumber totalPackets data
    S.put r dir
  | .tick now clk => S.put (S.receiver.onTick cfg now clk).1 S.dir

/-- Where a download stands: nothing arrived, in a window, or over. -/
inductive Tracked (S : Download) : Prop
  | fresh : S.receiver.Fresh → S.requested = [] → Tracked S
  | window {N s c} : S.receiver.InRange N s c → Tiles 1 S.requested (s + c) → Tracked S
  | finished : S.receiver.outcome ≠ none → Tracked S

end Download

namespace ReceiverTransfer

/-- `onContent` with its call of `advance` left open. -/
def onContentVia {β : Type} (cfg : Settings) (env : World) (r : ReceiverTransfer) (dir : Dir)
    (packetNumber totalPackets : ℕ) (data : Bytes)
    (ret : ReceiverTransfer × List Message × Dir → β)
    (call : ReceiverTransfer → ℕ → ℕ → ℕ → β) : β :=
  match r.outcome with
  | some (.ok _) => ret (r, [r.completeMessage], dir)
  | some (.error _) => ret (r, [], dir)
  | none =>
    let r := r.latchTotal cfg env.clk totalPackets
    match r.total, r.range with
    | some total, some (start, count) =>
      if packetNumber = 0 ∨ packetNumber > total then ret (r, [], dir)
      else if packetNumber < start ∨ packetNumber ≥ start + count then
        ret (r, [r.ackMessage (start, count)], dir)
      else if packetNumber ∈ r.packets then ret (r, [], dir)
      else
        let r := r.store cfg env.clk packetNumber data
        if r.packets.len ≥ total then ret (r.complete env dir)
        else if r.rangeComplete start count then call r start count total
        else ret (r, [], dir)
    | _, _ => ret (r, [], dir)

theorem onContent_eq_via (cfg : Settings) (env : World) (r : ReceiverTransfer) (dir : Dir)
    (packetNumber totalPackets : ℕ) (data : Bytes) :
    r.onContent cfg env dir packetNumber totalPackets data =
      r.onContentVia cfg env dir packetNumber totalPackets data id
        fun r start count total => r.advance cfg env dir start count total := rfl

/-- The range and the total `advance` is called with, if a content leads there. -/
def advanceArgs (cfg : Settings) (env : World) (r : ReceiverTransfer) (dir : Dir)
    (packetNumber totalPackets : ℕ) (data : Bytes) : Option (ℕ × ℕ × ℕ) :=
  r.onContentVia cfg env dir packetNumber totalPackets data (fun _ => none)
    fun _ start count total => some (start, count, total)

variable {cfg : Settings} {env : World} {r : ReceiverTransfer} {dir : Dir} {N s c p t : ℕ}
variable {d : Bytes}

theorem onContent_of_outcome (h : r.outcome ≠ none) :
    (r.onContent cfg env dir p t d).1 = r := by
  unfold onContent
  split
  · rfl
  · rfl
  · contradiction

/-- In a window, `advance` is called with that window, and only while packets are left. -/
theorem InRange.advanceArgs_le (h : r.InRange N s c) {start count total : ℕ}
    (hargs : r.advanceArgs cfg env dir p t d = some (start, count, total)) :
    start + count ≤ total ∧ total ≤ 65535 := by
  unfold advanceArgs onContentVia at hargs
  simp only [h.outcome, latchTotal_of_some cfg env.clk r h.total, h.total, h.range] at hargs
  split at hargs
  next => cases hargs
  next hok =>
  split at hargs
  next => cases hargs
  next hin =>
  split at hargs
  next => cases hargs
  next hnew =>
  split at hargs
  next => cases hargs
  next hlen =>
  split at hargs
  next hdone =>
    simp only [Option.some.injEq, Prod.mk.injEq] at hargs
    obtain ⟨rfl, rfl, rfl⟩ := hargs
    have hN := h.total_le
    have hfits := h.fits
    refine ⟨?_, hN⟩
    -- a range that ends at the last packet leaves no packet missing
    by_contra hlast
    refine hlen (HashMap.le_len_of_numbered fun q h1 h2 => ?_)
    exact h.cover_of_store ((rangeComplete_iff (by omega)).mp hdone) h1 (by omega)
  next => cases hargs

theorem Fresh.advanceArgs_eq (h : r.Fresh) (h1 : 1 ≤ t) (ht : t ≤ 65535) :
    r.advanceArgs cfg env dir p t d =
      (r.latchTotal cfg env.clk t).advanceArgs cfg env dir p t d := by
  have hl := latchTotal_inRange cfg env.clk h h1 ht
  simp only [advanceArgs, onContentVia, h.outcome, hl.outcome,
    latchTotal_of_some cfg env.clk _ hl.total]

theorem advanceArgs_of_outcome (h : r.outcome ≠ none) :
    r.advanceArgs cfg env dir p t d = none := by
  unfold advanceArgs onContentVia
  split
  · rfl
  · rfl
  · contradiction

/-- Content in a window keeps the window, opens the next one, or ends the download. -/
theorem InRange.onContent_window (h : r.InRange N s c) (cfg : Settings) (env : World)
    (dir : Dir) (p t : ℕ) (d : Bytes) :
    let r' := (r.onContent cfg env dir p t d).1
    (r'.InRange N s c ∧ r'.retryCount = r.retryCount) ∨
    (r'.InRange N (s + c) (nextWindow N (s + c) c) ∧ r'.retryCount = 0 ∧
      r'.packets = r.packets.insert p d) ∨
    (r'.outcome ≠ none ∧ r'.range = r.range) := by
  rcases @onContent_inRange cfg env r dir N s c p d h t with ⟨-, heq⟩ | ⟨-, -, -, heq⟩ |
    ⟨-, -, -, heq⟩ | ⟨-, -, -, hstore⟩
  · rw [heq]; exact .inl ⟨h, rfl⟩
  · rw [heq]; exact .inl ⟨h, rfl⟩
  · rw [heq]; exact .inl ⟨h, rfl⟩
  rcases hstore with ⟨hin, heq⟩ | ⟨-, r2, heq, hin, hpk, -, hretry⟩ | ⟨-, heq⟩
  · rw [heq]; exact .inl ⟨hin, rfl⟩
  · rw [heq]; exact .inr (.inl ⟨hin, hretry, hpk⟩)
  · rw [heq]; exact .inr (.inr ⟨complete_outcome _ _ _, complete_range _ _ _⟩)

/-- The first content opens the first window, or ends the download with it. -/
theorem Fresh.onContent_opened (h : r.Fresh) (h1 : 1 ≤ N) (hN : N ≤ 65535) (cfg : Settings)
    (env : World) (dir : Dir) (p : ℕ) (d : Bytes) :
    let r' := (r.onContent cfg env dir p N d).1
    (r'.InRange N 1 (min INITIAL_WINDOW N) ∧ r'.retryCount = r.retryCount) ∨
    (r'.outcome ≠ none ∧ r'.range = some (1, min INITIAL_WINDOW N)) := by
  have hl := latchTotal_inRange cfg env.clk h h1 hN
  have hretry : (r.latchTotal cfg env.clk N).retryCount = r.retryCount := by
    simp only [latchTotal, h.total]
  rw [onContent_of_fresh h h1 hN]
  rcases hl.onContent_window cfg env dir p N d with ⟨hin, hkept⟩ | ⟨hin, -, hpk⟩ | ⟨hout, hrange⟩
  · exact .inl ⟨hin, hkept.trans hretry⟩
  · -- one packet fills the first window only if it is the whole file
    rw [latchTotal_packets, h.packets] at hpk
    have hstored (q : ℕ) (hq : 1 ≤ q) (hqs : q < 1 + min INITIAL_WINDOW N) : q = p := by
      have := hin.below q hq hqs
      rw [hpk, AList.mem_insert] at this
      simpa using this
    have hw := hin.count_pos
    have hfits := hin.fits
    have hsize : INITIAL_WINDOW = 5 := rfl
    have hp1 := hstored 1 le_rfl (by omega)
    have hp2 := hstored 2 (by omega) (by omega)
    omega
  · exact .inr ⟨hout, hrange.trans hl.range⟩

end ReceiverTransfer

namespace Download
open ReceiverTransfer
variable {cfg : Settings} {S : Download} {r : ReceiverTransfer} {dir : Dir} {N s c : ℕ}

theorem put_requested_same (h : r.range = S.receiver.range) :
    (S.put r dir).requested = S.requested := if_pos h

theorem put_requested_new {rg : ℕ × ℕ} (h : r.range = some rg) (hne : S.receiver.range ≠ some rg) :
    (S.put r dir).requested = S.requested ++ [rg] := by
  rw [put, if_neg (by rw [h]; exact fun heq => hne heq.symm), h]
  rfl

theorem Tracked.not_fresh_of_window {T : Download} (hin : T.receiver.InRange N s c)
    (htiles : Tiles 1 T.requested (s + c)) : Tracked T ∧ ¬ T.receiver.Fresh :=
  ⟨.window hin htiles, fun hf => by simpa [hf.total] using hin.total⟩

theorem Tracked.not_fresh_of_finished {T : Download} (hout : T.receiver.outcome ≠ none) :
    Tracked T ∧ ¬ T.receiver.Fresh :=
  ⟨.finished hout, fun hf => hout hf.outcome⟩

/-- Content keeps a download on track, provided a first one carries a total of at least 1. -/
theorem Tracked.content (h : Tracked S) (cfg : Settings) {env : World} {p t : ℕ}
    {d : Bytes} (hopen : S.receiver.Fresh → 1 ≤ t) (ht : t < 65536) :
    Tracked (S.apply cfg (.content env p t d)) ∧
      ¬ (S.apply cfg (.content env p t d)).receiver.Fresh := by
  cases h with
  | fresh hf hnone =>
    rcases hf.onContent_opened (hopen hf) (Nat.le_of_lt_succ ht) cfg env S.dir p d with
      ⟨hin, -⟩ | ⟨hout, -⟩
    · refine not_fresh_of_window hin ?_
      have hreq : (S.apply cfg (.content env p t d)).requested =
          S.requested ++ [(1, min INITIAL_WINDOW t)] :=
        put_requested_new hin.range (by simp [hf.range])
      rw [hreq, hnone]
      exact .cons hin.count_pos (.nil _)
    · exact not_fresh_of_finished hout
  | @window N s c hin htiles =>
    rcases hin.onContent_window cfg env S.dir p t d with ⟨hsame, -⟩ | ⟨hnext, -⟩ | ⟨hout, -⟩
    · refine not_fresh_of_window hsame ?_
      have hreq : (S.apply cfg (.content env p t d)).requested = S.requested :=
        put_requested_same (hsame.range.trans hin.range.symm)
      rwa [hreq]
    · refine not_fresh_of_window hnext ?_
      have hpos := hin.count_pos
      have hreq : (S.apply cfg (.content env p t d)).requested =
          S.requested ++ [(s + c, nextWindow N (s + c) c)] :=
        put_requested_new hnext.range (by simp [hin.range]; omega)
      rw [hreq]
      exact htiles.snoc hnext.count_pos
    · exact not_fresh_of_finished hout
  | finished hout =>
    refine not_fresh_of_finished ?_
    show (S.receiver.onContent cfg env S.dir p t d).1.outcome ≠ none
    rwa [onContent_of_outcome hout]

theorem Tracked.tick (h : Tracked S) (cfg : Settings) (now : ℕ) (clk : Clock) :
    Tracked (S.apply cfg (.tick now clk)) := by
  obtain ⟨hsame, hout, -⟩ := onTick_spec cfg S.receiver now clk
  have hreq : (S.apply cfg (.tick now clk)).requested = S.requested := put_requested_same hsame.range
  by_cases hnone : (S.receiver.onTick cfg now clk).1.outcome = none
  · cases h with
    | fresh hf hempty => exact .fresh (hsame.fresh hnone hf) (hreq.trans hempty)
    | window hin htiles =>
      refine .window (hsame.inRange hnone hin) ?_
      rwa [hreq]
    | finished hdone =>
      rcases hout with hkeep | ⟨hwas, -⟩
      · exact absurd (hkeep.symm.trans hnone) hdone
      · exact absurd hwas hdone
  · exact .finished hnone

def run (cfg : Settings) (S : Download) (es : List ReceiverEvent) : Download :=
  es.foldl (apply cfg) S

/-- A tick opens nothing. -/
theorem fresh_of_tick {now : ℕ} {clk : Clock}
    (hf : (S.apply cfg (.tick now clk)).receiver.Fresh) : S.receiver.Fresh := by
  obtain ⟨hsame, hout, -⟩ := onTick_spec cfg S.receiver now clk
  have hnone : (S.receiver.onTick cfg now clk).1.outcome = none := hf.outcome
  refine ⟨?_, hsame.total.symm.trans hf.total, hsame.range.symm.trans hf.range,
    hsame.packets.symm.trans hf.packets⟩
  rcases hout with hkeep | ⟨hwas, -⟩
  · exact hkeep.symm.trans hnone
  · exact hwas

theorem tracked_run {es : List ReceiverEvent} (h : Tracked S) (htyped : ∀ e ∈ es, e.Typed)
    (hopen : S.receiver.Fresh → OpensWell es) :
    Tracked (S.run cfg es) ∧ ∀ e : ReceiverEvent,
      (S.receiver.Fresh → OpensWell (es ++ [e])) → (S.run cfg es).receiver.Fresh → OpensWell [e] := by
  induction es generalizing S with
  | nil => exact ⟨h, fun _ he => he⟩
  | cons e es ih =>
    have hrest : ∀ e ∈ es, e.Typed := fun e he => htyped e (List.mem_cons_of_mem _ he)
    have he := htyped e List.mem_cons_self
    cases e with
    | content env p t d =>
      obtain ⟨htracked, hfresh⟩ := h.content cfg (fun hf => hopen hf t rfl) he.2
      obtain ⟨hrun, hnext⟩ := ih htracked hrest fun hf => absurd hf hfresh
      exact ⟨hrun, fun e _ => hnext e fun hf => absurd hf hfresh⟩
    | tick now clk =>
      obtain ⟨hrun, hnext⟩ := ih (h.tick cfg now clk) hrest fun hf => hopen (fresh_of_tick hf)
      exact ⟨hrun, fun e he => hnext e fun hf => he (fresh_of_tick hf)⟩

theorem Tracked.advanceArgs_le (h : Tracked S) {env : World} {p t : ℕ} {d : Bytes}
    (hopen : S.receiver.Fresh → 1 ≤ t) (ht : t < 65536) {start count total : ℕ}
    (hargs : S.receiver.advanceArgs cfg env S.dir p t d = some (start, count, total)) :
    start + count ≤ total ∧ total ≤ 65535 := by
  cases h with
  | fresh hf _ =>
    have h1 := hopen hf
    rw [hf.advanceArgs_eq h1 (Nat.le_of_lt_succ ht)] at hargs
    exact (latchTotal_inRange cfg env.clk hf h1 (Nat.le_of_lt_succ ht)).advanceArgs_le hargs
  | window hin _ => exact hin.advanceArgs_le hargs
  | finished hout =>
    rw [advanceArgs_of_outcome hout] at hargs
    cases hargs

/-- The stored packets of a window: all below it, and not all of it. -/
theorem packets_of_inRange (h : r.InRange N s c) :
    ∃ A ⊂ Finset.Ico s (s + c), ∀ p, p ∈ r.packets ↔ p ∈ Finset.Ico 1 s ∪ A := by
  obtain ⟨q, hlo, hhi, hq⟩ := h.missing
  refine ⟨(Finset.Ico s (s + c)).filter (· ∈ r.packets), ?_, fun p => ?_⟩
  · refine Finset.filter_ssubset.mpr ⟨q, Finset.mem_Ico.mpr ⟨hlo, hhi⟩, hq⟩
  · simp only [Finset.mem_union, Finset.mem_filter, Finset.mem_Ico]
    constructor
    · intro hp
      have hbounds := h.stored p hp
      by_cases hs : p < s
      · exact .inl ⟨hbounds.1, hs⟩
      · exact .inr ⟨⟨Nat.le_of_not_lt hs, hbounds.2⟩, hp⟩
    · rintro (⟨h1, hs⟩ | ⟨-, hp⟩)
      · exact h.below p h1 hs
      · exact hp

/-- In every run of a new download its window lies within the file and is neither empty nor
larger than 64, the packets stored are those below it and some of its own, and the ranges
requested tile the file up to its end; a content never makes `advance` subtract below zero or
find nothing left. -/
theorem window_of_run (cfg : Settings) (clk : Clock) (id : ℕ) (remote : SocketAddr)
    (filename : String) (dir : Dir) (es : List ReceiverEvent) (htyped : ∀ e ∈ es, e.Typed)
    (hopen : OpensWell es) :
    let S := (start (ReceiverTransfer.new cfg clk id remote filename) dir).run cfg es
    (∀ N s c, S.receiver.outcome = none → S.receiver.range = some (s, c) →
      S.receiver.total = some N →
      1 ≤ s ∧ 1 ≤ c ∧ c ≤ 64 ∧ s + c - 1 ≤ N ∧
        (∃ A ⊂ Finset.Ico s (s + c), ∀ p, p ∈ S.receiver.packets ↔ p ∈ Finset.Ico 1 s ∪ A) ∧
        Tiles 1 S.requested (s + c)) ∧
    ∀ env p t d, (ReceiverEvent.content env p t d).Typed →
      OpensWell (es ++ [.content env p t d]) →
      ∀ start count total,
        S.receiver.advanceArgs cfg env S.dir p t d = some (start, count, total) →
        start + count ≤ total ∧ u32 (u32sub total (start + count) + 1) ≠ 0 := by
  have hnew : Tracked (start (ReceiverTransfer.new cfg clk id remote filename) dir) :=
    .fresh (new_fresh cfg clk id remote filename) rfl
  obtain ⟨hrun, hnext⟩ := tracked_run hnew htyped fun _ => hopen
  intro S
  refine ⟨fun N s c hout hrange htotal => ?_, fun env p t d ht hfirst start count total hargs => ?_⟩
  · cases hrun with
    | fresh hf _ => exact absurd (hrange.symm.trans hf.range) (Option.some_ne_none _)
    | @window N' s' c' hin htiles =>
      obtain ⟨rfl, rfl⟩ : s' = s ∧ c' = c := by
        simpa using Option.some.inj (hin.range.symm.trans hrange)
      obtain rfl : N' = N := Option.some.inj (hin.total.symm.trans htotal)
      have hfits := hin.fits
      exact ⟨hin.start_pos, hin.count_pos, hin.count_le, by omega, packets_of_inRange hin, htiles⟩
    | finished hdone => exact absurd hout hdone
  · have hle := hrun.advanceArgs_le
      (fun hf => hnext (.content env p t d) (fun _ => hfirst) hf t rfl) ht.2 hargs
    refine ⟨hle.1, ?_⟩
    simp only [u32sub, u32]
    omega

/-- Two of three packets arrive, with a tick between them. -/
def twoOfThree : List ReceiverEvent :=
  [.content ⟨fun _ => 0, default, .ok, 0⟩ 1 3 [1], .tick 0 fun _ => 0,
    .content ⟨fun _ => 0, default, .ok, 0⟩ 3 3 [3]]

theorem window_of_twoOfThree :
    Tiles 1 ((start (ReceiverTransfer.new defaultSettings (fun _ => 0) 7 unspecifiedEndpoint
      "seg_1.ts") ⟨∅, ["srv"], fun _ => none⟩).run defaultSettings
        twoOfThree).requested (1 + 3) := by
  have hwindow := window_of_run defaultSettings (fun _ => 0) 7 unspecifiedEndpoint "seg_1.ts"
    ⟨∅, ["srv"], fun _ => none⟩ twoOfThree (by simp [twoOfThree, ReceiverEvent.Typed])
    fun t ht => by
      have : 3 = t := Option.some.inj ht
      omega
  obtain ⟨-, -, -, -, -, htiles⟩ :=
    hwindow.1 3 1 3 (by decide +kernel) (by decide +kernel) (by decide +kernel)
  exact htiles

end Download
end Qstream.Transfer

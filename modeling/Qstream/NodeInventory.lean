import Qstream.NodeAnswers
import Qstream.SegmentInventory

/-! What a requester knows from the inventory in a PONG: the inventory names numbers, and
every spelling of a number reads alike. -/
namespace Qstream
open Transfer Text

theorem stripPrefix_eq_some {pre s rest : List Char} (h : stripPrefix pre s = some rest) :
    s = pre ++ rest := by
  unfold stripPrefix at h
  rw [Option.ite_none_right_eq_some] at h
  obtain ⟨⟨t, rfl⟩, heq⟩ := h
  simpa using heq

theorem stripSuffix_eq_some {suffix s rest : List Char} (h : stripSuffix suffix s = some rest) :
    s = rest ++ suffix := by
  unfold stripSuffix at h
  rw [Option.ite_none_right_eq_some] at h
  obtain ⟨⟨t, rfl⟩, heq⟩ := h
  simpa using heq

theorem mem_of_parseU64 {s : List Char} {n : ℕ} (h : parseU64 s = some n) {c : Char}
    (hc : c ∈ s) : c = '+' ∨ isAsciiDigit c = true := by
  unfold parseU64 at h
  dsimp only at h
  rw [Option.ite_none_left_eq_some] at h
  obtain ⟨hdigits, -⟩ := h
  rw [not_or, not_not, List.all_eq_true] at hdigits
  cases s with
  | nil => cases hc
  | cons d ds =>
    by_cases hd : d = '+'
    · subst hd
      rcases List.mem_cons.mp hc with rfl | hc
      · exact .inl rfl
      · exact .inr (hdigits.2 c hc)
    · refine .inr (hdigits.2 c ?_)
      split
      next heq => exact absurd (List.cons.inj heq).1 hd
      next => exact hc

/-- A numbered segment has an acceptable name, unless it is too long. -/
theorem validFilename_of_segmentNumber {name : String} {n : ℕ} (h : segmentNumber name = some n)
    (hlen : name.utf8ByteSize ≤ 255) : validFilename name = true := by
  simp only [segmentNumber, Option.bind_eq_bind, Option.bind_eq_some_iff] at h
  obtain ⟨rest, hrest, digits, hdigits, hparse⟩ := h
  have hname : name.toList = "seg_".toList ++ (digits ++ ".ts".toList) := by
    rw [stripPrefix_eq_some hrest, stripSuffix_eq_some hdigits]
  have hfixed : ("seg_".toList ++ ".ts".toList).all
      (fun c => isAsciiGraphic c ∧ c ≠ '/' ∧ c ≠ '\\') = true := by decide +kernel
  simp only [List.all_eq_true, List.mem_append, decide_eq_true_eq] at hfixed
  have hchar : ∀ c ∈ name.toList, isAsciiGraphic c = true ∧ c ≠ '/' ∧ c ≠ '\\' := by
    intro c hc
    rw [hname, List.mem_append, List.mem_append] at hc
    rcases hc with hc | hc | hc
    · exact hfixed c (.inl hc)
    · rcases mem_of_parseU64 hparse hc with rfl | hdigit
      · decide
      · have hrange : 0x30 ≤ c.toNat ∧ c.toNat ≤ 0x39 := by simpa [isAsciiDigit] using hdigit
        refine ⟨by simp only [isAsciiGraphic, decide_eq_true_eq]; omega, ?_, ?_⟩
        · rintro rfl
          exact absurd hrange (by decide)
        · rintro rfl
          exact absurd hrange (by decide)
    · exact hfixed c (.inr hc)
  have hne : name ≠ "" := by
    rintro rfl
    simp at hname
  have hdot : startsWith ['.'] name.toList = false := by
    rw [hname]
    rfl
  simp only [validFilename, decide_eq_true_eq]
  refine ⟨hne, hlen, fun hc => (hchar _ hc).2.1 rfl, fun hc => (hchar _ hc).2.2 rfl, ?_,
    List.all_eq_true.mpr fun c hc => (hchar c hc).1⟩
  rw [hdot]
  exact Bool.false_ne_true

namespace Node

/-- The negative answers left after a new inventory. -/
theorem lookup_withdrawn (peer : SocketAddr) (av : SegmentAvailability) (is : List ℕ)
    (m : HashMap (SocketAddr × ℕ) ℕ) (number : ℕ) :
    (is.foldl (fun m i => if av.bit i then m.erase (peer, av.newest - i) else m) m).lookup
        (peer, number) =
      if ∃ i ∈ is, av.bit i = true ∧ av.newest - i = number then none
      else m.lookup (peer, number) := by
  induction is generalizing m with
  | nil => simp
  | cons i is ih =>
    rw [List.foldl_cons, ih]
    by_cases htail : ∃ i ∈ is, av.bit i = true ∧ av.newest - i = number
    · obtain ⟨j, hj, hbit⟩ := htail
      rw [if_pos ⟨j, hj, hbit⟩, if_pos ⟨j, List.mem_cons_of_mem _ hj, hbit⟩]
    rw [if_neg htail]
    by_cases hhead : av.bit i = true ∧ av.newest - i = number
    · rw [if_pos hhead.1, if_pos ⟨i, List.mem_cons_self, hhead⟩, hhead.2, HashMap.lookup_erase',
        if_pos rfl]
    · have hnone : ¬ ∃ j ∈ i :: is, av.bit j = true ∧ av.newest - j = number := by
        rintro ⟨j, hj, hbit⟩
        rcases List.mem_cons.mp hj with rfl | hj
        · exact hhead hbit
        · exact htail ⟨j, hj, hbit⟩
      rw [if_neg hnone]
      split
      next hbit =>
        refine (HashMap.lookup_erase' _ _ _).trans (if_neg fun heq => ?_)
        exact hhead ⟨hbit, (congrArg Prod.snd heq).symm⟩
      next => rfl

/-- A requester that just recorded an inventory takes the responder for a source of exactly
the numbers the inventory says it has. -/
theorem peerAvailability_recorded (n : Node) (clk : Clock) (peer : SocketAddr)
    (av : SegmentAvailability) (filename : String) {now : ℕ}
    (hnow : now - clk 0 ≤ AVAILABILITY_TTL) :
    (n.recordAvailability clk peer av).peerAvailability peer filename now = some true ↔
      ∃ number, segmentNumber filename = some number ∧ av.contains number = some true := by
  unfold peerAvailability
  cases hnumber : segmentNumber filename with
  | none => simp
  | some number =>
    simp only [Option.bind_eq_bind, Option.bind_some, Option.some_inj, exists_eq_left']
    have hlookup : (n.recordAvailability clk peer av).availability.lookup peer =
        some (av, clk 0) := AList.lookup_insert _
    have hmissing := lookup_withdrawn peer av (List.range AVAILABILITY_MASK_BITS)
      n.missingSegments number
    by_cases hav : av.contains number = some true
    · have hbit : ∃ i ∈ List.range AVAILABILITY_MASK_BITS,
          av.bit i = true ∧ av.newest - i = number := by
        unfold SegmentAvailability.contains at hav
        rw [Option.ite_none_left_eq_some, Option.ite_none_left_eq_some] at hav
        obtain ⟨hle, hwindow, hbit⟩ := hav
        refine ⟨av.newest - number, List.mem_range.mpr (Nat.lt_of_not_le hwindow),
          Option.some.inj hbit, ?_⟩
        omega
      rw [if_pos hbit] at hmissing
      have hold : (n.recordAvailability clk peer av).missingSegments.lookup (peer, number) =
          none := hmissing
      rw [hold, hlookup]
      simp only [Option.any_none, Bool.false_eq_true, if_false, Option.bind_some,
        if_neg (Nat.not_lt.mpr hnow), hav]
    · refine iff_of_false ?_ hav
      rw [hlookup]
      split
      · simp
      · simpa only [Option.bind_some, if_neg (Nat.not_lt.mpr hnow)] using hav

/-- The inventory in a PONG names numbers: right after recording it a requester takes the
responder for a source of `filename` exactly when some name in the responder's root reads as
the same number and no stored number is more than 15 above it. If that name can only be
`filename` itself, and the file can be read, a request of it is not answered with absence, as
long as the responder's registry has room. -/
theorem advertised_number_stored (responder requester : Node) (cfg : NodeSettings) (w : World)
    (src : SocketAddr) (av : SegmentAvailability) (filename : String) (now : ℕ)
    (hsent : decode (encode responder.pongMessage) = .ok (.pong (some av)))
    (hnow : now - w.clk 3 ≤ AVAILABILITY_TTL) :
    ((requester.handle cfg w (.pong (some av)) src).1.peerAvailability src filename now =
        some true ↔
      ∃ number, segmentNumber filename = some number ∧ responder.registry.Stored number ∧
        ∀ k, responder.registry.Stored k → k ≤ number + 15) ∧
    ((requester.handle cfg w (.pong (some av)) src).1.peerAvailability src filename now =
        some true →
      (∀ name ∈ responder.registry.dir.names, segmentNumber name = segmentNumber filename →
        name = filename ∧ (responder.registry.dir.read name).isSome) →
      filename.utf8ByteSize ≤ 255 →
      responder.registry.activeCount < MAX_CONCURRENT_TRANSFERS →
      responder.registry.hasSegment filename = true ∧
        ∀ cfg' w' id peer,
          ¬ SaysMissing (responder.handle cfg' w' (.segmentRequest id filename) peer).2.1) := by
  have hav : responder.registry.segmentAvailability = some av := by
    have hback := @decode_encode_pong responder.registry.segmentAvailability
      fun av' hav' => (TransferRegistry.segmentAvailability_spec hav').typed
    rw [pongMessage, hback] at hsent
    exact Message.pong.inj (Except.ok.inj hsent)
  have hinv := TransferRegistry.segmentAvailability_spec hav
  have hiff : (requester.handle cfg w (.pong (some av)) src).1.peerAvailability src filename now =
        some true ↔
      ∃ number, segmentNumber filename = some number ∧ responder.registry.Stored number ∧
        ∀ k, responder.registry.Stored k → k ≤ number + 15 := by
    refine (peerAvailability_recorded ((requester.touchPeer w.clk src).recordPong src (w.clk 2))
      (fun i => w.clk (i + 3)) src av filename hnow).trans (exists_congr fun number => ?_)
    refine and_congr_right fun _ => (hinv.contains_eq number).1.trans ?_
    refine and_congr_right fun hstored => ⟨fun hwindow k hk => ?_, fun hall => ?_⟩
    · have hle := hinv.greatest k hk
      omega
    · have hle := hall _ hinv.stored
      exact ⟨by omega, hinv.greatest number hstored⟩
  refine ⟨hiff, fun htrue honly hlen hroom => ?_⟩
  obtain ⟨number, hnumber, ⟨name, hname, hreads⟩, -⟩ := hiff.mp htrue
  obtain ⟨rfl, hread⟩ := honly name hname (hreads.trans hnumber.symm)
  have hvalid := validFilename_of_segmentNumber hnumber hlen
  refine ⟨?_, fun cfg' w' id peer => ?_⟩
  · unfold TransferRegistry.hasSegment Dir.isFile
    unfold Dir.read at hread
    split at hread
    next heq => rw [heq]
    next => cases hread
  · rw [handle_segmentRequest_sent w' id peer hvalid hread]
    rintro ⟨id', av', dst, hmem⟩
    split at hmem
    next => simp [TransferRegistry.notFoundMessage] at hmem
    next =>
    rw [if_neg (Nat.not_le.mpr hroom)] at hmem
    cases hmem

/-- A responder with one segment. -/
def storingFive : Node :=
  .new (fun _ => 0) "peer" .peer "live.m3u8"
    ⟨(∅ : HashMap String FileEntry).insert "seg_5.ts" (.file [0x47] true 0), ["srv"], fun _ => none⟩
    peerB 7

/-- What another node knows after that responder's PONG. -/
def informed : Node :=
  ((Node.new (fun _ => 0) "other" .peer "live.m3u8" ⟨∅, ["srv"], fun _ => none⟩ peerA 8).handle
    ⟨defaultSettings, 2, 0⟩ ⟨fun _ => 0, default, .ok, 0⟩ storingFive.pongMessage peerB).1

theorem advertised_five_served : storingFive.registry.hasSegment "seg_5.ts" = true := by
  refine ((advertised_number_stored storingFive
    (Node.new (fun _ => 0) "other" .peer "live.m3u8" ⟨∅, ["srv"], fun _ => none⟩ peerA 8)
    ⟨defaultSettings, 2, 0⟩ ⟨fun _ => 0, default, .ok, 0⟩ peerB ⟨5, 1⟩ "seg_5.ts" 0
    (by decide +kernel) (by decide)).2 (by decide +kernel) ?_ (by decide +kernel)
    (by decide +kernel)).1
  decide +kernel

/-- The same number written with other digits, or with a sign, is taken for stored too. -/
theorem advertised_name_absent :
    informed.peerAvailability peerB "seg_0005.ts" 0 = some true ∧
      storingFive.registry.hasSegment "seg_0005.ts" = false ∧
      SaysMissing (storingFive.handle ⟨defaultSettings, 2, 0⟩ ⟨fun _ => 0, default, .ok, 0⟩
        (.segmentRequest 1 "seg_0005.ts") peerA).2.1 :=
  ⟨by decide +kernel, by decide +kernel, 1, some ⟨5, 1⟩, peerA, by decide +kernel⟩

end Node
end Qstream

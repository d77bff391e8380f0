import Qstream.ProtocolRoundTrip
import Qstream.TransferRegistry

/-! The inventory of the segment root: the newest stored segment number and a mask of the
sixteen numbers up to it, as the node makes it, sends it and looks it up. -/
namespace Qstream
open Text

/-- Setting bit `d` of a mask leaves the others alone. -/
theorem testBit_or_shift (mask : UInt16) {d : ℕ} (hd : d < AVAILABILITY_MASK_BITS) (i : ℕ) :
    (mask ||| (1 <<< UInt16.ofNat d)).toNat.testBit i = (mask.toNat.testBit i || decide (d = i)) := by
  have hbits : d < 16 := hd
  have hshift : ((1 : UInt16) <<< UInt16.ofNat d).toNat = 2 ^ d := by
    have hpow : 2 ^ d < 2 ^ 16 := Nat.pow_lt_pow_right (by decide) hbits
    rw [UInt16.toNat_shiftLeft, UInt16.toNat_ofNat_of_lt' (by simp [UInt16.size]; omega),
      Nat.mod_eq_of_lt hbits, UInt16.toNat_one, Nat.one_shiftLeft, Nat.mod_eq_of_lt hpow]
  rw [UInt16.toNat_or, hshift, Nat.testBit_or, Nat.testBit_two_pow]

/-- The mask of a list of numbers holds exactly their distances to `newest` that fit in it. -/
theorem testBit_mask (newest : ℕ) (numbers : List ℕ) (mask : UInt16) (i : ℕ) :
    (numbers.foldl (fun mask number =>
      let distance := newest - number
      if distance < AVAILABILITY_MASK_BITS then mask ||| (1 <<< UInt16.ofNat distance)
      else mask) mask).toNat.testBit i = true ↔
      mask.toNat.testBit i = true ∨
        i < AVAILABILITY_MASK_BITS ∧ ∃ number ∈ numbers, newest - number = i := by
  induction numbers generalizing mask with
  | nil => simp
  | cons number numbers ih =>
    rw [List.foldl_cons, ih]
    simp only [List.exists_mem_cons_iff]
    by_cases hd : newest - number < AVAILABILITY_MASK_BITS
    · rw [if_pos hd, testBit_or_shift mask hd, Bool.or_eq_true, decide_eq_true_eq]
      constructor
      · rintro ((hold | rfl) | ⟨hi, hex⟩)
        · exact .inl hold
        · exact .inr ⟨hd, .inl rfl⟩
        · exact .inr ⟨hi, .inr hex⟩
      · rintro (hold | ⟨hi, rfl | hex⟩)
        · exact .inl (.inl hold)
        · exact .inl (.inr rfl)
        · exact .inr ⟨hi, hex⟩
    · rw [if_neg hd]
      constructor
      · rintro (hold | ⟨hi, hex⟩)
        · exact .inl hold
        · exact .inr ⟨hi, .inr hex⟩
      · rintro (hold | ⟨hi, rfl | hex⟩)
        · exact .inl hold
        · exact absurd hi hd
        · exact .inr ⟨hi, hex⟩

theorem parseU64_lt {s : List Char} {n : ℕ} (h : parseU64 s = some n) : n < 2 ^ 64 := by
  unfold parseU64 at h
  dsimp only at h
  rw [Option.ite_none_left_eq_some, Option.ite_none_right_eq_some] at h
  obtain ⟨-, hlt, heq⟩ := h
  exact Option.some.inj heq ▸ hlt

theorem segmentNumber_lt {name : String} {n : ℕ} (h : segmentNumber name = some n) :
    n < 2 ^ 64 := by
  simp only [segmentNumber, Option.bind_eq_bind, Option.bind_eq_some_iff] at h
  obtain ⟨rest, -, digits, -, hparse⟩ := h
  exact parseU64_lt hparse

namespace Transfer.TransferRegistry
variable {reg : TransferRegistry} {av : SegmentAvailability}

/-- Some name in the segment root reads as number `n`. -/
def Stored (reg : TransferRegistry) (n : ℕ) : Prop :=
  ∃ name ∈ reg.dir.names, segmentNumber name = some n

theorem mem_storedNumbers {n : ℕ} :
    n ∈ reg.dir.names.filterMap segmentNumber ↔ reg.Stored n := List.mem_filterMap

theorem segmentAvailability_eq_none :
    reg.segmentAvailability = none ↔ ∀ name ∈ reg.dir.names, segmentNumber name = none := by
  rw [← List.filterMap_eq_nil_iff, segmentAvailability]
  cases reg.dir.names.filterMap segmentNumber with
  | nil => exact iff_of_true rfl rfl
  | cons n ns => exact iff_of_false (by simp) (by simp)

/-- The inventory names the greatest stored number, and its mask the distances to it. -/
structure Inventory (reg : TransferRegistry) (av : SegmentAvailability) : Prop where
  stored : reg.Stored av.newest
  greatest : ∀ n, reg.Stored n → n ≤ av.newest
  mask : ∀ i, av.bit i = true ↔
    i < AVAILABILITY_MASK_BITS ∧ ∃ n, reg.Stored n ∧ av.newest - n = i

theorem segmentAvailability_spec (h : reg.segmentAvailability = some av) :
    reg.Inventory av := by
  have hmem (n : ℕ) : n ∈ reg.dir.names.filterMap segmentNumber ↔ reg.Stored n := mem_storedNumbers
  rw [segmentAvailability] at h
  cases hnumbers : reg.dir.names.filterMap segmentNumber with
  | nil =>
    rw [hnumbers] at h
    cases h
  | cons n ns =>
    rw [hnumbers] at h hmem
    cases h
    have hmax : (n :: ns).max (List.cons_ne_nil n ns) = ns.foldl max n := rfl
    refine ⟨(hmem _).mp (hmax ▸ List.max_mem (List.cons_ne_nil n ns)),
      fun k hk => hmax ▸ List.le_max_of_mem ((hmem k).mpr hk), fun i => ?_⟩
    dsimp only [SegmentAvailability.bit]
    rw [testBit_mask]
    simp only [UInt16.toNat_zero, Nat.zero_testBit, Bool.false_eq_true, false_or, hmem]

theorem Inventory.typed (h : reg.Inventory av) : av.Typed := by
  obtain ⟨name, -, hname⟩ := h.stored
  exact segmentNumber_lt hname

/-- Looking up a number answers for the sixteen numbers up to the newest. -/
theorem Inventory.contains_eq (h : reg.Inventory av) (n : ℕ) :
    (av.contains n = some true ↔ reg.Stored n ∧ av.newest - 15 ≤ n ∧ n ≤ av.newest) ∧
    (av.contains n = some false ↔ ¬ reg.Stored n ∧ av.newest - 15 ≤ n ∧ n ≤ av.newest) ∧
    (av.contains n = none ↔ av.newest < n ∨ n < av.newest - 15) := by
  unfold SegmentAvailability.contains
  by_cases habove : n > av.newest
  · rw [if_pos habove]
    refine ⟨iff_of_false (by simp) ?_, iff_of_false (by simp) ?_, iff_of_true rfl (.inl habove)⟩
    · rintro ⟨-, -, hle⟩
      omega
    · rintro ⟨-, -, hle⟩
      omega
  rw [if_neg habove]
  by_cases hold : av.newest - n ≥ AVAILABILITY_MASK_BITS
  · rw [if_pos hold]
    have hfar : n < av.newest - 15 := by
      unfold AVAILABILITY_MASK_BITS at hold
      omega
    refine ⟨iff_of_false (by simp) ?_, iff_of_false (by simp) ?_, iff_of_true rfl (.inr hfar)⟩
    · rintro ⟨-, hwindow, -⟩
      omega
    · rintro ⟨-, hwindow, -⟩
      omega
  rw [if_neg hold]
  have hwindow : av.newest - 15 ≤ n ∧ n ≤ av.newest := by
    unfold AVAILABILITY_MASK_BITS at hold
    omega
  have hbit : av.bit (av.newest - n) = true ↔ reg.Stored n := by
    rw [h.mask]
    constructor
    · rintro ⟨-, k, hk, heq⟩
      have hle := h.greatest k hk
      have hkn : k = n := by omega
      exact hkn ▸ hk
    · exact fun hn => ⟨Nat.lt_of_not_le hold, n, hn, rfl⟩
  refine ⟨?_, ?_, iff_of_false (by simp) (by omega)⟩
  · rw [Option.some_inj, hbit]
    exact ⟨fun hn => ⟨hn, hwindow⟩, And.left⟩
  · rw [Option.some_inj, ← Bool.not_eq_true, hbit]
    exact ⟨fun hn => ⟨hn, hwindow⟩, And.left⟩

/-- The inventory a requester reads from a PONG agrees with the segment root: there is one
exactly when some name is a numbered segment, and then it answers for the sixteen numbers up
to the greatest. -/
theorem inventory_agrees (reg : TransferRegistry) :
    (reg.segmentAvailability = none ↔ ∀ name ∈ reg.dir.names, segmentNumber name = none) ∧
    ∀ av, reg.segmentAvailability = some av →
      ∃ received, decode (encode (.pong reg.segmentAvailability)) = .ok (.pong (some received)) ∧
        reg.Stored received.newest ∧ (∀ n, reg.Stored n → n ≤ received.newest) ∧
        ∀ n,
          (received.contains n = some true ↔
            reg.Stored n ∧ received.newest - 15 ≤ n ∧ n ≤ received.newest) ∧
          (received.contains n = some false ↔
            ¬ reg.Stored n ∧ received.newest - 15 ≤ n ∧ n ≤ received.newest) ∧
          (received.contains n = none ↔ received.newest < n ∨ n < received.newest - 15) := by
  refine ⟨segmentAvailability_eq_none, fun av hav => ⟨av, ?_, ?_⟩⟩
  · rw [hav]
    refine decode_encode_pong fun av' hav' => ?_
    cases hav'
    exact (segmentAvailability_spec hav).typed
  · have h := segmentAvailability_spec hav
    exact ⟨h.stored, h.greatest, h.contains_eq⟩

/-- A segment root with the last two numbers there are, one of them twice. -/
def lastSegments : TransferRegistry :=
  .new ⟨(((∅ : HashMap String FileEntry).insert "live.m3u8" (.file [] true 0)).insert
    "seg_18446744073709551614.ts" (.file [] true 0)).insert "seg_018446744073709551615.ts"
    (.file [] true 0) |>.insert "seg_18446744073709551615.ts" (.file [] true 0), ["srv"],
    fun _ => none⟩

theorem inventory_agrees_last : ∃ received,
    decode (encode (.pong lastSegments.segmentAvailability)) = .ok (.pong (some received)) ∧
      received.contains 18446744073709551614 = some true := by
  have hav : lastSegments.segmentAvailability = some ⟨18446744073709551615, 3⟩ := by
    decide +kernel
  obtain ⟨received, hdecode, -, -, hcontains⟩ := (inventory_agrees lastSegments).2 _ hav
  have hsame : decode (encode (.pong lastSegments.segmentAvailability)) =
      .ok (.pong (some ⟨18446744073709551615, 3⟩)) := by decide +kernel
  rw [hsame] at hdecode
  cases hdecode
  refine ⟨_, hsame, (hcontains _).1.mpr ⟨?_, by decide, by decide⟩⟩
  exact ⟨"seg_18446744073709551614.ts", by decide +kernel, by decide +kernel⟩

end Transfer.TransferRegistry
end Qstream

import Qstream.Text

/-! UTF-8 as the text functions decode it: encoding a string and decoding the bytes gives
the string back, and only encodings of strings decode. -/
namespace Qstream.Text

/-- The bytes of the encoding of one character after another. -/
def encodeUtf8 (s : List Char) : Bytes := s.flatMap String.utf8EncodeChar

theorem inRange_iff {lo hi b : UInt8} :
    inRange lo hi b = true ↔ lo.toNat ≤ b.toNat ∧ b.toNat ≤ hi.toNat := by
  simp [inRange, UInt8.le_iff_toNat_le]

theorem toNat_ofNat_of_valid {n : ℕ} (h : n.isValidChar) : (Char.ofNat n).toNat = n := by
  rw [Char.toNat_ofNat, if_pos h]

theorem ofNat_eq_toNat {n : ℕ} (c : Char) (h : n = c.toNat) : Char.ofNat n = c := by
  rw [h, Char.ofNat_toNat]

theorem encode_of_toNat (c : Char) : String.utf8EncodeChar c =
    if c.toNat ≤ 0x7f then [UInt8.ofNat c.toNat]
    else if c.toNat ≤ 0x7ff then
      [UInt8.ofNat (c.toNat / 64 % 32 + 0xC0), UInt8.ofNat (c.toNat % 64 + 0x80)]
    else if c.toNat ≤ 0xffff then
      [UInt8.ofNat (c.toNat / 4096 % 16 + 0xE0), UInt8.ofNat (c.toNat / 64 % 64 + 0x80),
        UInt8.ofNat (c.toNat % 64 + 0x80)]
    else
      [UInt8.ofNat (c.toNat / 262144 % 8 + 0xF0), UInt8.ofNat (c.toNat / 4096 % 64 + 0x80),
        UInt8.ofNat (c.toNat / 64 % 64 + 0x80), UInt8.ofNat (c.toNat % 64 + 0x80)] := rfl

/-- Decoding the encoding of a character gives the character and what follows. -/
theorem nextChar_encode (c : Char) (rest : Bytes) :
    ∃ b tl, String.utf8EncodeChar c = b :: tl ∧ nextChar b (tl ++ rest) = (some c, rest) := by
  have hv : c.toNat < 0xD800 ∨ 0xDFFF < c.toNat ∧ c.toNat < 0x110000 := c.valid
  rw [encode_of_toNat]
  split
  next h1 =>
    refine ⟨_, _, rfl, ?_⟩
    simp only [nextChar, UInt8.lt_iff_toNat_lt, UInt8.toNat_ofNat', UInt8.reduceToNat]
    rw [if_pos (by omega)]
    simp [ofNat_eq_toNat c (n := c.toNat % 256) (by omega)]
  next h1 =>
  split
  next h2 =>
    refine ⟨_, _, rfl, ?_⟩
    simp only [nextChar, UInt8.lt_iff_toNat_lt, UInt8.toNat_ofNat', UInt8.reduceToNat, inRange_iff,
      List.cons_append, List.nil_append, low6]
    rw [if_neg (by omega), if_pos (by omega), if_pos (by omega), ofNat_eq_toNat c (by omega)]
  next h2 =>
  split
  next h3 =>
    refine ⟨_, _, rfl, ?_⟩
    simp only [nextChar, UInt8.lt_iff_toNat_lt, UInt8.toNat_ofNat', UInt8.reduceToNat, inRange_iff,
      List.cons_append, List.nil_append, low6, ← UInt8.toNat_inj, apply_ite UInt8.toNat]
    rw [if_neg (by omega), if_neg (by omega), if_pos (by omega),
      if_pos (by split <;> split <;> omega), if_pos (by omega), ofNat_eq_toNat c (by omega)]
  next h3 =>
    refine ⟨_, _, rfl, ?_⟩
    simp only [nextChar, UInt8.lt_iff_toNat_lt, UInt8.toNat_ofNat', UInt8.reduceToNat, inRange_iff,
      List.cons_append, List.nil_append, low6, ← UInt8.toNat_inj, apply_ite UInt8.toNat]
    rw [if_neg (by omega), if_neg (by omega), if_neg (by omega), if_pos (by omega),
      if_pos (by split <;> split <;> omega), if_pos (by omega), if_pos (by omega),
      ofNat_eq_toNat c (by omega)]

theorem ofNat_eq_byte {n : ℕ} {b : UInt8} (h : n = b.toNat) : UInt8.ofNat n = b := by
  rw [h, UInt8.ofNat_toNat]

/-! The encodings of the characters that well-formed sequences of each length stand for. -/

theorem encode_one {b : UInt8} (hb : b.toNat < 128) :
    String.utf8EncodeChar (Char.ofNat b.toNat) = [b] := by
  rw [encode_of_toNat, toNat_ofNat_of_valid (Or.inl (by omega)), if_pos (by omega),
    UInt8.ofNat_toNat]

theorem encode_two {b c : UInt8} (hb : 194 ≤ b.toNat ∧ b.toNat ≤ 223)
    (hc : 128 ≤ c.toNat ∧ c.toNat ≤ 191) :
    String.utf8EncodeChar (Char.ofNat (b.toNat % 32 * 64 + c.toNat % 64)) = [b, c] := by
  rw [encode_of_toNat, toNat_ofNat_of_valid (Or.inl (by omega)), if_neg (by omega),
    if_pos (by omega), ofNat_eq_byte (b := b) (by omega), ofNat_eq_byte (b := c) (by omega)]

theorem encode_three {b c d : UInt8} {lo hi : ℕ} (hb : 224 ≤ b.toNat ∧ b.toNat ≤ 239)
    (hlo : b.toNat = 224 ∧ lo = 160 ∨ b.toNat ≠ 224 ∧ lo = 128)
    (hhi : b.toNat = 237 ∧ hi = 159 ∨ b.toNat ≠ 237 ∧ hi = 191)
    (hc : lo ≤ c.toNat ∧ c.toNat ≤ hi) (hd : 128 ≤ d.toNat ∧ d.toNat ≤ 191) :
    String.utf8EncodeChar (Char.ofNat ((b.toNat % 16 * 64 + c.toNat % 64) * 64 + d.toNat % 64)) =
      [b, c, d] := by
  -- 237 with a second byte above 159 would be a surrogate
  have hval : ((b.toNat % 16 * 64 + c.toNat % 64) * 64 + d.toNat % 64).isValidChar := by
    have hmod : b.toNat % 16 = b.toNat - 224 := by omega
    unfold Nat.isValidChar
    omega
  rw [encode_of_toNat, toNat_ofNat_of_valid hval, if_neg (by omega), if_neg (by omega),
    if_pos (by omega), ofNat_eq_byte (b := b) (by omega), ofNat_eq_byte (b := c) (by omega),
    ofNat_eq_byte (b := d) (by omega)]

theorem encode_four {b c d e : UInt8} {lo hi : ℕ} (hb : 240 ≤ b.toNat ∧ b.toNat ≤ 244)
    (hlo : b.toNat = 240 ∧ lo = 144 ∨ b.toNat ≠ 240 ∧ lo = 128)
    (hhi : b.toNat = 244 ∧ hi = 143 ∨ b.toNat ≠ 244 ∧ hi = 191)
    (hc : lo ≤ c.toNat ∧ c.toNat ≤ hi) (hd : 128 ≤ d.toNat ∧ d.toNat ≤ 191)
    (he : 128 ≤ e.toNat ∧ e.toNat ≤ 191) :
    String.utf8EncodeChar (Char.ofNat
      (((b.toNat % 8 * 64 + c.toNat % 64) * 64 + d.toNat % 64) * 64 + e.toNat % 64)) =
      [b, c, d, e] := by
  have hval : (((b.toNat % 8 * 64 + c.toNat % 64) * 64 + d.toNat % 64) * 64 +
      e.toNat % 64).isValidChar := by
    unfold Nat.isValidChar
    omega
  rw [encode_of_toNat, toNat_ofNat_of_valid hval, if_neg (by omega), if_neg (by omega),
    if_neg (by omega), ofNat_eq_byte (b := b) (by omega), ofNat_eq_byte (b := c) (by omega),
    ofNat_eq_byte (b := d) (by omega), ofNat_eq_byte (b := e) (by omega)]

theorem ite_bound {n m x y lo : ℕ} (h : (if n = m then x else y) = lo) :
    n = m ∧ lo = x ∨ n ≠ m ∧ lo = y := by
  split at h <;> omega

/-- A character is read off the bytes of its encoding only. -/
theorem encode_nextChar {b : UInt8} {rest rest' : Bytes} {c : Char}
    (h : nextChar b rest = (some c, rest')) : b :: rest = String.utf8EncodeChar c ++ rest' := by
  unfold nextChar at h
  simp only [UInt8.lt_iff_toNat_lt, UInt8.reduceToNat, inRange_iff, low6, ← UInt8.toNat_inj,
    apply_ite UInt8.toNat] at h
  split at h
  next h1 =>
    obtain ⟨rfl, rfl⟩ := by simpa using h
    rw [encode_one h1]
    rfl
  next =>
  split at h
  next h2 =>
    split at h
    next c2 rest1 =>
      split at h
      next h3 =>
        obtain ⟨rfl, rfl⟩ := by simpa using h
        rw [encode_two h2 h3]
        rfl
      next => simp at h
    next => simp at h
  next =>
  split at h
  next h3 =>
    generalize hlo : (if b.toNat = 224 then 160 else 128) = lo at h
    generalize hhi : (if b.toNat = 237 then 159 else 191) = hi at h
    split at h
    next c2 rest1 =>
      split at h
      next h4 =>
        split at h
        next d rest2 =>
          split at h
          next h5 =>
            obtain ⟨rfl, rfl⟩ := by simpa using h
            rw [encode_three h3 (ite_bound hlo) (ite_bound hhi) h4 h5]
            rfl
          next => simp at h
        next => simp at h
      next => simp at h
    next => simp at h
  next =>
  split at h
  next h4 =>
    generalize hlo : (if b.toNat = 240 then 144 else 128) = lo at h
    generalize hhi : (if b.toNat = 244 then 143 else 191) = hi at h
    split at h
    next c2 rest1 =>
      split at h
      next h5 =>
        split at h
        next d rest2 =>
          split at h
          next h6 =>
            split at h
            next e rest3 =>
              split at h
              next h7 =>
                obtain ⟨rfl, rfl⟩ := by simpa using h
                rw [encode_four h4 (ite_bound hlo) (ite_bound hhi) h5 h6 h7]
                rfl
              next => simp at h
            next => simp at h
          next => simp at h
        next => simp at h
      next => simp at h
    next => simp at h
  next => simp at h

theorem length_encode_pos (c : Char) : 0 < (String.utf8EncodeChar c).length :=
  List.length_pos_of_ne_nil String.utf8EncodeChar_ne_nil

theorem decodeSteps_encodeUtf8 (s : List Char) {n : ℕ} (hn : (encodeUtf8 s).length ≤ n) :
    decodeSteps n (encodeUtf8 s) = s.map some := by
  induction s generalizing n with
  | nil => cases n <;> rfl
  | cons c cs ih =>
    obtain ⟨b, tl, henc, hnext⟩ := nextChar_encode c (encodeUtf8 cs)
    have hcons : encodeUtf8 (c :: cs) = b :: (tl ++ encodeUtf8 cs) := by
      simp only [encodeUtf8, List.flatMap_cons, henc, List.cons_append]
    rw [hcons] at hn ⊢
    simp only [List.length_cons, List.length_append] at hn
    obtain ⟨n, rfl⟩ : ∃ k, n = k + 1 := ⟨n - 1, by omega⟩
    simp only [decodeSteps, hnext, ih (n := n) (by omega), List.map_cons]

@[simp] theorem decodeUtf8_encodeUtf8 (s : List Char) : decodeUtf8 (encodeUtf8 s) = s.map some :=
  decodeSteps_encodeUtf8 s le_rfl

theorem fromUtf8_encodeUtf8 (s : List Char) : fromUtf8 (encodeUtf8 s) = some s := by
  simp only [fromUtf8, decodeUtf8_encodeUtf8]
  induction s with
  | nil => rfl
  | cons c cs ih => simp [ih]

theorem fromUtf8Lossy_encodeUtf8 (s : List Char) : fromUtf8Lossy (encodeUtf8 s) = s := by
  simp [fromUtf8Lossy, Function.comp_def]

theorem encodeUtf8_of_decodeSteps {n : ℕ} {data : Bytes} {s : List Char} (hn : data.length ≤ n)
    (h : decodeSteps n data = s.map some) : data = encodeUtf8 s := by
  induction s generalizing n data with
  | nil =>
    cases n with
    | zero => simpa [encodeUtf8] using hn
    | succ n =>
      cases data with
      | nil => rfl
      | cons b rest => simp [decodeSteps] at h
  | cons c cs ih =>
    cases n with
    | zero => simp [decodeSteps] at h
    | succ n =>
      cases data with
      | nil => simp [decodeSteps] at h
      | cons b rest =>
        obtain ⟨first, rest', hnext⟩ : ∃ first rest', nextChar b rest = (first, rest') :=
          ⟨_, _, rfl⟩
        simp only [decodeSteps, hnext, List.map_cons, List.cons.injEq] at h
        obtain ⟨rfl, htail⟩ := h
        have henc := encode_nextChar hnext
        have hlen := congrArg List.length henc
        have hpos := length_encode_pos c
        simp only [List.length_append, List.length_cons] at hlen hn
        rw [henc, ih (n := n) (by omega) htail]
        rfl

theorem mapM_id_eq_some {α : Type*} {l : List (Option α)} {s : List α} :
    l.mapM id = some s ↔ l = s.map some := by
  induction l generalizing s with
  | nil => cases s <;> simp
  | cons a l ih =>
    cases a with
    | none => cases s <;> simp
    | some a =>
      cases s with
      | nil => simp [Option.bind_eq_some_iff]
      | cons b s => simp [Option.bind_eq_some_iff, ih, and_comm]

/-- Exactly the encodings of strings are well formed. -/
theorem fromUtf8_eq_some {data : Bytes} {s : List Char} :
    fromUtf8 data = some s ↔ data = encodeUtf8 s := by
  constructor
  · intro h
    exact encodeUtf8_of_decodeSteps le_rfl (mapM_id_eq_some.mp h)
  · rintro rfl
    exact fromUtf8_encodeUtf8 s

/-- The loop of `ByteArray.toList` with `n` bytes to go. -/
theorem toList_loop_of_size {bs : ByteArray} {n i : ℕ} (hsize : i + n = bs.size) (acc : Bytes) :
    ByteArray.toList.loop bs i acc = acc.reverse ++ bs.data.toList.drop i := by
  have hlength : bs.data.toList.length = bs.size := rfl
  induction n generalizing i acc with
  | zero =>
    rw [ByteArray.toList.loop, if_neg (by omega), List.drop_of_length_le (by omega),
      List.append_nil]
  | succ n ih =>
    have hi : i < bs.data.size := show i < bs.size by omega
    have hbyte : bs.get! i = bs.data.toList[i] :=
      (getElem!_pos bs.data i hi).trans (Array.getElem_toList _).symm
    rw [ByteArray.toList.loop, if_pos (by omega), ih (by omega),
      List.drop_eq_getElem_cons (i := i) (by omega), hbyte, List.reverse_cons, List.append_assoc]
    rfl

theorem asBytes_eq (s : List Char) : asBytes s = encodeUtf8 s := by
  have hall (bs : ByteArray) : bs.toList = bs.data.toList :=
    (toList_loop_of_size (Nat.zero_add bs.size) []).trans (List.nil_append _)
  rw [asBytes, String.toUTF8_eq_toByteArray, String.toByteArray_ofList, hall, List.utf8Encode,
    List.toList_data_toByteArray, encodeUtf8]

end Qstream.Text

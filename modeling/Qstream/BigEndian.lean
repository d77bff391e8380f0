import Mathlib

/-! Natural numbers as big-endian byte strings of a fixed width. -/
namespace BigEndian

/-- The last `w` bytes of `n`, most significant first. -/
def toBytes : ℕ → ℕ → List UInt8
  | 0, _ => []
  | w + 1, n => UInt8.ofNat (n / 256 ^ w) :: toBytes w n

def ofBytes (bs : List UInt8) : ℕ := bs.foldl (fun acc b => acc * 256 + b.toNat) 0

@[simp] theorem length_toBytes (w n : ℕ) : (toBytes w n).length = w := by
  induction w with
  | zero => rfl
  | succ w ih => simp [toBytes, ih]

theorem foldl_bytes (bs : List UInt8) (acc : ℕ) :
    bs.foldl (fun acc b => acc * 256 + b.toNat) acc = acc * 256 ^ bs.length + ofBytes bs := by
  induction bs generalizing acc with
  | nil => simp [ofBytes]
  | cons b bs ih =>
    have h0 : ofBytes (b :: bs) = b.toNat * 256 ^ bs.length + ofBytes bs := by
      simpa [ofBytes] using ih b.toNat
    rw [List.foldl_cons, ih, h0, List.length_cons]
    ring

theorem ofBytes_cons (b : UInt8) (bs : List UInt8) :
    ofBytes (b :: bs) = b.toNat * 256 ^ bs.length + ofBytes bs := by
  simpa [ofBytes] using foldl_bytes bs b.toNat

theorem ofBytes_lt (bs : List UInt8) : ofBytes bs < 256 ^ bs.length := by
  induction bs with
  | nil => decide
  | cons b bs ih =>
    have hb := b.toNat_lt
    rw [ofBytes_cons, List.length_cons, pow_succ]
    nlinarith

/-- Reading back what was written gives the number modulo the width. -/
theorem ofBytes_toBytes (w n : ℕ) : ofBytes (toBytes w n) = n % 256 ^ w := by
  induction w with
  | zero => simp [toBytes, ofBytes, Nat.mod_one]
  | succ w ih =>
    calc ofBytes (toBytes (w + 1) n)
        = n / 256 ^ w % 256 * 256 ^ w + n % 256 ^ w := by
          rw [toBytes, ofBytes_cons, ih, length_toBytes, UInt8.toNat_ofNat']
      _ = n % 256 ^ w + 256 ^ w * (n / 256 ^ w % 256) := by rw [Nat.mul_comm, Nat.add_comm]
      _ = n % 256 ^ (w + 1) := by rw [pow_succ, Nat.mod_mul]

theorem ofBytes_toBytes_of_lt {w n : ℕ} (h : n < 256 ^ w) : ofBytes (toBytes w n) = n := by
  rw [ofBytes_toBytes, Nat.mod_eq_of_lt h]

/-- Two bytes name every number they can hold. -/
theorem toBytes_two (n : ℕ) : toBytes 2 n = [UInt8.ofNat (n / 256), UInt8.ofNat n] := by
  simp [toBytes]

end BigEndian

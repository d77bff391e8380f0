import Qstream.TextLines
import Qstream.TextUtf8

/-! Lower case, as Unicode 16 has it. -/
namespace Qstream.Text

/-- The characters beyond ASCII with a single lower-case character: first and last code point of
a run, the distance of its code points, and the distance to their lower case. -/
def lowerRuns : List (ℕ × ℕ × ℕ × ℤ) :=
  [(0xC0, 0xD6, 1, 32), (0xD8, 0xDE, 1, 32), (0x100, 0x12E, 2, 1), (0x132, 0x136, 2, 1),
    (0x139, 0x147, 2, 1), (0x14A, 0x176, 2, 1), (0x178, 0x178, 1, -121), (0x179, 0x17D, 2, 1),
    (0x181, 0x181, 1, 210), (0x182, 0x184, 2, 1), (0x186, 0x186, 1, 206), (0x187, 0x187, 1, 1),
    (0x189, 0x18A, 1, 205), (0x18B, 0x18B, 1, 1), (0x18E, 0x18E, 1, 79), (0x18F, 0x18F, 1, 202),
    (0x190, 0x190, 1, 203), (0x191, 0x191, 1, 1), (0x193, 0x193, 1, 205), (0x194, 0x194, 1, 207),
    (0x196, 0x196, 1, 211), (0x197, 0x197, 1, 209), (0x198, 0x198, 1, 1), (0x19C, 0x19C, 1, 211),
    (0x19D, 0x19D, 1, 213), (0x19F, 0x19F, 1, 214), (0x1A0, 0x1A4, 2, 1), (0x1A6, 0x1A6, 1, 218),
    (0x1A7, 0x1A7, 1, 1), (0x1A9, 0x1A9, 1, 218), (0x1AC, 0x1AC, 1, 1), (0x1AE, 0x1AE, 1, 218),
    (0x1AF, 0x1AF, 1, 1), (0x1B1, 0x1B2, 1, 217), (0x1B3, 0x1B5, 2, 1), (0x1B7, 0x1B7, 1, 219),
    (0x1B8, 0x1B8, 1, 1), (0x1BC, 0x1BC, 1, 1), (0x1C4, 0x1C4, 1, 2), (0x1C5, 0x1C5, 1, 1),
    (0x1C7, 0x1C7, 1, 2), (0x1C8, 0x1C8, 1, 1), (0x1CA, 0x1CA, 1, 2), (0x1CB, 0x1DB, 2, 1),
    (0x1DE, 0x1EE, 2, 1), (0x1F1, 0x1F1, 1, 2), (0x1F2, 0x1F4, 2, 1), (0x1F6, 0x1F6, 1, -97),
    (0x1F7, 0x1F7, 1, -56), (0x1F8, 0x21E, 2, 1), (0x220, 0x220, 1, -130), (0x222, 0x232, 2, 1),
    (0x23A, 0x23A, 1, 10795), (0x23B, 0x23B, 1, 1), (0x23D, 0x23D, 1, -163),
    (0x23E, 0x23E, 1, 10792), (0x241, 0x241, 1, 1), (0x243, 0x243, 1, -195), (0x244, 0x244, 1, 69),
    (0x245, 0x245, 1, 71), (0x246, 0x24E, 2, 1), (0x370, 0x372, 2, 1), (0x376, 0x376, 1, 1),
    (0x37F, 0x37F, 1, 116), (0x386, 0x386, 1, 38), (0x388, 0x38A, 1, 37), (0x38C, 0x38C, 1, 64),
    (0x38E, 0x38F, 1, 63), (0x391, 0x3A1, 1, 32), (0x3A4, 0x3AB, 1, 32), (0x3CF, 0x3CF, 1, 8),
    (0x3D8, 0x3EE, 2, 1), (0x3F4, 0x3F4, 1, -60), (0x3F7, 0x3F7, 1, 1), (0x3F9, 0x3F9, 1, -7),
    (0x3FA, 0x3FA, 1, 1), (0x3FD, 0x3FF, 1, -130), (0x400, 0x40F, 1, 80), (0x410, 0x42F, 1, 32),
    (0x460, 0x480, 2, 1), (0x48A, 0x4BE, 2, 1), (0x4C0, 0x4C0, 1, 15), (0x4C1, 0x4CD, 2, 1),
    (0x4D0, 0x52E, 2, 1), (0x531, 0x556, 1, 48), (0x10A0, 0x10C5, 1, 7264),
    (0x10C7, 0x10C7, 1, 7264), (0x10CD, 0x10CD, 1, 7264), (0x13A0, 0x13EF, 1, 38864),
    (0x13F0, 0x13F5, 1, 8), (0x1C89, 0x1C89, 1, 1), (0x1C90, 0x1CBA, 1, -3008),
    (0x1CBD, 0x1CBF, 1, -3008), (0x1E00, 0x1E94, 2, 1), (0x1E9E, 0x1E9E, 1, -7615),
    (0x1EA0, 0x1EFE, 2, 1), (0x1F08, 0x1F0F, 1, -8), (0x1F18, 0x1F1D, 1, -8),
    (0x1F28, 0x1F2F, 1, -8), (0x1F38, 0x1F3F, 1, -8), (0x1F48, 0x1F4D, 1, -8),
    (0x1F59, 0x1F5F, 2, -8), (0x1F68, 0x1F6F, 1, -8), (0x1F88, 0x1F8F, 1, -8),
    (0x1F98, 0x1F9F, 1, -8), (0x1FA8, 0x1FAF, 1, -8), (0x1FB8, 0x1FB9, 1, -8),
    (0x1FBA, 0x1FBB, 1, -74), (0x1FBC, 0x1FBC, 1, -9), (0x1FC8, 0x1FCB, 1, -86),
    (0x1FCC, 0x1FCC, 1, -9), (0x1FD8, 0x1FD9, 1, -8), (0x1FDA, 0x1FDB, 1, -100),
    (0x1FE8, 0x1FE9, 1, -8), (0x1FEA, 0x1FEB, 1, -112), (0x1FEC, 0x1FEC, 1, -7),
    (0x1FF8, 0x1FF9, 1, -128), (0x1FFA, 0x1FFB, 1, -126), (0x1FFC, 0x1FFC, 1, -9),
    (0x2126, 0x2126, 1, -7517), (0x212A, 0x212A, 1, -8383), (0x212B, 0x212B, 1, -8262),
    (0x2132, 0x2132, 1, 28), (0x2160, 0x216F, 1, 16), (0x2183, 0x2183, 1, 1),
    (0x24B6, 0x24CF, 1, 26), (0x2C00, 0x2C2F, 1, 48), (0x2C60, 0x2C60, 1, 1),
    (0x2C62, 0x2C62, 1, -10743), (0x2C63, 0x2C63, 1, -3814), (0x2C64, 0x2C64, 1, -10727),
    (0x2C67, 0x2C6B, 2, 1), (0x2C6D, 0x2C6D, 1, -10780), (0x2C6E, 0x2C6E, 1, -10749),
    (0x2C6F, 0x2C6F, 1, -10783), (0x2C70, 0x2C70, 1, -10782), (0x2C72, 0x2C72, 1, 1),
    (0x2C75, 0x2C75, 1, 1), (0x2C7E, 0x2C7F, 1, -10815), (0x2C80, 0x2CE2, 2, 1),
    (0x2CEB, 0x2CED, 2, 1), (0x2CF2, 0x2CF2, 1, 1), (0xA640, 0xA66C, 2, 1), (0xA680, 0xA69A, 2, 1),
    (0xA722, 0xA72E, 2, 1), (0xA732, 0xA76E, 2, 1), (0xA779, 0xA77B, 2, 1),
    (0xA77D, 0xA77D, 1, -35332), (0xA77E, 0xA786, 2, 1), (0xA78B, 0xA78B, 1, 1),
    (0xA78D, 0xA78D, 1, -42280), (0xA790, 0xA792, 2, 1), (0xA796, 0xA7A8, 2, 1),
    (0xA7AA, 0xA7AA, 1, -42308), (0xA7AB, 0xA7AB, 1, -42319), (0xA7AC, 0xA7AC, 1, -42315),
    (0xA7AD, 0xA7AD, 1, -42305), (0xA7AE, 0xA7AE, 1, -42308), (0xA7B0, 0xA7B0, 1, -42258),
    (0xA7B1, 0xA7B1, 1, -42282), (0xA7B2, 0xA7B2, 1, -42261), (0xA7B3, 0xA7B3, 1, 928),
    (0xA7B4, 0xA7C2, 2, 1), (0xA7C4, 0xA7C4, 1, -48), (0xA7C5, 0xA7C5, 1, -42307),
    (0xA7C6, 0xA7C6, 1, -35384), (0xA7C7, 0xA7C9, 2, 1), (0xA7CB, 0xA7CB, 1, -42343),
    (0xA7CC, 0xA7CC, 1, 1), (0xA7D0, 0xA7D0, 1, 1), (0xA7D6, 0xA7DA, 2, 1),
    (0xA7DC, 0xA7DC, 1, -42561), (0xA7F5, 0xA7F5, 1, 1), (0xFF21, 0xFF3A, 1, 32),
    (0x10400, 0x10427, 1, 40), (0x104B0, 0x104D3, 1, 40), (0x10570, 0x1057A, 1, 39),
    (0x1057C, 0x1058A, 1, 39), (0x1058C, 0x10592, 1, 39), (0x10594, 0x10595, 1, 39),
    (0x10C80, 0x10CB2, 1, 64), (0x10D50, 0x10D65, 1, 32), (0x118A0, 0x118BF, 1, 32),
    (0x16E40, 0x16E5F, 1, 32), (0x1E900, 0x1E921, 1, 34)]

def inRun (n : ℕ) (r : ℕ × ℕ × ℕ × ℤ) : Bool :=
  r.1 ≤ n ∧ n ≤ r.2.1 ∧ (n - r.1) % r.2.2.1 = 0

/-- The lower case of a character other than the capital sigma. -/
def lowerChar (c : Char) : List Char :=
  if c.toNat < 0x80 then [c.toLower]
  else if c = '\u0130' then ['i', '\u0307']
  else match lowerRuns.find? (inRun c.toNat) with
    | some r => [Char.ofNat (c.toNat + r.2.2.2).toNat]
    | none => [c]

/-- `wordFinal` says of what is before a capital sigma, last character first, and of what is
after it whether the sigma ends a word. -/
def toLowercaseAfter (wordFinal : List Char → List Char → Bool) (before : List Char) :
    List Char → List Char
  | [] => []
  | c :: cs =>
    (if c = 'Σ' then [if wordFinal before cs then 'ς' else 'σ'] else lowerChar c) ++
      toLowercaseAfter wordFinal (c :: before) cs

def toLowercase (wordFinal : List Char → List Char → Bool) (s : List Char) : List Char :=
  toLowercaseAfter wordFinal [] s

/-- `p` may stand for `c` in lower case. -/
def LowersTo (c : Char) (p : List Char) : Prop :=
  if c = 'Σ' then p = ['σ'] ∨ p = ['ς'] else p = lowerChar c

/-- `t` is `s` in lower case, whatever ends a word. -/
inductive Lowers : List Char → List Char → Prop
  | nil : Lowers [] []
  | cons {c p s t} : LowersTo c p → Lowers s t → Lowers (c :: s) (p ++ t)

theorem lowers_toLowercase (wordFinal : List Char → List Char → Bool) (s : List Char) :
    Lowers s (toLowercase wordFinal s) := by
  suffices h : ∀ before, Lowers s (toLowercaseAfter wordFinal before s) from h []
  induction s with
  | nil => exact fun _ => .nil
  | cons c s ih =>
    intro before
    refine .cons ?_ (ih (c :: before))
    unfold LowersTo
    split
    · split
      · exact .inr rfl
      · exact .inl rfl
    · rfl

/-- The white space beyond ASCII. -/
def wideSpaces : List ℕ :=
  [0x85, 0xA0, 0x1680] ++ List.range' 0x2000 11 ++ [0x2028, 0x2029, 0x202F, 0x205F, 0x3000]

/-- What a run of the table keeps to: it leads from characters beyond ASCII to such, and neither
from white space nor to it. -/
def SoundRun (r : ℕ × ℕ × ℕ × ℤ) : Prop :=
  0x80 ≤ r.1 ∧ 0x80 ≤ (r.1 : ℤ) + r.2.2.2 ∧
    ((r.2.1 : ℤ) + r.2.2.2 < 0xD800 ∨
      (0xDFFF < (r.1 : ℤ) + r.2.2.2 ∧ (r.2.1 : ℤ) + r.2.2.2 < 0x110000)) ∧
    ∀ w ∈ wideSpaces, (w < r.1 ∨ r.2.1 < w) ∧
      ((w : ℤ) < r.1 + r.2.2.2 ∨ (r.2.1 : ℤ) + r.2.2.2 < w)

instance (r : ℕ × ℕ × ℕ × ℤ) : Decidable (SoundRun r) := inferInstanceAs (Decidable (_ ∧ _))

/-- Only the Kelvin sign leads back to ASCII. -/
theorem soundRun_of_mem : ∀ r ∈ lowerRuns, r = (0x212A, 0x212A, 1, -8383) ∨ SoundRun r := by
  decide +kernel

theorem isWhitespace_iff_of_wide {c : Char} (h : 0x80 ≤ c.toNat) :
    isWhitespace c = true ↔ c.toNat ∈ wideSpaces := by
  simp only [isWhitespace, wideSpaces, List.mem_append, List.mem_cons, List.mem_range',
    List.not_mem_nil, decide_eq_true_eq, or_false]
  constructor
  · intro hspace
    by_cases hrange : 0x2000 ≤ c.toNat ∧ c.toNat ≤ 0x200A
    · exact .inl (.inr ⟨c.toNat - 0x2000, by omega, by omega⟩)
    · omega
  · rintro ((hspace | ⟨i, hi, heq⟩) | hspace) <;> omega

/-- What stands for a character in lower case. -/
theorem LowersTo.cases {c : Char} {p : List Char} (h : LowersTo c p) :
    (c.toNat < 0x80 ∧ p = [c.toLower]) ∨ (c = '\u0130' ∧ p = ['i', '\u0307']) ∨
      (c = '\u212A' ∧ p = ['k']) ∨
      (0x80 ≤ c.toNat ∧ ∃ d, p = [d] ∧ 0x80 ≤ d.toNat ∧
        (d = c ∨ (isWhitespace c = false ∧ isWhitespace d = false))) := by
  unfold LowersTo at h
  split at h
  next hsigma =>
    subst hsigma
    rcases h with rfl | rfl
    · exact .inr (.inr (.inr ⟨by decide, 'σ', rfl, by decide, by decide⟩))
    · exact .inr (.inr (.inr ⟨by decide, 'ς', rfl, by decide, by decide⟩))
  subst h
  unfold lowerChar
  split
  next hascii => exact .inl ⟨hascii, rfl⟩
  next hwide =>
  have hwide := Nat.le_of_not_lt hwide
  split
  next hdotted => exact .inr (.inl ⟨hdotted, rfl⟩)
  split
  next r hfind =>
    have hin := List.find?_some hfind
    simp only [inRun, decide_eq_true_eq] at hin
    obtain ⟨hfirst, hlast, -⟩ := hin
    rcases soundRun_of_mem r (List.mem_of_find?_eq_some hfind) with rfl | ⟨-, hascii, hvalid, hspaces⟩
    · have hkelvin : c.toNat = 0x212A := Nat.le_antisymm hlast hfirst
      refine .inr (.inr (.inl ⟨Char.toNat_inj.mp hkelvin, ?_⟩))
      rw [hkelvin]
      decide
    · have hnat : ((c.toNat + r.2.2.2).toNat : ℤ) = c.toNat + r.2.2.2 :=
        Int.toNat_of_nonneg (by omega)
      have himage : (Char.ofNat (c.toNat + r.2.2.2).toNat).toNat = (c.toNat + r.2.2.2).toNat :=
        toNat_ofNat_of_valid (by simp only [Nat.isValidChar]; omega)
      refine .inr (.inr (.inr ⟨hwide, _, rfl, by omega, .inr ?_⟩))
      rw [← Bool.not_eq_true, ← Bool.not_eq_true, isWhitespace_iff_of_wide hwide,
        isWhitespace_iff_of_wide (by omega)]
      refine ⟨fun hw => ?_, fun hw => ?_⟩
      · have := (hspaces _ hw).1
        omega
      · have := (hspaces _ hw).2
        omega
  next => exact .inr (.inr (.inr ⟨hwide, c, rfl, hwide, .inl rfl⟩))

theorem isWhitespace_toLower {c : Char} (h : c.toNat < 0x80) :
    (isWhitespace c = true → c.toLower = c) ∧
      (isWhitespace c = false → isWhitespace c.toLower = false) := by
  have hall : ∀ n < 0x80, (isWhitespace (Char.ofNat n) = true →
      (Char.ofNat n).toLower = Char.ofNat n) ∧ (isWhitespace (Char.ofNat n) = false →
      isWhitespace (Char.ofNat n).toLower = false) := by decide
  have hc := hall c.toNat h
  rwa [Char.ofNat_toNat] at hc

/-- White space stands for itself. -/
theorem LowersTo.eq_of_space {c : Char} {p : List Char} (h : LowersTo c p)
    (hspace : isWhitespace c = true) : p = [c] := by
  obtain ⟨hascii, rfl⟩ | ⟨rfl, -⟩ | ⟨rfl, -⟩ | ⟨-, d, rfl, -, rfl | ⟨hc, -⟩⟩ := h.cases
  · rw [(isWhitespace_toLower hascii).1 hspace]
  · exact absurd hspace (by decide)
  · exact absurd hspace (by decide)
  · rfl
  · exact absurd hspace (by simp [hc])

/-- What stands for another character contains no white space. -/
theorem LowersTo.solid {c : Char} {p : List Char} (h : LowersTo c p)
    (hsolid : isWhitespace c = false) : p ≠ [] ∧ ∀ d ∈ p, isWhitespace d = false := by
  obtain ⟨hascii, rfl⟩ | ⟨-, rfl⟩ | ⟨-, rfl⟩ | ⟨-, d, rfl, -, rfl | ⟨-, hd⟩⟩ := h.cases
  · exact ⟨by simp, List.forall_mem_singleton.mpr ((isWhitespace_toLower hascii).2 hsolid)⟩
  · refine ⟨by simp, List.forall_mem_cons.mpr ⟨by decide, List.forall_mem_singleton.mpr ?_⟩⟩
    decide
  · exact ⟨by simp, List.forall_mem_singleton.mpr (by decide)⟩
  · exact ⟨by simp, List.forall_mem_singleton.mpr hsolid⟩
  · exact ⟨by simp, List.forall_mem_singleton.mpr hd⟩

theorem splitInclusive_append {p : List Char} (t : List Char) (hne : p ≠ []) (hline : '\n' ∉ p) :
    splitInclusive (p ++ t) = match splitInclusive t with
      | [] => [p]
      | l :: ls => (p ++ l) :: ls := by
  induction p with
  | nil => exact absurd rfl hne
  | cons c p ih =>
    obtain ⟨hc, hline⟩ := List.ne_and_not_mem_of_not_mem_cons hline
    rw [List.cons_append, splitInclusive, if_neg (Ne.symm hc)]
    cases p with
    | nil => rfl
    | cons d p =>
      rw [ih (by simp) hline]
      cases splitInclusive t <;> rfl

namespace Lowers
variable {s s' t : List Char} {w : Char}

theorem append {t' : List Char} (h : Lowers s t) (h' : Lowers s' t') :
    Lowers (s ++ s') (t ++ t') := by
  induction h with
  | nil => exact h'
  | cons hp _ ih =>
    rw [List.cons_append, List.append_assoc]
    exact .cons hp ih

theorem split (h : Lowers (s ++ s') t) : ∃ t1 t2, t = t1 ++ t2 ∧ Lowers s t1 ∧ Lowers s' t2 := by
  induction s generalizing t with
  | nil => exact ⟨[], t, rfl, .nil, h⟩
  | cons c s ih =>
    cases h with
    | cons hp hrest =>
      obtain ⟨t1, t2, rfl, h1, h2⟩ := ih hrest
      exact ⟨_, t2, (List.append_assoc _ _ _).symm, .cons hp h1, h2⟩

theorem one {c : Char} {p : List Char} (h : LowersTo c p) : Lowers [c] p := by
  rw [← List.append_nil p]
  exact .cons h .nil

theorem of_one {c : Char} (h : Lowers [c] t) : LowersTo c t := by
  cases h with
  | cons hp hrest =>
    cases hrest
    rwa [List.append_nil]

/-- What is lower case already stays, and only that. -/
theorem eq_iff (h : Lowers s t) : t = s ↔ ∀ c ∈ s, LowersTo c [c] := by
  induction h with
  | nil => simp
  | @cons c p s t hp _ ih =>
    rw [List.forall_mem_cons, ← ih]
    constructor
    · intro heq
      obtain ⟨-, rfl⟩ | ⟨rfl, rfl⟩ | ⟨rfl, rfl⟩ | ⟨-, d, rfl, -⟩ := hp.cases
      · obtain ⟨hd, htail⟩ := List.cons.inj heq
        rw [hd] at hp
        exact ⟨hp, htail⟩
      · exact absurd (List.cons.inj heq).1 (by decide)
      · exact absurd (List.cons.inj heq).1 (by decide)
      · obtain ⟨rfl, htail⟩ := List.cons.inj heq
        exact ⟨hp, htail⟩
    · rintro ⟨hself, rfl⟩
      have hone : p = [c] := by
        unfold LowersTo at hp hself
        split at hp
        next hsigma =>
          rw [if_pos hsigma, hsigma] at hself
          exact absurd hself (by decide)
        next hsigma =>
          rw [if_neg hsigma] at hself
          exact hp.trans hself.symm
      rw [hone]
      rfl

theorem dropWhile (h : Lowers s t) :
    Lowers (s.dropWhile isWhitespace) (t.dropWhile isWhitespace) := by
  induction h with
  | nil => exact .nil
  | @cons c p s t hp hrest ih =>
    cases hspace : isWhitespace c with
    | true =>
      obtain rfl := hp.eq_of_space hspace
      simpa [hspace] using ih
    | false =>
      obtain ⟨hne, hsolid⟩ := hp.solid hspace
      obtain ⟨d, p, rfl⟩ := List.exists_cons_of_ne_nil hne
      have hd : isWhitespace d = false := hsolid d List.mem_cons_self
      rw [List.dropWhile_cons_of_neg (by simp [hspace]), List.cons_append,
        List.dropWhile_cons_of_neg (by simp [hd])]
      exact .cons hp hrest

theorem rdropWhile (h : Lowers s t) :
    Lowers (s.rdropWhile isWhitespace) (t.rdropWhile isWhitespace) := by
  induction s using List.reverseRecOn generalizing t with
  | nil =>
    cases h
    exact .nil
  | append_singleton s c ih =>
    obtain ⟨t, p, rfl, ht, hp⟩ := h.split
    cases hspace : isWhitespace c with
    | true =>
      obtain rfl := hp.of_one.eq_of_space hspace
      rw [List.rdropWhile_concat_pos _ _ _ hspace, List.rdropWhile_concat_pos _ _ _ hspace]
      exact ih ht
    | false =>
      obtain ⟨hne, hsolid⟩ := hp.of_one.solid hspace
      have hlast : isWhitespace ((t ++ p).getLast (by simp [hne])) = false := by
        rw [List.getLast_append_of_ne_nil _ hne]
        exact hsolid _ (List.getLast_mem hne)
      rw [List.rdropWhile_concat_neg _ _ _ (by simp [hspace]),
        List.rdropWhile_eq_self_iff.mpr fun _ => by simp [hlast]]
      exact ht.append hp

theorem trim (h : Lowers s t) : Lowers (trim s) (trim t) := by
  rw [trim_eq_rdropWhile, trim_eq_rdropWhile]
  exact h.dropWhile.rdropWhile

/-- A last character of white space stands for itself. -/
theorem stripSuffix (h : Lowers s t) (hw : isWhitespace w = true) :
    Option.Rel Lowers (stripSuffix [w] s) (stripSuffix [w] t) := by
  have hconcat (l : List Char) (c : Char) :
      Text.stripSuffix [w] (l ++ [c]) = if c = w then some l else none := by
    by_cases hc : c = w
    · rw [hc, stripSuffix_append, if_pos rfl]
    · rw [Text.stripSuffix, if_neg, if_neg hc]
      rintro ⟨x, hx⟩
      exact hc (List.cons.inj (List.append_inj' hx rfl).2).1.symm
  have hnone : Text.stripSuffix [w] [] = none := by simp [Text.stripSuffix]
  induction s using List.reverseRecOn with
  | nil =>
    cases h
    rw [hnone]
    exact .none
  | append_singleton s c =>
    obtain ⟨t, p, rfl, ht, hp⟩ := h.split
    rw [hconcat]
    cases hspace : isWhitespace c with
    | true =>
      obtain rfl := hp.of_one.eq_of_space hspace
      rw [hconcat]
      split
      · exact .some ht
      · exact .none
    | false =>
      obtain ⟨hne, hsolid⟩ := hp.of_one.solid hspace
      have hcw : c ≠ w := by
        rintro rfl
        rw [hw] at hspace
        cases hspace
      obtain ⟨q, d, rfl⟩ := (List.eq_nil_or_concat' p).resolve_left hne
      have hdw : d ≠ w := by
        rintro rfl
        have := hsolid d (by simp)
        rw [hw] at this
        cases this
      rw [if_neg hcw, ← List.append_assoc, hconcat, if_neg hdw]
      exact .none

theorem lineContent (h : Lowers s t) : Lowers (lineContent s) (lineContent t) := by
  have hfeed := h.stripSuffix (w := '\n') (by decide)
  unfold Text.lineContent
  cases hs : Text.stripSuffix ['\n'] s with
  | none =>
    rw [hs] at hfeed
    cases ht : Text.stripSuffix ['\n'] t with
    | none => exact h
    | some t1 =>
      rw [ht] at hfeed
      cases hfeed
  | some s1 =>
    rw [hs] at hfeed
    cases ht : Text.stripSuffix ['\n'] t with
    | none =>
      rw [ht] at hfeed
      cases hfeed
    | some t1 =>
      rw [ht] at hfeed
      cases hfeed with
      | some h1 =>
        have hreturn := h1.stripSuffix (w := '\r') (by decide)
        dsimp only
        generalize Text.stripSuffix ['\r'] s1 = a at hreturn
        generalize Text.stripSuffix ['\r'] t1 = b at hreturn
        cases hreturn with
        | none => exact h1
        | some h2 => exact h2

/-- The lines of a text in lower case are its lines in lower case. -/
theorem splitInclusive (h : Lowers s t) :
    List.Forall₂ Lowers (splitInclusive s) (splitInclusive t) := by
  induction h with
  | nil => exact .nil
  | @cons c p s t hp hrest ih =>
    by_cases hline : c = '\n'
    · subst hline
      obtain rfl := hp.eq_of_space (by decide)
      exact .cons (one hp) ih
    · have hp' : p ≠ [] ∧ '\n' ∉ p := by
        cases hspace : isWhitespace c with
        | true =>
          rw [hp.eq_of_space hspace]
          simp [Ne.symm hline]
        | false =>
          obtain ⟨hne, hsolid⟩ := hp.solid hspace
          exact ⟨hne, fun hin => absurd (hsolid _ hin) (by decide)⟩
      have hc := splitInclusive_append s (p := [c]) (by simp) (by simp [Ne.symm hline])
      rw [List.singleton_append] at hc
      rw [hc, splitInclusive_append t hp'.1 hp'.2]
      generalize Text.splitInclusive s = ls at ih
      generalize Text.splitInclusive t = ms at ih
      cases ih with
      | nil => exact .cons (one hp) .nil
      | cons hl hls => exact .cons ((one hp).append hl) hls

theorem lines (h : Lowers s t) : List.Forall₂ Lowers (lines s) (lines t) := by
  unfold Text.lines
  rw [List.forall₂_map_left_iff, List.forall₂_map_right_iff]
  exact h.splitInclusive.imp fun _ _ hline => hline.lineContent

end Lowers
/-- What follows a prefix, whichever case its ASCII letters are in. -/
def stripPrefixAnyCase : List Char → List Char → Option (List Char)
  | [], s => some s
  | _ :: _, [] => none
  | d :: pre, c :: s => if c.toLower = d then stripPrefixAnyCase pre s else none

theorem stripPrefix_cons (d c : Char) (pre s : List Char) :
    stripPrefix (d :: pre) (c :: s) = if c = d then stripPrefix pre s else none := by
  by_cases hc : c = d
  · subst hc
    simp [stripPrefix, List.cons_prefix_cons]
  · simp [stripPrefix, List.cons_prefix_cons, Ne.symm hc, hc]

theorem toLower_of_wide {c : Char} (h : 0x80 ≤ c.toNat) : c.toLower = c := by
  unfold Char.toLower
  split
  next hupper =>
    have : c.toNat ≤ 90 := UInt32.le_iff_toNat_le.mp hupper.2
    omega
  next => rfl

/-- An ASCII prefix of a text in lower case is that prefix of the text in some case. The Kelvin
sign and the dotted capital have lower cases that begin in ASCII. -/
theorem Lowers.stripPrefix {pre : List Char} (hpre : ∀ d ∈ pre, d.toNat < 0x80 ∧ d ≠ 'k')
    (hlast : pre.getLast? ≠ some 'i') {s t : List Char} (h : Lowers s t) :
    Option.Rel Lowers (stripPrefixAnyCase pre s) (stripPrefix pre t) := by
  induction pre generalizing s t with
  | nil =>
    have ht : Text.stripPrefix [] t = some t := by simp [Text.stripPrefix]
    rw [ht]
    exact .some h
  | cons d pre ih =>
    obtain ⟨⟨hd, hk⟩, hrest⟩ := List.forall_mem_cons.mp hpre
    cases h with
    | nil =>
      have ht : Text.stripPrefix (d :: pre) [] = none := by simp [Text.stripPrefix]
      rw [ht]
      exact .none
    | @cons c p s t hp htail =>
      rw [stripPrefixAnyCase]
      have hlast' : pre.getLast? ≠ some 'i' := by
        cases pre with
        | nil => simp
        | cons e pre => simpa using hlast
      obtain ⟨-, rfl⟩ | ⟨rfl, rfl⟩ | ⟨rfl, rfl⟩ | ⟨hwide, x, rfl, hx, -⟩ := hp.cases
      · rw [List.singleton_append, stripPrefix_cons]
        split
        · exact ih hrest hlast' htail
        · exact .none
      · rw [if_neg, List.cons_append, List.singleton_append, stripPrefix_cons]
        · split
          next hi =>
            cases pre with
            | nil => exact absurd hi.symm (by simpa using hlast)
            | cons e pre =>
              have he : '\u0307' ≠ e := by
                rintro rfl
                exact absurd (hrest _ List.mem_cons_self).1 (by decide)
              rw [stripPrefix_cons, if_neg he]
              exact .none
          next => exact .none
        · rintro rfl
          exact absurd hd (by decide)
      · rw [if_neg, List.singleton_append, stripPrefix_cons, if_neg (Ne.symm hk)]
        · exact .none
        · rintro rfl
          exact absurd hd (by decide)
      · rw [toLower_of_wide hwide, if_neg, List.singleton_append, stripPrefix_cons, if_neg]
        · exact .none
        · rintro rfl
          omega
        · rintro rfl
          omega

end Qstream.Text

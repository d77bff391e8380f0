import Mathlib

/-! JSON texts without white space, signs, fractions and exponents: the grammar of their strings,
and a reader for their values. Every text the reader accepts is a JSON text with that value. -/
namespace Json

/-- The letters that stand for a character after a backslash. -/
def escapes : List (Char × Char) :=
  [('"', '"'), ('\\', '\\'), ('/', '/'), ('b', '\x08'), ('f', '\x0c'), ('n', '\n'), ('r', '\r'),
    ('t', '\t')]

def hexDigit (c : Char) : Option ℕ :=
  if '0' ≤ c ∧ c ≤ '9' then some (c.toNat - 48)
  else if 'a' ≤ c ∧ c ≤ 'f' then some (c.toNat - 87)
  else if 'A' ≤ c ∧ c ≤ 'F' then some (c.toNat - 55)
  else none

/-- A code unit from its four digits. -/
def hexUnit (a b c d : Char) : Option ℕ :=
  (hexDigit a).bind fun a => (hexDigit b).bind fun b => (hexDigit c).bind fun c =>
    (hexDigit d).map fun d => ((a * 16 + b) * 16 + c) * 16 + d

/-- What may stand between the quotes of a string, and the code points and units it writes. -/
inductive Body : List Char → List ℕ → Prop
  | nil : Body [] []
  | plain {c cs us} : c ≠ '"' → c ≠ '\\' → 0x20 ≤ c.toNat → Body cs us →
      Body (c :: cs) (c.toNat :: us)
  | escape {e c cs us} : escapes.lookup e = some c → Body cs us →
      Body ('\\' :: e :: cs) (c.toNat :: us)
  | unit {a b c d u cs us} : hexUnit a b c d = some u → Body cs us →
      Body ('\\' :: 'u' :: a :: b :: c :: d :: cs) (u :: us)

/-- The characters of code points and units: two surrogates are one character. -/
def joinUnits : List ℕ → Option (List Char)
  | [] => some []
  | [u] => if u.isValidChar then some [Char.ofNat u] else none
  | u :: v :: us =>
    if u.isValidChar then (joinUnits (v :: us)).map (Char.ofNat u :: ·)
    else if (0xD800 ≤ u ∧ u < 0xDC00) ∧ 0xDC00 ≤ v ∧ v < 0xE000 then
      (joinUnits us).map (Char.ofNat (0x10000 + (u - 0xD800) * 1024 + (v - 0xDC00)) :: ·)
    else none

/-- A string up to its closing quote, and what follows the quote. -/
def readUnits : List Char → Option (List ℕ × List Char)
  | [] => none
  | '"' :: cs => some ([], cs)
  | '\\' :: 'u' :: a :: b :: c :: d :: cs =>
    (hexUnit a b c d).bind fun u => (readUnits cs).map fun r => (u :: r.1, r.2)
  | '\\' :: e :: cs =>
    (escapes.lookup e).bind fun c => (readUnits cs).map fun r => (c.toNat :: r.1, r.2)
  | c :: cs =>
    if c = '\\' ∨ c.toNat < 0x20 then none
    else (readUnits cs).map fun r => (c.toNat :: r.1, r.2)

def readString (cs : List Char) : Option (List Char × List Char) :=
  (readUnits cs).bind fun r => (joinUnits r.1).map fun s => (s, r.2)

theorem isValidChar_toNat (c : Char) : c.toNat.isValidChar := c.valid

theorem joinUnits_toNat (s : List Char) : joinUnits (s.map Char.toNat) = some s := by
  induction s with
  | nil => rfl
  | cons c s ih =>
    cases s with
    | nil => simp [joinUnits, isValidChar_toNat]
    | cons d s =>
      rw [List.map_cons] at ih
      simp [joinUnits, isValidChar_toNat, ih]

theorem readUnits_plain {c : Char} (hquote : c ≠ '"') (hslash : c ≠ '\\') (h : 0x20 ≤ c.toNat)
    (cs : List Char) :
    readUnits (c :: cs) = (readUnits cs).map fun r => (c.toNat :: r.1, r.2) := by
  rw [readUnits]
  · rw [if_neg (not_or.mpr ⟨hslash, Nat.not_lt_of_le h⟩)]
  · exact hquote
  · exact fun _ _ _ _ _ h _ => hslash h
  · exact fun _ _ h _ => hslash h

theorem readUnits_escape {e c : Char} (h : escapes.lookup e = some c) (cs : List Char) :
    readUnits ('\\' :: e :: cs) = (readUnits cs).map fun r => (c.toNat :: r.1, r.2) := by
  have hu : e ≠ 'u' := by
    rintro rfl
    cases h
  rw [readUnits]
  · rw [h, Option.bind_some]
  · exact fun _ _ _ _ _ h _ => hu h

theorem readUnits_unit {a b c d : Char} {u : ℕ} (h : hexUnit a b c d = some u) (cs : List Char) :
    readUnits ('\\' :: 'u' :: a :: b :: c :: d :: cs) =
      (readUnits cs).map fun r => (u :: r.1, r.2) := by
  rw [readUnits, h, Option.bind_some]

/-- The reader stops at the closing quote of the grammar. -/
theorem Body.readUnits {cs : List Char} {us : List ℕ} (h : Body cs us) (rest : List Char) :
    readUnits (cs ++ '"' :: rest) = some (us, rest) := by
  induction h with
  | nil => rfl
  | plain hquote hslash hlow _ ih =>
    rw [List.cons_append, readUnits_plain hquote hslash hlow, ih]
    rfl
  | escape hlookup _ ih =>
    rw [List.cons_append, List.cons_append, readUnits_escape hlookup, ih]
    rfl
  | unit hunit _ ih =>
    simp only [List.cons_append]
    rw [readUnits_unit hunit, ih]
    rfl

theorem printable_of_hexDigit {c : Char} {d : ℕ} (h : hexDigit c = some d) : 0x20 ≤ c.toNat := by
  have hlow {x : Char} (hx : x ≤ c) : x.toNat ≤ c.toNat := UInt32.le_iff_toNat_le.mp hx
  unfold hexDigit at h
  split at h
  next hdigit => exact le_trans (by decide) (hlow hdigit.1)
  split at h
  next hlower => exact le_trans (by decide) (hlow hlower.1)
  split at h
  next hupper => exact le_trans (by decide) (hlow hupper.1)
  next => cases h

/-- No control character stands in a string. -/
theorem Body.printable {cs : List Char} {us : List ℕ} (h : Body cs us) :
    ∀ c ∈ cs, 0x20 ≤ c.toNat := by
  have hslash : 0x20 ≤ '\\'.toNat := by decide
  induction h with
  | nil => exact fun c hc => by cases hc
  | plain _ _ hlow _ ih => exact List.forall_mem_cons.mpr ⟨hlow, ih⟩
  | @escape e c cs us hlookup _ ih =>
    have hletters : ∀ p ∈ escapes, 0x20 ≤ p.1.toNat := by decide
    obtain ⟨l, r, hsplit, -⟩ := List.lookup_eq_some_iff.mp hlookup
    have hletter := hletters (e, c) (by rw [hsplit]; simp)
    exact List.forall_mem_cons.mpr ⟨hslash, List.forall_mem_cons.mpr ⟨hletter, ih⟩⟩
  | unit hunit _ ih =>
    obtain ⟨a', ha, hunit⟩ := Option.bind_eq_some_iff.mp hunit
    obtain ⟨b', hb, hunit⟩ := Option.bind_eq_some_iff.mp hunit
    obtain ⟨c', hc, hunit⟩ := Option.bind_eq_some_iff.mp hunit
    obtain ⟨d', hd, -⟩ := Option.map_eq_some_iff.mp hunit
    simp only [List.forall_mem_cons]
    exact ⟨hslash, by decide, printable_of_hexDigit ha, printable_of_hexDigit hb,
      printable_of_hexDigit hc, printable_of_hexDigit hd, ih⟩

theorem readString_of_body {cs s : List Char} {us : List ℕ} (h : Body cs us)
    (hs : joinUnits us = some s) (rest : List Char) :
    readString (cs ++ '"' :: rest) = some (s, rest) := by
  rw [readString, h.readUnits, Option.bind_some, hs, Option.map_some]

/-! Values. -/

inductive Value
  | null
  | number (n : ℕ)
  | string (s : List Char)
  | array (vs : List Value)
  | object (ms : List (List Char × Value))

/-- Items between commas, up to the closing bracket; `n` bounds their number. -/
def readItems {α : Type*} (item : List Char → Option (α × List Char)) (close : Char) :
    ℕ → List Char → Option (List α × List Char)
  | 0, _ => none
  | n + 1, cs => (item cs).bind fun r => match r.2 with
    | [] => none
    | c :: rest =>
      if c = close then some ([r.1], rest)
      else if c = ',' then (readItems item close n rest).map fun q => (r.1 :: q.1, q.2)
      else none

/-- The items after an opening bracket; there may be none. -/
def readList {α : Type*} (item : List Char → Option (α × List Char)) (close : Char) (n : ℕ) :
    List Char → Option (List α × List Char)
  | [] => none
  | c :: cs => if c = close then some ([], cs) else readItems item close n (c :: cs)

/-- A string, a colon and a value. -/
def readMember (value : List Char → Option (Value × List Char)) :
    List Char → Option ((List Char × Value) × List Char)
  | '"' :: cs => (readString cs).bind fun k => match k.2 with
    | ':' :: rest => (value rest).map fun v => ((k.1, v.1), v.2)
    | _ => none
  | _ => none

/-- Digits, without leading zeros. -/
def readNumber (cs : List Char) : Option (ℕ × List Char) :=
  let digits := cs.takeWhile Char.isDigit
  if digits = [] ∨ (digits.head? = some '0' ∧ digits ≠ ['0']) then none
  else some (Nat.ofDigitChars 10 digits 0, cs.dropWhile Char.isDigit)

/-- A value and what follows it; `n` bounds the depth and the number of items. -/
def readValue : ℕ → List Char → Option (Value × List Char)
  | 0, _ => none
  | n + 1, cs => match cs with
    | '"' :: rest => (readString rest).map fun r => (.string r.1, r.2)
    | '[' :: rest => (readList (readValue n) ']' n rest).map fun r => (.array r.1, r.2)
    | '{' :: rest => (readList (readMember (readValue n)) '}' n rest).map fun r => (.object r.1, r.2)
    | 'n' :: 'u' :: 'l' :: 'l' :: rest => some (.null, rest)
    | _ => (readNumber cs).map fun r => (.number r.1, r.2)

/-- The value of a whole text. -/
def read (cs : List Char) : Option Value :=
  (readValue (cs.length + 1) cs).bind fun r => if r.2 = [] then some r.1 else none

/-- What follows a value does not continue a number. -/
def Ends (rest : List Char) : Prop := ∀ c ∈ rest.head?, c.isDigit = false

/-- The text `t` is read as `v` wherever it stands. -/
def Reads (t : List Char) (v : Value) : Prop :=
  ∀ n > t.length, ∀ rest, Ends rest → readValue n (t ++ rest) = some (v, rest)

theorem Reads.read {t : List Char} {v : Value} (h : Reads t v) : read t = some v := by
  have hvalue := h (t.length + 1) (Nat.lt_succ_self _) [] (fun c hc => by cases hc)
  rw [List.append_nil] at hvalue
  simp [Json.read, hvalue]

theorem Reads.null : Reads "null".toList .null := by
  intro n hn rest _
  obtain ⟨n, rfl⟩ := Nat.exists_eq_succ_of_ne_zero (Nat.ne_zero_of_lt hn)
  rfl

theorem Reads.string {cs s : List Char} {us : List ℕ} (h : Body cs us)
    (hs : joinUnits us = some s) : Reads ('"' :: cs ++ ['"']) (.string s) := by
  intro n hn rest _
  obtain ⟨n, rfl⟩ := Nat.exists_eq_succ_of_ne_zero (Nat.ne_zero_of_lt hn)
  simp only [readValue, List.cons_append, List.append_assoc, List.nil_append,
    readString_of_body h hs, Option.map_some]

theorem toDigits_head {n : ℕ} (hn : n ≠ 0) : (Nat.toDigits 10 n).head? ≠ some '0' := by
  induction n using Nat.strong_induction_on with
  | _ n ih =>
    by_cases hsmall : n < 10
    · rw [Nat.toDigits_of_lt_base hsmall]
      interval_cases n <;> first | exact absurd rfl hn | decide
    · rw [Nat.toDigits_of_base_le (by decide) (Nat.le_of_not_lt hsmall)]
      have hrest := ih (n / 10) (by omega) (by omega)
      rw [List.head?_append]
      cases hhead : (Nat.toDigits 10 (n / 10)).head? with
      | none => exact absurd (List.head?_eq_none_iff.mp hhead) Nat.toDigits_ne_nil
      | some c => simpa [hhead] using hrest

theorem readNumber_toString (m : ℕ) {rest : List Char} (hrest : Ends rest) :
    readNumber ((toString m).toList ++ rest) = some (m, rest) := by
  have hdigits : ∀ c ∈ Nat.toDigits 10 m, c.isDigit = true :=
    fun c hc => Nat.isDigit_of_mem_toDigits (by decide) le_rfl hc
  have hstop : rest.takeWhile Char.isDigit = [] ∧ rest.dropWhile Char.isDigit = rest := by
    cases rest with
    | nil => exact ⟨rfl, rfl⟩
    | cons c rest =>
      have hc : c.isDigit = false := hrest c rfl
      simp [hc]
  have htext : (toString m).toList = Nat.toDigits 10 m := by
    rw [Nat.toString_eq_ofList_toDigits, String.toList_ofList]
  rw [htext, readNumber, List.takeWhile_append_of_pos hdigits, List.dropWhile_append_of_pos hdigits,
    hstop.1, hstop.2, List.append_nil, if_neg, Nat.ofDigitChars_ten_toDigits]
  rintro (hempty | ⟨hzero, hlong⟩)
  · exact Nat.toDigits_ne_nil hempty
  · by_cases hm : m = 0
    · exact hlong (by rw [hm, Nat.toDigits_zero])
    · exact toDigits_head hm hzero

theorem Reads.number (m : ℕ) : Reads (toString m).toList (.number m) := by
  intro n hn rest hrest
  obtain ⟨n, rfl⟩ := Nat.exists_eq_succ_of_ne_zero (Nat.ne_zero_of_lt hn)
  have hnumber := readNumber_toString m hrest
  have hfirst (c : Char) (cs : List Char) (h : (toString m).toList ++ rest = c :: cs) :
      c.isDigit = true := by
    by_contra hc
    have hc : c.isDigit = false := by simpa using hc
    rw [h] at hnumber
    simp [readNumber, hc] at hnumber
  unfold readValue
  split
  next h => exact absurd (hfirst _ _ h) (by decide)
  next h => exact absurd (hfirst _ _ h) (by decide)
  next h => exact absurd (hfirst _ _ h) (by decide)
  next h => exact absurd (hfirst _ _ h) (by decide)
  next => rw [hnumber, Option.map_some]

/-! Lists of items between commas. -/

theorem length_le_intercalate {t : List Char} {ts : List (List Char)} (h : t ∈ ts) :
    t.length ≤ ([','].intercalate ts).length := by
  induction ts with
  | nil => cases h
  | cons u ts ih =>
    cases ts with
    | nil =>
      obtain rfl := List.mem_singleton.mp h
      rw [List.intercalate_singleton]
    | cons w ts =>
      rw [List.intercalate_cons_cons]
      simp only [List.length_append]
      rcases List.mem_cons.mp h with rfl | h
      · omega
      · have := ih h
        omega

theorem count_le_intercalate (ts : List (List Char)) :
    ts.length ≤ ([','].intercalate ts).length + 1 := by
  induction ts with
  | nil => exact Nat.zero_le _
  | cons u ts ih =>
    cases ts with
    | nil => exact Nat.le_add_left _ _
    | cons w ts =>
      rw [List.intercalate_cons_cons]
      simp only [List.length_append, List.length_cons, List.length_nil] at ih ⊢
      omega

/-- Items that are read one by one are read between commas. -/
theorem readItems_intercalate {α : Type*} {item : List Char → Option (α × List Char)} {close : Char}
    (hclose : close.isDigit = false) (hcomma : close ≠ ',') {ts : List (List Char)} {vs : List α}
    (h : List.Forall₂ (fun t v => ∀ rest, Ends rest → item (t ++ rest) = some (v, rest)) ts vs)
    (hne : ts ≠ []) {n : ℕ} (hn : ts.length ≤ n) (rest : List Char) :
    readItems item close n ([','].intercalate ts ++ close :: rest) = some (vs, rest) := by
  have hends {c : Char} (hc : c.isDigit = false) (cs : List Char) : Ends (c :: cs) := fun d hd => by
    obtain rfl : c = d := Option.some.inj hd
    exact hc
  induction h generalizing n with
  | nil => exact absurd rfl hne
  | @cons t v ts vs hitem htail ih =>
    obtain ⟨n, rfl⟩ := Nat.exists_eq_succ_of_ne_zero (n := n) (by rintro rfl; cases hn)
    cases htail with
    | nil =>
      rw [List.intercalate_singleton, readItems, hitem _ (hends hclose rest), Option.bind_some]
      simp only [↓reduceIte]
    | @cons t' v' ts vs hitem' htail =>
      have hrest := ih (by simp) (Nat.le_of_succ_le_succ hn)
      rw [List.intercalate_cons_cons, List.append_assoc, List.append_assoc, readItems,
        List.singleton_append, hitem _ (hends (by decide) _), Option.bind_some]
      simp only [if_neg (Ne.symm hcomma), if_pos, hrest, Option.map_some]

theorem readList_intercalate {α : Type*} {item : List Char → Option (α × List Char)} {close : Char}
    (hclose : close.isDigit = false) (hcomma : close ≠ ',') {ts : List (List Char)} {vs : List α}
    (h : List.Forall₂ (fun t v => ∀ rest, Ends rest → item (t ++ rest) = some (v, rest)) ts vs)
    (hfirst : ∀ t ∈ ts, ∃ c cs, t = c :: cs ∧ c ≠ close) {n : ℕ} (hn : ts.length ≤ n)
    (rest : List Char) :
    readList item close n ([','].intercalate ts ++ close :: rest) = some (vs, rest) := by
  cases hts : ts with
  | nil =>
    subst hts
    cases h
    simp [readList]
  | cons t ts' =>
    have hitems := readItems_intercalate hclose hcomma h (by simp [hts]) hn rest
    obtain ⟨c, cs, rfl, hc⟩ := hfirst t (by simp [hts])
    rw [hts, List.intercalate_cons_cons_left] at hitems
    rw [List.intercalate_cons_cons_left]
    simpa only [List.cons_append, readList, if_neg hc] using hitems

/-- A value is not a closing bracket. -/
theorem Reads.first {t : List Char} {v : Value} (h : Reads t v) : ∃ c cs, t = c :: cs ∧ c ≠ ']' := by
  have hread := h (t.length + 1) (Nat.lt_succ_self _) [] (fun c hc => by cases hc)
  cases t with
  | nil => simp [readValue, readNumber] at hread
  | cons c cs =>
    refine ⟨c, cs, rfl, ?_⟩
    rintro rfl
    simp [readValue, readNumber] at hread

theorem Reads.array {ts : List (List Char)} {vs : List Value} (h : List.Forall₂ Reads ts vs) :
    Reads ('[' :: [','].intercalate ts ++ [']']) (.array vs) := by
  intro n hn rest _
  obtain ⟨n, rfl⟩ := Nat.exists_eq_succ_of_ne_zero (Nat.ne_zero_of_lt hn)
  simp only [List.length_cons, List.length_append, List.length_nil] at hn
  have hcount : ts.length ≤ n := by
    have := count_le_intercalate ts
    omega
  have hshort (t : List Char) (ht : t ∈ ts) : t.length < n := by
    have := length_le_intercalate ht
    omega
  have hitems : List.Forall₂ (fun t v => ∀ rest, Ends rest →
      readValue n (t ++ rest) = some (v, rest)) ts vs :=
    ((List.forall₂_and_left ts _).mpr ⟨hshort, h⟩).imp fun t v ht => ht.2 n ht.1
  have hfirst := ((List.forall₂_and_left ts _).mp (h.imp fun t v ht => ⟨ht.first, ht⟩)).1
  simp only [List.cons_append, List.append_assoc, List.nil_append, readValue,
    readList_intercalate (by decide) (by decide) hitems hfirst hcount, Option.map_some]

/-- The text of a member of an object. -/
def ReadsMember (t : List Char) (m : List Char × Value) : Prop :=
  ∃ key us tv, t = '"' :: key ++ '"' :: ':' :: tv ∧ Body key us ∧ joinUnits us = some m.1 ∧
    Reads tv m.2

theorem ReadsMember.read {t : List Char} {m : List Char × Value} (h : ReadsMember t m) {n : ℕ}
    (hn : t.length < n) (rest : List Char) (hrest : Ends rest) :
    readMember (readValue n) (t ++ rest) = some (m, rest) := by
  obtain ⟨key, us, tv, rfl, hkey, hus, hvalue⟩ := h
  simp only [List.length_cons, List.length_append] at hn
  simp only [readMember, List.cons_append, List.append_assoc, readString_of_body hkey hus,
    Option.bind_some, hvalue n (by omega) rest hrest, Option.map_some]

theorem Reads.object {ts : List (List Char)} {ms : List (List Char × Value)}
    (h : List.Forall₂ ReadsMember ts ms) :
    Reads ('{' :: [','].intercalate ts ++ ['}']) (.object ms) := by
  intro n hn rest _
  obtain ⟨n, rfl⟩ := Nat.exists_eq_succ_of_ne_zero (Nat.ne_zero_of_lt hn)
  simp only [List.length_cons, List.length_append, List.length_nil] at hn
  have hcount : ts.length ≤ n := by
    have := count_le_intercalate ts
    omega
  have hshort (t : List Char) (ht : t ∈ ts) : t.length < n := by
    have := length_le_intercalate ht
    omega
  have hitems : List.Forall₂ (fun t m => ∀ rest, Ends rest →
      readMember (readValue n) (t ++ rest) = some (m, rest)) ts ms :=
    ((List.forall₂_and_left ts _).mpr ⟨hshort, h⟩).imp fun t m ht => ht.2.read ht.1
  have hquote (t : List Char) (m : List Char × Value) (ht : ReadsMember t m) :
      ∃ c cs, t = c :: cs ∧ c ≠ '}' := by
    obtain ⟨key, us, tv, rfl, -⟩ := ht
    exact ⟨_, _, rfl, by decide⟩
  have hfirst := ((List.forall₂_and_left ts _).mp (h.imp fun t m ht => ⟨hquote t m ht, ht⟩)).1
  simp only [List.cons_append, List.append_assoc, List.nil_append, readValue,
    readList_intercalate (by decide) (by decide) hitems hfirst hcount, Option.map_some]

end Json

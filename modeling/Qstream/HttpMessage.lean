import Mathlib

/-! Messages of the HTTP/1 kind, as bytes: a start line, fields, an empty line, and a body whose
length a field gives. What is written is read back, and nothing of what follows it. -/
namespace HttpMessage

def CR : UInt8 := 13
def LF : UInt8 := 10
def SPACE : UInt8 := 32
def COLON : UInt8 := 58

structure Frame where
  start : List UInt8
  fields : List (List UInt8 × List UInt8)
  body : List UInt8
  deriving DecidableEq, Repr

/-- Cut at the first line end. -/
def readLine : List UInt8 → Option (List UInt8 × List UInt8)
  | [] => none
  | b :: rest =>
    if b = CR ∧ rest.head? = some LF then some ([], rest.tail)
    else (readLine rest).map fun (line, rest) => (b :: line, rest)

/-- The lines before the first empty one. -/
def readLines : ℕ → List UInt8 → Option (List (List UInt8) × List UInt8)
  | 0, _ => none
  | k + 1, data =>
    match readLine data with
    | none => none
    | some (line, rest) =>
      if line = [] then some ([], rest)
      else (readLines k rest).map fun (lines, rest) => (line :: lines, rest)

/-- The name and the value of a field. -/
def readField (line : List UInt8) : List UInt8 × List UInt8 :=
  (line.takeWhile (· ≠ COLON), ((line.dropWhile (· ≠ COLON)).drop 1).dropWhile (· = SPACE))

/-- A decimal number. -/
def readNat (digits : List UInt8) : Option ℕ :=
  if digits ≠ [] ∧ ∀ d ∈ digits, 48 ≤ d ∧ d ≤ 57 then
    some (digits.foldl (fun n d => n * 10 + (d.toNat - 48)) 0)
  else none

/-- One message, whose body is as long as the field `name` says, or is not sent. -/
def read (name : List UInt8) (hasBody : Bool) (data : List UInt8) :
    Option (Frame × List UInt8) :=
  match readLines data.length data with
  | some (start :: lines, rest) =>
    let fields := lines.map readField
    (if hasBody then (fields.lookup name).bind readNat else some 0).bind fun n =>
      if n ≤ rest.length then some (⟨start, fields, rest.take n⟩, rest.drop n) else none
  | _ => none

def endLine (line : List UInt8) : List UInt8 := line ++ [CR, LF]

def writeField (f : List UInt8 × List UInt8) : List UInt8 := f.1 ++ [COLON, SPACE] ++ f.2

/-- The start line and the fields. -/
def Frame.head (m : Frame) : List UInt8 :=
  (m.start :: m.fields.map writeField).flatMap endLine ++ [CR, LF]

/-- A message that its lines do not break up. -/
structure Frame.Clean (m : Frame) : Prop where
  start : m.start ≠ [] ∧ CR ∉ m.start
  names : ∀ f ∈ m.fields, CR ∉ f.1 ∧ COLON ∉ f.1
  values : ∀ f ∈ m.fields, CR ∉ f.2 ∧ f.2.head? ≠ some SPACE

theorem readLine_endLine {line : List UInt8} (h : CR ∉ line) (rest : List UInt8) :
    readLine (endLine line ++ rest) = some (line, rest) := by
  induction line with
  | nil => rfl
  | cons b line ih =>
    obtain ⟨hb, hline⟩ := List.mem_cons.not.mp h |> not_or.mp
    have hrest : b :: line ++ [CR, LF] ++ rest = b :: (endLine line ++ rest) := rfl
    rw [endLine, hrest, readLine, if_neg fun h => hb h.1.symm, ih hline]
    rfl

theorem readLines_endLine {lines : List (List UInt8)} (h : ∀ l ∈ lines, l ≠ [] ∧ CR ∉ l)
    (rest : List UInt8) {k : ℕ} (hk : lines.length < k) :
    readLines k (lines.flatMap endLine ++ [CR, LF] ++ rest) = some (lines, rest) := by
  induction lines generalizing k with
  | nil =>
    obtain ⟨k, rfl⟩ := Nat.exists_eq_add_one.mpr (Nat.zero_lt_of_lt hk)
    rfl
  | cons line lines ih =>
    obtain ⟨k, rfl⟩ := Nat.exists_eq_add_one.mpr (Nat.zero_lt_of_lt hk)
    obtain ⟨hne, hcr⟩ := h line List.mem_cons_self
    have hread := ih (fun l hl => h l (List.mem_cons_of_mem _ hl)) (Nat.lt_of_succ_lt_succ hk)
    have happ : (line :: lines).flatMap endLine ++ [CR, LF] ++ rest =
        endLine line ++ (lines.flatMap endLine ++ [CR, LF] ++ rest) := by
      simp only [List.flatMap_cons, List.append_assoc]
    rw [happ, readLines, readLine_endLine hcr]
    simp only [if_neg hne, hread, Option.map_some]

theorem length_le_endLine (lines : List (List UInt8)) :
    lines.length ≤ (lines.flatMap endLine).length := by
  induction lines with
  | nil => exact le_rfl
  | cons line lines ih =>
    simp only [List.flatMap_cons, List.length_append, List.length_cons, endLine] at ih ⊢
    omega

theorem readField_writeField {f : List UInt8 × List UInt8} (hname : COLON ∉ f.1)
    (hvalue : f.2.head? ≠ some SPACE) : readField (writeField f) = f := by
  obtain ⟨name, value⟩ := f
  have hall : ∀ b ∈ name, decide (b ≠ COLON) = true := fun b hb =>
    decide_eq_true fun h => hname (h ▸ hb)
  have hfield : writeField (name, value) = name ++ COLON :: SPACE :: value := by
    simp [writeField]
  have htrim : value.dropWhile (· = SPACE) = value := by
    refine List.dropWhile_eq_self_iff.mpr fun hlen hspace => hvalue ?_
    rw [List.head?_eq_getElem?, List.getElem?_eq_getElem hlen]
    exact congrArg some (of_decide_eq_true hspace)
  simp only [readField, hfield, List.takeWhile_append_of_pos hall, List.dropWhile_append_of_pos hall]
  simp [htrim]

/-- What is written is read back, and what follows is left. -/
theorem read_head {m : Frame} (h : m.Clean) {name : List UInt8}
    (hlen : (m.fields.lookup name).bind readNat = some m.body.length) (hasBody : Bool)
    (rest : List UInt8) :
    read name hasBody (m.head ++ (if hasBody then m.body else []) ++ rest) =
      some ({ m with body := if hasBody then m.body else [] }, rest) := by
  have hlines : ∀ l ∈ m.start :: m.fields.map writeField, l ≠ [] ∧ CR ∉ l := by
    intro l hl
    rcases List.mem_cons.mp hl with rfl | hl
    · exact h.start
    · obtain ⟨f, hf, rfl⟩ := List.mem_map.mp hl
      refine ⟨by simp [writeField], ?_⟩
      have hname := (h.names f hf).1
      have hvalue := (h.values f hf).1
      simp only [writeField, List.mem_append, List.mem_cons, List.not_mem_nil, or_false, not_or]
      exact ⟨⟨hname, by decide, by decide⟩, hvalue⟩
  have hfields : (m.fields.map writeField).map readField = m.fields := by
    rw [List.map_map]
    refine (List.map_congr_left fun f hf => ?_).trans (List.map_id _)
    exact readField_writeField (h.names f hf).2 (h.values f hf).2
  have hfuel : (m.start :: m.fields.map writeField).length <
      (m.head ++ (if hasBody then m.body else []) ++ rest).length := by
    have hle := length_le_endLine (m.start :: m.fields.map writeField)
    simp only [Frame.head, List.length_append, List.length_cons] at hle ⊢
    omega
  have hread := readLines_endLine hlines ((if hasBody then m.body else []) ++ rest) hfuel
  rw [← List.append_assoc] at hread
  change readLines _ (m.head ++ _ ++ rest) = _ at hread
  rw [read, hread]
  simp only [hfields]
  cases hasBody with
  | false => rfl
  | true => simp [hlen]

end HttpMessage

import Qstream.Protocol

/-! Text as the code reads it: strict and lossy UTF-8 decoding, lines, trimming and
number parsing, on lists of characters. -/
namespace Qstream.Text

def REPLACEMENT_CHARACTER : Char := '\uFFFD'

/-- A continuation byte within the given bounds. -/
def inRange (lo hi b : UInt8) : Bool := lo ≤ b ∧ b ≤ hi

/-- The low six bits of a continuation byte. -/
def low6 (b : UInt8) : ℕ := b.toNat % 64

/-- Decode the first character; `none` stands for a maximal ill-formed sequence, and the
rest begins after it. -/
def nextChar (b : UInt8) (rest : Bytes) : Option Char × Bytes :=
  if b < 0x80 then (some (Char.ofNat b.toNat), rest)
  else if inRange 0xC2 0xDF b then
    match rest with
    | c :: rest1 =>
      if inRange 0x80 0xBF c then (some (Char.ofNat (b.toNat % 32 * 64 + low6 c)), rest1)
      else (none, rest)
    | [] => (none, [])
  else if inRange 0xE0 0xEF b then
    let lo : UInt8 := if b = 0xE0 then 0xA0 else 0x80
    let hi : UInt8 := if b = 0xED then 0x9F else 0xBF
    match rest with
    | c :: rest1 =>
      if inRange lo hi c then
        match rest1 with
        | d :: rest2 =>
          if inRange 0x80 0xBF d then
            (some (Char.ofNat ((b.toNat % 16 * 64 + low6 c) * 64 + low6 d)), rest2)
          else (none, rest1)
        | [] => (none, [])
      else (none, rest)
    | [] => (none, [])
  else if inRange 0xF0 0xF4 b then
    let lo : UInt8 := if b = 0xF0 then 0x90 else 0x80
    let hi : UInt8 := if b = 0xF4 then 0x8F else 0xBF
    match rest with
    | c :: rest1 =>
      if inRange lo hi c then
        match rest1 with
        | d :: rest2 =>
          if inRange 0x80 0xBF d then
            match rest2 with
            | e :: rest3 =>
              if inRange 0x80 0xBF e then
                (some (Char.ofNat (((b.toNat % 8 * 64 + low6 c) * 64 + low6 d) * 64 + low6 e)),
                  rest3)
              else (none, rest2)
            | [] => (none, [])
          else (none, rest1)
        | [] => (none, [])
      else (none, rest)
    | [] => (none, [])
  else (none, rest)

/-- The characters of a byte string, `none` for each ill-formed sequence. Every
character uses up a byte, so as many steps as there are bytes are enough. -/
def decodeSteps : ℕ → Bytes → List (Option Char)
  | 0, _ => []
  | _ + 1, [] => []
  | n + 1, b :: rest =>
    let (c, rest') := nextChar b rest
    c :: decodeSteps n rest'

def decodeUtf8 (data : Bytes) : List (Option Char) := decodeSteps data.length data

def fromUtf8 (data : Bytes) : Option (List Char) := (decodeUtf8 data).mapM id

def fromUtf8Lossy (data : Bytes) : List Char :=
  (decodeUtf8 data).map fun c => c.getD REPLACEMENT_CHARACTER

def asBytes (s : List Char) : Bytes := (String.ofList s).toUTF8.toList

/-- Cut after every line feed. -/
def splitInclusive : List Char → List (List Char)
  | [] => []
  | c :: cs =>
    if c = '\n' then [c] :: splitInclusive cs
    else match splitInclusive cs with
      | [] => [[c]]
      | l :: ls => (c :: l) :: ls

def stripSuffix (suffix s : List Char) : Option (List Char) :=
  if suffix <:+ s then some (s.take (s.length - suffix.length)) else none

def stripPrefix (pre s : List Char) : Option (List Char) :=
  if pre <+: s then some (s.drop pre.length) else none

def startsWith (pre s : List Char) : Bool := pre <+: s

/-- Drop a line feed, and a carriage return before it. -/
def lineContent (l : List Char) : List Char :=
  match stripSuffix ['\n'] l with
  | some l1 => (stripSuffix ['\r'] l1).getD l1
  | none => l

def lines (s : List Char) : List (List Char) := (splitInclusive s).map lineContent

/-- The Unicode property White_Space. -/
def isWhitespace (c : Char) : Bool :=
  let n := c.toNat
  (0x9 ≤ n ∧ n ≤ 0xD) ∨ n = 0x20 ∨ n = 0x85 ∨ n = 0xA0 ∨ n = 0x1680 ∨
    (0x2000 ≤ n ∧ n ≤ 0x200A) ∨ n = 0x2028 ∨ n = 0x2029 ∨ n = 0x202F ∨ n = 0x205F ∨ n = 0x3000

def trim (s : List Char) : List Char :=
  ((s.dropWhile isWhitespace).reverse.dropWhile isWhitespace).reverse

def isAsciiGraphic (c : Char) : Bool := 0x21 ≤ c.toNat ∧ c.toNat ≤ 0x7E

def isAsciiDigit (c : Char) : Bool := 0x30 ≤ c.toNat ∧ c.toNat ≤ 0x39

/-- A number of the type `u64`: an optional plus sign and decimal digits. -/
def parseU64 (s : List Char) : Option ℕ :=
  let digits := match s with
    | '+' :: ds => ds
    | ds => ds
  if digits = [] ∨ ¬ digits.all isAsciiDigit then none
  else
    let n := digits.foldl (fun acc c => acc * 10 + (c.toNat - 0x30)) 0
    if n < 2 ^ 64 then some n else none

example : fromUtf8 [0x61, 0xC3, 0xA9] = some ['a', 'é'] := by decide
example : fromUtf8Lossy [0x61, 0xE2, 0x82, 0x62] = ['a', REPLACEMENT_CHARACTER, 'b'] := by decide
example : lines "a\r\n\nb".toList = ["a".toList, [], "b".toList] := by decide

end Qstream.Text

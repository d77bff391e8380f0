import Qstream.Text

/-! Lines written and read back, trimmed text, and decimal numbers. -/
namespace Qstream.Text

/-- Every line followed by a line feed. -/
def joinLines (ls : List (List Char)) : List Char := ls.flatMap fun l => l ++ ['\n']

/-- A line without the carriage return at its end. -/
def chomp (l : List Char) : List Char := (stripSuffix ['\r'] l).getD l

theorem joinLines_append (ls ms : List (List Char)) :
    joinLines (ls ++ ms) = joinLines ls ++ joinLines ms := List.flatMap_append

theorem joinLines_cons (l : List Char) (ls : List (List Char)) :
    joinLines (l :: ls) = l ++ ['\n'] ++ joinLines ls := rfl

theorem splitInclusive_line {l : List Char} (h : '\n' ∉ l) (rest : List Char) :
    splitInclusive (l ++ '\n' :: rest) = (l ++ ['\n']) :: splitInclusive rest := by
  induction l with
  | nil => simp [splitInclusive]
  | cons c l ih =>
    obtain ⟨hc, hl⟩ := not_or.mp (mt List.mem_cons.mpr h)
    simp only [List.cons_append, splitInclusive, if_neg (Ne.symm hc), ih hl]

theorem stripSuffix_append (s suffix : List Char) : stripSuffix suffix (s ++ suffix) = some s := by
  rw [stripSuffix, if_pos (List.suffix_append s suffix)]
  simp

theorem lineContent_line (l : List Char) : lineContent (l ++ ['\n']) = chomp l := by
  rw [lineContent, stripSuffix_append]
  rfl

/-- Reading back what was written line by line, up to a carriage return at the end of a line. -/
theorem lines_joinLines {ls : List (List Char)} (h : ∀ l ∈ ls, '\n' ∉ l) :
    lines (joinLines ls) = ls.map chomp := by
  induction ls with
  | nil => rfl
  | cons l ls ih =>
    have htail := ih fun l' hl' => h l' (List.mem_cons_of_mem _ hl')
    rw [joinLines_cons, List.append_assoc, List.singleton_append, lines,
      splitInclusive_line (h l List.mem_cons_self), List.map_cons, lineContent_line, List.map_cons,
      ← htail]
    rfl

/-- A piece of a text has a line feed at its end at most. -/
theorem exists_of_mem_splitInclusive {s x : List Char} (h : x ∈ splitInclusive s) :
    ∃ l, '\n' ∉ l ∧ (x = l ∨ x = l ++ ['\n']) := by
  induction s generalizing x with
  | nil => cases h
  | cons c s ih =>
    rw [splitInclusive] at h
    split at h
    next hc =>
      rcases List.mem_cons.mp h with rfl | h
      · exact ⟨[], List.not_mem_nil, .inr (by rw [hc]; rfl)⟩
      · exact ih h
    next hc =>
    have hcons {l : List Char} (hl : '\n' ∉ l) : '\n' ∉ c :: l :=
      fun hm => (List.mem_cons.mp hm).elim (fun heq => hc heq.symm) hl
    split at h
    next => exact ⟨x, by rw [List.mem_singleton.mp h]; exact hcons List.not_mem_nil, .inl rfl⟩
    next l ls hsplit =>
      rw [hsplit] at ih
      rcases List.mem_cons.mp h with rfl | h
      · obtain ⟨l', hl', heq⟩ := ih List.mem_cons_self
        refine ⟨c :: l', hcons hl', ?_⟩
        rcases heq with rfl | rfl
        · exact .inl rfl
        · exact .inr rfl
      · exact ih (List.mem_cons_of_mem _ h)

theorem chomp_isPrefix (l : List Char) : chomp l <+: l := by
  unfold chomp stripSuffix
  split
  · exact List.take_prefix _ _
  · exact List.prefix_rfl

theorem newline_notMem_lines {s l : List Char} (h : l ∈ lines s) : '\n' ∉ l := by
  obtain ⟨x, hx, rfl⟩ := List.mem_map.mp h
  obtain ⟨l, hl, heq⟩ := exists_of_mem_splitInclusive hx
  rcases heq with heq | heq
  · have hnone : stripSuffix ['\n'] l = none := by
      rw [stripSuffix, if_neg fun hsuf => hl (hsuf.mem (List.mem_singleton_self _))]
    rw [heq, lineContent, hnone]
    exact hl
  · rw [heq, lineContent_line]
    exact fun hm => hl ((chomp_isPrefix l).mem hm)

theorem startsWith_iff {pre s : List Char} : startsWith pre s = true ↔ pre <+: s :=
  decide_eq_true_iff

theorem startsWith_chomp {pre l : List Char} (h : startsWith pre l = false) :
    startsWith pre (chomp l) = false := by
  rw [Bool.eq_false_iff] at h ⊢
  exact fun hc => h (startsWith_iff.mpr ((startsWith_iff.mp hc).trans (chomp_isPrefix l)))

/-- A line that begins with a character other than a carriage return keeps it. -/
theorem startsWith_chomp_of_ne {c : Char} {l : List Char} (hc : c ≠ '\r')
    (h : startsWith [c] l = true) : startsWith [c] (chomp l) = true := by
  obtain ⟨t, rfl⟩ := startsWith_iff.mp h
  refine startsWith_iff.mpr ?_
  unfold chomp stripSuffix
  split
  next hsuf =>
    cases t with
    | nil =>
      obtain ⟨u, hu⟩ := hsuf
      have hlast := congrArg List.getLast? hu
      simp only [List.getLast?_append, List.append_nil, List.getLast?_singleton,
        Option.some_or, Option.some.injEq] at hlast
      exact absurd hlast.symm hc
    | cons d t => exact ⟨(d :: t).take t.length, by simp⟩
  next => exact ⟨t, rfl⟩

theorem chomp_of_notMem {l : List Char} (h : '\r' ∉ l) : chomp l = l := by
  have hnone : stripSuffix ['\r'] l = none := by
    rw [stripSuffix, if_neg fun hsuf => h (hsuf.mem (List.mem_singleton_self _))]
  rw [chomp, hnone]
  rfl

/-! Carriage returns. -/

/-- Every carriage return is followed by a line feed. -/
def OnlyCrlf : List Char → Prop
  | [] => True
  | c :: cs => (c = '\r' → cs.head? = some '\n') ∧ OnlyCrlf cs

instance decidableOnlyCrlf : (s : List Char) → Decidable (OnlyCrlf s)
  | [] => .isTrue trivial
  | c :: cs =>
    have := decidableOnlyCrlf cs
    inferInstanceAs (Decidable ((c = '\r' → cs.head? = some '\n') ∧ OnlyCrlf cs))

theorem lineContent_of_notMem {l : List Char} (h : '\n' ∉ l) : lineContent l = l := by
  have hnone : stripSuffix ['\n'] l = none := by
    rw [stripSuffix, if_neg fun hsuf => h (hsuf.mem (List.mem_singleton_self _))]
  rw [lineContent, hnone]

theorem chomp_concat (l : List Char) : chomp (l ++ ['\r']) = l := by
  rw [chomp, stripSuffix_append, Option.getD_some]

/-- One more character in front stays, unless it is a carriage return at the end of the line. -/
theorem chomp_cons {c : Char} {l : List Char} (h : l = [] → c ≠ '\r') :
    chomp (c :: l) = c :: chomp l := by
  by_cases hcr : ['\r'] <:+ l
  · obtain ⟨t, rfl⟩ := hcr
    rw [chomp_concat, ← List.cons_append, chomp_concat]
  · have hcons : ¬ ['\r'] <:+ c :: l := by
      intro hsuf
      rcases List.suffix_cons_iff.mp hsuf with heq | hsuf
      · cases l with
        | nil => exact h rfl (List.cons.inj heq).1.symm
        | cons d l => cases heq
      · exact hcr hsuf
    rw [chomp, chomp, stripSuffix, stripSuffix, if_neg hcr, if_neg hcons]
    rfl

/-- One more character in front of a line, which is not the carriage return of its end. -/
theorem return_notMem_lineContent {c : Char} {l0 l : List Char} (hn : '\n' ∉ l0)
    (hl : l = l0 ∨ l = l0 ++ ['\n']) (hc : c ≠ '\n') (hr : c ≠ '\r')
    (h : '\r' ∉ lineContent l) : '\r' ∉ lineContent (c :: l) := by
  have hcons : '\n' ∉ c :: l0 := fun hm => (List.mem_cons.mp hm).elim (fun heq => hc heq.symm) hn
  rcases hl with rfl | rfl
  · rw [lineContent_of_notMem hn] at h
    rw [lineContent_of_notMem hcons]
    exact fun hm => (List.mem_cons.mp hm).elim (fun heq => hr heq.symm) h
  · rw [lineContent_line] at h
    rw [← List.cons_append, lineContent_line, chomp_cons fun _ => hr]
    exact fun hm => (List.mem_cons.mp hm).elim (fun heq => hr heq.symm) h

/-- Without stray carriage returns there is none in any line. -/
theorem return_notMem_lines {s : List Char} (h : OnlyCrlf s) : ∀ l ∈ lines s, '\r' ∉ l := by
  induction s with
  | nil =>
    intro l hl
    cases hl
  | cons c s ih =>
    have hs := ih h.2
    rw [lines, splitInclusive]
    by_cases hc : c = '\n'
    · have hempty : lineContent [c] = [] := by rw [hc]; decide
      rw [if_pos hc, List.map_cons, hempty]
      exact List.forall_mem_cons.mpr ⟨List.not_mem_nil, hs⟩
    rw [if_neg hc]
    by_cases hr : c = '\r'
    · -- the line ends here
      obtain ⟨s', rfl⟩ := List.head?_eq_some_iff.mp (h.1 hr)
      have hempty : lineContent [c, '\n'] = [] := by rw [hr]; decide
      rw [lines, splitInclusive, if_pos rfl, List.map_cons] at hs
      rw [splitInclusive, if_pos rfl, List.map_cons, hempty]
      exact List.forall_mem_cons.mpr ⟨List.not_mem_nil, (List.forall_mem_cons.mp hs).2⟩
    rw [lines] at hs
    cases hsplit : splitInclusive s with
    | nil =>
      have hempty : '\n' ∉ ([] : List Char) := List.not_mem_nil
      have hone := return_notMem_lineContent hempty (.inl rfl) hc hr (by decide)
      exact List.forall_mem_cons.mpr ⟨hone, List.forall_mem_nil _⟩
    | cons l ls =>
      obtain ⟨l0, hn, hl⟩ := exists_of_mem_splitInclusive (hsplit ▸ List.mem_cons_self : l ∈ _)
      rw [hsplit, List.map_cons, List.forall_mem_cons] at hs
      exact List.forall_mem_cons.mpr ⟨return_notMem_lineContent hn hl hc hr hs.1, hs.2⟩

/-- Lines without line feeds and carriage returns are read back as they are. -/
theorem lines_joinLines_clean {ls : List (List Char)} (h : ∀ l ∈ ls, '\n' ∉ l ∧ '\r' ∉ l) :
    lines (joinLines ls) = ls := by
  rw [lines_joinLines fun l hl => (h l hl).1]
  exact (List.map_congr_left fun l hl => chomp_of_notMem (h l hl).2).trans (List.map_id _)

/-! Trimmed text. -/

theorem trim_eq_rdropWhile (s : List Char) :
    trim s = (s.dropWhile isWhitespace).rdropWhile isWhitespace := rfl

theorem mem_of_mem_trim {s : List Char} {c : Char} (h : c ∈ trim s) : c ∈ s :=
  (List.dropWhile_suffix isWhitespace).mem ((List.rdropWhile_prefix isWhitespace _).mem h)

theorem trim_eq_self {s : List Char} (h : ∀ c ∈ s, isWhitespace c = false) : trim s = s := by
  have hhead : s.dropWhile isWhitespace = s :=
    List.dropWhile_eq_self_iff.mpr fun hl => by simp [h _ (List.getElem_mem hl)]
  rw [trim_eq_rdropWhile, hhead]
  exact List.rdropWhile_eq_self_iff.mpr fun hl => by
    simp [h _ (List.getLast_mem hl)]

theorem trim_trim (s : List Char) : trim (trim s) = trim s := by
  have hpre := List.rdropWhile_prefix isWhitespace (s.dropWhile isWhitespace)
  have hhead : (trim s).dropWhile isWhitespace = trim s := by
    refine List.dropWhile_eq_self_iff.mpr fun hl => ?_
    have hfirst := List.dropWhile_eq_self_iff.mp
      (List.dropWhile_idempotent isWhitespace s) (hl.trans_le hpre.length_le)
    rwa [← hpre.getElem hl] at hfirst
  conv_lhs => rw [trim_eq_rdropWhile, hhead, trim_eq_rdropWhile]
  exact List.rdropWhile_idempotent isWhitespace _

/-- A trimmed line does not end with a carriage return. -/
theorem chomp_trim (s : List Char) : chomp (trim s) = trim s := by
  have hnone : stripSuffix ['\r'] (trim s) = none := by
    rw [stripSuffix, if_neg]
    rintro ⟨t, ht⟩
    have hne : trim s ≠ [] := by rw [← ht]; simp
    have hlast : ¬ isWhitespace ((trim s).getLast hne) = true :=
      List.rdropWhile_last_not isWhitespace _ hne
    have hcr : (trim s).getLast hne = '\r' := by simp only [← ht, List.getLast_append_singleton]
    exact hlast (by rw [hcr]; decide)
  rw [chomp, hnone]
  rfl

/-! Decimal numbers. -/

theorem isAsciiDigit_of_isDigit {c : Char} (h : c.isDigit = true) : isAsciiDigit c = true := by
  have hb := Char.isDigit_iff_toNat.mp h
  exact decide_eq_true hb

theorem isWhitespace_of_isAsciiDigit {c : Char} (h : isAsciiDigit c = true) :
    isWhitespace c = false := by
  simp only [isAsciiDigit, decide_eq_true_eq] at h
  simp only [isWhitespace, decide_eq_false_iff_not]
  omega

theorem isAsciiDigit_of_mem_toString {n : ℕ} {c : Char} (h : c ∈ (toString n).toList) :
    isAsciiDigit c = true := by
  rw [Nat.toString_eq_ofList_toDigits, String.toList_ofList] at h
  exact isAsciiDigit_of_isDigit (Nat.isDigit_of_mem_toDigits (by decide) (by decide) h)

theorem trim_toString (n : ℕ) : trim (toString n).toList = (toString n).toList :=
  trim_eq_self fun _ hc => isWhitespace_of_isAsciiDigit (isAsciiDigit_of_mem_toString hc)

/-- A number that fits is read back as it was printed. -/
theorem parseU64_toString {n : ℕ} (h : n < 2 ^ 64) : parseU64 (toString n).toList = some n := by
  have hdigits : ∀ c ∈ (toString n).toList, isAsciiDigit c = true :=
    fun c hc => isAsciiDigit_of_mem_toString hc
  have hne : (toString n).toList ≠ [] := by
    rw [Nat.toString_eq_ofList_toDigits, String.toList_ofList]
    exact Nat.toDigits_ne_nil
  have hvalue : (toString n).toList.foldl (fun acc c => acc * 10 + (c.toNat - 0x30)) 0 = n := by
    rw [Nat.toString_eq_ofList_toDigits, String.toList_ofList]
    have hread := Nat.ofDigitChars_ten_toDigits (n := n)
    rw [Nat.ofDigitChars_eq_foldl] at hread
    simp only [Nat.mul_comm 10] at hread
    exact hread
  have hall : (toString n).toList.all isAsciiDigit = true := List.all_eq_true.mpr hdigits
  unfold parseU64
  split
  next ds heq =>
    have hplus := hdigits '+' (by rw [heq]; exact List.mem_cons_self)
    exact absurd hplus (by decide)
  next =>
    dsimp only
    rw [if_neg (not_or.mpr ⟨hne, not_not.mpr hall⟩), hvalue, if_pos h]

end Qstream.Text

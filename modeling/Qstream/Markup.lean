import Mathlib

/-! Markup as pieces, tags in angle brackets and text between them, and what a search finds in it
when it is written out. -/
namespace Markup

/-- What follows the first occurrence of a pattern. -/
def after (pattern : List Char) : List Char → Option (List Char)
  | [] => if pattern = [] then some [] else none
  | c :: s => if pattern <+: c :: s then some ((c :: s).drop pattern.length) else after pattern s

def bracketed (name : List Char) : List Char := '<' :: name ++ ['>']

inductive Piece
  | tag (name : List Char)
  | text (content : List Char)
  deriving DecidableEq

def Piece.write : Piece → List Char
  | .tag name => bracketed name
  | .text content => content

def write (ps : List Piece) : List Char := ps.flatMap Piece.write

/-- No tag begins or ends inside of a piece. -/
def Piece.Plain : Piece → Prop
  | .tag name => '<' ∉ name ∧ '>' ∉ name
  | .text content => '<' ∉ content

instance : DecidablePred Piece.Plain := fun p =>
  match p with
  | .tag name => inferInstanceAs (Decidable ('<' ∉ name ∧ '>' ∉ name))
  | .text content => inferInstanceAs (Decidable ('<' ∉ content))

/-- The text of the first element with a name. -/
def content (name s : List Char) : Option (List Char) :=
  (after (bracketed name) s).map (·.takeWhile (· ≠ '<'))

variable {name n t p s : List Char} {ps : List Piece}

theorem after_prefix (p s : List Char) : after p (p ++ s) = some s := by
  cases h : p ++ s with
  | nil =>
    obtain ⟨rfl, rfl⟩ := List.append_eq_nil_iff.mp h
    rfl
  | cons c u =>
    rw [after, ← h, if_pos (List.prefix_append p s), List.drop_left]

/-- A search for a bracket passes over text. -/
theorem after_text (ht : '<' ∉ t) (p s : List Char) :
    after ('<' :: p) (t ++ s) = after ('<' :: p) s := by
  induction t with
  | nil => rfl
  | cons c t ih =>
    obtain ⟨hc, ht⟩ := List.ne_and_not_mem_of_not_mem_cons ht
    rw [List.cons_append, after, if_neg (by simp [hc]), ih ht]

theorem bracketed_prefix_iff (hname : '>' ∉ name) (hn : '>' ∉ n) :
    bracketed name <+: bracketed n ++ s ↔ name = n := by
  refine ⟨fun h => ?_, fun h => h ▸ List.prefix_append _ _⟩
  obtain ⟨u, hu⟩ := h
  have hsplit : name ++ '>' :: u = n ++ '>' :: s := by
    simpa [bracketed] using hu
  have hall {l : List Char} (hl : '>' ∉ l) (v : List Char) :
      (l ++ '>' :: v).takeWhile (· ≠ '>') = l := by
    have hne : ∀ c ∈ l, decide (c ≠ '>') = true := fun c hc => decide_eq_true fun h => hl (h ▸ hc)
    rw [List.takeWhile_append_of_pos hne]
    simp
  rw [← hall hname u, hsplit, hall hn s]

/-- A search for a tag passes over every other one. -/
theorem after_bracketed_ne (hname : '>' ∉ name) (hn : '<' ∉ n ∧ '>' ∉ n) (hne : name ≠ n)
    (s : List Char) : after (bracketed name) (bracketed n ++ s) = after (bracketed name) s := by
  have hstart : ¬ bracketed name <+: bracketed n ++ s := fun h =>
    hne ((bracketed_prefix_iff hname hn.2).mp h)
  have hinside : '<' ∉ n ++ ['>'] := by simpa using hn.1
  have hsplit : bracketed n ++ s = '<' :: ((n ++ ['>']) ++ s) := rfl
  rw [hsplit] at hstart ⊢
  rw [after, if_neg hstart]
  exact after_text hinside _ s

/-- A search for a tag passes over all pieces in which it is not. -/
theorem after_write (hname : '>' ∉ name) (hps : ∀ p ∈ ps, p.Plain) (hnot : Piece.tag name ∉ ps)
    (s : List Char) : after (bracketed name) (write ps ++ s) = after (bracketed name) s := by
  induction ps with
  | nil => rfl
  | cons p ps ih =>
    obtain ⟨hp, hnot⟩ := List.ne_and_not_mem_of_not_mem_cons hnot
    have hplain := hps p List.mem_cons_self
    have hrest := ih (fun q hq => hps q (List.mem_cons_of_mem _ hq)) hnot
    rw [write, List.flatMap_cons, List.append_assoc]
    cases p with
    | tag n => exact (after_bracketed_ne hname hplain (fun h => hp (h ▸ rfl)) _).trans hrest
    | text t => exact (after_text hplain _ _).trans hrest

/-- The first element with a name is found. -/
theorem after_tag (hname : '>' ∉ name) (hps : ∀ p ∈ ps, p.Plain) (hnot : Piece.tag name ∉ ps)
    (qs : List Piece) : after (bracketed name) (write (ps ++ .tag name :: qs)) = some (write qs) := by
  have hsplit : write (ps ++ .tag name :: qs) = write ps ++ (bracketed name ++ write qs) := by
    simp [write, Piece.write]
  rw [hsplit, after_write hname hps hnot, after_prefix]

theorem content_write (hname : '>' ∉ name) (hps : ∀ p ∈ ps, p.Plain) (hnot : Piece.tag name ∉ ps)
    (ht : '<' ∉ t) (n : List Char) (qs : List Piece) :
    content name (write (ps ++ .tag name :: .text t :: .tag n :: qs)) = some t := by
  have hall : ∀ c ∈ t, decide (c ≠ '<') = true := fun c hc => decide_eq_true fun h => ht (h ▸ hc)
  have hsplit : write (.text t :: .tag n :: qs) = t ++ '<' :: (n ++ '>' :: write qs) := by
    simp [write, Piece.write, bracketed]
  rw [content, after_tag hname hps hnot, Option.map_some, hsplit, List.takeWhile_append_of_pos hall]
  simp

/-- Elements with nothing but text in them. -/
def elements (args : List (List Char × List Char)) : List Piece :=
  args.flatMap fun a => [.tag a.1, .text a.2, .tag ('/' :: a.1)]

/-- Each of a list of elements is found by its name, whatever stands around them. -/
theorem content_elements {args : List (List Char × List Char)} (hname : '>' ∉ name)
    (hopen : name.head? ≠ some '/') (hps : ∀ p ∈ ps, p.Plain) (hnot : Piece.tag name ∉ ps)
    (hargs : ∀ a ∈ args, ('<' ∉ a.1 ∧ '>' ∉ a.1) ∧ '<' ∉ a.2) (h : args.lookup name = some t)
    (qs : List Piece) : content name (write (ps ++ elements args ++ qs)) = some t := by
  induction args generalizing ps with
  | nil => cases h
  | cons a args ih =>
    obtain ⟨hplain, ht⟩ := hargs a List.mem_cons_self
    have hsplit : ps ++ elements (a :: args) ++ qs =
        ps ++ [.tag a.1, .text a.2, .tag ('/' :: a.1)] ++ elements args ++ qs := by
      simp [elements]
    rw [List.lookup_cons] at h
    by_cases heq : name = a.1
    · subst heq
      simp only [beq_self_eq_true, Option.some.injEq] at h
      subst h
      have hfirst : ps ++ elements (a :: args) ++ qs =
          ps ++ .tag a.1 :: .text a.2 :: .tag ('/' :: a.1) :: (elements args ++ qs) := by
        simp [elements]
      rw [hfirst]
      exact content_write hname hps hnot ht _ _
    · rw [beq_false_of_ne heq] at h
      rw [hsplit]
      refine ih (fun p hp => ?_) ?_ (fun b hb => hargs b (List.mem_cons_of_mem _ hb)) h
      · rcases List.mem_append.mp hp with hp | hp
        · exact hps p hp
        · simp only [List.mem_cons, List.not_mem_nil, or_false] at hp
          rcases hp with rfl | rfl | rfl
          · exact hplain
          · exact ht
          · exact ⟨by simpa using hplain.1, by simpa using hplain.2⟩
      · have hslash : name ≠ '/' :: a.1 := fun h => hopen (h ▸ rfl)
        simp [hnot, heq, hslash]

end Markup

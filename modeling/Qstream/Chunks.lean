import Mathlib

/-! Cutting a list into numbered pieces of at most `k` elements, and rebuilding
it by writing the pieces, in any order, into a buffer of the full length. -/
namespace Chunks
variable {α : Type*}

/-- Piece number `p`, counted from 1. -/
def chunk (k : ℕ) (xs : List α) (p : ℕ) : List α := (xs.drop ((p - 1) * k)).take k

/-- Overwrite `buf` with `d` from position `pos` on. -/
def blit (buf : List α) (pos : ℕ) (d : List α) : List α :=
  buf.take pos ++ d ++ buf.drop (pos + d.length)

theorem length_chunk (k : ℕ) (xs : List α) (p : ℕ) :
    (chunk k xs p).length = min k (xs.length - (p - 1) * k) := by
  simp [chunk]

/-- The pieces `1 .. n` together are the first `n * k` elements. -/
theorem flatten_chunks (k : ℕ) (xs : List α) (n : ℕ) :
    ((List.range n).map fun i => chunk k xs (i + 1)).flatten = xs.take (n * k) := by
  induction n with
  | zero => simp
  | succ n ih =>
    rw [List.range_succ, List.map_append, List.flatten_append, ih, Nat.succ_mul, List.take_add]
    simp [chunk]

theorem getElem?_chunk (k : ℕ) (xs : List α) (p i : ℕ) (hi : i < k) :
    (chunk k xs p)[i]? = xs[(p - 1) * k + i]? := by
  simp [chunk, hi]

theorem length_blit {buf : List α} {pos : ℕ} {d : List α} (h : pos + d.length ≤ buf.length) :
    (blit buf pos d).length = buf.length := by
  simp only [blit, List.length_append, List.length_take, List.length_drop]
  omega

theorem getElem?_blit {buf : List α} {pos : ℕ} {d : List α} (h : pos + d.length ≤ buf.length)
    (i : ℕ) : (blit buf pos d)[i]? =
      if pos ≤ i ∧ i < pos + d.length then d[i - pos]? else buf[i]? := by
  have hp : (buf.take pos).length = pos := by simp; omega
  by_cases h1 : i < pos
  · have hn : ¬ (pos ≤ i ∧ i < pos + d.length) := by omega
    rw [if_neg hn, blit, List.append_assoc, List.getElem?_append_left (by omega),
      List.getElem?_take, if_pos h1]
  by_cases h2 : i < pos + d.length
  · rw [if_pos ⟨by omega, h2⟩, blit, List.append_assoc,
      List.getElem?_append_right (by omega), hp, List.getElem?_append_left (by omega)]
  · have hn : ¬ (pos ≤ i ∧ i < pos + d.length) := by omega
    rw [if_neg hn, blit, List.getElem?_append_right (by simp; omega), List.getElem?_drop]
    congr 1
    simp only [List.length_append, hp]
    omega

/-! Writes of any length at any position. A write that would pass the end of the buffer
is skipped; of several writes that cover a position the last one stands. -/

/-- The buffer after the writes `ws`, each a position and its data, one after another. -/
def writeAll (buf : List α) (ws : List (ℕ × List α)) : List α :=
  ws.foldl (fun b w => if w.1 + w.2.length ≤ b.length then blit b w.1 w.2 else b) buf

/-- The write fits into `n` elements and sets element `i`. -/
def Covers (n : ℕ) (w : ℕ × List α) (i : ℕ) : Prop :=
  w.1 + w.2.length ≤ n ∧ w.1 ≤ i ∧ i < w.1 + w.2.length

instance (n : ℕ) (w : ℕ × List α) (i : ℕ) : Decidable (Covers n w i) :=
  inferInstanceAs (Decidable (_ ∧ _ ∧ _))

theorem writeAll_concat (buf : List α) (ws : List (ℕ × List α)) (w : ℕ × List α) :
    writeAll buf (ws ++ [w]) =
      if w.1 + w.2.length ≤ (writeAll buf ws).length then blit (writeAll buf ws) w.1 w.2
      else writeAll buf ws := by
  rw [writeAll, List.foldl_append]
  rfl

theorem length_writeAll (buf : List α) (ws : List (ℕ × List α)) :
    (writeAll buf ws).length = buf.length := by
  induction ws using List.reverseRecOn with
  | nil => rfl
  | append_singleton ws w ih =>
    rw [writeAll_concat]
    split
    next hfit => rw [length_blit hfit, ih]
    next => exact ih

/-- The last write decides every position it covers. -/
theorem getElem?_writeAll_concat (buf : List α) (ws : List (ℕ × List α)) (w : ℕ × List α)
    (i : ℕ) : (writeAll buf (ws ++ [w]))[i]? =
      if Covers buf.length w i then w.2[i - w.1]? else (writeAll buf ws)[i]? := by
  rw [writeAll_concat, length_writeAll]
  by_cases hfit : w.1 + w.2.length ≤ buf.length
  · rw [if_pos hfit, getElem?_blit (by rw [length_writeAll]; exact hfit)]
    simp only [Covers, hfit, true_and]
  · rw [if_neg hfit, if_neg fun hc => hfit hc.1]

theorem getElem?_writeAll_of_uncovered {buf : List α} {ws : List (ℕ × List α)} {i : ℕ}
    (h : ∀ w ∈ ws, ¬ Covers buf.length w i) : (writeAll buf ws)[i]? = buf[i]? := by
  induction ws using List.reverseRecOn with
  | nil => rfl
  | append_singleton ws w ih =>
    have hw := h w (List.mem_append_right _ (List.mem_singleton.mpr rfl))
    rw [getElem?_writeAll_concat, if_neg hw]
    exact ih fun v hv => h v (List.mem_append_left _ hv)

/-- Writes that agree on a position set it to what they agree on, in any order. -/
theorem getElem?_writeAll_of_agree {buf : List α} {ws : List (ℕ × List α)} {i : ℕ} {x : Option α}
    (hex : ∃ w ∈ ws, Covers buf.length w i)
    (hall : ∀ w ∈ ws, Covers buf.length w i → w.2[i - w.1]? = x) :
    (writeAll buf ws)[i]? = x := by
  induction ws using List.reverseRecOn with
  | nil => obtain ⟨w, hw, -⟩ := hex; cases hw
  | append_singleton ws w ih =>
    have hlast : w ∈ ws ++ [w] := List.mem_append_right _ (List.mem_singleton.mpr rfl)
    rw [getElem?_writeAll_concat]
    split
    next hc => exact hall w hlast hc
    next hc =>
      obtain ⟨v, hv, hcv⟩ := hex
      refine ih ⟨v, ?_, hcv⟩ fun u hu => hall u (List.mem_append_left _ hu)
      rcases List.mem_append.mp hv with hv | hv
      · exact hv
      · exact absurd (List.mem_singleton.mp hv ▸ hcv) hc

/-- Below position `k`, all writes that cover a position agree on it. -/
def AgreeBelow (n k : ℕ) (ws : List (ℕ × List α)) : Prop :=
  ∀ w ∈ ws, ∀ v ∈ ws, ∀ i < k, Covers n w i → Covers n v i → w.2[i - w.1]? = v.2[i - v.1]?

/-- Writes that agree below `k` leave the same first `k` elements in every order. -/
theorem take_writeAll_perm {buf : List α} {ws vs : List (ℕ × List α)} {k : ℕ} (h : ws.Perm vs)
    (hagree : AgreeBelow buf.length k ws) :
    (writeAll buf ws).take k = (writeAll buf vs).take k := by
  apply List.ext_getElem?
  intro i
  rw [List.getElem?_take, List.getElem?_take]
  split
  next hi =>
    by_cases hex : ∃ w ∈ ws, Covers buf.length w i
    · obtain ⟨w, hw, hc⟩ := hex
      have hsame : ∀ v ∈ ws, Covers buf.length v i → v.2[i - v.1]? = w.2[i - w.1]? :=
        fun v hv hcv => hagree v hv w hw i hi hcv hc
      rw [getElem?_writeAll_of_agree ⟨w, hw, hc⟩ hsame,
        getElem?_writeAll_of_agree ⟨w, h.mem_iff.mp hw, hc⟩ fun v hv => hsame v (h.mem_iff.mpr hv)]
    · have hnone : ∀ w ∈ ws, ¬ Covers buf.length w i := fun w hw hc => hex ⟨w, hw, hc⟩
      rw [getElem?_writeAll_of_uncovered hnone,
        getElem?_writeAll_of_uncovered fun v hv => hnone v (h.mem_iff.mpr hv)]
  next => rfl

/-! Pieces written into their slots. -/

/-- The buffer after writing the numbered pieces `ps` one after another. -/
def blitAll (k : ℕ) (buf : List α) (ps : List (ℕ × List α)) : List α :=
  ps.foldl (fun b e => blit b ((e.1 - 1) * k) e.2) buf

/-- All pieces in `ps` are the pieces of `xs` they are numbered as. -/
def PiecesOf (k N : ℕ) (xs : List α) (ps : List (ℕ × List α)) : Prop :=
  ∀ e ∈ ps, 1 ≤ e.1 ∧ e.1 ≤ N ∧ e.2 = chunk k xs e.1

theorem piece_fits {k N p : ℕ} (xs : List α) (hp : 1 ≤ p) (hN : p ≤ N) :
    (p - 1) * k + (chunk k xs p).length ≤ N * k := by
  have h1 : (chunk k xs p).length ≤ k := by rw [length_chunk]; exact min_le_left _ _
  have h2 : (p - 1) * k + k ≤ N * k := by
    have := Nat.mul_le_mul_right k (show p - 1 + 1 ≤ N by omega)
    rwa [Nat.add_mul, Nat.one_mul] at this
  omega

theorem length_blitAll {k N : ℕ} {xs : List α} {ps : List (ℕ × List α)}
    (hps : PiecesOf k N xs ps) {buf : List α} (hbuf : buf.length = N * k) : (blitAll k buf ps).length = N * k := by
  induction ps generalizing buf with
  | nil => exact hbuf
  | cons e ps ih =>
    obtain ⟨h1, hN, he⟩ := hps e List.mem_cons_self
    apply ih (fun e' he' => hps e' (List.mem_cons_of_mem _ he'))
    rw [length_blit, hbuf]
    rw [hbuf, he]
    exact piece_fits xs h1 hN

/-- Pieces fit, so none of them is skipped. -/
theorem writeAll_eq_blitAll {k N : ℕ} {xs : List α} {ps : List (ℕ × List α)}
    (hps : PiecesOf k N xs ps) {buf : List α} (hbuf : buf.length = N * k) :
    writeAll buf (ps.map fun e => ((e.1 - 1) * k, e.2)) = blitAll k buf ps := by
  induction ps generalizing buf with
  | nil => rfl
  | cons e ps ih =>
    obtain ⟨⟨h1, hN, he⟩, htail⟩ := List.forall_mem_cons.mp hps
    have hfit : (e.1 - 1) * k + e.2.length ≤ buf.length := by
      rw [hbuf, he]
      exact piece_fits xs h1 hN
    have hstep := ih htail (show (blit buf ((e.1 - 1) * k) e.2).length = N * k by
      rw [length_blit hfit, hbuf])
    rw [writeAll, List.map_cons, List.foldl_cons, if_pos hfit]
    exact hstep

/-- Once every piece was written, in any order, the buffer starts with `xs`. -/
theorem take_blitAll {k N : ℕ} {xs : List α} (hk : 0 < k) (hlen : xs.length ≤ N * k)
    {ps : List (ℕ × List α)} (hps : PiecesOf k N xs ps)
    (hall : ∀ p, 1 ≤ p → p ≤ N → p ∈ ps.map Prod.fst) {buf : List α}
    (hbuf : buf.length = N * k) : (blitAll k buf ps).take xs.length = xs := by
  rw [← writeAll_eq_blitAll hps hbuf]
  apply List.ext_getElem?
  intro i
  rw [List.getElem?_take]
  by_cases hi : i < xs.length
  · rw [if_pos hi]
    refine getElem?_writeAll_of_agree ?_ fun w hw hc => ?_
    · -- the piece that covers position `i`
      have hdiv := Nat.div_add_mod i k
      have hmod := Nat.mod_lt i hk
      rw [mul_comm] at hdiv
      have hp : i / k + 1 ≤ N := (Nat.div_lt_iff_lt_mul hk).mpr (hi.trans_le hlen)
      obtain ⟨e, he, hnum⟩ := List.mem_map.mp (hall _ (Nat.le_add_left 1 _) hp)
      obtain ⟨h1, hN, hchunk⟩ := hps e he
      have hpos : (e.1 - 1) * k = i / k * k := by rw [hnum, Nat.add_sub_cancel]
      refine ⟨_, List.mem_map_of_mem he, ?_, ?_, ?_⟩
      · rw [hbuf, hchunk]
        exact piece_fits xs h1 hN
      · dsimp only
        omega
      · rw [hchunk, length_chunk, hpos]
        omega
    · -- what any piece has at position `i`
      obtain ⟨e, he, rfl⟩ := List.mem_map.mp hw
      obtain ⟨-, hlo, hhi⟩ := hc
      dsimp only at hlo hhi ⊢
      rw [(hps e he).2.2] at hhi ⊢
      rw [length_chunk] at hhi
      rw [getElem?_chunk k xs e.1 _ (by omega), Nat.add_sub_cancel' hlo]
  · rw [if_neg hi, List.getElem?_eq_none (by omega)]

/-- Pieces of at most `k` elements, each in its own slot, never overlap. -/
theorem agreeBelow_of_slots {k n m : ℕ} {ps : List (ℕ × List α)}
    (hps : ∀ e ∈ ps, 1 ≤ e.1 ∧ e.2.length ≤ k) (hkeys : (ps.map Prod.fst).Nodup) :
    AgreeBelow n m (ps.map fun e => ((e.1 - 1) * k, e.2)) := by
  intro w hw v hv i _ hcw hcv
  obtain ⟨e, he, rfl⟩ := List.mem_map.mp hw
  obtain ⟨f, hf, rfl⟩ := List.mem_map.mp hv
  obtain ⟨-, hlo, hhi⟩ := hcw
  obtain ⟨-, hlo', hhi'⟩ := hcv
  dsimp only at hlo hhi hlo' hhi' ⊢
  have hnum : ∀ g ∈ ps, (g.1 - 1) * k ≤ i → i < (g.1 - 1) * k + g.2.length → i / k + 1 = g.1 := by
    intro g hg h1 h2
    obtain ⟨hpos, hle⟩ := hps g hg
    have hdiv : i / k = g.1 - 1 := Nat.div_eq_of_lt_le h1 (by rw [Nat.succ_mul]; omega)
    omega
  have heq : e.1 = f.1 := (hnum e he hlo hhi).symm.trans (hnum f hf hlo' hhi')
  rw [List.inj_on_of_nodup_map hkeys he hf heq]

end Chunks

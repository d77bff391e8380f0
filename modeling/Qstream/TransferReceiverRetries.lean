import Qstream.TransferReceiverPatience
import Qstream.TransferReceiverRuns

/-! How often the quiet period of a download can run out: nine times for each range, and its
ranges are those of a fixed list. -/
namespace Qstream.Transfer

/-- The ranges of `N` packets from `start` on, where the first one has `count` packets. -/
def windowsFrom (N : ℕ) : ℕ → ℕ → ℕ → List (ℕ × ℕ)
  | 0, _, _ => []
  | fuel + 1, start, count =>
    if start ≤ N then
      (start, count) :: windowsFrom N fuel (start + count) (nextWindow N (start + count) count)
    else []

/-- The ranges in which a file of `N` packets is downloaded. -/
def windows (N : ℕ) : List (ℕ × ℕ) := windowsFrom N N 1 (min INITIAL_WINDOW N)

theorem nextWindow_pos {N next count : ℕ} (h : 1 ≤ count) : 1 ≤ nextWindow N next count :=
  le_min (le_min (by omega) (by decide)) (Nat.le_add_left 1 _)

theorem windowsFrom_sorted {N fuel s c : ℕ} (hc : 1 ≤ c) :
    ((windowsFrom N fuel s c).map Prod.fst).Pairwise (· < ·) ∧
      ∀ rg ∈ windowsFrom N fuel s c, s ≤ rg.1 ∧ rg.1 ≤ N := by
  induction fuel generalizing s c with
  | zero => simp [windowsFrom]
  | succ fuel ih =>
    have hnext : 1 ≤ nextWindow N (s + c) c := nextWindow_pos hc
    obtain ⟨hsorted, hbounds⟩ := ih (s := s + c) hnext
    unfold windowsFrom
    split
    next hs =>
      rw [List.map_cons, List.pairwise_cons]
      refine ⟨⟨fun x hx => ?_, hsorted⟩, fun rg hrg => ?_⟩
      · obtain ⟨rg, hrg, rfl⟩ := List.mem_map.mp hx
        have := (hbounds rg hrg).1
        omega
      · rcases List.mem_cons.mp hrg with rfl | hrg
        · exact ⟨le_rfl, hs⟩
        · have := hbounds rg hrg
          omega
    next => simp

theorem windows_sorted {N : ℕ} (hN : 1 ≤ N) :
    ((windows N).map Prod.fst).Pairwise (· < ·) ∧ ∀ rg ∈ windows N, rg.1 ≤ N := by
  obtain ⟨hsorted, hbounds⟩ : ((windows N).map Prod.fst).Pairwise (· < ·) ∧
      ∀ rg ∈ windows N, 1 ≤ rg.1 ∧ rg.1 ≤ N := windowsFrom_sorted (le_min (by decide) hN)
  exact ⟨hsorted, fun rg hrg => (hbounds rg hrg).2⟩

theorem windows_nodup {N : ℕ} (hN : 1 ≤ N) : (windows N).Nodup :=
  .of_map _ ((windows_sorted hN).1.imp ne_of_lt)

/-- A list whose elements are all in `R`, each at most `k` times. -/
theorem length_le_of_count_le {α : Type*} [inst : BEq α] [LawfulBEq α] {l R : List α} {k : ℕ}
    (hmem : ∀ x ∈ l, x ∈ R) (hcount : ∀ x, l.count x ≤ k) : l.length ≤ k * R.length := by
  classical
  obtain rfl : inst = instBEqOfDecidableEq := lawful_beq_subsingleton _ _
  calc l.length = ∑ x ∈ l.toFinset, l.count x := (List.sum_toFinset_count_eq_length l).symm
    _ ≤ l.toFinset.card * k := Finset.sum_le_card_nsmul _ _ _ fun x _ => hcount x
    _ ≤ R.toFinset.card * k :=
        Nat.mul_le_mul_right k (Finset.card_le_card fun x hx =>
          List.mem_toFinset.mpr (hmem x (List.mem_toFinset.mp hx)))
    _ ≤ R.length * k := Nat.mul_le_mul_right k (List.toFinset_card_le R)
    _ = k * R.length := Nat.mul_comm _ _

namespace ReceiverTransfer
variable {cfg : Settings} {r : ReceiverTransfer} {N s c now : ℕ} {clk : Clock}

/-- `onTick` with its call of `quietExpired` left open. -/
def onTickVia {β : Type} (cfg : Settings) (r : ReceiverTransfer) (now : ℕ) (clk : Clock)
    (ret : ReceiverTransfer × List Message → β) (call : ReceiverTransfer → List Message → β) : β :=
  if r.outcome.isSome then ret (r, [])
  else
    let (r1, sent1) := r.resendRequest cfg now
    if now ≥ r1.firstResponseDeadline ∧ r1.packets.len = 0 then
      ret (r1.failUnresponsive (clk 0) (.noResponse r1.remote r1.filename), sent1)
    else if now ≥ r1.quietDeadline then call r1 sent1
    else ret (r1, sent1)

theorem onTick_eq_via (cfg : Settings) (r : ReceiverTransfer) (now : ℕ) (clk : Clock) :
    r.onTick cfg now clk = r.onTickVia cfg now clk id fun r1 sent1 =>
      ((r1.quietExpired cfg now clk).1, sent1 ++ (r1.quietExpired cfg now clk).2) := rfl

/-- The tick finds the quiet period over. -/
def quietExpires (cfg : Settings) (r : ReceiverTransfer) (now : ℕ) (clk : Clock) : Bool :=
  r.onTickVia cfg now clk (fun _ => false) fun _ _ => true

theorem quietExpires_of_outcome (h : r.outcome ≠ none) : r.quietExpires cfg now clk = false := by
  rw [quietExpires, onTickVia, if_pos (Option.isSome_iff_ne_none.mpr h)]

/-- Repeating the request leaves the range and its retries alone. -/
theorem resendRequest_retries (cfg : Settings) (r : ReceiverTransfer) (now : ℕ) :
    ((r.resendRequest cfg now).1.Asks ↔ r.Asks) ∧
      (r.resendRequest cfg now).1.retryCount = r.retryCount := by
  -- for any new timeout: to compare the real one with the old one would take a minute
  have hkept (timeout : ℕ) :
      let t := { r with requestResent := true, firstResponseDeadline := timeout }
      (t.Asks ↔ r.Asks) ∧ t.retryCount = r.retryCount := ⟨Iff.rfl, rfl⟩
  unfold resendRequest
  split
  · exact hkept _
  · exact ⟨Iff.rfl, rfl⟩

/-- What a tick does to the retries of a download in progress: an expired quiet period uses one
up, and the last one ends the download. -/
theorem onTick_retries (hout : r.outcome = none) :
    let t := (r.onTick cfg now clk).1
    t.outcome ≠ none ∨
      (r.quietExpires cfg now clk = true ∧ r.Asks ∧ t.retryCount = r.retryCount + 1 ∧
        t.retryCount ≤ RETRY_LIMIT) ∨
      ((r.quietExpires cfg now clk = true → ¬ r.Asks) ∧ t.retryCount = r.retryCount) := by
  obtain ⟨hsame, hretry⟩ := resendRequest_retries cfg r now
  obtain ⟨r1, sent1, hres⟩ : ∃ r1 sent1, r.resendRequest cfg now = (r1, sent1) := ⟨_, _, rfl⟩
  rw [hres] at hsame hretry
  simp only [onTick_eq_via, quietExpires, onTickVia, hout, Option.isSome_none, Bool.false_eq_true,
    if_false, hres]
  split
  next => exact .inl (Option.some_ne_none _)
  split
  next =>
    rcases quietExpired_cases cfg r1 now clk with hdone | ⟨-, -, ⟨hasks, hmore, hfew⟩ | ⟨hidle, hkept⟩⟩
    · exact .inl hdone
    · exact .inr (.inl ⟨rfl, hsame.mp hasks, by rw [hmore, hretry], hfew⟩)
    · exact .inr (.inr ⟨fun _ => hsame.not.mp hidle, hkept.trans hretry⟩)
  next => exact .inr (.inr ⟨fun h => absurd h Bool.false_ne_true, hretry⟩)

end ReceiverTransfer

namespace Download
open ReceiverTransfer
variable {cfg : Settings} {S : Download} {N : ℕ} {L : List (Option (ℕ × ℕ))}

/-- The range that is current when an event finds the quiet period over. -/
def expiry (cfg : Settings) (S : Download) : ReceiverEvent → List (Option (ℕ × ℕ))
  | .content .. => []
  | .tick now clk => if S.receiver.quietExpires cfg now clk then [S.receiver.range] else []

/-- The expirations of the quiet period, in order: the range that each one meets. -/
def expirations (cfg : Settings) : Download → List ReceiverEvent → List (Option (ℕ × ℕ))
  | _, [] => []
  | S, e :: es => S.expiry cfg e ++ expirations cfg (S.apply cfg e) es

/-- The expirations so far: of ranges that were requested, and of each at most nine. -/
structure Charged (S : Download) (L : List (Option (ℕ × ℕ))) : Prop where
  known : ∀ x ∈ L, x ∈ S.requested.map some
  few : ∀ x, L.count x ≤ RETRY_LIMIT + 1

/-- Where a download of `N` packets stands with the expirations `L`. -/
inductive Spending (N : ℕ) (S : Download) (L : List (Option (ℕ × ℕ))) : Prop
  | window {s c fuel : ℕ} (hin : S.receiver.InRange N s c)
      (hlast : S.requested.getLast? = some (s, c))
      (hwindows : windows N = S.requested ++ windowsFrom N fuel (s + c) (nextWindow N (s + c) c))
      (hfuel : N < fuel + (s + c)) (hcount : L.count (some (s, c)) = S.receiver.retryCount)
      (hretry : S.receiver.retryCount ≤ RETRY_LIMIT) (hcharged : Charged S L) : Spending N S L
  | finished (hout : S.receiver.outcome ≠ none) (hwindows : S.requested <+: windows N)
      (hcharged : Charged S L) : Spending N S L

theorem Charged.mono {T : Download} (h : Charged S L) (hreq : S.requested ⊆ T.requested) :
    Charged T L :=
  ⟨fun x hx => List.map_subset _ hreq (h.known x hx), h.few⟩

/-- One more expiration of a range that has retries left. -/
theorem Charged.concat (h : Charged S L) {rg : ℕ × ℕ} (hrg : rg ∈ S.requested)
    (hfew : L.count (some rg) ≤ RETRY_LIMIT) : Charged S (L ++ [some rg]) where
  known x hx := by
    rcases List.mem_append.mp hx with hx | hx
    · exact h.known x hx
    · rw [List.mem_singleton.mp hx]
      exact List.mem_map_of_mem hrg
  few x := by
    rw [List.count_append, List.count_singleton]
    have := h.few x
    split
    next heq =>
      rw [beq_iff_eq] at heq
      subst heq
      omega
    next => omega

theorem Charged.nil (S : Download) : Charged S [] := ⟨by simp, by simp⟩

theorem Charged.of_requested {T : Download} (h : Charged S L) (hreq : T.requested = S.requested) :
    Charged T L := h.mono (by rw [hreq]; exact List.Subset.refl _)

/-- A range that is requested next comes with all its retries. -/
theorem Charged.opens {T : Download} (hcharged : Charged S L) (hN : 1 ≤ N) {s c fuel : ℕ}
    (hwindows : windows N = S.requested ++ windowsFrom N fuel s c) (hfuel : N < fuel + s)
    (hin : T.receiver.InRange N s c) (hzero : T.receiver.retryCount = 0)
    (hreq : T.requested = S.requested ++ [(s, c)]) : Spending N T L := by
  have hpos := hin.count_pos
  have hfits := hin.fits
  obtain ⟨fuel, rfl⟩ : ∃ k, fuel = k + 1 := Nat.exists_eq_succ_of_ne_zero (by omega)
  rw [windowsFrom, if_pos (show s ≤ N by omega)] at hwindows
  have hnew : L.count (some (s, c)) = 0 := by
    -- the ranges charged so far come before this one
    refine List.count_eq_zero.mpr fun hmem => ?_
    obtain ⟨rg, hrg, heq⟩ := List.mem_map.mp (hcharged.known _ hmem)
    have hnodup := windows_nodup hN
    rw [hwindows, List.nodup_append] at hnodup
    exact hnodup.2.2 rg hrg _ List.mem_cons_self (Option.some.inj heq)
  have hrest : windows N = T.requested ++ windowsFrom N fuel (s + c) (nextWindow N (s + c) c) := by
    rw [hreq, hwindows, List.append_assoc]
    rfl
  refine .window hin ?_ hrest (by omega) (by rw [hnew, hzero]) (by rw [hzero]; exact Nat.zero_le _)
    (hcharged.mono ?_)
  · rw [hreq, List.getLast?_concat]
  · rw [hreq]
    exact List.subset_append_left _ _

/-- Content uses up no retries; a new range comes with all of them. -/
theorem Spending.content (h : Spending N S L) (hN : 1 ≤ N) {env : World} {p t : ℕ} {d : Bytes} :
    Spending N (S.apply cfg (.content env p t d)) L := by
  cases h with
  | @window s c fuel hin hlast hwindows hfuel hcount hretry hcharged =>
    rcases hin.onContent_window cfg env S.dir p t d with
      ⟨hsame, hkept⟩ | ⟨hnext, hzero, -⟩ | ⟨hout, hrange⟩
    · have hreq : (S.apply cfg (.content env p t d)).requested = S.requested :=
        put_requested_same (hsame.range.trans hin.range.symm)
      have hkept' : (S.apply cfg (.content env p t d)).receiver.retryCount =
        S.receiver.retryCount := hkept
      exact .window hsame (by rw [hreq]; exact hlast) (by rw [hreq]; exact hwindows) hfuel
        (by rw [hkept']; exact hcount) (by rw [hkept']; exact hretry) (hcharged.of_requested hreq)
    · have hpos := hin.count_pos
      have hreq : (S.apply cfg (.content env p t d)).requested =
          S.requested ++ [(s + c, nextWindow N (s + c) c)] :=
        put_requested_new hnext.range (by simp [hin.range]; omega)
      exact hcharged.opens hN hwindows hfuel hnext hzero hreq
    · have hreq : (S.apply cfg (.content env p t d)).requested = S.requested :=
        put_requested_same hrange
      refine .finished hout ?_ (hcharged.of_requested hreq)
      rw [hreq, hwindows]
      exact List.prefix_append _ _
  | finished hout hwindows hcharged =>
    have heq : (S.receiver.onContent cfg env S.dir p t d).1 = S.receiver := onContent_of_outcome hout
    have hreq : (S.apply cfg (.content env p t d)).requested = S.requested :=
      put_requested_same (congrArg ReceiverTransfer.range heq)
    have hdone : (S.apply cfg (.content env p t d)).receiver.outcome ≠ none := by
      rwa [show (S.apply cfg (.content env p t d)).receiver = S.receiver from heq]
    exact .finished hdone (by rwa [hreq]) (hcharged.of_requested hreq)

/-- A tick charges the current range when it finds the quiet period over, and the ninth time is
the last. -/
theorem Spending.tick (h : Spending N S L) (now : ℕ) (clk : Clock) :
    Spending N (S.apply cfg (.tick now clk)) (L ++ S.expiry cfg (.tick now clk)) := by
  obtain ⟨hsame, hout, -⟩ := onTick_spec cfg S.receiver now clk
  have hreq : (S.apply cfg (.tick now clk)).requested = S.requested := put_requested_same hsame.range
  cases h with
  | @window s c fuel hin hlast hwindows hfuel hcount hretry hcharged =>
    have hmem : (s, c) ∈ S.requested := List.mem_of_getLast? hlast
    have hinitial : (S.apply cfg (.tick now clk)).requested <+: windows N := by
      rw [hreq, hwindows]
      exact List.prefix_append _ _
    have hmore : Charged (S.apply cfg (.tick now clk)) (L ++ S.expiry cfg (.tick now clk)) := by
      refine Charged.of_requested (S := S) ?_ hreq
      simp only [expiry]
      split
      · rw [hin.range]
        exact hcharged.concat hmem (by omega)
      · rwa [List.append_nil]
    have hopen (hnone : (S.receiver.onTick cfg now clk).1.outcome = none)
        (hcount' : (L ++ S.expiry cfg (.tick now clk)).count (some (s, c)) =
          (S.receiver.onTick cfg now clk).1.retryCount)
        (hretry' : (S.receiver.onTick cfg now clk).1.retryCount ≤ RETRY_LIMIT) :
        Spending N (S.apply cfg (.tick now clk)) (L ++ S.expiry cfg (.tick now clk)) :=
      .window (hsame.inRange hnone hin) (by rw [hreq]; exact hlast) (by rw [hreq]; exact hwindows)
        hfuel hcount' hretry' hmore
    by_cases hnone : (S.receiver.onTick cfg now clk).1.outcome = none
    · rcases @onTick_retries cfg S.receiver now clk hin.outcome with
        hdone | ⟨hexp, -, hone, hfew⟩ | ⟨hidle, hkept⟩
      · exact absurd hnone hdone
      · refine hopen hnone ?_ hfew
        rw [hone, expiry, if_pos hexp, hin.range, List.count_append, List.count_singleton_self, hcount]
      · have hexp : S.receiver.quietExpires cfg now clk ≠ true := fun hexp => hidle hexp hin.asks
        refine hopen hnone ?_ (by rw [hkept]; exact hretry)
        rw [hkept, expiry, if_neg hexp, List.append_nil, hcount]
    · exact .finished hnone hinitial hmore
  | finished hdone hwindows hcharged =>
    have hstill : (S.apply cfg (.tick now clk)).receiver.outcome ≠ none := by
      rcases hout with hkeep | ⟨hwas, -⟩
      · exact fun hnone => hdone (hkeep.symm.trans hnone)
      · exact absurd hwas hdone
    rw [expiry, quietExpires_of_outcome hdone, if_neg Bool.false_ne_true, List.append_nil]
    exact .finished hstill (by rw [hreq]; exact hwindows) (hcharged.of_requested hreq)

theorem Spending.run (h : Spending N S L) (hN : 1 ≤ N) (es : List ReceiverEvent) :
    Spending N (S.run cfg es) (L ++ S.expirations cfg es) := by
  induction es generalizing S L with
  | nil => rwa [expirations, List.append_nil]
  | cons e es ih =>
    rw [expirations, ← List.append_assoc]
    cases e with
    | content env p t d =>
      rw [expiry, List.append_nil]
      exact ih (h.content hN)
    | tick now clk => exact ih (h.tick now clk)

/-- Before its first content a download waits for the sender, or has given up on it. -/
structure Waiting (S : Download) : Prop where
  fresh : S.receiver.outcome = none → S.receiver.Fresh ∧ S.receiver.retryCount = 0
  requested : S.requested = []

theorem Waiting.tick (h : Waiting S) (now : ℕ) (clk : Clock) :
    Waiting (S.apply cfg (.tick now clk)) := by
  obtain ⟨hsame, hout, -⟩ := onTick_spec cfg S.receiver now clk
  refine ⟨fun hnone => ?_, (put_requested_same hsame.range).trans h.requested⟩
  have hwas : S.receiver.outcome = none := by
    rcases hout with hkeep | ⟨hwas, -⟩
    · exact hkeep.symm.trans hnone
    · exact hwas
  obtain ⟨hfresh, hzero⟩ := h.fresh hwas
  refine ⟨hsame.fresh hnone hfresh, ?_⟩
  rcases @onTick_retries cfg S.receiver now clk hwas with
    hdone | ⟨-, ⟨s, c, hrange, -⟩, -⟩ | ⟨-, hkept⟩
  · exact absurd hnone hdone
  · exact absurd (hfresh.range.symm.trans hrange) (Option.some_ne_none _).symm
  · exact hkept.trans hzero

theorem Waiting.run (h : Waiting S) {ticks : List ReceiverEvent}
    (hticks : ∀ e ∈ ticks, e.total? = none) : Waiting (S.run cfg ticks) := by
  induction ticks generalizing S with
  | nil => exact h
  | cons e ticks ih =>
    have hrest : ∀ e ∈ ticks, e.total? = none := fun e he => hticks e (List.mem_cons_of_mem _ he)
    cases e with
    | content env p t d => cases hticks _ List.mem_cons_self
    | tick now clk => exact ih (h.tick now clk) hrest

/-- The first content charges nothing and opens the first range. -/
theorem Waiting.content (h : Waiting S) (hN : 1 ≤ N) (ht : N < 65536) (env : World) (p : ℕ)
    (d : Bytes) : Spending N (S.apply cfg (.content env p N d)) [] := by
  by_cases hnone : S.receiver.outcome = none
  · obtain ⟨hfresh, hzero⟩ := h.fresh hnone
    have hreq (hrange : (S.receiver.onContent cfg env S.dir p N d).1.range =
        some (1, min INITIAL_WINDOW N)) : (S.apply cfg (.content env p N d)).requested =
          S.requested ++ [(1, min INITIAL_WINDOW N)] :=
      put_requested_new hrange (by simp [hfresh.range])
    have hwindows : windows N = S.requested ++ windowsFrom N N 1 (min INITIAL_WINDOW N) := by
      rw [h.requested, List.nil_append, windows]
    rcases hfresh.onContent_opened hN (Nat.le_of_lt_succ ht) cfg env S.dir p d with
      ⟨hin, hkept⟩ | ⟨hout, hrange⟩
    · exact (Charged.nil S).opens hN hwindows (Nat.lt_succ_self N) hin (hkept.trans hzero)
        (hreq hin.range)
    · refine .finished hout ?_ (.nil _)
      obtain ⟨k, rfl⟩ : ∃ k, N = k + 1 := Nat.exists_eq_succ_of_ne_zero (by omega)
      rw [hreq hrange, hwindows, windowsFrom, if_pos hN]
      exact List.prefix_append_right_inj _ |>.mpr (List.prefix_append [_] _)
  · have heq : (S.receiver.onContent cfg env S.dir p N d).1 = S.receiver := onContent_of_outcome hnone
    have hreq : (S.apply cfg (.content env p N d)).requested = S.requested :=
      put_requested_same (congrArg ReceiverTransfer.range heq)
    have hout : (S.apply cfg (.content env p N d)).receiver.outcome ≠ none := by
      rwa [show (S.apply cfg (.content env p N d)).receiver = S.receiver from heq]
    refine .finished hout ?_ (.nil _)
    rw [hreq, h.requested]
    exact List.nil_prefix

/-- Once the first content has come, the quiet period runs out at most nine times while one
range is current, the ranges are the first ones of `windows N`, whose starts increase and stay
within the file, and when it has run out nine times for each range requested the download has an
outcome; so it has one after nine times the number of all ranges. -/
theorem gives_up (cfg : Settings) (clk : Clock) (id : ℕ) (remote : SocketAddr) (filename : String)
    (dir : Dir) (ticks es : List ReceiverEvent) (hticks : ∀ e ∈ ticks, e.total? = none) (env : World)
    (p N : ℕ) (d : Bytes) (hN : 1 ≤ N) (ht : N < 65536) :
    let S := ((start (ReceiverTransfer.new cfg clk id remote filename) dir).run cfg ticks).apply cfg
      (.content env p N d)
    let T := S.run cfg es
    let L := S.expirations cfg es
    (∀ x, L.count x ≤ 9) ∧ (∀ x ∈ L, x ∈ T.requested.map some) ∧
    (T.requested.map Prod.fst).Pairwise (· < ·) ∧ (∀ rg ∈ T.requested, rg.1 ≤ N) ∧
    (T.receiver.outcome = none → T.receiver.range = T.requested.getLast?) ∧
    (9 * T.requested.length ≤ L.length → T.receiver.outcome ≠ none) ∧
    L.length ≤ 9 * T.requested.length ∧ T.requested <+: windows N ∧
    (9 * (windows N).length ≤ L.length → T.receiver.outcome ≠ none) := by
  intro S T L
  have hwait : Waiting (start (ReceiverTransfer.new cfg clk id remote filename) dir) :=
    ⟨fun _ => ⟨new_fresh cfg clk id remote filename, rfl⟩, rfl⟩
  have hfirst : Spending N S [] := (hwait.run hticks).content hN ht env p d
  have hspend : Spending N T L := hfirst.run hN es
  obtain ⟨hinitial, hcharged⟩ : T.requested <+: windows N ∧ Charged T L := by
    cases hspend with
    | window hin hlast hwindows _ _ _ hcharged => exact ⟨hwindows ▸ List.prefix_append _ _, hcharged⟩
    | finished hout hwindows hcharged => exact ⟨hwindows, hcharged⟩
  have hlen : L.length ≤ 9 * T.requested.length := by
    have h := length_le_of_count_le hcharged.known hcharged.few
    rwa [List.length_map] at h
  have hleft : T.receiver.outcome = none → L.length < 9 * T.requested.length := by
    intro hnone
    cases hspend with
    | @window s c fuel hin hlast hwindows hfuel hcount hretry hcharged =>
      have hmore := hcharged.concat (List.mem_of_getLast? hlast) (by omega)
      have h := length_le_of_count_le hmore.known hmore.few
      rw [List.length_append, List.length_map] at h
      exact h
    | finished hout => exact absurd hnone hout
  obtain ⟨hsorted, hbounds⟩ := windows_sorted hN
  refine ⟨hcharged.few, hcharged.known, ?_, fun rg hrg => hbounds rg (hinitial.subset hrg), ?_,
    fun hall hnone => absurd (hleft hnone) (Nat.not_lt_of_le hall), hlen, hinitial, ?_⟩
  · exact hsorted.sublist (hinitial.sublist.map _)
  · intro hnone
    cases hspend with
    | window hin hlast => rw [hin.range, hlast]
    | finished hout => exact absurd hnone hout
  · intro hall hnone
    have hless := hleft hnone
    have hfewer := hinitial.length_le
    omega

/-- One of two packets arrives, and then nothing for ninety seconds. -/
def silence : List ReceiverEvent := (List.range 9).map fun i => .tick (secs (10 * (i + 1))) fun _ => 0

theorem gives_up_on_silence :
    (((start (ReceiverTransfer.new defaultSettings (fun _ => 0) 7 unspecifiedEndpoint "seg_1.ts")
      ⟨∅, ["srv"], fun _ => none⟩).apply defaultSettings
        (.content ⟨fun _ => 0, default, .ok, 0⟩ 1 2 [1])).run defaultSettings silence).receiver.outcome ≠
      none := by
  obtain ⟨-, -, -, -, -, -, -, -, hall⟩ := gives_up defaultSettings (fun _ => 0) 7
    unspecifiedEndpoint "seg_1.ts" ⟨∅, ["srv"], fun _ => none⟩ [] silence (by simp)
    ⟨fun _ => 0, default, .ok, 0⟩ 1 2 [1] (by decide) (by decide)
  exact hall (by decide +kernel)

end Download
end Qstream.Transfer

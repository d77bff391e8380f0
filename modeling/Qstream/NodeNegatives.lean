import Qstream.NodeInventory
import Qstream.PeerNames

/-! How long a negative answer of a peer is believed: what datagrams, timers and the rest of a
node do to the negative answers and to the inventories. -/
namespace Qstream
open Transfer Runs

/-- The inventory a message carries. -/
def Message.inventory : Message → Option SegmentAvailability
  | .pong availability | .segmentNotFound _ availability _ => availability
  | _ => none

namespace Node
variable {n : Node} {clk : Clock} {peer src : SocketAddr} {number since : ℕ}
  {av : SegmentAvailability}

/-- What the node remembers of its peers' answers about segments. -/
def answers (n : Node) :
    HashMap (SocketAddr × ℕ) ℕ × HashMap SocketAddr (SegmentAvailability × ℕ) :=
  (n.missingSegments, n.availability)

def hear (n : Node) (clk : Clock) (src : SocketAddr) : Option SegmentAvailability → Node
  | some av => n.recordAvailability clk src av
  | none => n

def deny (n : Node) (clk : Clock) (src : SocketAddr) : Option String → Node
  | some filename => n.recordMissing clk src filename
  | none => n

/-- The file that a datagram denies for good: the one its transfer asked for. -/
def denial (n : Node) : Message → Option String
  | .segmentNotFound transferId _ false =>
    (n.registry.receivers.lookup transferId).map (·.filename)
  | _ => none

theorem recordMissing_answers {n n' : Node} (h : n.answers = n'.answers) (clk : Clock)
    (src : SocketAddr) (filename : String) :
    (n.recordMissing clk src filename).answers = (n'.recordMissing clk src filename).answers := by
  simp only [answers, Prod.mk.injEq] at h
  unfold recordMissing
  split
  · simp only [answers, h.1, h.2]
  · simp only [answers, h.1, h.2]

/-- A datagram's inventory is recorded first, then what it denies. -/
theorem handle_answers (n : Node) (cfg : NodeSettings) (w : World) (m : Message)
    (src : SocketAddr) : ∃ i j, (n.handle cfg w m src).1.answers =
      ((n.hear (w.after i).clk src m.inventory).deny (w.after j).clk src (n.denial m)).answers := by
  cases m with
  | segmentRequest id filename =>
    refine ⟨0, 0, ?_⟩
    have hsame : ((n.touchPeer w.clk src).originSeedAllowed cfg (w.after 2).clk filename src).1.answers =
        n.answers := by
      rw [originSeedAllowed_eq]
      cases (n.touchPeer w.clk src).admission cfg (w.after 2).clk filename src <;> rfl
    exact hsame
  | ping nonce name =>
    refine ⟨0, 0, ?_⟩
    simp only [handle]
    split
    · rfl
    · unfold discover
      split
      · split <;> rfl
      · rfl
  | pong availability =>
    refine ⟨3, 0, ?_⟩
    cases availability <;> rfl
  | segmentNotFound id availability retryable =>
    refine ⟨2, 4, ?_⟩
    cases hr : n.registry.receivers.lookup id with
    | none =>
      cases availability <;> cases retryable <;>
        simp only [handle, TransferRegistry.onNotFound, touchPeer, recordAvailability, hr, hear,
          deny, denial, Option.map_none] <;> rfl
    | some r =>
      cases availability <;> cases retryable <;>
        simp only [handle, TransferRegistry.onNotFound, touchPeer, recordAvailability, hr, hear,
          deny, denial, Option.map_some] <;>
        first | rfl | (refine recordMissing_answers ?_ _ _ _; rfl)
  | _ => exact ⟨0, 0, rfl⟩

/-- The other key of a withdrawn answer. -/
theorem lookup_withdrawn_other (av : SegmentAvailability) (is : List ℕ)
    (m : HashMap (SocketAddr × ℕ) ℕ) (hne : peer ≠ src) :
    (is.foldl (fun m i => if av.bit i then m.erase (src, av.newest - i) else m) m).lookup
        (peer, number) = m.lookup (peer, number) := by
  induction is generalizing m with
  | nil => rfl
  | cons i is ih =>
    rw [List.foldl_cons, ih]
    split
    · exact (HashMap.lookup_erase' _ _ _).trans (if_neg fun heq => hne (congrArg Prod.fst heq))
    · rfl

/-- A negative answer of `peer` about segment `number` stands until `till`: it is remembered, or
the last inventory denies the segment as well. Only segment 0 can come to that. -/
structure Stands (peer : SocketAddr) (number till : ℕ) (n : Node) : Prop where
  remembered : ∀ expiresAt, n.missingSegments.lookup (peer, number) = some expiresAt →
    till ≤ expiresAt
  forgotten : n.missingSegments.lookup (peer, number) = none → number = 0 ∧
    ∃ av observedAt, n.availability.lookup peer = some (av, observedAt) ∧
      av.contains number = some false ∧ till ≤ observedAt + AVAILABILITY_TTL

theorem Stands.congr {n n' : Node} {till : ℕ} (h : Stands peer number till n)
    (heq : n'.answers = n.answers) : Stands peer number till n' := by
  simp only [answers, Prod.mk.injEq] at heq
  exact ⟨by rw [heq.1]; exact h.remembered, by rw [heq.1, heq.2]; exact h.forgotten⟩

theorem Stands.answer {till : ℕ} (h : Stands peer number till n) {filename : String}
    (hnumber : segmentNumber filename = some number) {now : ℕ} (hnow : now < till) :
    n.peerAvailability peer filename now = some false := by
  simp only [peerAvailability, hnumber, Option.bind_eq_bind, Option.bind_some]
  cases hentry : n.missingSegments.lookup (peer, number) with
  | some expiresAt =>
    have hlive := hnow.trans_le (h.remembered expiresAt hentry)
    simp [hlive]
  | none =>
    obtain ⟨-, av, observedAt, hlookup, hcontains, htill⟩ := h.forgotten hentry
    have hfresh : ¬ now - observedAt > AVAILABILITY_TTL := by omega
    simp [hlookup, hfresh, hcontains]

/-- An inventory that does not affirm the segment withdraws its negative answer only for
segment 0, by a bit beyond it. -/
theorem beyond_of_withdrawn (hav : av.contains number ≠ some true)
    (h : ∃ i ∈ List.range AVAILABILITY_MASK_BITS, av.bit i = true ∧ av.newest - i = number) :
    number = 0 ∧ av.newest < AVAILABILITY_MASK_BITS := by
  obtain ⟨i, hi, hbit, hdist⟩ := h
  have hi := List.mem_range.mp hi
  rcases Nat.lt_or_ge av.newest i with hover | hle
  · omega
  · refine absurd ?_ hav
    have hback : av.newest - number = i := by omega
    simp only [SegmentAvailability.contains, hback, hbit]
    rw [if_neg (by omega), if_neg (by omega)]

/-- What an inventory of the same peer leaves standing. -/
theorem Stands.recordAvailability (h : Stands peer number (since + MISSING_TTL) n)
    (hclk : since ≤ clk 0) (hav : av.contains number ≠ some true)
    (hinforms : number = 0 → n.missingSegments.lookup (peer, 0) = none →
      av.newest < AVAILABILITY_MASK_BITS) :
    Stands peer number (since + MISSING_TTL) (n.recordAvailability clk peer av) := by
  have hmissing : (n.recordAvailability clk peer av).missingSegments.lookup (peer, number) = _ :=
    lookup_withdrawn peer av (List.range AVAILABILITY_MASK_BITS) n.missingSegments number
  have hinventory : (n.recordAvailability clk peer av).availability.lookup peer =
      some (av, clk 0) := AList.lookup_insert _
  have hdenied (h0 : number = 0) (hsmall : av.newest < AVAILABILITY_MASK_BITS) :
      av.contains number = some false := by
    subst h0
    simp only [SegmentAvailability.contains, Nat.not_lt_zero, if_false, Nat.sub_zero,
      gt_iff_lt, ge_iff_le, Nat.not_le_of_lt hsmall] at hav ⊢
    simpa using hav
  refine ⟨fun expiresAt hentry => ?_, fun hentry => ?_⟩
  · rw [hmissing] at hentry
    split at hentry
    · cases hentry
    · exact h.remembered expiresAt hentry
  · rw [hinventory]
    rw [hmissing] at hentry
    split at hentry
    next hwithdrawn =>
      obtain ⟨h0, hsmall⟩ := beyond_of_withdrawn hav hwithdrawn
      exact ⟨h0, av, clk 0, rfl, hdenied h0 hsmall, Nat.add_le_add_right hclk _⟩
    next =>
      obtain ⟨h0, -⟩ := h.forgotten hentry
      have hsmall := hinforms h0 (by rwa [h0] at hentry)
      exact ⟨h0, av, clk 0, rfl, hdenied h0 hsmall, Nat.add_le_add_right hclk _⟩

/-- Another peer's inventory changes nothing. -/
theorem Stands.recordAvailability_other {till : ℕ} (h : Stands peer number till n)
    (hne : peer ≠ src) : Stands peer number till (n.recordAvailability clk src av) := by
  have hmissing : (n.recordAvailability clk src av).missingSegments.lookup (peer, number) =
      n.missingSegments.lookup (peer, number) :=
    lookup_withdrawn_other av (List.range AVAILABILITY_MASK_BITS) n.missingSegments hne
  have hinventory : (n.recordAvailability clk src av).availability.lookup peer =
      n.availability.lookup peer := AList.lookup_insert_ne hne
  exact ⟨by rw [hmissing]; exact h.remembered, by rw [hmissing, hinventory]; exact h.forgotten⟩

theorem Stands.recordMissing (h : Stands peer number (since + MISSING_TTL) n)
    (hclk : since ≤ clk 0) (filename : String) :
    Stands peer number (since + MISSING_TTL) (n.recordMissing clk src filename) := by
  unfold Node.recordMissing
  split
  next k hk =>
    have hlookup : (n.missingSegments.insert (src, k) (clk 0 + MISSING_TTL)).lookup (peer, number) =
        _ := HashMap.lookup_insert' _ _ _ _
    refine ⟨fun expiresAt hentry => ?_, fun hentry => ?_⟩
    · rw [hlookup] at hentry
      split at hentry
      · cases hentry
        exact Nat.add_le_add_right hclk _
      · exact h.remembered expiresAt hentry
    · rw [hlookup] at hentry
      split at hentry
      · cases hentry
      · exact h.forgotten hentry
  next => exact h

/-- A new negative answer stands for its 15 seconds. -/
theorem stands_recordMissing (n : Node) (clk : Clock) (peer : SocketAddr) {filename : String}
    (hnumber : segmentNumber filename = some number) :
    Stands peer number (clk 0 + MISSING_TTL) (n.recordMissing clk peer filename) := by
  have hlookup : (n.recordMissing clk peer filename).missingSegments.lookup (peer, number) =
      some (clk 0 + MISSING_TTL) := by
    simp only [Node.recordMissing, hnumber, AList.lookup_insert]
  refine ⟨fun expiresAt hentry => ?_, fun hentry => ?_⟩
  · rw [hlookup] at hentry
    cases hentry
    exact le_rfl
  · rw [hlookup] at hentry
    cases hentry

theorem Stands.mono {till till' : ℕ} (h : Stands peer number till n) (hle : till' ≤ till) :
    Stands peer number till' n where
  remembered expiresAt hentry := hle.trans (h.remembered expiresAt hentry)
  forgotten hentry := by
    obtain ⟨h0, av, observedAt, hlookup, hcontains, htill⟩ := h.forgotten hentry
    exact ⟨h0, av, observedAt, hlookup, hcontains, hle.trans htill⟩

/-- A datagram of `peer` whose inventory affirms the segment. -/
def Affirms (peer : SocketAddr) (number : ℕ) (m : Message) (src : SocketAddr) : Prop :=
  src = peer ∧ ∃ av ∈ m.inventory, av.contains number = some true

/-- Once the negative answer about segment 0 is withdrawn, an inventory of `peer` still covers
that segment, unless the datagram denies it anew. -/
def StillCovers (peer : SocketAddr) (number : ℕ) (n : Node) (m : Message) (src : SocketAddr) : Prop :=
  src = peer → number = 0 → n.missingSegments.lookup (peer, 0) = none →
    (n.denial m).bind segmentNumber ≠ some 0 → ∀ av ∈ m.inventory, av.newest < AVAILABILITY_MASK_BITS

/-- A datagram that does not affirm the segment, and meets the condition, leaves the answer
standing. -/
theorem Stands.handle (h : Stands peer number (since + MISSING_TTL) n) (cfg : NodeSettings)
    {w : World} (hclk : ∀ i, since ≤ w.clk i) {m : Message} (haffirm : ¬ Affirms peer number m src)
    (hcovers : StillCovers peer number n m src) :
    Stands peer number (since + MISSING_TTL) (n.handle cfg w m src).1 := by
  obtain ⟨i, j, heq⟩ := handle_answers n cfg w m src
  refine Stands.congr ?_ heq
  have hlater (k : ℕ) : since ≤ (w.after k).clk 0 := hclk _
  have hdeny (n' : Node) (hn' : Stands peer number (since + MISSING_TTL) n') :
      Stands peer number (since + MISSING_TTL) (n'.deny (w.after j).clk src (n.denial m)) := by
    cases n.denial m with
    | none => exact hn'
    | some filename => exact hn'.recordMissing (hlater j) filename
  by_cases hsrc : src = peer
  · subst hsrc
    by_cases hagain : (n.denial m).bind segmentNumber = some number
    · -- denied anew, whatever the inventory withdrew
      obtain ⟨filename, hfile, hnumber⟩ := Option.bind_eq_some_iff.mp hagain
      rw [hfile]
      exact (stands_recordMissing _ _ _ hnumber).mono (Nat.add_le_add_right (hlater j) _)
    · refine hdeny _ ?_
      cases hinv : m.inventory with
      | none => exact h
      | some av =>
        refine h.recordAvailability (hlater i) (fun hav => haffirm ⟨rfl, av, hinv, hav⟩)
          fun h0 hnone => ?_
        exact hcovers rfl h0 hnone (h0 ▸ hagain) av hinv
  · refine hdeny _ ?_
    cases m.inventory with
    | none => exact h
    | some av => exact h.recordAvailability_other (Ne.symm hsrc)

/-- A datagram that does not meet the condition makes the node forget the answer. -/
theorem answer_of_handle (cfg : NodeSettings) (w : World) {m : Message} {filename : String}
    (hnumber : segmentNumber filename = some number)
    (hcovers : ¬ StillCovers peer number n m src) (now : ℕ) :
    (n.handle cfg w m src).1.peerAvailability peer filename now = none := by
  simp only [StillCovers, not_forall] at hcovers
  obtain ⟨rfl, rfl, hnone, hagain, av, hinv, hbig⟩ := hcovers
  have hinv : m.inventory = some av := hinv
  obtain ⟨i, j, heq⟩ := handle_answers n cfg w m src
  rw [hinv] at heq
  have hmissing : (n.recordAvailability (w.after i).clk src av).missingSegments.lookup (src, 0) =
      none := by
    refine (lookup_withdrawn src av (List.range AVAILABILITY_MASK_BITS) n.missingSegments 0).trans ?_
    split
    · rfl
    · exact hnone
  have hheard : (n.recordAvailability (w.after i).clk src av).availability.lookup src =
      some (av, (w.after i).clk 0) := AList.lookup_insert _
  have hdenied : ((n.handle cfg w m src).1.missingSegments.lookup (src, 0) = none) ∧
      (n.handle cfg w m src).1.availability.lookup src = some (av, (w.after i).clk 0) := by
    simp only [answers, Prod.mk.injEq, hear] at heq
    rw [heq.1, heq.2]
    cases hden : n.denial m with
    | none => exact ⟨hmissing, hheard⟩
    | some f =>
      simp only [deny, Node.recordMissing]
      split
      next k hk =>
        have hk0 : (src, (0 : ℕ)) ≠ (src, k) := by
          rintro heq0
          obtain rfl : 0 = k := congrArg Prod.snd heq0
          exact hagain (by rw [hden, Option.bind_some, hk])
        exact ⟨(AList.lookup_insert_ne hk0).trans hmissing, hheard⟩
      next => exact ⟨hmissing, hheard⟩
  have hcontains : av.contains 0 = none := by
    simp only [SegmentAvailability.contains, Nat.not_lt_zero, if_false, Nat.sub_zero, gt_iff_lt,
      ge_iff_le, Nat.le_of_not_lt hbig, if_true]
  simp only [peerAvailability, hnumber, Option.bind_eq_bind, Option.bind_some, hdenied.1, hdenied.2,
    Option.any_none, Bool.false_eq_true, if_false, hcontains, ite_self]

theorem tick_answers (n : Node) (cfg : NodeSettings) (w : World) (now : ℕ) :
    (n.tick cfg w now).1.answers = n.answers :=
  tick_proj answers (fun _ _ => rfl) (fun n clk e => by cases e <;> rfl) (fun _ _ _ _ => rfl)
    (fun _ => rfl) (fun _ _ _ => rfl) n cfg w now

end Node

/-! The same for the events of a master and of a peer. -/

namespace NodeEvent

/-- Every clock reading of a datagram's handling is at `since` or later. -/
def NotBefore (since : ℕ) : NodeEvent → Prop
  | .datagram w _ _ => ∀ i, since ≤ w.clk i
  | _ => True

def Affirms (peer : SocketAddr) (number : ℕ) : NodeEvent → Prop
  | .datagram _ m src => Node.Affirms peer number m src
  | _ => False

end NodeEvent

namespace PeerEvent

def NotBefore (since : ℕ) : PeerEvent → Prop
  | .datagram w _ _ _ => ∀ i, since ≤ w.clk i
  | _ => True

def Affirms (peer : SocketAddr) (number : ℕ) : PeerEvent → Prop
  | .datagram _ _ m src => Node.Affirms peer number m src
  | _ => False

end PeerEvent

section Steps
variable {peer : SocketAddr} {number since : ℕ} {filename : String}

/-- The condition on the events of a master. -/
def Node.KeepsCovering (peer : SocketAddr) (number : ℕ) (n : Node) : NodeEvent → Prop
  | .datagram _ m src => n.StillCovers peer number m src
  | _ => True

/-- The condition on the events of a peer. -/
def Peer.KeepsCovering (peer : SocketAddr) (number : ℕ) (S : Peer) : PeerEvent → Prop
  | .datagram _ _ m src => S.node.StillCovers peer number m src
  | _ => True

theorem Node.Step.stands {cfg : NodeSettings} {n n' : Node} {e : NodeEvent}
    (h : Step cfg n e n') (hn : n.Stands peer number (since + MISSING_TTL))
    (hclk : e.NotBefore since) (haffirm : ¬ e.Affirms peer number)
    (hcovers : n.KeepsCovering peer number e) : n'.Stands peer number (since + MISSING_TTL) := by
  cases h with
  | mk =>
    cases e with
    | datagram w m src => exact hn.handle cfg hclk haffirm hcovers
    | tick w now => exact hn.congr (n.tick_answers cfg w now)
    | files dir => exact hn.congr rfl

theorem Peer.receive_answers {P : PeerConfig} {S S' : Peer} {w refresh : World} {m : Message}
    {src : SocketAddr} {sent : Outbox} (h : S.receive P w refresh m src = .ok (S', sent)) :
    S'.node.answers = (S.node.handle P.settings (w.after 1) m src).1.answers := by
  rw [receive_node h]
  cases m <;> rfl

theorem Peer.Step.stands {P : PeerConfig} {S S' : Peer} {e : PeerEvent} (h : Step P S e S')
    (hn : S.node.Stands peer number (since + MISSING_TTL)) (hclk : e.NotBefore since)
    (haffirm : ¬ e.Affirms peer number) (hcovers : S.KeepsCovering peer number e) :
    S'.node.Stands peer number (since + MISSING_TTL) := by
  cases h with
  | mk hen happ =>
    cases e with
    | datagram w refresh m src =>
      have hlater : ∀ i, since ≤ (w.after 1).clk i := fun i => hclk _
      exact (hn.handle P.settings hlater haffirm hcovers).congr (receive_answers happ)
    | tick w now =>
      obtain rfl := fst_of_ok happ
      exact hn.congr (S.node.tick_answers P.settings w now)
    | prunePeers | retryHandshake | expirePending | pollManifest | pollPeerlist =>
      exact hn.congr
        (apply_quiet_node P Node.answers (fun _ _ => rfl) (fun _ _ _ => rfl) happ trivial)
    | reap w now f =>
      obtain rfl := fst_of_ok happ
      exact hn.congr (reapJob_same Node.answers (fun _ _ _ res _ _ => by cases res <;> rfl)
        (fun _ _ => rfl) (fun _ _ => rfl) w now f S.node S.sched)
    | fill ids w =>
      obtain rfl := fst_of_ok happ
      refine hn.congr ?_
      rcases fillStep_cases P ids w S.node S.sched with
        ⟨rng, hstep⟩ | ⟨filename, rest, peer, rng, r, -, -, -, -, hstep⟩
      · simp only [fillOne, hstep]
      · simp only [fillOne, hstep]
        rfl

/-- A negative answer lasts: after it is recorded, and as long as no inventory of that peer
affirms the segment, it is given for 15 seconds in every run in which, once an inventory has
withdrawn the answer about segment 0 by a bit beyond it, that peer's inventories still cover
segment 0. The next step keeps it so exactly when it meets that condition. -/
theorem negatives_last (hnumber : segmentNumber filename = some number) (peer : SocketAddr)
    (n0 : Node) (clk : Clock) :
    (∀ cfg es n, Run (guarded (Node.KeepsCovering peer number) (Node.Step cfg))
        (n0.recordMissing clk peer filename) es n →
      (∀ e ∈ es, e.NotBefore (clk 0) ∧ ¬ e.Affirms peer number) →
      (∀ now < clk 0 + secs 15, n.peerAvailability peer filename now = some false) ∧
      ∀ e n', Node.Step cfg n e n' → e.NotBefore (clk 0) → ¬ e.Affirms peer number →
        ((∀ now, clk 0 ≤ now → now < clk 0 + secs 15 →
          n'.peerAvailability peer filename now = some false) ↔ n.KeepsCovering peer number e)) ∧
    ∀ P S0 es S, S0.node = n0.recordMissing clk peer filename →
      Run (guarded (Peer.KeepsCovering peer number) (Peer.Step P)) S0 es S →
      (∀ e ∈ es, e.NotBefore (clk 0) ∧ ¬ e.Affirms peer number) →
      (∀ now < clk 0 + secs 15, S.node.peerAvailability peer filename now = some false) ∧
      ∀ e S', Peer.Step P S e S' → e.NotBefore (clk 0) → ¬ e.Affirms peer number →
        ((∀ now, clk 0 ≤ now → now < clk 0 + secs 15 →
          S'.node.peerAvailability peer filename now = some false) ↔
          S.KeepsCovering peer number e) := by
  have hstart : (n0.recordMissing clk peer filename).Stands peer number (clk 0 + MISSING_TTL) :=
    Node.stands_recordMissing n0 clk peer hnumber
  have hforgets {n' : Node} (hnone : ∀ now, n'.peerAvailability peer filename now = none) :
      ¬ ∀ now, clk 0 ≤ now → now < clk 0 + secs 15 →
        n'.peerAvailability peer filename now = some false := fun hall => by
    have hnow := hall (clk 0) le_rfl (Nat.lt_add_of_pos_right (by decide))
    rw [hnone] at hnow
    cases hnow
  refine ⟨fun cfg es n hrun hes => ?_, fun P S0 es S hS0 hrun hes => ?_⟩
  · have hn : n.Stands peer number (clk 0 + MISSING_TTL) :=
      hrun.invariant_of_events (I := Node.Stands peer number (clk 0 + MISSING_TTL))
        (fun n e n' he hn hstep => hstep.2.stands hn he.1 he.2 hstep.1) hes hstart
    refine ⟨fun now hnow => hn.answer hnumber hnow, fun e n' hstep hclk haffirm => ?_⟩
    refine ⟨fun hkept => ?_, fun hcovers now _ hnow =>
      (hstep.stands hn hclk haffirm hcovers).answer hnumber hnow⟩
    by_contra hcovers
    cases hstep with
    | mk =>
      cases e with
      | datagram w m src => exact hforgets (Node.answer_of_handle cfg w hnumber hcovers) hkept
      | _ => exact hcovers trivial
  · have hS : S.node.Stands peer number (clk 0 + MISSING_TTL) :=
      hrun.invariant_of_events (I := fun S => S.node.Stands peer number (clk 0 + MISSING_TTL))
        (fun S e S' he hS hstep => hstep.2.stands hS he.1 he.2 hstep.1) hes (hS0 ▸ hstart)
    refine ⟨fun now hnow => hS.answer hnumber hnow, fun e S' hstep hclk haffirm => ?_⟩
    refine ⟨fun hkept => ?_, fun hcovers now _ hnow =>
      (hstep.stands hS hclk haffirm hcovers).answer hnumber hnow⟩
    by_contra hcovers
    cases hstep with
    | mk hen happ =>
      cases e with
      | datagram w refresh m src =>
        refine hforgets (fun now => ?_) hkept
        have hnone := Node.answer_of_handle P.settings (w.after 1) hnumber hcovers now
        have hsame := Peer.receive_answers happ
        simp only [Node.answers, Prod.mk.injEq] at hsame
        rw [← hnone]
        simp only [Node.peerAvailability, hsame.1, hsame.2]
      | _ => exact hcovers trivial

end Steps

/-- A master that was just told that segment 0 is missing. -/
def demoDenied : Node :=
  (Node.new (fun _ => 0) "master" .master "live.m3u8" emptyDir demoLocal 1).recordMissing
    (fun _ => 0) demoOther "seg_0.ts"

/-- An inventory of segments up to 3 with a bit for the fifth segment below it. -/
def demoBeyond : NodeEvent := .datagram (demoWorld 1) (.pong (some ⟨3, 32⟩)) demoOther

/-- The same inventory, for a peer. -/
def demoBeyondPeer : PeerEvent :=
  .datagram (demoWorld 1) (demoWorld 1) (.pong (some ⟨3, 32⟩)) demoOther

/-- A peer that was just told the same. -/
def demoDeniedPeer : Peer :=
  { demoStart emptyDir with
    node := (demoStart emptyDir).node.recordMissing (fun _ => 0) demoOther "seg_0.ts" }

theorem not_affirms_beyond : ¬ Node.Affirms demoOther 0 (.pong (some ⟨3, 32⟩)) demoOther := by
  rintro ⟨-, av, hav, haffirm⟩
  cases hav
  exact absurd haffirm (by decide +kernel)

theorem negatives_last_demo :
    (∃ n, Run (Node.Step demoConfig.settings) demoDenied [demoBeyond] n ∧
      ∀ now < secs 15, n.peerAvailability demoOther "seg_0.ts" now = some false) ∧
    ∃ S, Run (Peer.Step demoConfig) demoDeniedPeer [demoBeyondPeer] S ∧
      ∀ now < secs 15, S.node.peerAvailability demoOther "seg_0.ts" now = some false := by
  have hnumber : segmentNumber "seg_0.ts" = some 0 := by decide +kernel
  constructor
  · have hcovers : demoDenied.KeepsCovering demoOther 0 demoBeyond := by
      rintro - - hnone
      exact absurd hnone (by decide +kernel)
    have hevents : ∀ e ∈ [demoBeyond], e.NotBefore 0 ∧ ¬ e.Affirms demoOther 0 := by
      intro e he
      obtain rfl := List.mem_singleton.mp he
      exact ⟨fun i => Nat.zero_le _, not_affirms_beyond⟩
    have hkept := (negatives_last hnumber demoOther
      (Node.new (fun _ => 0) "master" .master "live.m3u8" emptyDir demoLocal 1) fun _ => 0).1
      demoConfig.settings [demoBeyond] _ (.one ⟨hcovers, .mk _ _⟩) hevents
    exact ⟨_, .one (.mk _ _), fun now hnow => hkept.1 now (by rwa [Nat.zero_add])⟩
  · have hcovers : demoDeniedPeer.KeepsCovering demoOther 0 demoBeyondPeer := by
      rintro - - hnone
      exact absurd hnone (by decide +kernel)
    have hevents : ∀ e ∈ [demoBeyondPeer], e.NotBefore 0 ∧ ¬ e.Affirms demoOther 0 := by
      intro e he
      obtain rfl := List.mem_singleton.mp he
      exact ⟨fun i => Nat.zero_le _, not_affirms_beyond⟩
    obtain ⟨S, hstep⟩ : ∃ S, demoDeniedPeer.step? demoConfig demoBeyondPeer = some S := ⟨_, rfl⟩
    have hkept := (negatives_last hnumber demoOther (demoStart emptyDir).node fun _ => 0).2
      demoConfig demoDeniedPeer [demoBeyondPeer] S rfl (.one ⟨hcovers, .of_step? hstep⟩) hevents
    exact ⟨S, .one (.of_step? hstep), fun now hnow => hkept.1 now (by rwa [Nat.zero_add])⟩

/-- Two inventories that do not affirm segment 0 make its negative answer disappear at once. -/
theorem negative_forgotten :
    ∃ n, Run (Node.Step demoConfig.settings) demoDenied
        [demoBeyond, .datagram (demoWorld 1) (.pong (some ⟨100, 1⟩)) demoOther] n ∧
      SegmentAvailability.contains ⟨3, 32⟩ 0 ≠ some true ∧
      SegmentAvailability.contains ⟨100, 1⟩ 0 ≠ some true ∧
      n.peerAvailability demoOther "seg_0.ts" (millis 2) = none := by
  refine ⟨_, .cons (.mk _ _) (.one (.mk _ _)), ?_⟩
  decide +kernel

end Qstream

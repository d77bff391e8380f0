import Qstream.TransferLinkProgress

/-! The continuation that completes a download: send the rest of the window and the
window again, bring the windows together with a stray, then fill one window after
the other. -/
namespace Qstream.Transfer
open Runs Chunks

/-- The world of a delivery at time `t` with file operations that succeed. -/
def okEnv (ord : HashOrder) (wall t : ℕ) : World := ⟨fun _ => t, ord, .ok, wall⟩

/-- Event `e` is a tick or a delivery at time `t`, with file operations that succeed. -/
def LinkEvent.HappensAt (ord : HashOrder) (wall t : ℕ) : LinkEvent → Prop
  | .request clk => clk = fun _ => t
  | .senderTick now => now = t
  | .ack clk _ _ _ => clk = fun _ => t
  | .content env _ _ _ => env = okEnv ord wall t
  | .receiverTick now clk => now = t ∧ clk = fun _ => t
  | .drop _ => False
  | .duplicate _ => False

/-- A tick or a delivery no earlier than the time reached so far. -/
inductive TimedStep (ord : HashOrder) (wall : ℕ) (P : LinkParams) :
    ℕ × Link → LinkEvent → ℕ × Link → Prop
  | mk {t t' : ℕ} {L L' : Link} {e : LinkEvent} (hle : t ≤ t') (he : e.HappensAt ord wall t')
      (h : Link.Step P L e L') : TimedStep ord wall P (t, L) e (t', L')

namespace Link
variable {P : LinkParams} {L : Link} {ord : HashOrder} {wall : ℕ}

/-- A download in progress, with both invariants. -/
structure Going (P : LinkParams) (L : Link) : Prop where
  safe : L.Safe P
  aligned : L.Aligned P
  outcome : L.receiver.outcome = none

/-- The sender has window `w` and all its packets are in flight. -/
structure Ready (P : LinkParams) (r : ReceiverTransfer) (w : ℕ × ℕ) (L : Link) : Prop where
  going : L.Going P
  receiver : L.receiver = r
  sender : ∃ s, L.sender = some s ∧ s.range = w
  wire : ∀ p, w.1 ≤ p → p < w.1 + w.2 → P.packet p ∈ L.wire

theorem Step.going (hlen : P.file.length ≤ 65535 * SEGMENT_PACKET_SIZE) {e : LinkEvent}
    {L' : Link} (hstep : Step P L e L') (hout : L'.receiver.outcome = none) (h : L.Going P) :
    L'.Going P :=
  ⟨hstep.open.safe hlen h.safe, hstep.aligned h.safe hout h.aligned, hout⟩

theorem Safe.ackMessage_eq (h : L.Safe P) (a c : ℕ) :
    L.receiver.ackMessage (a, c) = P.ackMessage .progress a c := by
  simp only [ReceiverTransfer.ackMessage, LinkParams.ackMessage, h.receiverId]

section Emit
variable (hlen : P.file.length ≤ 65535 * SEGMENT_PACKET_SIZE)
include hlen

/-- The sender sends what is left of its window. -/
theorem emit_rest (n : ℕ) {t : ℕ} {s : SenderTransfer} (hg : L.Going P) (hs : L.sender = some s)
    (hn : s.range.2 - s.rangeSent ≤ n) :
    CanReach (TimedStep ord wall P) (t, L) fun x => x.2.Going P ∧
      x.2.receiver = L.receiver ∧ L.wire ⊆ x.2.wire ∧
      (∃ s', x.2.sender = some s' ∧ s'.range = s.range ∧ s'.retryCount = s.retryCount ∧
        s'.range.2 ≤ s'.rangeSent) ∧
      ∀ p, s.range.1 + s.rangeSent ≤ p → p < s.range.1 + s.range.2 → P.packet p ∈ x.2.wire := by
  induction n generalizing t L s with
  | zero =>
    exact .refl ⟨hg, rfl, List.Subset.refl _, ⟨s, hs, rfl, rfl, by omega⟩, fun p h1 h2 => by omega⟩
  | succ n ih =>
    rcases Nat.lt_or_ge s.rangeSent s.range.2 with hlt | hge
    swap
    · exact .refl ⟨hg, rfl, List.Subset.refl _, ⟨s, hs, rfl, rfl, hge⟩, fun p h1 h2 => by omega⟩
    obtain ⟨hw, hfile, hid⟩ := hg.safe.sender s hs
    have htick := SenderTransfer.tick_send P.senderCfg hlt (le_max_right t s.sendDeadline)
    have happly : L.apply P (.senderTick (max t s.sendDeadline)) = { L with
        sender := some (s.chunkSent P.senderCfg (max t s.sendDeadline))
        wire := L.wire ++ s.sendPackets (u16 (s.range.1 + s.rangeSent))
          (min (s.range.2 - s.rangeSent) SEND_CHUNK) } := by
      simp only [apply, onSenderTick, hs, htick]
    have hstep : Step P L (.senderTick (max t s.sendDeadline)) _ := .mk trivial
    have hg1 := hstep.going hlen (by rw [happly]; exact hg.outcome) hg
    have hs1 : (L.apply P (.senderTick (max t s.sendDeadline))).sender =
        some (s.chunkSent P.senderCfg (max t s.sendDeadline)) := by rw [happly]
    have hdrop : (s.chunkSent P.senderCfg (max t s.sendDeadline)).range.2 -
        (s.chunkSent P.senderCfg (max t s.sendDeadline)).rangeSent ≤ n := by
      simp only [SenderTransfer.chunkSent_range, SenderTransfer.chunkSent_rangeSent, SEND_CHUNK]
      omega
    have htimed : TimedStep ord wall P (t, L) (.senderTick (max t s.sendDeadline))
        (max t s.sendDeadline, _) := .mk (le_max_left _ _) rfl hstep
    refine .cons htimed ((ih hg1 hs1 hdrop).mono ?_)
    rintro ⟨t', L'⟩ ⟨hg', hr', hsub, ⟨s', hs', hrange, hretry, hfull⟩, hpk⟩
    simp only [SenderTransfer.chunkSent_range, SenderTransfer.chunkSent_retryCount,
      SenderTransfer.chunkSent_rangeSent] at hrange hretry hpk
    rw [happly] at hr' hsub
    refine ⟨hg', hr', List.Subset.trans (List.subset_append_left _ _) hsub,
      ⟨s', hs', hrange, hretry, hfull⟩, fun p h1 h2 => ?_⟩
    rcases Nat.lt_or_ge p (s.range.1 + s.rangeSent + min (s.range.2 - s.rangeSent) SEND_CHUNK)
      with hfirst | hlater
    · exact hsub (List.mem_append_right _ ((mem_sendPackets hw hfile hid).mpr ⟨p, h1, hfirst, rfl⟩))
    · exact hpk p (by omega) h2

/-- A sender that starts its window sends all of it. -/
theorem emit_all {t : ℕ} {s : SenderTransfer} (hg : L.Going P) (hs : L.sender = some s)
    (h0 : s.rangeSent = 0) :
    CanReach (TimedStep ord wall P) (t, L) fun x => x.2.Ready P L.receiver s.range := by
  refine (emit_rest hlen _ hg hs le_rfl).mono ?_
  rintro ⟨t', L'⟩ ⟨hg', hr', -, ⟨s', hs', hrange, -, -⟩, hpk⟩
  exact ⟨hg', hr', ⟨s', hs', hrange⟩, fun p h1 h2 => hpk p (by rw [h0]; exact h1) h2⟩

/-- With a retransmission left the sender sends its whole window again. -/
theorem emit_window {t : ℕ} {s : SenderTransfer} (hg : L.Going P) (hs : L.sender = some s)
    (hretry : s.retryCount < SENDER_RETRY_LIMIT) :
    CanReach (TimedStep ord wall P) (t, L) fun x => x.2.Ready P L.receiver s.range := by
  refine (emit_rest hlen _ hg hs le_rfl).bind ?_
  rintro ⟨t1, L1⟩ ⟨hg1, hr1, -, ⟨s1, hs1, hrange1, hretry1, hfull⟩, -⟩
  dsimp only at hg1 hr1 hs1
  obtain ⟨ack, hack⟩ := Option.isSome_iff_exists.mp
    ((hg1.aligned.live s1 hs1).unsent_or_armed.resolve_left (Nat.not_lt.mpr hfull))
  have htick := SenderTransfer.tick_resend P.senderCfg hfull hack (le_max_right t1 ack)
    (hretry1 ▸ hretry)
  have happly : L1.apply P (.senderTick (max t1 ack)) = { L1 with
      sender := some { s1 with retryCount := s1.retryCount + 1, rangeSent := 0,
                               ackDeadline := none, sendDeadline := max t1 ack }
      wire := L1.wire ++ [] } := by
    simp only [apply, onSenderTick, hs1, htick]
  have hstep : Step P L1 (.senderTick (max t1 ack)) _ := .mk trivial
  have hg2 := hstep.going hlen (by rw [happly]; exact hg1.outcome) hg1
  have htimed : TimedStep ord wall P (t1, L1) (.senderTick (max t1 ack)) (max t1 ack, _) :=
    .mk (le_max_left _ _) rfl hstep
  refine .cons htimed ?_
  refine CanReach.mono (fun x hx => ?_) (emit_all hlen hg2 (by rw [happly]) rfl)
  rw [happly] at hx
  simp only [hrange1] at hx
  exact { hx with receiver := hx.receiver.trans hr1 }

/-- A delivered Progress ACK makes its window the sender's. -/
theorem answer_ack {t a b : ℕ} {s : SenderTransfer} (hg : L.Going P) (hs : L.sender = some s)
    (hmem : P.ackMessage .progress a b ∈ L.wire) :
    CanReach (TimedStep ord wall P) (t, L) fun x => x.2.Ready P L.receiver (a, b) := by
  obtain ⟨hw, hfile, -⟩ := hg.safe.sender s hs
  obtain ⟨ha, hb, hab, -⟩ := hg.aligned.acks a b hmem
  obtain ⟨-, hr, hsent, -⟩ := onProgress_range (fun _ => t) hw hfile ha hb hab
  have happly : L.apply P (.ack (fun _ => t) .progress a b) = { L with
      sender := some (s.onProgress P.senderCfg (fun _ => t) a b)
      wire := L.wire.erase (P.ackMessage .progress a b) } := by
    simp only [apply, onAck, hs, SenderTransfer.onAck]
  have hstep : Step P L (.ack (fun _ => t) .progress a b) _ := .mk hmem
  have hg1 := hstep.going hlen (by rw [happly]; exact hg.outcome) hg
  have htimed : TimedStep ord wall P (t, L) (.ack (fun _ => t) .progress a b) (t, _) :=
    .mk le_rfl rfl hstep
  refine .cons htimed ?_
  refine CanReach.mono (fun x hx => ?_) (emit_all hlen hg1 (by rw [happly]) hsent)
  rw [hr] at hx
  rwa [happly] at hx

/-- A sender whose window lies below the wanted one is brought back to it: any of its
packets is a stray, which the receiver answers with the window it wants. -/
theorem sync {t : ℕ} {r : ReceiverTransfer} {v : ℕ × ℕ} (h : L.Ready P r v) :
    CanReach (TimedStep ord wall P) (t, L) fun x => x.2.Ready P r (r.wanted P.total) := by
  obtain ⟨hg, rfl, ⟨s, hs, rfl⟩, hwire⟩ := h
  obtain ⟨hw, -, -⟩ := hg.safe.sender s hs
  have hpos := hw.start_pos
  have hcount := (hg.aligned.live s hs).count_pos
  rcases hg.aligned.window s hs with heq | hbelow
  · exact .refl ⟨hg, rfl, ⟨s, hs, heq⟩, heq ▸ hwire⟩
  rcases hg.safe.window hg.outcome with hf | ⟨a, c, hin⟩
  · simp only [ReceiverTransfer.wanted, hf.range, Option.getD_none] at hbelow
    omega
  rw [hin.wanted_eq] at hbelow ⊢
  simp only at hbelow
  have hmem := hwire s.range.1 le_rfl (by omega)
  have hfits := hin.fits
  have hcpos := hin.count_pos
  have hstray : L.receiver.onContent P.receiverCfg (okEnv ord wall t) L.dir s.range.1 P.total
      (packetOf P.file s.range.1) = (L.receiver, [L.receiver.ackMessage (a, c)], L.dir) :=
    ReceiverTransfer.onContent_stray hin P.total hpos (by omega) (.inl (by omega))
  have happly : L.apply P (.content (okEnv ord wall t) s.range.1 P.total
      (packetOf P.file s.range.1)) = { L with
        wire := L.wire.erase (P.packet s.range.1) ++ [L.receiver.ackMessage (a, c)] } := by
    simp only [apply, onContent, hstray]
    rfl
  have hstep : Step P L (.content (okEnv ord wall t) s.range.1 P.total
      (packetOf P.file s.range.1)) _ := .mk hmem
  have hg1 := hstep.going hlen (by rw [happly]; exact hg.outcome) hg
  have htimed : TimedStep ord wall P (t, L) (.content (okEnv ord wall t) s.range.1
      P.total (packetOf P.file s.range.1)) (t, _) := .mk le_rfl rfl hstep
  rw [happly] at hg1 htimed
  have hack : P.ackMessage .progress a c ∈
      L.wire.erase (P.packet s.range.1) ++ [L.receiver.ackMessage (a, c)] := by
    simp [hg.safe.ackMessage_eq]
  exact .cons htimed (answer_ack hlen hg1 hs hack)

/-- Deliver the packets of the wanted window one after the other: `n` of them are left. -/
theorem fill (n : ℕ) {t a c : ℕ} (hg : L.Going P) (hs : L.sender ≠ none)
    (hwant : L.receiver.wanted P.total = (a, c)) (hn : n ≤ c)
    (hstored : ∀ p, a ≤ p → p < a + c - n → p ∈ L.receiver.packets)
    (hwire : ∀ p, a + c - n ≤ p → p < a + c → P.packet p ∈ L.wire) :
    CanReach (TimedStep ord wall P) (t, L) fun x =>
      x.2.receiver.outcome = some (.ok ()) ∨
      ∃ r c', r.wanted P.total = (a + c, c') ∧ x.2.Ready P r (a + c, c') := by
  have hw := hg.safe.window hg.outcome
  induction n generalizing L with
  | zero =>
    obtain ⟨r1, a', c', hin, hpk, -, hwant', -⟩ := ReceiverTransfer.exists_opened P.receiverCfg
      (okEnv ord wall t) hw (total_pos P) (total_le P)
    obtain ⟨rfl, rfl⟩ := Prod.mk.inj (hwant.symm.trans hwant')
    obtain ⟨p, hlo, hhi, hmiss⟩ := hin.missing
    exact absurd (hpk ▸ hstored p hlo hhi) hmiss
  | succ n ih =>
    obtain ⟨s, hs'⟩ := Option.ne_none_iff_exists'.mp hs
    have hmem := hwire (a + c - (n + 1)) le_rfl (by omega)
    have hstep : Step P L (.content (okEnv ord wall t) (a + c - (n + 1)) P.total
        (packetOf P.file (a + c - (n + 1)))) _ := .mk hmem
    have htimed : TimedStep ord wall P (t, L) (.content (okEnv ord wall t)
        (a + c - (n + 1)) P.total (packetOf P.file (a + c - (n + 1)))) (t, _) :=
      .mk le_rfl rfl hstep
    obtain ⟨-, -, hres, -⟩ := receive_packet (p := a + c - (n + 1))
      (okEnv ord wall t) L.dir hlen hg.safe.holds hw
    refine .cons htimed ?_
    rcases hres with ⟨a', c', hin⟩ | ⟨hio, -⟩ | ⟨hok, -⟩
    · have hout := hin.outcome
      have hg1 := hstep.going hlen hout hg
      obtain ⟨a1, c1, s', c'', hwant', hin', hnext, -, hkeep, hnew⟩ :=
        ReceiverTransfer.onContent_wanted P.receiverCfg (okEnv ord wall t) hw
          (total_pos P) (total_le P) L.dir _ _ hout
      obtain ⟨rfl, rfl⟩ := Prod.mk.inj (hwant.symm.trans hwant')
      rcases hnext with heq | ⟨rfl, hack⟩
      · refine ih hg1 hs (hin'.wanted_eq.trans heq) (by omega) ?_ ?_ (hg1.safe.window hout)
        · intro p hlo hhi
          rcases Nat.lt_or_ge p (a + c - (n + 1)) with hlt | hge
          · exact hkeep p (hstored p hlo hlt)
          · obtain rfl : p = a + c - (n + 1) := by omega
            exact hnew (by omega) (by omega)
        · intro p hlo hhi
          refine List.mem_append_left _ ((List.mem_erase_of_ne ?_).mpr (hwire p (by omega) hhi))
          intro heq'
          simp only [LinkParams.packet, LinkParams.contentMessage,
            Message.segmentContents.injEq] at heq'
          omega
      · rw [hg.safe.ackMessage_eq] at hack
        exact (answer_ack hlen hg1 hs' (List.mem_append_right _ hack)).mono fun x hx =>
          .inr ⟨_, c'', hin'.wanted_eq, hx⟩
    · exact absurd rfl hio
    · exact .refl (.inl hok)

/-- Window after window, the download completes. -/
theorem complete_from (n : ℕ) {t : ℕ} {r : ReceiverTransfer}
    (h : L.Ready P r (r.wanted P.total)) (hn : P.total - (r.wanted P.total).1 ≤ n) :
    CanReach (TimedStep ord wall P) (t, L) fun x => x.2.receiver.outcome = some (.ok ()) := by
  induction n using Nat.strong_induction_on generalizing L t r with
  | _ n ih =>
    obtain ⟨hg, rfl, ⟨s, hs, -⟩, hwire⟩ := h
    obtain ⟨r1, a, c, hin, -, -, hwant, -⟩ := ReceiverTransfer.exists_opened P.receiverCfg
      (okEnv ord wall t) (hg.safe.window hg.outcome) (total_pos P) (total_le P)
    rw [hwant] at hwire hn
    have hcpos := hin.count_pos
    refine (fill hlen c hg (by simp [hs]) hwant le_rfl (fun p h1 h2 => by omega)
      (fun p h1 h2 => hwire p (by omega) h2)).bind ?_
    rintro ⟨t', L'⟩ (hok | ⟨r', c', hwant', hready⟩)
    · exact .refl hok
    have hfits : a + c ≤ P.total := by
      obtain ⟨hg', rfl, -, -⟩ := hready
      obtain ⟨r2, a2, c2, hin2, -, -, hwant2, -⟩ := ReceiverTransfer.exists_opened P.receiverCfg
        (okEnv ord wall t) (hg'.safe.window hg'.outcome) (total_pos P) (total_le P)
      obtain ⟨rfl, rfl⟩ := Prod.mk.inj (hwant'.symm.trans hwant2)
      have := hin2.fits
      have := hin2.count_pos
      omega
    refine ih (P.total - (a + c)) ?_ (hwant' ▸ hready) (by rw [hwant'])
    simp only at hn
    omega

end Emit
end Link

/-- From every state of one sender and one receiver in progress that their datagrams,
however lost, duplicated or reordered, can lead to, some ticks and deliveries complete
the download, as long as the sender has a retransmission left. The receiver's own
budget plays no part: it need not be ticked. -/
theorem link_completes (P : LinkParams) (hlen : P.file.length ≤ 65535 * SEGMENT_PACKET_SIZE)
    (clk : Clock) (dir : Dir) (ord : HashOrder) (wall t : ℕ) {es : List LinkEvent} {L : Link}
    (h : Run (Link.Step P) (Link.initial P clk dir) es L) {s : SenderTransfer}
    (hs : L.sender = some s) (hout : L.receiver.outcome = none)
    (hretry : s.retryCount < SENDER_RETRY_LIMIT) :
    ∃ es' t' L', Run (TimedStep ord wall P) (t, L) es' (t', L') ∧
      L'.receiver.outcome = some (.ok ()) := by
  have hinv : L.Safe P ∧ (L.receiver.outcome = none → L.Aligned P) :=
    h.invariant (I := fun L => L.Safe P ∧ (L.receiver.outcome = none → L.Aligned P))
      (fun _ _ _ hL hstep => ⟨hstep.open.safe hlen hL.1, fun hout =>
        hstep.aligned hL.1 hout (hL.2 (hstep.outcome_none hout))⟩)
      ⟨Link.initial_safe P clk dir, fun _ => Link.initial_aligned P clk dir⟩
  have hg : L.Going P := ⟨hinv.1, hinv.2 hout, hout⟩
  have hdone : CanReach (TimedStep ord wall P) (t, L)
      fun x => x.2.receiver.outcome = some (.ok ()) :=
    (Link.emit_window hlen hg hs hretry).bind fun x hx =>
      (Link.sync hlen hx).bind fun y hy => Link.complete_from hlen _ hy le_rfl
  obtain ⟨es', ⟨t', L'⟩, hrun, hok⟩ := hdone
  exact ⟨es', t', L', hrun, hok⟩

/-- A three-byte file. -/
def smallLink : LinkParams :=
  ⟨defaultSettings, defaultSettings, 7, unspecifiedEndpoint, unspecifiedEndpoint, "1.mp4", [1, 2, 3]⟩

/-- The request was served and the first packet sent, and lost. -/
theorem link_completes_after_loss :
    ∃ L, Run (Link.Step smallLink) (Link.initial smallLink (fun _ => 0) ⟨∅, ["srv"], fun _ => none⟩)
        [.request fun _ => 0, .senderTick 0, .drop (smallLink.contentMessage 1 1 [1, 2, 3])] L ∧
      ∃ es' t' L', Run (TimedStep default 9 smallLink) (50, L) es' (t', L') ∧
        L'.receiver.outcome = some (.ok ()) := by
  have hreq : smallLink.requestMessage ∈
      (Link.initial smallLink (fun _ => 0) ⟨∅, ["srv"], fun _ => none⟩).wire := by decide +kernel
  have hmem : smallLink.contentMessage 1 1 [1, 2, 3] ∈
      (((Link.initial smallLink (fun _ => 0) ⟨∅, ["srv"], fun _ => none⟩).apply smallLink
        (.request fun _ => 0)).apply smallLink (.senderTick 0)).wire := by decide +kernel
  have hrun : Run (Link.Step smallLink)
      (Link.initial smallLink (fun _ => 0) ⟨∅, ["srv"], fun _ => none⟩)
      [.request fun _ => 0, .senderTick 0, .drop (smallLink.contentMessage 1 1 [1, 2, 3])] _ :=
    .cons (.mk hreq) (.cons (.mk trivial) (.one (.mk hmem)))
  exact ⟨_, hrun, link_completes smallLink (by decide) _ _ default 9 50 hrun rfl rfl (by decide)⟩

end Qstream.Transfer

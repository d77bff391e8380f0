import Qstream.TransferLink

/-! Progress of a transfer: however far the sender's and the receiver's windows have
drifted apart, some continuation of ticks and deliveries completes the download. -/
namespace Qstream.Transfer
open Runs Chunks

/-- Window `v` is the wanted window `w` or lies wholly below it. -/
def Behind (w v : ℕ × ℕ) : Prop := v = w ∨ v.1 + v.2 ≤ w.1

/-- The window both sides start with. -/
def firstWindow (total : ℕ) : ℕ × ℕ := (1, min INITIAL_WINDOW total)

/-- Everything that can set the sender's window sets it to the one the receiver wants
or to an earlier one. -/
structure Link.Aligned (P : LinkParams) (L : Link) : Prop where
  live : ∀ s, L.sender = some s → s.Live
  window : ∀ s, L.sender = some s → Behind (L.receiver.wanted P.total) s.range
  acks : ∀ a b, P.ackMessage .progress a b ∈ L.wire →
    1 ≤ a ∧ 1 ≤ b ∧ a + b ≤ P.total + 1 ∧ Behind (L.receiver.wanted P.total) (a, b)
  first : Behind (L.receiver.wanted P.total) (firstWindow P.total)

theorem Behind.advance {s c c' : ℕ} {v : ℕ × ℕ} (h : Behind (s, c) v) : Behind (s + c, c') v := by
  rcases h with rfl | h
  · exact .inr le_rfl
  · exact .inr (Nat.le_add_right_of_le h)

namespace ReceiverTransfer

/-- What a packet of the file does to the wanted window: nothing, or the window that
follows it becomes the wanted one and is asked for; every ACK sent names the wanted
window, and a packet of the window is stored. -/
theorem onContent_wanted (cfg : Settings) (env : World) {r : ReceiverTransfer} {N : ℕ}
    (hw : r.Fresh ∨ ∃ s c, r.InRange N s c) (h1 : 1 ≤ N) (hN : N ≤ 65535) (dir : Dir) (p : ℕ)
    (d : Bytes) (hout : (r.onContent cfg env dir p N d).1.outcome = none) :
    ∃ s c s' c', r.wanted N = (s, c) ∧ (r.onContent cfg env dir p N d).1.InRange N s' c' ∧
      ((s', c') = (s, c) ∨
        s' = s + c ∧ r.ackMessage (s', c') ∈ (r.onContent cfg env dir p N d).2.1) ∧
      (∀ m ∈ (r.onContent cfg env dir p N d).2.1, m = r.ackMessage (s', c')) ∧
      (∀ q ∈ r.packets, q ∈ (r.onContent cfg env dir p N d).1.packets) ∧
      (s ≤ p → p < s + c → p ∈ (r.onContent cfg env dir p N d).1.packets) := by
  obtain ⟨r1, s, c, hin, hpk, hsame, hwant, heq⟩ := exists_opened cfg env hw h1 hN
  have hack : ∀ rg, r1.ackMessage rg = r.ackMessage rg := fun rg => by
    simp only [ackMessage, hsame.transferId]
  have hfits := hin.fits
  have hpos := hin.start_pos
  have hkeep : ∀ q ∈ r.packets, q ∈ (r1.store cfg env.clk p d).packets :=
    fun q hq => (mem_store _ _ _ _ _ _).mpr (.inr (hpk ▸ hq))
  have hnew : p ∈ (r1.store cfg env.clk p d).packets := (mem_store _ _ _ _ _ _).mpr (.inl rfl)
  rw [heq] at hout ⊢
  rcases onContent_inRange hin N with ⟨hbad, h⟩ | ⟨-, -, hstray, h⟩ | ⟨hdup, -, -, h⟩ |
    ⟨-, -, -, ⟨hst, h⟩ | ⟨-, r2, h, hnext, hpk2, -, -⟩ | ⟨-, h⟩⟩
  · exact ⟨s, c, s, c, hwant, by rw [h]; exact hin, .inl rfl, by simp [h], by simp [h, hpk],
      fun _ _ => by omega⟩
  · exact ⟨s, c, s, c, hwant, by rw [h]; exact hin, .inl rfl, by simp [h, hack],
      by simp [h, hpk], fun _ _ => by omega⟩
  · exact ⟨s, c, s, c, hwant, by rw [h]; exact hin, .inl rfl, by simp [h], by simp [h, hpk],
      fun _ _ => by rw [h]; exact hdup⟩
  · exact ⟨s, c, s, c, hwant, by rw [h]; exact hst, .inl rfl, by simp [h],
      by rw [h]; exact hkeep, fun _ _ => by rw [h]; exact hnew⟩
  · exact ⟨s, c, s + c, nextWindow N (s + c) c, hwant, by rw [h]; exact hnext,
      .inr ⟨rfl, by simp [h, hack]⟩, by simp [h, hack], by rw [h]; exact hpk2 ▸ hkeep,
      fun _ _ => by rw [h]; exact hpk2 ▸ hnew⟩
  · rw [h] at hout
    exact absurd hout (complete_outcome _ _ _)

end ReceiverTransfer

namespace Link
variable {P : LinkParams} {L : Link}

theorem initial_aligned (P : LinkParams) (clk : Clock) (dir : Dir) :
    (initial P clk dir).Aligned P where
  live := by simp [initial]
  window := by simp [initial]
  acks := by simp [initial, LinkParams.requestMessage, LinkParams.ackMessage]
  first := .inl rfl

theorem onRequest_aligned (clk : Clock) (h : L.Aligned P) : (L.onRequest P clk).Aligned P :=
  { live := by
      intro s hs
      cases hs
      exact SenderTransfer.new_live _ _ _ _
    window := by
      intro s hs
      cases hs
      exact h.first
    acks := fun a b hm => h.acks a b (List.mem_of_mem_erase hm)
    first := h.first }

theorem ack_notMem_sendPackets {s : SenderTransfer} {i a b first count : ℕ} :
    Message.ack i .progress a b ∉ s.sendPackets first count := by
  simp [SenderTransfer.sendPackets]

theorem onSenderTick_aligned (now : ℕ) (h : L.Aligned P) : (L.onSenderTick P now).Aligned P := by
  cases hs : L.sender with
  | none => simpa only [onSenderTick, hs] using h
  | some s =>
    cases htick : s.tick P.senderCfg now with
    | mk s' rest =>
      obtain ⟨sent, res⟩ := rest
      have hmem (a b : ℕ) (hm : P.ackMessage .progress a b ∈ L.wire ++ sent) :
          P.ackMessage .progress a b ∈ L.wire :=
        (List.mem_append.mp hm).resolve_right fun hm =>
          ack_notMem_sendPackets (SenderTransfer.mem_tick_sent (by rw [htick]; exact hm))
      cases res with
      | error e =>
        simp only [onSenderTick, hs, htick]
        exact ⟨by simp, by simp, fun a b hm => h.acks a b (hmem a b hm), h.first⟩
      | ok _ =>
        simp only [onSenderTick, hs, htick]
        have hrange : s'.range = s.range := (SenderTransfer.tick_same htick).2.2.2
        refine ⟨?_, ?_, fun a b hm => h.acks a b (hmem a b hm), h.first⟩
        · intro u hu
          cases hu
          exact SenderTransfer.tick_live htick (h.live s hs)
        · intro u hu
          cases hu
          rw [hrange]
          exact h.window s hs

/-- An ACK of the link moves a safe sender to the window it names. -/
theorem onProgress_range (clk : Clock) {s : SenderTransfer} (hw : s.WindowInv)
    (hfile : s.file = P.file) {a b : ℕ} (ha : 1 ≤ a) (hb : 1 ≤ b) (hab : a + b ≤ P.total + 1) :
    NamesPackets s.totalPackets a b ∧ (s.onProgress P.senderCfg clk a b).range = (a, b) ∧
    (s.onProgress P.senderCfg clk a b).rangeSent = 0 ∧
    (s.onProgress P.senderCfg clk a b).retryCount = 0 := by
  have htot : s.totalPackets = P.total := by rw [hw.total, hfile]; rfl
  obtain ⟨hr, hsent, hretry, -⟩ :=
    SenderTransfer.onProgress_valid P.senderCfg clk (b := b) hw ha (by omega)
  refine ⟨⟨ha, by omega, hb⟩, ?_, hsent, hretry⟩
  rw [hr, min_eq_left (by omega)]

theorem onAck_aligned (clk : Clock) (ackType : AckType) (a b : ℕ)
    (hmem : P.ackMessage ackType a b ∈ L.wire) (hsafe : L.Safe P) (h : L.Aligned P) :
    (L.onAck P clk ackType a b).Aligned P := by
  have hacks : ∀ a' b', P.ackMessage .progress a' b' ∈
      L.wire.erase (P.ackMessage ackType a b) →
      1 ≤ a' ∧ 1 ≤ b' ∧ a' + b' ≤ P.total + 1 ∧ Behind (L.receiver.wanted P.total) (a', b') :=
    fun a' b' hm => h.acks a' b' (List.mem_of_mem_erase hm)
  cases hs : L.sender with
  | none =>
    simp only [onAck, hs]
    exact ⟨by simp, by simp, hacks, h.first⟩
  | some s =>
    cases ackType with
    | complete =>
      simp only [onAck, hs, SenderTransfer.onAck]
      exact ⟨by simp, by simp, hacks, h.first⟩
    | progress =>
      simp only [onAck, hs, SenderTransfer.onAck]
      obtain ⟨hw, hfile, -⟩ := hsafe.sender s hs
      obtain ⟨ha, hb, hab, hbehind⟩ := h.acks a b hmem
      obtain ⟨hnames, hr, -⟩ := onProgress_range clk hw hfile ha hb hab
      refine ⟨?_, ?_, hacks, h.first⟩
      · intro u hu
        cases hu
        exact SenderTransfer.onProgress_live _ _ hw hnames
      · intro u hu
        cases hu
        rw [hr]
        exact hbehind

theorem onContent_aligned (env : World) {p t : ℕ} {d : Bytes}
    (hmem : P.contentMessage p t d ∈ L.wire) (hsafe : L.Safe P)
    (hnone : L.receiver.outcome = none)
    (hout : (L.onContent P env p t d).receiver.outcome = none) (h : L.Aligned P) :
    (L.onContent P env p t d).Aligned P := by
  obtain ⟨-, rfl, -, -, rfl⟩ := hsafe.wire _ _ _ _ hmem
  obtain ⟨s, c, s', c', hwant, hin, hnext, hsent, -, -⟩ :=
    ReceiverTransfer.onContent_wanted P.receiverCfg env (hsafe.window hnone) (total_pos P)
      (total_le P) L.dir p (packetOf P.file p) hout
  have hwant' : (L.onContent P env p P.total (packetOf P.file p)).receiver.wanted P.total =
      (s', c') := hin.wanted_eq
  have hmove : ∀ v, Behind (s, c) v → Behind (s', c') v := by
    intro v hv
    rcases hnext with heq | ⟨rfl, -⟩
    · rw [heq]
      exact hv
    · exact hv.advance
  refine ⟨h.live, ?_, ?_, ?_⟩
  · intro u hu
    rw [hwant']
    exact hmove _ (hwant ▸ h.window u hu)
  · intro a b hm
    rw [hwant']
    rcases List.mem_append.mp hm with hm | hm
    · obtain ⟨ha, hb, hab, hbehind⟩ := h.acks a b (List.mem_of_mem_erase hm)
      exact ⟨ha, hb, hab, hmove _ (hwant ▸ hbehind)⟩
    · have heq := hsent _ hm
      simp only [LinkParams.ackMessage, ReceiverTransfer.ackMessage, Message.ack.injEq,
        true_and] at heq
      obtain ⟨-, rfl, rfl⟩ := heq
      exact ⟨hin.start_pos, hin.count_pos, hin.fits, .inl rfl⟩
  · rw [hwant']
    exact hmove _ (hwant ▸ h.first)

theorem onReceiverTick_aligned (now : ℕ) (clk : Clock) (hsafe : L.Safe P)
    (hnone : L.receiver.outcome = none) (h : L.Aligned P) :
    (L.onReceiverTick P now clk).Aligned P := by
  obtain ⟨hprog, -, hmsg⟩ := ReceiverTransfer.onTick_spec P.receiverCfg L.receiver now clk
  have hwant : (L.onReceiverTick P now clk).receiver.wanted P.total =
      L.receiver.wanted P.total := by
    simp only [ReceiverTransfer.wanted, onReceiverTick, hprog.range]
  refine ⟨h.live, fun s hs => hwant ▸ h.window s hs, ?_, hwant ▸ h.first⟩
  intro a b hm
  rw [hwant]
  rcases List.mem_append.mp hm with hm | hm
  · exact h.acks a b hm
  rcases hmsg _ hm with hreq | ⟨rg, hrg, hack⟩
  · simp [ReceiverTransfer.requestMessage, LinkParams.ackMessage] at hreq
  simp only [LinkParams.ackMessage, ReceiverTransfer.ackMessage, Message.ack.injEq,
    true_and] at hack
  obtain ⟨-, rfl, rfl⟩ := hack
  rcases hsafe.window hnone with hf | ⟨s, c, hin⟩
  · rw [hf.range] at hrg
    cases hrg
  · rw [hin.range] at hrg
    cases hrg
    exact ⟨hin.start_pos, hin.count_pos, hin.fits, .inl hin.wanted_eq.symm⟩

/-- An outcome is final. -/
theorem Step.outcome_none {e : LinkEvent} {L' : Link} (hstep : Step P L e L')
    (h : L'.receiver.outcome = none) : L.receiver.outcome = none := by
  cases hstep with
  | mk hen =>
    cases e with
    | request clk => exact h
    | senderTick now =>
      simp only [apply, onSenderTick] at h
      split at h
      · exact h
      · split at h <;> exact h
    | ack clk ackType a b =>
      simp only [apply, onAck] at h
      split at h
      · exact h
      · split at h <;> exact h
    | content env p t d =>
      by_contra hne
      obtain ⟨o, ho⟩ := Option.ne_none_iff_exists'.mp hne
      cases o <;> simp [apply, onContent, ReceiverTransfer.onContent, ho] at h
    | receiverTick now clk =>
      rcases (ReceiverTransfer.onTick_spec P.receiverCfg L.receiver now clk).2.1 with heq | ⟨hn, -⟩
      · exact heq.symm.trans h
      · exact hn
    | drop m => exact h
    | duplicate m => exact h

/-- Every event of the link keeps the windows aligned while the download is in progress. -/
theorem Step.aligned {e : LinkEvent} {L' : Link} (hstep : Step P L e L') (hsafe : L.Safe P)
    (hout : L'.receiver.outcome = none) (h : L.Aligned P) : L'.Aligned P := by
  have hnone := hstep.outcome_none hout
  cases hstep with
  | mk hen =>
    cases e with
    | request clk => exact onRequest_aligned clk h
    | senderTick now => exact onSenderTick_aligned now h
    | ack clk ackType a b => exact onAck_aligned clk ackType a b hen hsafe h
    | content env p t d => exact onContent_aligned env hen hsafe hnone hout h
    | receiverTick now clk => exact onReceiverTick_aligned now clk hsafe hnone h
    | drop m => exact { h with acks := fun a b hm => h.acks a b (List.mem_of_mem_erase hm) }
    | duplicate m =>
      refine { h with acks := fun a b hm => h.acks a b ?_ }
      rcases List.mem_cons.mp hm with heq | hm
      · exact heq ▸ hen
      · exact hm

end Link
end Qstream.Transfer

import Qstream.TransferReceiverWindow

/-! Content packets whose number lies outside their own total. A receiver checks the
number against the total it has latched, and latches the total of the first packet
before that check. -/
namespace Qstream.Transfer
namespace ReceiverTransfer

def Malformed (packetNumber totalPackets : ℕ) : Prop :=
  packetNumber = 0 ∨ totalPackets < packetNumber

/-- What a rejected packet must leave alone. -/
structure Undisturbed (r t : ReceiverTransfer) : Prop where
  total : t.total = r.total
  range : t.range = r.range
  packets : t.packets = r.packets
  firstResponseDeadline : t.firstResponseDeadline = r.firstResponseDeadline
  quietDeadline : t.quietDeadline = r.quietDeadline
  firstPacketLatency : t.firstPacketLatency = r.firstPacketLatency

variable {cfg : Settings} {env : World} {r : ReceiverTransfer} {dir : Dir} {p t : ℕ} {d : Bytes}

theorem complete_holdings (env : World) (r : ReceiverTransfer) (dir : Dir) :
    (r.complete env dir).1.total = r.total ∧ (r.complete env dir).1.packets = r.packets := by
  simp only [complete]
  split <;> exact ⟨rfl, rfl⟩

theorem advance_holdings (cfg : Settings) (env : World) (r : ReceiverTransfer) (dir : Dir)
    (start count total : ℕ) :
    (r.advance cfg env dir start count total).1.total = r.total ∧
    (r.advance cfg env dir start count total).1.packets = r.packets := by
  simp only [advance]
  split
  · exact complete_holdings env r dir
  · exact ⟨rfl, rfl⟩

/-- Content is dropped, or it is wanted and stored, once the total is latched. -/
theorem onContent_holdings (cfg : Settings) (env : World) (dir : Dir) (p t : ℕ) (d : Bytes)
    (h : r.outcome = none) :
    (¬ (r.latchTotal cfg env.clk t).Wants p ∧
      (r.onContent cfg env dir p t d).1 = r.latchTotal cfg env.clk t) ∨
    ((r.latchTotal cfg env.clk t).Wants p ∧
      (r.onContent cfg env dir p t d).1.total = (r.latchTotal cfg env.clk t).total ∧
      (r.onContent cfg env dir p t d).1.packets =
        (r.latchTotal cfg env.clk t).packets.insert p d) := by
  have hres := onContent_result cfg env r dir p t d
  generalize r.onContent cfg env dir p t d = res at hres ⊢
  cases hres with
  | saved ho => rw [h] at ho; cases ho
  | failed ho => rw [h] at ho; cases ho
  | dropped _ hw => exact .inl ⟨hw, rfl⟩
  | nudged _ hw => exact .inl ⟨hw, rfl⟩
  | stored _ hw => exact .inr ⟨hw, rfl, rfl⟩
  | advanced _ hw => exact .inr ⟨hw, advance_holdings cfg env _ dir _ _ _⟩
  | completed _ hw => exact .inr ⟨hw, complete_holdings env _ dir⟩

/-- A malformed packet changes nothing exactly when the receiver has latched its total
and does not want the packet by that total: the first packet is believed unchecked,
and a later one is only held against the total of the first. -/
theorem malformed_ignored_iff (cfg : Settings) (env : World) (dir : Dir) (d : Bytes)
    (h : r.outcome = none) (hbad : Malformed p t) :
    Undisturbed r (r.onContent cfg env dir p t d).1 ↔
      r.total.isSome ∧ ¬ (t < p ∧ r.Wants p) := by
  cases htotal : r.total with
  | none =>
    have hlatch : (r.latchTotal cfg env.clk t).total = some t := by simp [latchTotal, htotal]
    have hafter : (r.onContent cfg env dir p t d).1.total = some t := by
      rcases onContent_holdings cfg env dir p t d h with ⟨-, heq⟩ | ⟨-, heq, -⟩
      · rw [heq, hlatch]
      · rw [heq, hlatch]
    refine ⟨fun hsame => ?_, fun hsome => absurd hsome.1 (by simp)⟩
    have hno := hsame.total
    rw [hafter, htotal] at hno
    cases hno
  | some N =>
    have hcases := onContent_holdings cfg env dir p t d h
    rw [latchTotal_of_some cfg env.clk r htotal] at hcases
    rcases hcases with ⟨hno, heq⟩ | ⟨hwants, -, heq⟩
    · rw [heq]
      exact ⟨fun _ => ⟨rfl, fun hw => hno hw.2⟩, fun _ => ⟨rfl, rfl, rfl, rfl, rfl, rfl⟩⟩
    · obtain ⟨-, -, -, -, -, hpos, -, -, -, hnew⟩ := id hwants
      have hbeyond : t < p := hbad.resolve_left hpos
      refine ⟨fun hsame => absurd ?_ hnew, fun hok => absurd ⟨hbeyond, hwants⟩ hok.2⟩
      rw [← hsame.packets, heq]
      exact (AList.mem_insert _).mpr (.inl rfl)

/-- A receiver that was told of three packets. -/
def toldOfThree : ReceiverTransfer :=
  (new defaultSettings (fun _ => 0) 7 unspecifiedEndpoint "seg_0001.ts").latchTotal
    defaultSettings (fun _ => 0) 3

theorem malformed_ignored_latched :
    Undisturbed toldOfThree (toldOfThree.onContent defaultSettings ⟨fun _ => 9, default, .ok, 0⟩
      ⟨∅, ["srv"], fun _ => none⟩ 0 3 [1]).1 :=
  (malformed_ignored_iff defaultSettings ⟨fun _ => 9, default, .ok, 0⟩
    ⟨∅, ["srv"], fun _ => none⟩ [1]
    rfl (.inl rfl)).mpr ⟨rfl, fun h => absurd h.1 (by decide)⟩

/-- Packet 0 of 0 fixes the total of a new receiver at 0 and puts off its no-response
deadline by an hour; and packet 2 of 1 is stored by a receiver told of three. -/
theorem first_packet_unchecked :
    (Malformed 0 0 ∧
      let r := new defaultSettings (fun _ => 0) 7 unspecifiedEndpoint "seg_0001.ts"
      let after := (r.onContent defaultSettings ⟨fun _ => 9, default, .ok, 0⟩
        ⟨∅, ["srv"], fun _ => none⟩ 0 0 []).1
      after.total = some 0 ∧ after.firstResponseDeadline = 9 + secs 3600 ∧
        ¬ Undisturbed r after) ∧
    Malformed 2 1 ∧
      ¬ Undisturbed toldOfThree (toldOfThree.onContent defaultSettings
        ⟨fun _ => 9, default, .ok, 0⟩ ⟨∅, ["srv"], fun _ => none⟩ 2 1 [5]).1 := by
  refine ⟨⟨.inl rfl, rfl, rfl, fun h => ?_⟩, .inr (by decide), fun h => ?_⟩
  · exact absurd h.total (by decide)
  · exact absurd (congrArg HashMap.len h.packets) (by decide)

end ReceiverTransfer
end Qstream.Transfer

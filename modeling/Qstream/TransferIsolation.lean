import Qstream.Runs
import Qstream.TransferReceiverWindow
import Qstream.TransferRegistry

/-! What the datagrams of one endpoint do to the transfers of another. The registry finds
a transfer by its id alone, so they leave them alone exactly as long as the ids they
carry do not happen to be theirs. -/
namespace Qstream.Transfer
open Runs

inductive RegistryEvent
  | request (clk : Clock) (transferId : ℕ) (filename : String) (src : SocketAddr)
  | rejected (transferId : ℕ) (src : SocketAddr) (retryable : Bool)
  | ack (clk : Clock) (transferId : ℕ) (ackType : AckType) (nextStart nextCount : ℕ)
      (src : SocketAddr)
  | contents (w : World) (transferId packetNumber totalPackets : ℕ) (data : Bytes)
      (src : SocketAddr)
  | notFound (clk : Clock) (transferId : ℕ) (retryable : Bool) (src : SocketAddr)
  | tick (w : World) (now : ℕ)
  | startReceiver (ids : TransferRegistry.IdSource) (clk : Clock) (remote : SocketAddr)
      (filename : String)
  | removeReceiver (id : ℕ)

/-- Where the datagram of an event came from. -/
def RegistryEvent.source : RegistryEvent → Option SocketAddr
  | .request _ _ _ src => some src
  | .rejected _ src _ => some src
  | .ack _ _ _ _ _ src => some src
  | .contents _ _ _ _ _ src => some src
  | .notFound _ _ _ src => some src
  | .tick _ _ => none
  | .startReceiver _ _ _ _ => none
  | .removeReceiver _ => none

namespace ReceiverTransfer

/-- Content packet `p` is not stored: the download is over, or the packet lies outside
the current range or is there already. -/
def Ignores (r : ReceiverTransfer) (p : ℕ) : Prop :=
  r.outcome.isSome ∨ ∃ N s c, r.total = some N ∧ r.range = some (s, c) ∧
    (p = 0 ∨ N < p ∨ p < s ∨ s + c ≤ p ∨ p ∈ r.packets)

theorem onContent_ignored {cfg : Settings} {w : World} {r : ReceiverTransfer} {dir : Dir} {p t : ℕ}
    {d : Bytes} (h : r.Ignores p) :
    (r.onContent cfg w dir p t d).1 = r ∧ (r.onContent cfg w dir p t d).2.2 = dir := by
  cases hout : r.outcome with
  | some o => cases o <;> simp [onContent, hout]
  | none =>
    obtain ⟨N, s, c, htotal, hrange, hp⟩ := h.resolve_left (by simp [hout])
    simp only [onContent, hout, latchTotal_of_some cfg w.clk r htotal, htotal, hrange]
    split
    · exact ⟨rfl, rfl⟩
    split
    · exact ⟨rfl, rfl⟩
    split
    · exact ⟨rfl, rfl⟩
    · rename_i hnew
      rcases hp with hp | hp | hp | hp | hp
      · omega
      · omega
      · omega
      · omega
      · exact absurd hp hnew

end ReceiverTransfer

namespace TransferRegistry

def apply (cfg : Settings) (reg : TransferRegistry) : RegistryEvent → TransferRegistry
  | .request clk id filename src => (reg.serve clk id filename src).1
  | .rejected id src retryable => (reg.rejectNotFound id src retryable).1
  | .ack clk id ackType a b _ => reg.onAck cfg clk id ackType a b
  | .contents w id p t d _ => (reg.onContent cfg w id p t d).1
  | .notFound clk id retryable _ => (reg.onNotFound clk id retryable).1
  | .tick w now => (reg.tick cfg w now).1
  | .startReceiver ids clk remote filename =>
    (reg.startReceiver cfg ids clk remote filename).1
  | .removeReceiver id => reg.removeReceiver id

inductive Step (cfg : Settings) : TransferRegistry → RegistryEvent → TransferRegistry → Prop
  | mk (reg : TransferRegistry) (e : RegistryEvent) : Step cfg reg e (reg.apply cfg e)

/-- A request that `serve` accepts. -/
def Accepts (reg : TransferRegistry) (filename : String) : Prop :=
  validFilename filename ∧ reg.activeCount < MAX_CONCURRENT_TRANSFERS ∧ (reg.dir.read filename).isSome

/-- The datagram does not carry the id of a transfer of another endpoint in the map its
handler looks it up in, or is not acted upon. -/
def Admits (reg : TransferRegistry) : RegistryEvent → Prop
  | .request _ id filename src =>
    reg.Accepts filename → ∀ s, reg.senders.lookup id = some s → s.remote = src
  | .ack _ id _ _ _ src => ∀ s, reg.senders.lookup id = some s → s.remote = src
  | .contents _ id p _ _ src =>
    ∀ r, reg.receivers.lookup id = some r → r.Ignores p ∨ r.remote = src
  | .notFound _ id _ src => ∀ r, reg.receivers.lookup id = some r → r.remote = src
  | _ => True

/-- Every transfer with an endpoint other than `src` is as it was. -/
structure Untouched (src : SocketAddr) (reg reg' : TransferRegistry) : Prop where
  senders : ∀ id s, reg.senders.lookup id = some s → s.remote ≠ src →
    reg'.senders.lookup id = some s
  receivers : ∀ id r, reg.receivers.lookup id = some r → r.remote ≠ src →
    reg'.receivers.lookup id = some r

theorem Untouched.refl (src : SocketAddr) (reg : TransferRegistry) : Untouched src reg reg :=
  ⟨fun _ _ h _ => h, fun _ _ h _ => h⟩

variable {reg : TransferRegistry} {src : SocketAddr} {cfg : Settings}

/-- Changing the sender of one id touches no other endpoint when it was `src`'s own. -/
theorem untouched_senders {senders : HashMap ℕ SenderTransfer} {id : ℕ} (events : List RegEvent)
    (hown : ∀ s, reg.senders.lookup id = some s → s.remote = src)
    (hkeep : ∀ id' ≠ id, senders.lookup id' = reg.senders.lookup id') :
    Untouched src reg { reg with senders := senders, events := events } where
  senders := by
    intro id' s hs hne
    by_cases hid : id' = id
    · subst hid
      exact absurd (hown s hs) hne
    · exact (hkeep id' hid).trans hs
  receivers := fun _ _ h _ => h

theorem untouched_receivers {receivers : HashMap ℕ ReceiverTransfer} {id : ℕ} (dir : Dir)
    (hown : ∀ r, reg.receivers.lookup id = some r →
      receivers.lookup id = some r ∨ r.remote = src)
    (hkeep : ∀ id' ≠ id, receivers.lookup id' = reg.receivers.lookup id') :
    Untouched src reg { reg with receivers := receivers, dir := dir } where
  senders := fun _ _ h _ => h
  receivers := by
    intro id' r hr hne
    by_cases hid : id' = id
    · subst hid
      exact (hown r hr).resolve_right hne
    · exact (hkeep id' hid).trans hr

theorem serve_untouched (clk : Clock) (id : ℕ) (filename : String)
    (h : reg.Accepts filename → ∀ s, reg.senders.lookup id = some s → s.remote = src) :
    Untouched src reg (reg.serve clk id filename src).1 := by
  have hreject : Untouched src reg (reg.rejectNotFound id src false).1 :=
    ⟨fun _ _ h _ => h, fun _ _ h _ => h⟩
  unfold serve
  split
  · exact hreject
  split
  · exact hreject
  split
  · rename_i hvalid hroom _ file hread
    have hacc : reg.Accepts filename := ⟨by simpa using hvalid, by omega, by simp [hread]⟩
    exact untouched_senders _ (h hacc) fun id' hid => AList.lookup_insert_ne hid
  · exact hreject

theorem onAck_untouched (clk : Clock) (id : ℕ) (ackType : AckType) (a b : ℕ)
    (h : ∀ s, reg.senders.lookup id = some s → s.remote = src) :
    Untouched src reg (reg.onAck cfg clk id ackType a b) := by
  unfold onAck
  split
  · split
    · exact untouched_senders _ h fun id' hid => AList.lookup_erase_ne hid
    · exact untouched_senders _ h fun id' hid => AList.lookup_insert_ne hid
  · exact .refl _ _

theorem onContent_untouched (w : World) (id p t : ℕ) (d : Bytes)
    (h : ∀ r, reg.receivers.lookup id = some r → r.Ignores p ∨ r.remote = src) :
    Untouched src reg (reg.onContent cfg w id p t d).1 := by
  unfold onContent
  split
  · rename_i r hr
    refine untouched_receivers _ (fun r' hr' => ?_) fun id' hid => AList.lookup_insert_ne hid
    obtain rfl : r = r' := Option.some.inj (hr.symm.trans hr')
    rcases h r hr with hign | hown
    · left
      rw [AList.lookup_insert, (ReceiverTransfer.onContent_ignored hign).1]
    · exact .inr hown
  · exact .refl _ _

theorem onNotFound_untouched (clk : Clock) (id : ℕ) (retryable : Bool)
    (h : ∀ r, reg.receivers.lookup id = some r → r.remote = src) :
    Untouched src reg (reg.onNotFound clk id retryable).1 := by
  unfold onNotFound
  split
  · exact untouched_receivers _ (fun r' hr' => .inr (h r' hr'))
      fun id' hid => AList.lookup_insert_ne hid
  · exact .refl _ _

/-- A datagram the registry admits touches only transfers with its own source. -/
theorem apply_untouched {e : RegistryEvent} (he : e.source = some src) (h : reg.Admits e) :
    Untouched src reg (reg.apply cfg e) := by
  cases e with
  | request clk id filename s =>
    cases he
    exact serve_untouched clk id filename h
  | rejected id s retryable => exact ⟨fun _ _ h _ => h, fun _ _ h _ => h⟩
  | ack clk id ackType a b s =>
    cases he
    exact onAck_untouched clk id ackType a b h
  | contents w id p t d s =>
    cases he
    exact onContent_untouched w id p t d h
  | notFound clk id retryable s =>
    cases he
    exact onNotFound_untouched clk id retryable h
  | tick w now => cases he
  | startReceiver ids clk remote filename => cases he
  | removeReceiver id => cases he

end TransferRegistry

/-- In a run of a registry in which no datagram carries the id of another endpoint's
transfer, every datagram leaves the transfers of all other endpoints as they were. -/
theorem transfers_isolated (cfg : Settings) (dir : Dir) {es : List RegistryEvent}
    {reg : TransferRegistry}
    (h : Run (guarded TransferRegistry.Admits (TransferRegistry.Step cfg)) (.new dir) es reg) :
    Run (fun r e r' => TransferRegistry.Step cfg r e r' ∧
      ∀ src, e.source = some src → TransferRegistry.Untouched src r r') (.new dir) es reg := by
  refine h.mono fun r e r' hstep => ?_
  obtain ⟨hadm, hmk⟩ := hstep
  refine ⟨hmk, fun src hsrc => ?_⟩
  cases hmk with
  | mk => exact TransferRegistry.apply_untouched hsrc hadm

def peerA : SocketAddr := ⟨.v4 ⟨10, 0, 0, 1⟩, 4000⟩
def peerB : SocketAddr := ⟨.v4 ⟨10, 0, 0, 2⟩, 4000⟩

/-- A directory with one small segment. -/
def oneSegment : Dir := ⟨AList.insert "1.ts" (.file [1, 2, 3] true 0) ∅, ["srv"], fun _ => none⟩

/-- One endpoint fetches a segment under id 7 while a stray NOT_FOUND of another, with
an id nobody uses, passes by. -/
theorem transfers_isolated_two_peers :
    ∃ reg, Run (fun r e r' => TransferRegistry.Step defaultSettings r e r' ∧
      ∀ src, e.source = some src → TransferRegistry.Untouched src r r') (.new oneSegment)
      [.request (fun _ => 0) 7 "1.ts" peerA, .notFound (fun _ => 0) 9 false peerB] reg := by
  have hrun : Run (guarded TransferRegistry.Admits (TransferRegistry.Step defaultSettings))
      (.new oneSegment)
      [.request (fun _ => 0) 7 "1.ts" peerA, .notFound (fun _ => 0) 9 false peerB] _ :=
    .cons ⟨fun _ s hs => absurd hs (by simp [TransferRegistry.new]), .mk _ _⟩
      (.one ⟨(fun r hr => by cases hr), .mk _ _⟩)
  exact ⟨_, transfers_isolated defaultSettings oneSegment hrun⟩

/-- A COMPLETE of one endpoint removes the sender another endpoint is being served by. -/
theorem foreign_complete_removes_sender :
    ∃ reg, Run (TransferRegistry.Step defaultSettings) (.new oneSegment)
        [.request (fun _ => 0) 7 "1.ts" peerA] reg ∧
      ∃ s, reg.senders.lookup 7 = some s ∧ s.remote = peerA ∧ peerA ≠ peerB ∧
        ((reg.apply defaultSettings (.ack (fun _ => 1) 7 .complete 0 0 peerB)).senders.lookup 7) =
          none :=
  ⟨_, .one (.mk _ _), .new (fun _ => 0) 7 peerA [1, 2, 3], by decide +kernel, by decide, by decide,
    by decide +kernel⟩

end Qstream.Transfer

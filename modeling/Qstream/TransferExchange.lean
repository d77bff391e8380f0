import Qstream.TransferLink
import Qstream.TransferOutcome

/-! A requester and a server, each with its registry, joined by a network that may lose,
duplicate, delay and reorder their datagrams. -/
namespace Qstream.Transfer
open Runs

/-! What one call of a registry sends and what it leaves in its maps. -/

namespace ReceiverTransfer
variable {cfg : Settings} {env : World} {r : ReceiverTransfer} {dir : Dir} {p t : ℕ} {d : Bytes}

/-- What `complete` does to the fields of a transfer, and that it says so only when it saved. -/
theorem complete_spec (env : World) (r : ReceiverTransfer) (dir : Dir) :
    SameTransfer r (r.complete env dir).1 ∧
    ∀ m ∈ (r.complete env dir).2.1,
      m = r.completeMessage ∧ (r.complete env dir).1.outcome = some (.ok ()) := by
  simp only [complete]
  split
  · exact ⟨⟨rfl, rfl, rfl, rfl⟩, by simp⟩
  · exact ⟨⟨rfl, rfl, rfl, rfl⟩, by simp⟩

theorem advance_spec (cfg : Settings) (env : World) (r : ReceiverTransfer) (dir : Dir)
    (start count total : ℕ) :
    SameTransfer r (r.advance cfg env dir start count total).1 ∧
    ∀ m ∈ (r.advance cfg env dir start count total).2.1, (∃ rg, m = r.ackMessage rg) ∨
      m = r.completeMessage ∧
        (r.advance cfg env dir start count total).1.outcome = some (.ok ()) := by
  simp only [advance]
  split
  · obtain ⟨hsame, hsent⟩ := complete_spec env r dir
    exact ⟨hsame, fun m hm => .inr (hsent m hm)⟩
  · refine ⟨⟨rfl, rfl, rfl, rfl⟩, fun m hm => .inl ⟨_, List.mem_singleton.mp hm⟩⟩

/-- Whatever the content, a receiver answers with a range it wants, or with COMPLETE once the
file is saved. -/
theorem onContent_spec (cfg : Settings) (env : World) (r : ReceiverTransfer) (dir : Dir)
    (p t : ℕ) (d : Bytes) :
    SameTransfer r (r.onContent cfg env dir p t d).1 ∧
    ∀ m ∈ (r.onContent cfg env dir p t d).2.1, (∃ rg, m = r.ackMessage rg) ∨
      m = r.completeMessage ∧ (r.onContent cfg env dir p t d).1.outcome = some (.ok ()) := by
  have hopen := latchTotal_same cfg env.clk r t
  have hack : ∀ rg, (r.latchTotal cfg env.clk t).ackMessage rg = r.ackMessage rg := fun rg => by
    simp only [ackMessage, hopen.transferId]
  have hcomplete : (r.latchTotal cfg env.clk t).completeMessage = r.completeMessage := by
    simp only [completeMessage, hopen.transferId]
  have hstore := store_same cfg env.clk (r.latchTotal cfg env.clk t) p d
  have hres := onContent_result cfg env r dir p t d
  generalize r.onContent cfg env dir p t d = res at hres ⊢
  cases hres with
  | saved ho => exact ⟨.refl r, fun m hm => .inr ⟨List.mem_singleton.mp hm, ho⟩⟩
  | failed => exact ⟨.refl r, by simp⟩
  | dropped => exact ⟨hopen, by simp⟩
  | nudged => exact ⟨hopen, fun m hm => .inl ⟨_, (List.mem_singleton.mp hm).trans (hack _)⟩⟩
  | stored => exact ⟨hopen.trans hstore, by simp⟩
  | advanced =>
    obtain ⟨hsame, hsent⟩ := advance_spec cfg env
      ((r.latchTotal cfg env.clk t).store cfg env.clk p d) dir _ _ _
    refine ⟨hopen.trans (hstore.trans hsame), fun m hm => ?_⟩
    rw [← hcomplete]
    rcases hsent m hm with ⟨rg, heq⟩ | hdone
    · exact .inl ⟨rg, heq.trans (hack rg)⟩
    · exact .inr hdone
  | completed =>
    obtain ⟨hsame, hsent⟩ := complete_spec env
      ((r.latchTotal cfg env.clk t).store cfg env.clk p d) dir
    refine ⟨hopen.trans (hstore.trans hsame), fun m hm => .inr ?_⟩
    rw [← hcomplete]
    exact hsent m hm

end ReceiverTransfer

namespace TransferRegistry
variable {cfg : Settings} {reg : TransferRegistry} {w : World} {now id : ℕ}

/-- The registry skips the receivers that `onTick` would leave alone itself. -/
theorem onTick_of_outcome {r : ReceiverTransfer} {clk : Clock} :
    (if r.outcome.isSome then (r, []) else r.onTick cfg now clk) = r.onTick cfg now clk := by
  split
  next h => simp only [ReceiverTransfer.onTick, h, if_true]
  next => rfl

theorem tick_receivers {r' : ReceiverTransfer}
    (h : (reg.tick cfg w now).1.receivers.lookup id = some r') :
    ∃ r, reg.receivers.lookup id = some r ∧ r' = (r.onTick cfg now fun i => w.clk (i + id)).1 := by
  simp only [tick, HashMap.lookup_mapVal, HashMap.lookup_retain, onTick_of_outcome] at h
  obtain ⟨x, hx, rfl⟩ := Option.map_eq_some_iff.mp h
  obtain ⟨r, hr, rfl⟩ := Option.map_eq_some_iff.mp hx
  exact ⟨r, (Option.filter_eq_some_iff.mp hr).1, rfl⟩

theorem tick_senders {s' : SenderTransfer}
    (h : (reg.tick cfg w now).1.senders.lookup id = some s') :
    ∃ s sent, reg.senders.lookup id = some s ∧ s.tick cfg now = (s', sent, .ok ()) := by
  simp only [tick, HashMap.lookup_mapVal, HashMap.lookup_retain] at h
  obtain ⟨x, hx, rfl⟩ := Option.map_eq_some_iff.mp h
  obtain ⟨hx, hgo⟩ := Option.filter_eq_some_iff.mp hx
  obtain ⟨s, hs, rfl⟩ := Option.map_eq_some_iff.mp hx
  refine ⟨s, (s.tick cfg now).2.1, hs, ?_⟩
  cases hres : (s.tick cfg now).2.2 with
  | error e => simp [hres] at hgo
  | ok u => rw [← hres]

/-- A tick brings no receiver into being. -/
theorem tick_no_receivers (h : ∀ i, reg.receivers.lookup i = none) (i : ℕ) :
    (reg.tick cfg w now).1.receivers.lookup i = none := by
  by_contra hne
  obtain ⟨r', hr'⟩ := Option.ne_none_iff_exists'.mp hne
  obtain ⟨r, hr, -⟩ := tick_receivers hr'
  simp [h] at hr

/-- A tick brings no sender into being. -/
theorem tick_no_senders (h : ∀ i, reg.senders.lookup i = none) (i : ℕ) :
    (reg.tick cfg w now).1.senders.lookup i = none := by
  by_contra hne
  obtain ⟨s', hs'⟩ := Option.ne_none_iff_exists'.mp hne
  obtain ⟨s, -, hs, -⟩ := tick_senders hs'
  simp [h] at hs

/-- What a tick sends comes from one of the senders or one of the receivers. -/
theorem mem_tick_sent {m : Message × SocketAddr} (h : m ∈ (reg.tick cfg w now).2) :
    (∃ id s, reg.senders.lookup id = some s ∧ m.1 ∈ (s.tick cfg now).2.1) ∨
    ∃ id r, reg.receivers.lookup id = some r ∧
      m.1 ∈ (r.onTick cfg now fun i => w.clk (i + id)).2 := by
  simp only [tick, onTick_of_outcome, List.mem_append, List.mem_flatMap, addressed,
    List.mem_map] at h
  rcases h with ⟨⟨id, x⟩, hx, a, ha, rfl⟩ | ⟨⟨id, x⟩, hx, a, ha, rfl⟩
  · rw [HashOrder.mem_iter, HashMap.lookup_mapVal] at hx
    obtain ⟨s, hs, rfl⟩ := Option.map_eq_some_iff.mp hx
    exact .inl ⟨id, s, hs, ha⟩
  · rw [HashOrder.mem_iter, HashMap.lookup_mapVal] at hx
    obtain ⟨r, hr, rfl⟩ := Option.map_eq_some_iff.mp hx
    exact .inr ⟨id, r, hr, ha⟩

/-- Serving a request creates a sender for it and answers nothing, or refuses it. -/
theorem serve_cases (clk : Clock) (reg : TransferRegistry) (id : ℕ) (filename : String)
    (src : SocketAddr) :
    (reg.Accepts filename ∧ ∃ file, reg.dir.read filename = some file ∧
      reg.serve clk id filename src =
        ({ reg with senders := reg.senders.insert id (.new clk id src file) }, [])) ∨
    (¬ reg.Accepts filename ∧ reg.serve clk id filename src = reg.rejectNotFound id src false) := by
  unfold serve
  split
  next hvalid => exact .inr ⟨fun h => hvalid h.1, rfl⟩
  next hvalid =>
  split
  next hfull => exact .inr ⟨fun h => absurd h.2.1 (Nat.not_lt.mpr hfull), rfl⟩
  next hroom =>
  split
  next file hread =>
    exact .inl ⟨⟨not_not.mp hvalid, Nat.lt_of_not_le hroom, by simp [hread]⟩, file, hread, rfl⟩
  next hread => exact .inr ⟨fun h => absurd h.2.2 (by simp [hread]), rfl⟩

/-- An ACK ends its sender, moves it on, or finds none. -/
theorem onAck_cases (cfg : Settings) (clk : Clock) (reg : TransferRegistry) (id : ℕ)
    (ackType : AckType) (a b : ℕ) :
    (∃ s, reg.senders.lookup id = some s ∧ ackType = .complete ∧
      reg.onAck cfg clk id ackType a b = { reg with
        events := reg.events ++ [.served s.remote s.payloadBytes]
        senders := reg.senders.erase id }) ∨
    (∃ s, reg.senders.lookup id = some s ∧ ackType = .progress ∧
      reg.onAck cfg clk id ackType a b =
        { reg with senders := reg.senders.insert id (s.onProgress cfg clk a b) }) ∨
    (reg.senders.lookup id = none ∧ reg.onAck cfg clk id ackType a b = reg) := by
  cases hs : reg.senders.lookup id with
  | none => exact .inr (.inr ⟨rfl, by simp only [onAck, hs]⟩)
  | some s =>
    cases ackType with
    | complete => exact .inl ⟨s, rfl, rfl, by simp only [onAck, hs, SenderTransfer.onAck]⟩
    | progress => exact .inr (.inl ⟨s, rfl, rfl, by simp only [onAck, hs, SenderTransfer.onAck]⟩)

/-- Starting a receiver changes nothing, or sends the request for an unused id. -/
theorem startReceiver_cases (cfg : Settings) (ids : IdSource) (clk : Clock)
    (reg : TransferRegistry) (remote : SocketAddr) (filename : String) :
    reg.startReceiver cfg ids clk remote filename = (reg, [], none) ∨
    (reg.FreshId (ids.draw reg) ∧ reg.startReceiver cfg ids clk remote filename =
      ({ reg with
          receivers :=
            reg.receivers.insert (ids.draw reg) (.new cfg clk (ids.draw reg) remote filename) },
        [(.segmentRequest (ids.draw reg) filename, remote)], some (ids.draw reg))) := by
  unfold startReceiver
  split
  next => exact .inl rfl
  next hroom => exact .inr ⟨ids.fresh reg (Nat.lt_of_not_le hroom), rfl⟩

end TransferRegistry

/-! The two parties together. -/

structure ExchangeParams where
  requesterCfg : Settings
  serverCfg : Settings
  requesterAddr : SocketAddr
  serverAddr : SocketAddr

/-- The two registries, the datagrams in flight and what is remembered of the past. The
downloads are numbered in the order in which they are started, and every datagram bears
the number of the download it was sent for; the code sees neither. -/
structure Exchange where
  requester : TransferRegistry
  server : TransferRegistry
  wire : List (ℕ × Message)
  /-- The transfer id and the file of each download. -/
  started : List (ℕ × String)
  /-- The download that the requester's receiver of an id belongs to. -/
  receiving : ℕ → ℕ
  /-- The download whose request created the server's sender of an id. -/
  serving : ℕ → ℕ
  /-- The downloads whose receiver has saved its file, with its `saved_bytes`. -/
  saved : List (ℕ × ℕ)
  /-- The downloads for which the server has recorded `Served`, with the bytes. -/
  served : List (ℕ × ℕ)

inductive ExchangeEvent
  | start (ids : TransferRegistry.IdSource) (clk : Clock) (filename : String)
  | request (clk : Clock) (admitted : Bool) (k transferId : ℕ) (filename : String)
  | ack (clk : Clock) (k transferId : ℕ) (ackType : AckType) (nextStart nextCount : ℕ)
  | contents (w : World) (k transferId packetNumber totalPackets : ℕ) (data : Bytes)
  | notFound (clk : Clock) (k transferId : ℕ) (availability : Option SegmentAvailability)
      (retryable : Bool)
  | requesterTick (w : World) (now : ℕ)
  | serverTick (w : World) (now : ℕ)
  | removeReceiver (id : ℕ)
  /-- The files of the server change. -/
  | serverFiles (dir : Dir)
  | drop (k : ℕ) (m : Message)
  | duplicate (k : ℕ) (m : Message)

/-- The transfer id that the datagrams of a transfer bear. -/
def transferOf : Message → ℕ
  | .segmentRequest id _ => id
  | .segmentContents id _ _ _ => id
  | .segmentNotFound id _ _ => id
  | .ack id _ _ _ => id
  | _ => 0

/-- Datagrams put on the wire for the download their transfer id stands for. -/
def tagged (number : ℕ → ℕ) (out : Outbox) : List (ℕ × Message) :=
  out.map fun m => (number (transferOf m.1), m.1)

/-- After a step, in flight is what was before, or what it has sent. -/
theorem mem_wire_cases {wire rest : List (ℕ × Message)} {number : ℕ → ℕ} {out : Outbox}
    {x : ℕ × Message} (hrest : rest ⊆ wire) (h : x ∈ rest ++ tagged number out) :
    x ∈ wire ∨ ∃ y ∈ out, x = (number (transferOf y.1), y.1) := by
  rcases List.mem_append.mp h with hx | hx
  · exact .inl (hrest hx)
  · obtain ⟨y, hy, rfl⟩ := List.mem_map.mp hx
    exact .inr ⟨y, hy, rfl⟩

/-- The bytes of the `Served` events. -/
def servedBytes (events : List RegEvent) : List ℕ :=
  events.filterMap fun
    | .served _ bytes => some bytes
    | _ => none

/-- The bytes of the `Served` events recorded between two states of a registry. -/
def newlyServed (reg reg' : TransferRegistry) : List ℕ :=
  servedBytes (reg'.events.drop reg.events.length)

/-- The `saved_bytes` of a receiver that ended with Ok between two states of its registry. -/
def newlySaved (reg reg' : TransferRegistry) (id : ℕ) : List ℕ :=
  match reg.receivers.lookup id, reg'.receivers.lookup id with
  | some r, some r' =>
    match r.outcome, r'.outcome with
    | none, some (.ok _) => r'.savedBytes.toList
    | _, _ => []
  | _, _ => []

namespace Exchange

def initial (requesterDir serverDir : Dir) : Exchange where
  requester := .new requesterDir
  server := .new serverDir
  wire := []
  started := []
  receiving _ := 0
  serving _ := 0
  saved := []
  served := []

def onStart (P : ExchangeParams) (X : Exchange) (ids : TransferRegistry.IdSource) (clk : Clock)
    (filename : String) : Exchange :=
  match X.requester.startReceiver P.requesterCfg ids clk P.serverAddr filename with
  | (_, _, none) => X
  | (reg, out, some id) =>
    let receiving := Function.update X.receiving id X.started.length
    { X with
      requester := reg
      wire := X.wire ++ tagged receiving out
      started := X.started ++ [(id, filename)]
      receiving := receiving }

/-- A request is answered only when it is refused; otherwise it has created a sender. -/
def onRequest (P : ExchangeParams) (X : Exchange) (clk : Clock) (admitted : Bool) (k id : ℕ)
    (filename : String) : Exchange :=
  let (reg, out) :=
    if admitted then X.server.serve clk id filename P.requesterAddr
    else X.server.rejectNotFound id P.requesterAddr true
  { X with
    server := reg
    wire := X.wire.erase (k, .segmentRequest id filename) ++ tagged (fun _ => k) out
    serving := if out.isEmpty then Function.update X.serving id k else X.serving }

def onAck (P : ExchangeParams) (X : Exchange) (clk : Clock) (k id : ℕ) (ackType : AckType)
    (a b : ℕ) : Exchange :=
  let reg := X.server.onAck P.serverCfg clk id ackType a b
  { X with
    server := reg
    wire := X.wire.erase (k, .ack id ackType a b)
    served := X.served ++ (newlyServed X.server reg).map fun bytes => (X.serving id, bytes) }

def onContents (P : ExchangeParams) (X : Exchange) (w : World) (k id p t : ℕ) (d : Bytes) :
    Exchange :=
  let (reg, out) := X.requester.onContent P.requesterCfg w id p t d
  { X with
    requester := reg
    wire := X.wire.erase (k, .segmentContents id p t d) ++ tagged X.receiving out
    saved := X.saved ++ (newlySaved X.requester reg id).map fun bytes => (X.receiving id, bytes) }

def onNotFound (X : Exchange) (clk : Clock) (k id : ℕ) (availability : Option SegmentAvailability)
    (retryable : Bool) : Exchange :=
  { X with
    requester := (X.requester.onNotFound clk id retryable).1
    wire := X.wire.erase (k, .segmentNotFound id availability retryable) }

def onRequesterTick (P : ExchangeParams) (X : Exchange) (w : World) (now : ℕ) : Exchange :=
  let (reg, out) := X.requester.tick P.requesterCfg w now
  { X with requester := reg, wire := X.wire ++ tagged X.receiving out }

def onServerTick (P : ExchangeParams) (X : Exchange) (w : World) (now : ℕ) : Exchange :=
  let (reg, out) := X.server.tick P.serverCfg w now
  { X with server := reg, wire := X.wire ++ tagged X.serving out }

def apply (P : ExchangeParams) (X : Exchange) : ExchangeEvent → Exchange
  | .start ids clk filename => X.onStart P ids clk filename
  | .request clk admitted k id filename => X.onRequest P clk admitted k id filename
  | .ack clk k id ackType a b => X.onAck P clk k id ackType a b
  | .contents w k id p t d => X.onContents P w k id p t d
  | .notFound clk k id availability retryable => X.onNotFound clk k id availability retryable
  | .requesterTick w now => X.onRequesterTick P w now
  | .serverTick w now => X.onServerTick P w now
  | .removeReceiver id => { X with requester := X.requester.removeReceiver id }
  | .serverFiles dir => { X with server := { X.server with dir := dir } }
  | .drop k m => { X with wire := X.wire.erase (k, m) }
  | .duplicate k m => { X with wire := (k, m) :: X.wire }

/-- An event can only deliver, lose or duplicate what is in flight. -/
def Enabled (X : Exchange) : ExchangeEvent → Prop
  | .request _ _ k id filename => (k, .segmentRequest id filename) ∈ X.wire
  | .ack _ k id ackType a b => (k, .ack id ackType a b) ∈ X.wire
  | .contents _ k id p t d => (k, .segmentContents id p t d) ∈ X.wire
  | .notFound _ k id availability retryable =>
    (k, .segmentNotFound id availability retryable) ∈ X.wire
  | .drop k m => (k, m) ∈ X.wire
  | .duplicate k m => (k, m) ∈ X.wire
  | _ => True

instance (X : Exchange) (e : ExchangeEvent) : Decidable (X.Enabled e) :=
  match e with
  | .request _ _ k id filename => inferInstanceAs (Decidable ((k, .segmentRequest id filename) ∈ X.wire))
  | .ack _ k id ackType a b => inferInstanceAs (Decidable ((k, .ack id ackType a b) ∈ X.wire))
  | .contents _ k id p t d => inferInstanceAs (Decidable ((k, .segmentContents id p t d) ∈ X.wire))
  | .notFound _ k id availability retryable =>
    inferInstanceAs (Decidable ((k, .segmentNotFound id availability retryable) ∈ X.wire))
  | .drop k m => inferInstanceAs (Decidable ((k, m) ∈ X.wire))
  | .duplicate k m => inferInstanceAs (Decidable ((k, m) ∈ X.wire))
  | .start .. | .requesterTick .. | .serverTick .. | .removeReceiver _ | .serverFiles _ =>
    inferInstanceAs (Decidable True)

inductive Step (P : ExchangeParams) : Exchange → ExchangeEvent → Exchange → Prop
  | mk {X : Exchange} {e : ExchangeEvent} (h : X.Enabled e) : Step P X e (X.apply P e)

end Exchange
end Qstream.Transfer

import Qstream.Storage
import Qstream.TransferReceiver
import Qstream.TransferSender

/-! The registry of a node's transfers: both maps are keyed by the transfer id alone. -/
namespace Qstream.Transfer
open Text

/-- Outcomes the node turns into peer statistics. -/
inductive RegEvent
  | served (src : SocketAddr) (bytes : ℕ)
  | notFound (src : SocketAddr)
  | senderFailed (src : SocketAddr)
  deriving DecidableEq, Repr

/-- The transfers and the directory they read and write: the segment root, which is also
the data directory of the downloads. -/
structure TransferRegistry where
  dir : Dir
  senders : HashMap ℕ SenderTransfer
  receivers : HashMap ℕ ReceiverTransfer
  events : List RegEvent

/-- Datagrams with their destinations. -/
abbrev Outbox := List (Message × SocketAddr)

def addressed (dst : SocketAddr) (ms : List Message) : Outbox := ms.map fun m => (m, dst)

namespace TransferRegistry

def new (dir : Dir) : TransferRegistry := ⟨dir, ∅, ∅, []⟩

def hasSegment (reg : TransferRegistry) (filename : String) : Bool := reg.dir.isFile filename

def activeCount (reg : TransferRegistry) : ℕ := reg.senders.len + reg.receivers.len

/-- An id `fresh_id` may return. -/
def FreshId (reg : TransferRegistry) (id : ℕ) : Prop :=
  id ≠ 0 ∧ id < 65536 ∧ id ∉ reg.senders ∧ id ∉ reg.receivers

/-- Locally stored recent segments in a compact 16-bit mask. -/
def segmentAvailability (reg : TransferRegistry) : Option SegmentAvailability :=
  match reg.dir.names.filterMap segmentNumber with
  | [] => none
  | n :: ns =>
    let newest := ns.foldl max n
    some ⟨newest, (n :: ns).foldl (fun mask number =>
      let distance := newest - number
      if distance < AVAILABILITY_MASK_BITS then mask ||| (1 <<< UInt16.ofNat distance) else mask) 0⟩

def notFoundMessage (reg : TransferRegistry) (transferId : ℕ) (retryable : Bool) : Message :=
  .segmentNotFound transferId reg.segmentAvailability retryable

/-- Reject a request; the requester is told whether it may come back. -/
def rejectNotFound (reg : TransferRegistry) (transferId : ℕ) (src : SocketAddr)
    (retryable : Bool) : TransferRegistry × Outbox :=
  ({ reg with events := reg.events ++ [.notFound src] },
    [(reg.notFoundMessage transferId retryable, src)])

/-- Serve a SEGMENT_REQUEST from `src`. -/
def serve (clk : Clock) (reg : TransferRegistry) (transferId : ℕ) (filename : String)
    (src : SocketAddr) : TransferRegistry × Outbox :=
  if ¬ validFilename filename then reg.rejectNotFound transferId src false
  else if reg.activeCount ≥ MAX_CONCURRENT_TRANSFERS then reg.rejectNotFound transferId src false
  else match reg.dir.read filename with
    | some file =>
      ({ reg with senders := reg.senders.insert transferId (.new clk transferId src file) }, [])
    | none => reg.rejectNotFound transferId src false

/-- The id the loop of `fresh_id` ends with, as long as the registry has room. -/
structure IdSource where
  draw : TransferRegistry → ℕ
  fresh : ∀ reg : TransferRegistry, reg.activeCount < MAX_CONCURRENT_TRANSFERS →
    reg.FreshId (draw reg)

/-- Start a download from `remote`. -/
def startReceiver (cfg : Settings) (ids : IdSource) (clk : Clock) (reg : TransferRegistry)
    (remote : SocketAddr) (filename : String) : TransferRegistry × Outbox × Option ℕ :=
  if reg.activeCount ≥ MAX_CONCURRENT_TRANSFERS then (reg, [], none)
  else
    let id := ids.draw reg
    ({ reg with receivers := reg.receivers.insert id (.new cfg clk id remote filename) },
      [(.segmentRequest id filename, remote)], some id)

def onContent (cfg : Settings) (w : World) (reg : TransferRegistry)
    (transferId packetNumber totalPackets : ℕ) (data : Bytes) : TransferRegistry × Outbox :=
  match reg.receivers.lookup transferId with
  | some r =>
    let (r', sent, dir) := r.onContent cfg w reg.dir packetNumber totalPackets data
    ({ reg with dir := dir, receivers := reg.receivers.insert transferId r' },
      addressed r.remote sent)
  | none => (reg, [])

def onAck (cfg : Settings) (clk : Clock) (reg : TransferRegistry) (transferId : ℕ)
    (ackType : AckType) (nextStart nextCount : ℕ) : TransferRegistry :=
  match reg.senders.lookup transferId with
  | some s =>
    match s.onAck cfg clk ackType nextStart nextCount with
    | (s', true) => { reg with
        events := reg.events ++ [.served s'.remote s'.payloadBytes]
        senders := reg.senders.erase transferId }
    | (s', false) => { reg with senders := reg.senders.insert transferId s' }
  | none => reg

/-- Fail the download; the result names its file and whether to come back later. -/
def onNotFound (clk : Clock) (reg : TransferRegistry) (transferId : ℕ) (retryable : Bool) :
    TransferRegistry × Option (String × Bool) :=
  match reg.receivers.lookup transferId with
  | some r =>
    let reason := if retryable then FailReason.notReady r.filename else .notFound r.filename
    let failed := (r.markNotFound retryable).fail (clk 0) reason
    ({ reg with receivers := reg.receivers.insert transferId failed }, some (r.filename, retryable))
  | none => (reg, none)

def removeReceiver (reg : TransferRegistry) (id : ℕ) : TransferRegistry :=
  { reg with receivers := reg.receivers.erase id }

/-- Advance all transfers whose timers have expired. Each receiver reads the clock at
its own moment. -/
def tick (cfg : Settings) (w : World) (reg : TransferRegistry) (now : ℕ) :
    TransferRegistry × Outbox :=
  let ticked := reg.senders.mapVal fun _ s => s.tick cfg now
  let gaveUp (x : SenderTransfer × List Message × Except SenderError Unit) : Bool :=
    match x.2.2 with
    | .ok _ => false
    | .error _ => true
  let sent := (w.ord.iter ticked).flatMap fun (_, x) => addressed x.1.remote x.2.1
  let failed := ((w.ord.iter ticked).filter fun (_, x) => gaveUp x).map fun (_, x) =>
    RegEvent.senderFailed x.1.remote
  let onTick (id : ℕ) (r : ReceiverTransfer) : ReceiverTransfer × List Message :=
    if r.outcome.isSome then (r, []) else r.onTick cfg now fun i => w.clk (i + id)
  let received := reg.receivers.mapVal onTick
  let sent' := (w.ord.iter received).flatMap fun (_, x) => addressed x.1.remote x.2
  let done (r : ReceiverTransfer) : Bool := r.outcome.isSome ∧ now ≥ r.deadline
  ({ reg with
      senders := (ticked.retain fun _ x => ¬ gaveUp x).mapVal fun _ x => x.1
      receivers := ((reg.receivers.retain fun _ r => ¬ done r).mapVal onTick).mapVal fun _ x => x.1
      events := reg.events ++ failed }, sent ++ sent')

end TransferRegistry
end Qstream.Transfer

import Qstream.Chunks
import Qstream.Storage
import Qstream.TransferTimers

/-! The receiving side of a segment transfer: it names the packet range it wants
next, stores the packets of that range, and writes the file when it has them all. -/
namespace Qstream.Transfer
open Chunks

/-- Why a download failed. -/
inductive FailReason
  | noResponse (remote : SocketAddr) (filename : String)
  | rangeIncomplete (start count : ℕ) (filename : String)
  | writeFailed (filename error : String)
  | notFound (filename : String)
  | notReady (filename : String)
  deriving DecidableEq, Repr

structure ReceiverTransfer where
  transferId : ℕ
  remote : SocketAddr
  filename : String
  packets : HashMap ℕ Bytes
  total : Option ℕ
  /-- The current requested range. -/
  range : Option (ℕ × ℕ)
  retryCount : ℕ
  firstResponseDeadline : ℕ
  quietDeadline : ℕ
  deadline : ℕ
  outcome : Option (Except FailReason Unit)
  unresponsive : Bool
  notFound : Bool
  retryableNotFound : Bool
  startedAt : ℕ
  gapEst : ℕ
  backoff : ℕ
  lastArrival : Option ℕ
  firstPacketLatency : Option ℕ
  requestResent : Bool
  savedBytes : Option ℕ

/-- The cast `as u32` and the subtraction it wraps in. -/
def u32 (n : ℕ) : ℕ := n % 4294967296

def u32sub (a b : ℕ) : ℕ := u32 (a + 4294967296 - b)

/-- Write the packets into a buffer of `total` full packets; the second component is
the file size, known from the last packet. -/
def assemble (total : ℕ) (packets : List (ℕ × Bytes)) : Bytes × ℕ :=
  packets.foldl (fun (acc : Bytes × ℕ) (e : ℕ × Bytes) =>
      let pos := (e.1 - 1) * SEGMENT_PACKET_SIZE
      let buffer := if pos + e.2.length ≤ acc.1.length then blit acc.1 pos e.2 else acc.1
      let finalSize := if e.1 = total then pos + e.2.length else acc.2
      (buffer, finalSize))
    (List.replicate (total * SEGMENT_PACKET_SIZE) 0, 0)

namespace ReceiverTransfer

def new (cfg : Settings) (clk : Clock) (transferId : ℕ) (remote : SocketAddr)
    (filename : String) : ReceiverTransfer :=
  let now := clk 0
  { transferId := transferId, remote := remote, filename := filename, packets := ∅,
    total := none, range := none, retryCount := 0,
    firstResponseDeadline := now + millis cfg.firstTimeoutMs,
    quietDeadline := now + quietPeriod cfg, deadline := now + quietPeriod cfg,
    outcome := none, unresponsive := false, notFound := false, retryableNotFound := false,
    startedAt := now, gapEst := quietPeriod cfg, backoff := 0, lastArrival := none,
    firstPacketLatency := none, requestResent := false, savedBytes := none }

def fail (r : ReceiverTransfer) (now : ℕ) (reason : FailReason) : ReceiverTransfer :=
  { r with outcome := some (.error reason), deadline := now + COMPLETE_GRACE }

def failUnresponsive (r : ReceiverTransfer) (now : ℕ) (reason : FailReason) :
    ReceiverTransfer :=
  fail { r with unresponsive := true } now reason

def markNotFound (r : ReceiverTransfer) (retryable : Bool) : ReceiverTransfer :=
  { r with retryableNotFound := retryable, notFound := !retryable }

def ackMessage (r : ReceiverTransfer) (range : ℕ × ℕ) : Message :=
  .ack r.transferId .progress range.1 range.2

def completeMessage (r : ReceiverTransfer) : Message := .ack r.transferId .complete 0 0

def requestMessage (r : ReceiverTransfer) : Message := .segmentRequest r.transferId r.filename

def rangeComplete (r : ReceiverTransfer) (start count : ℕ) : Bool :=
  (List.range count).all fun i => u16 (start + i) ∈ r.packets

/-- The first content packet fixes the packet total and the first range. -/
def latchTotal (cfg : Settings) (clk : Clock) (r : ReceiverTransfer) (totalPackets : ℕ) :
    ReceiverTransfer :=
  match r.total with
  | some _ => r
  | none => { r with
      total := some totalPackets
      firstPacketLatency := some ((clk 0 - r.startedAt) / millis 1)
      range := some (1, min INITIAL_WINDOW totalPackets)
      firstResponseDeadline := clk 1 + secs 3600
      quietDeadline := clk 2 + adaptiveQuiet cfg r.gapEst 0 }

/-- Store a new packet of the current range. -/
def store (cfg : Settings) (clk : Clock) (r : ReceiverTransfer) (packetNumber : ℕ)
    (data : Bytes) : ReceiverTransfer :=
  let gapEst := match r.lastArrival with
    | some prev => (r.gapEst * 3 + (clk 3 - prev)) / 4
    | none => r.gapEst
  { r with
    gapEst := gapEst
    lastArrival := some (clk 4)
    backoff := 0
    packets := r.packets.insert packetNumber data
    quietDeadline := clk 5 + adaptiveQuiet cfg gapEst 0 }

/-- Write the file and acknowledge it. -/
def complete (env : World) (r : ReceiverTransfer) (dir : Dir) :
    ReceiverTransfer × List Message × Dir :=
  let (buffer, size) := assemble (r.total.getD 0) (env.ord.iter r.packets)
  let finalSize := min size buffer.length
  match dir.saveAtomic env.io env.wall r.filename (buffer.take finalSize) with
  | (dir', some e) => (r.fail (env.clk 7) (.writeFailed r.filename e), [], dir')
  | (dir', none) =>
    ({ r with
        savedBytes := some finalSize
        outcome := some (.ok ())
        deadline := env.clk 7 + COMPLETE_GRACE }, [r.completeMessage], dir')

/-- The current range is complete: request the next one, doubling the window. -/
def advance (cfg : Settings) (env : World) (r : ReceiverTransfer) (dir : Dir)
    (start count total : ℕ) : ReceiverTransfer × List Message × Dir :=
  let nextStart := start + count
  let remaining := u32 (u32sub total nextStart + 1)
  if remaining = 0 then r.complete env dir
  else
    let next := (u16 nextStart, u16 (min (min (count * 2) MAX_WINDOW) remaining))
    ({ r with
        range := some next
        retryCount := 0
        quietDeadline := env.clk 6 + adaptiveQuiet cfg r.gapEst 0 }, [r.ackMessage next], dir)

/-- Handle one SEGMENT_CONTENTS: the new state, the datagrams sent, and the directory. -/
def onContent (cfg : Settings) (env : World) (r : ReceiverTransfer) (dir : Dir)
    (packetNumber totalPackets : ℕ) (data : Bytes) : ReceiverTransfer × List Message × Dir :=
  match r.outcome with
  | some (.ok _) => (r, [r.completeMessage], dir)
  | some (.error _) => (r, [], dir)
  | none =>
    let r := r.latchTotal cfg env.clk totalPackets
    match r.total, r.range with
    | some total, some (start, count) =>
      if packetNumber = 0 ∨ packetNumber > total then (r, [], dir)
      else if packetNumber < start ∨ packetNumber ≥ start + count then
        (r, [r.ackMessage (start, count)], dir)
      else if packetNumber ∈ r.packets then (r, [], dir)
      else
        let r := r.store cfg env.clk packetNumber data
        if r.packets.len ≥ total then r.complete env dir
        else if r.rangeComplete start count then r.advance cfg env dir start count total
        else (r, [], dir)
    | _, _ => (r, [], dir)

/-- First part of `onTick`: repeat the request at half the first-response timeout. -/
def resendRequest (cfg : Settings) (r : ReceiverTransfer) (now : ℕ) :
    ReceiverTransfer × List Message :=
  if r.packets.len = 0 ∧ r.requestResent = false ∧
      now ≥ r.startedAt + millis cfg.firstTimeoutMs / 2 then
    ({ r with
        requestResent := true
        firstResponseDeadline := now + millis cfg.firstTimeoutMs }, [r.requestMessage])
  else (r, [])

/-- Last part of `onTick`: the quiet period ran out, so repeat the current range. -/
def quietExpired (cfg : Settings) (r : ReceiverTransfer) (now : ℕ) (clk : Clock) :
    ReceiverTransfer × List Message :=
  let backoff := min (r.backoff + 1) 4
  let r := { r with
    backoff := backoff
    quietDeadline := now + adaptiveQuiet cfg r.gapEst backoff }
  let recompute (r : ReceiverTransfer) : ReceiverTransfer :=
    { r with deadline := min r.firstResponseDeadline r.quietDeadline }
  match r.range with
  | some (start, count) =>
    if r.rangeComplete start count then (recompute r, [])
    else
      let r := { r with retryCount := r.retryCount + 1 }
      if r.retryCount > RETRY_LIMIT then
        (r.fail (clk 0) (.rangeIncomplete start count r.filename), [])
      else (recompute r, [r.ackMessage (start, count)])
  | none => (recompute r, [])

def onTick (cfg : Settings) (r : ReceiverTransfer) (now : ℕ) (clk : Clock) :
    ReceiverTransfer × List Message :=
  if r.outcome.isSome then (r, [])
  else
    let (r1, sent1) := r.resendRequest cfg now
    if now ≥ r1.firstResponseDeadline ∧ r1.packets.len = 0 then
      (r1.failUnresponsive (clk 0) (.noResponse r1.remote r1.filename), sent1)
    else if now ≥ r1.quietDeadline then
      let (r2, sent2) := r1.quietExpired cfg now clk
      (r2, sent1 ++ sent2)
    else (r1, sent1)

end ReceiverTransfer
end Qstream.Transfer

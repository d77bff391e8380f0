import Qstream.PeerFill
import Qstream.TransferExchange

/-! How often the server counts a download as served. It remembers no finished transfer, so
a request that arrives once more is served once more. -/
namespace Qstream.Transfer
open Runs

theorem servedBytes_append (es fs : List RegEvent) :
    servedBytes (es ++ fs) = servedBytes es ++ servedBytes fs := List.filterMap_append

theorem newlyServed_append {reg reg' : TransferRegistry} (fs : List RegEvent)
    (h : reg'.events = reg.events ++ fs) : newlyServed reg reg' = servedBytes fs := by
  rw [newlyServed, h, List.drop_left]

theorem newlyServed_of_eq {reg reg' : TransferRegistry} (h : reg'.events = reg.events) :
    newlyServed reg reg' = [] := newlyServed_append [] (by rw [h, List.append_nil])

/-- A tick of a registry serves nobody. -/
theorem TransferRegistry.tick_events (cfg : Settings) (w : World) (reg : TransferRegistry)
    (now : ℕ) : ∃ fs, (reg.tick cfg w now).1.events = reg.events ++ fs ∧ servedBytes fs = [] := by
  refine ⟨_, rfl, ?_⟩
  rw [servedBytes, List.filterMap_eq_nil_iff]
  intro ev hev
  obtain ⟨x, -, rfl⟩ := List.mem_map.mp hev
  rfl

theorem getElem?_append_of_some {α : Type*} {l : List α} {k : ℕ} {a : α} (h : l[k]? = some a)
    (b : α) : (l ++ [b])[k]? = some a := by
  obtain ⟨hlt, -⟩ := List.getElem?_eq_some_iff.mp h
  rw [List.getElem?_append_left hlt, h]

namespace Exchange

/-- An accepted request is not one of a download already counted as served. -/
def Unserved (X : Exchange) : ExchangeEvent → Prop
  | .request _ admitted k _ filename =>
    admitted = true → X.server.Accepts filename → k ∉ X.served.map Prod.fst
  | _ => True

/-- Every sender belongs to a download that was started and is not counted yet; the server's
record and the count agree. -/
structure Accounted (X : Exchange) : Prop where
  requests : ∀ k id filename, (k, Message.segmentRequest id filename) ∈ X.wire →
    X.started[k]? = some (id, filename)
  receivers : ∀ id r, X.requester.receivers.lookup id = some r →
    r.transferId = id ∧ X.started[X.receiving id]? = some (id, r.filename)
  idle : ∀ id, X.server.receivers.lookup id = none
  senders : ∀ id s, X.server.senders.lookup id = some s →
    (∃ filename, X.started[X.serving id]? = some (id, filename)) ∧
      X.serving id ∉ X.served.map Prod.fst
  once : (X.served.map Prod.fst).Nodup
  counted : ∀ k ∈ X.served.map Prod.fst, k < X.started.length
  record : servedBytes X.server.events = X.served.map Prod.snd

variable {P : ExchangeParams} {X : Exchange}

theorem initial_accounted (requesterDir serverDir : Dir) :
    (initial requesterDir serverDir).Accounted where
  requests := by simp [initial]
  receivers := by simp [initial, TransferRegistry.new]
  idle := by simp [initial, TransferRegistry.new]
  senders := by simp [initial, TransferRegistry.new]
  once := List.nodup_nil
  counted := by simp [initial]
  record := rfl

theorem onStart_accounted (ids : TransferRegistry.IdSource) (clk : Clock) (filename : String)
    (h : X.Accounted) : (X.onStart P ids clk filename).Accounted := by
  rcases TransferRegistry.startReceiver_cases P.requesterCfg ids clk X.requester P.serverAddr
    filename with heq | ⟨-, heq⟩
  · simpa only [onStart, heq] using h
  simp only [onStart, heq]
  generalize ids.draw X.requester = id
  have hlast : (X.started ++ [(id, filename)])[X.started.length]? = some (id, filename) :=
    List.getElem?_concat_length
  refine { h with requests := ?_, receivers := ?_, senders := ?_, counted := ?_ }
  · intro k i f hm
    rcases List.mem_append.mp hm with hm | hm
    · exact getElem?_append_of_some (h.requests k i f hm) _
    · simp only [tagged, transferOf, List.map_cons, List.map_nil, List.mem_singleton,
        Function.update_self, Prod.mk.injEq, Message.segmentRequest.injEq] at hm
      obtain ⟨rfl, rfl, rfl⟩ := hm
      exact hlast
  · intro i r hr
    dsimp only at hr ⊢
    rw [HashMap.lookup_insert'] at hr
    split at hr
    next hi =>
      subst hi
      obtain rfl := Option.some.inj hr
      rw [Function.update_self]
      exact ⟨rfl, hlast⟩
    next hi =>
      obtain ⟨hid, hstarted⟩ := h.receivers i r hr
      rw [Function.update_of_ne hi]
      exact ⟨hid, getElem?_append_of_some hstarted _⟩
  · intro i s hs
    obtain ⟨⟨f, hf⟩, hnew⟩ := h.senders i s hs
    exact ⟨⟨f, getElem?_append_of_some hf _⟩, hnew⟩
  · intro k hk
    have := h.counted k hk
    simp only [List.length_append, List.length_singleton]
    omega

theorem onRequest_accounted (clk : Clock) (admitted : Bool) {k id : ℕ} {filename : String}
    (hmem : (k, Message.segmentRequest id filename) ∈ X.wire)
    (hun : admitted = true → X.server.Accepts filename → k ∉ X.served.map Prod.fst)
    (h : X.Accounted) : (X.onRequest P clk admitted k id filename).Accounted := by
  have hreject (retryable : Bool) :
      { X with
        server := (X.server.rejectNotFound id P.requesterAddr retryable).1
        wire := X.wire.erase (k, .segmentRequest id filename) ++
          tagged (fun _ => k)
            (X.server.rejectNotFound id P.requesterAddr retryable).2 }.Accounted := by
    refine { h with requests := ?_, record := ?_ }
    · intro k' i f hm
      rcases mem_wire_cases List.erase_subset hm with hm | ⟨y, hy, heq⟩
      · exact h.requests k' i f hm
      · obtain rfl := List.mem_singleton.mp hy
        simp [TransferRegistry.notFoundMessage] at heq
    · simpa [TransferRegistry.rejectNotFound, servedBytes_append, servedBytes] using h.record
  cases admitted with
  | false => exact hreject true
  | true =>
    rcases TransferRegistry.serve_cases clk X.server id filename P.requesterAddr with
      ⟨hacc, file, -, heq⟩ | ⟨-, heq⟩
    · simp only [onRequest, heq, if_true, List.isEmpty_nil]
      refine { h with requests := ?_, senders := ?_ }
      · intro k' i f hm
        rcases mem_wire_cases List.erase_subset hm with hm | ⟨y, hy, -⟩
        · exact h.requests k' i f hm
        · exact absurd hy List.not_mem_nil
      · intro i s hs
        dsimp only at hs ⊢
        rw [HashMap.lookup_insert'] at hs
        split at hs
        next hi =>
          subst hi
          rw [Function.update_self]
          exact ⟨⟨filename, h.requests k i filename hmem⟩, hun rfl hacc⟩
        next hi =>
          rw [Function.update_of_ne hi]
          exact h.senders i s hs
    · simp only [onRequest, heq, if_true]
      exact hreject false

/-- Two senders of one download have the same id. -/
theorem Accounted.serving_inj (h : X.Accounted) {i j : ℕ} {s t : SenderTransfer}
    (hi : X.server.senders.lookup i = some s) (hj : X.server.senders.lookup j = some t)
    (heq : X.serving i = X.serving j) : i = j := by
  obtain ⟨⟨f, hf⟩, -⟩ := h.senders i s hi
  obtain ⟨⟨g, hg⟩, -⟩ := h.senders j t hj
  rw [heq, hg] at hf
  exact (Prod.mk.inj (Option.some.inj hf)).1.symm

theorem onAck_accounted (clk : Clock) (k id : ℕ) (ackType : AckType) (a b : ℕ) (h : X.Accounted) :
    (X.onAck P clk k id ackType a b).Accounted := by
  have hrequests : ∀ k' i f, (k', Message.segmentRequest i f) ∈
      X.wire.erase (k, .ack id ackType a b) → X.started[k']? = some (i, f) :=
    fun k' i f hm => h.requests k' i f (List.mem_of_mem_erase hm)
  rcases TransferRegistry.onAck_cases P.serverCfg clk X.server id ackType a b with
    ⟨s, hs, -, heq⟩ | ⟨s, hs, -, heq⟩ | ⟨-, heq⟩
  · -- the sender's download is counted, and the sender is gone
    have hnew : newlyServed X.server { X.server with
        events := X.server.events ++ [.served s.remote s.payloadBytes]
        senders := X.server.senders.erase id } = [s.payloadBytes] :=
      newlyServed_append [.served s.remote s.payloadBytes] rfl
    obtain ⟨⟨f, hf⟩, hfresh⟩ := h.senders id s hs
    simp only [onAck, heq, hnew, List.map_cons, List.map_nil]
    refine { requests := hrequests, receivers := h.receivers, idle := h.idle, senders := ?_,
             once := ?_, counted := ?_, record := ?_ }
    · intro i t ht
      dsimp only at ht ⊢
      rw [HashMap.lookup_erase'] at ht
      split at ht
      next => cases ht
      next hi =>
        obtain ⟨hstarted, hun⟩ := h.senders i t ht
        refine ⟨hstarted, ?_⟩
        rw [List.map_append, List.mem_append, not_or]
        refine ⟨hun, fun hm => hi (h.serving_inj ht hs (List.mem_singleton.mp hm))⟩
    · simp only [List.map_append, List.map_cons, List.map_nil]
      exact List.nodup_append.mpr ⟨h.once, List.nodup_singleton _, by
        rintro x hx y hy rfl
        exact hfresh (List.mem_singleton.mp hy ▸ hx)⟩
    · intro j hj
      rw [List.map_append, List.mem_append] at hj
      rcases hj with hj | hj
      · exact h.counted j hj
      · obtain rfl := List.mem_singleton.mp hj
        exact (List.getElem?_eq_some_iff.mp hf).1
    · simp only [servedBytes_append, h.record, List.map_append, List.map_cons, List.map_nil]
      rfl
  · have hnew : newlyServed X.server { X.server with
        senders := X.server.senders.insert id (s.onProgress P.serverCfg clk a b) } = [] :=
      newlyServed_of_eq rfl
    simp only [onAck, heq, hnew, List.map_nil, List.append_nil]
    refine { h with requests := hrequests, senders := ?_ }
    intro i t ht
    dsimp only at ht
    rw [HashMap.lookup_insert'] at ht
    split at ht
    next hi =>
      subst hi
      exact h.senders i s hs
    next => exact h.senders i t ht
  · have hnew : newlyServed X.server X.server = [] :=
      newlyServed_of_eq rfl
    simp only [onAck, heq, hnew, List.map_nil, List.append_nil]
    exact { h with requests := hrequests }

/-- Replacing a receiver of a download by a later state of it keeps the account. -/
theorem Accounted.receivers_insert (h : X.Accounted) {id : ℕ} {r r' : ReceiverTransfer}
    (hr : X.requester.receivers.lookup id = some r) {i : ℕ} {t : ReceiverTransfer}
    (ht : (X.requester.receivers.insert id r').lookup i = some t)
    (hid : r'.transferId = r.transferId) (hf : r'.filename = r.filename) :
    t.transferId = i ∧ X.started[X.receiving i]? = some (i, t.filename) := by
  rw [HashMap.lookup_insert'] at ht
  split at ht
  next hi =>
    subst hi
    obtain rfl := Option.some.inj ht
    rw [hid, hf]
    exact h.receivers i r hr
  next => exact h.receivers i t ht

theorem onContents_accounted (w : World) (k id p t : ℕ) (d : Bytes) (h : X.Accounted) :
    (X.onContents P w k id p t d).Accounted := by
  cases hr : X.requester.receivers.lookup id with
  | none =>
    have heq : X.requester.onContent P.requesterCfg w id p t d = (X.requester, []) := by
      simp only [TransferRegistry.onContent, hr]
    simp only [onContents, heq]
    refine { h with requests := fun k' i f hm => ?_ }
    rcases mem_wire_cases List.erase_subset hm with hm | ⟨y, hy, -⟩
    · exact h.requests k' i f hm
    · exact absurd hy List.not_mem_nil
  | some r =>
    obtain ⟨hsame, hsent⟩ :=
      ReceiverTransfer.onContent_spec P.requesterCfg w r X.requester.dir p t d
    simp only [onContents, TransferRegistry.onContent, hr]
    refine { h with requests := ?_, receivers := fun i u hu =>
      h.receivers_insert hr hu hsame.transferId hsame.filename }
    intro k' i f hm
    rcases mem_wire_cases List.erase_subset hm with hm | ⟨y, hy, heq⟩
    · exact h.requests k' i f hm
    · obtain ⟨m, hm, rfl⟩ := List.mem_map.mp hy
      rcases hsent m hm with ⟨rg, rfl⟩ | ⟨rfl, -⟩
      · simp [ReceiverTransfer.ackMessage] at heq
      · simp [ReceiverTransfer.completeMessage] at heq

theorem onNotFound_accounted (clk : Clock) (k id : ℕ) (availability : Option SegmentAvailability)
    (retryable : Bool) (h : X.Accounted) :
    (X.onNotFound clk k id availability retryable).Accounted := by
  refine { h with requests := fun k' i f hm => h.requests k' i f (List.mem_of_mem_erase hm),
                  receivers := ?_ }
  intro i t ht
  simp only [onNotFound, TransferRegistry.onNotFound] at ht
  split at ht
  next r hr => exact h.receivers_insert hr ht rfl rfl
  next => exact h.receivers i t ht

theorem onRequesterTick_accounted (w : World) (now : ℕ) (h : X.Accounted) :
    (X.onRequesterTick P w now).Accounted := by
  refine { h with requests := ?_, receivers := ?_ }
  · intro k i f hm
    rcases mem_wire_cases (List.Subset.refl _) hm with hm | ⟨x, hx, heq⟩
    · exact h.requests k i f hm
    obtain ⟨rfl, hmsg⟩ := Prod.mk.inj heq.symm
    rcases TransferRegistry.mem_tick_sent hx with ⟨i', s, -, hs⟩ | ⟨i', r, hr, hsent⟩
    · obtain ⟨p, d, hc⟩ :=
        SenderTransfer.contents_of_mem_sendPackets (SenderTransfer.mem_tick_sent hs)
      simp [hmsg] at hc
    · -- a receiver repeats its own request
      obtain ⟨-, -, hcases⟩ := ReceiverTransfer.onTick_spec P.requesterCfg r now fun j => w.clk (j + i')
      obtain ⟨hid, hstarted⟩ := h.receivers i' r hr
      rcases hcases _ hsent with hreq | ⟨rg, -, hack⟩
      · rw [hmsg] at hreq
        simp only [ReceiverTransfer.requestMessage, Message.segmentRequest.injEq] at hreq
        obtain ⟨rfl, rfl⟩ := hreq
        rw [hmsg]
        show X.started[X.receiving r.transferId]? = some (r.transferId, r.filename)
        rw [hid]
        exact hstarted
      · simp [hmsg, ReceiverTransfer.ackMessage] at hack
  · intro i r' hr'
    obtain ⟨r, hr, rfl⟩ := TransferRegistry.tick_receivers hr'
    obtain ⟨hprog, -, -⟩ := ReceiverTransfer.onTick_spec P.requesterCfg r now fun j => w.clk (j + i)
    rw [hprog.same.transferId, hprog.same.filename]
    exact h.receivers i r hr

theorem onServerTick_accounted (w : World) (now : ℕ) (h : X.Accounted) :
    (X.onServerTick P w now).Accounted := by
  refine { h with requests := ?_, idle := TransferRegistry.tick_no_receivers h.idle,
                  senders := ?_, record := ?_ }
  · intro k i f hm
    rcases mem_wire_cases (List.Subset.refl _) hm with hm | ⟨x, hx, heq⟩
    · exact h.requests k i f hm
    obtain ⟨-, hmsg⟩ := Prod.mk.inj heq.symm
    rcases TransferRegistry.mem_tick_sent hx with ⟨i', s, -, hs⟩ | ⟨i', r, hr, -⟩
    · obtain ⟨p, d, hc⟩ :=
        SenderTransfer.contents_of_mem_sendPackets (SenderTransfer.mem_tick_sent hs)
      simp [hmsg] at hc
    · simp [h.idle] at hr
  · intro i s' hs'
    obtain ⟨s, -, hs, -⟩ := TransferRegistry.tick_senders hs'
    exact h.senders i s hs
  · obtain ⟨fs, hevents, hnone⟩ := TransferRegistry.tick_events P.serverCfg w X.server now
    simp only [onServerTick, hevents, servedBytes_append, hnone, List.append_nil, h.record]

/-- Every event keeps the account, if it is not the acceptance of a request already served. -/
theorem Step.accounted {e : ExchangeEvent} {X' : Exchange} (hstep : Step P X e X')
    (hun : X.Unserved e) (h : X.Accounted) : X'.Accounted := by
  cases hstep with
  | mk hen =>
    cases e with
    | start ids clk filename => exact onStart_accounted ids clk filename h
    | request clk admitted k id filename => exact onRequest_accounted clk admitted hen hun h
    | ack clk k id ackType a b => exact onAck_accounted clk k id ackType a b h
    | contents w k id p t d => exact onContents_accounted w k id p t d h
    | notFound clk k id availability retryable =>
      exact onNotFound_accounted clk k id availability retryable h
    | requesterTick w now => exact onRequesterTick_accounted w now h
    | serverTick w now => exact onServerTick_accounted w now h
    | removeReceiver id =>
      refine { h with receivers := fun i r hr => ?_ }
      rw [apply, TransferRegistry.removeReceiver, HashMap.lookup_erase'] at hr
      split at hr
      next => cases hr
      next => exact h.receivers i r hr
    | serverFiles dir => exact { h with }
    | drop k m =>
      exact { h with requests := fun k i f hm => h.requests k i f (List.mem_of_mem_erase hm) }
    | duplicate k m =>
      refine { h with requests := fun k i f hm => ?_ }
      rcases List.mem_cons.mp hm with heq | hm
      · exact h.requests k i f (heq ▸ hen)
      · exact h.requests k i f hm

/-- In every run in which no request of a download already counted as served is accepted, the
server records `Served` at most once for each download the requester started. -/
theorem served_at_most_once (P : ExchangeParams) (requesterDir serverDir : Dir)
    {es : List ExchangeEvent}
    (h : Run (guarded Unserved (Step P)) (initial requesterDir serverDir) es X) :
    servedBytes X.server.events = X.served.map Prod.snd ∧ (X.served.map Prod.fst).Nodup ∧
    (∀ k ∈ X.served.map Prod.fst, k < X.started.length) ∧
    (servedBytes X.server.events).length ≤ X.started.length := by
  have hacc : X.Accounted :=
    h.invariant (fun _ _ _ hs hstep => hstep.2.accounted hstep.1 hs) (initial_accounted _ _)
  refine ⟨hacc.record, hacc.once, hacc.counted, ?_⟩
  have hsub : X.served.map Prod.fst ⊆ List.range X.started.length :=
    fun k hk => List.mem_range.mpr (hacc.counted k hk)
  have hle := (hacc.once.subperm hsub).length_le
  rw [List.length_range, List.length_map] at hle
  rwa [hacc.record, List.length_map]

/-- A data directory without files. -/
def noFiles : Dir := ⟨∅, ["srv"], fun _ => none⟩

def demoParams : ExchangeParams := ⟨defaultSettings, defaultSettings, peerA, peerB⟩

/-- One segment is requested, sent in one packet, saved and acknowledged. -/
def demoDownload : List ExchangeEvent :=
  [.start smallestId (fun _ => 0) "1.ts",
    .duplicate 0 (.segmentRequest 1 "1.ts"),
    .request (fun _ => 0) true 0 1 "1.ts",
    .serverTick ⟨fun _ => 0, default, .ok, 0⟩ 0,
    .contents ⟨fun _ => 1, default, .ok, 0⟩ 0 1 1 1 [1, 2, 3],
    .ack (fun _ => 2) 0 1 .complete 0 0]

theorem served_at_most_once_demo :
    ∃ X, Run (guarded Unserved (Step demoParams)) (initial noFiles oneSegment) demoDownload X ∧
      X.served = [(0, 3)] ∧ (X.served.map Prod.fst).Nodup := by
  have hrun : Run (guarded Unserved (Step demoParams)) (initial noFiles oneSegment)
      demoDownload _ :=
    .cons ⟨trivial, .mk trivial⟩ (.cons ⟨trivial, .mk (by decide +kernel)⟩
      (.cons ⟨fun _ _ => by decide +kernel, .mk (by decide +kernel)⟩
        (.cons ⟨trivial, .mk trivial⟩ (.cons ⟨trivial, .mk (by decide +kernel)⟩
          (.one ⟨trivial, .mk (by decide +kernel)⟩)))))
  exact ⟨_, hrun, by decide +kernel, (served_at_most_once demoParams noFiles oneSegment hrun).2.1⟩

/-- The second copy of the request arrives after that, and the receiver acknowledges again. -/
def demoAgain : List ExchangeEvent :=
  [.request (fun _ => 3) true 0 1 "1.ts",
    .serverTick ⟨fun _ => 3, default, .ok, 0⟩ 3,
    .contents ⟨fun _ => 4, default, .ok, 0⟩ 0 1 1 1 [1, 2, 3],
    .ack (fun _ => 5) 0 1 .complete 0 0]

/-- One download is counted twice, with its bytes, when its request is duplicated. -/
theorem duplicate_request_served_twice :
    ∃ X, Run (Step demoParams) (initial noFiles oneSegment) (demoDownload ++ demoAgain) X ∧
      X.started = [(1, "1.ts")] ∧ X.served = [(0, 3), (0, 3)] ∧
      servedBytes X.server.events = [3, 3] :=
  ⟨_, .cons (.mk trivial) (.cons (.mk (by decide +kernel)) (.cons (.mk (by decide +kernel))
    (.cons (.mk trivial) (.cons (.mk (by decide +kernel)) (.cons (.mk (by decide +kernel))
      (.cons (.mk (by decide +kernel)) (.cons (.mk trivial) (.cons (.mk (by decide +kernel))
        (.one (.mk (by decide +kernel))))))))))), by decide +kernel, by decide +kernel,
    by decide +kernel⟩

end Exchange
end Qstream.Transfer

import Qstream.PeerFill
import Qstream.TransferIsolation
import Qstream.TransferReceiverRuns

/-! The outcome of a download, once it has one: which events of the registry keep it. -/
namespace Qstream.Transfer
open Runs

/-- What a download fails with when its source refuses it. -/
def refusal (r : ReceiverTransfer) (retryable : Bool) : FailReason :=
  if retryable then .notReady r.filename else .notFound r.filename

namespace TransferRegistry

/-- Every outcome is kept while its download is in the registry. -/
def OutcomesKept (reg reg' : TransferRegistry) : Prop :=
  ∀ id r o, reg.receivers.lookup id = some r → r.outcome = some o →
    ∀ r', reg'.receivers.lookup id = some r' → r'.outcome = some o

/-- A step after which outcomes are final: they are kept, a completed download answers
contents with COMPLETE, and a refusal of it is not reported as a missing file. -/
structure FinalStep (cfg : Settings) (reg : TransferRegistry) (e : RegistryEvent)
    (reg' : TransferRegistry) : Prop where
  kept : OutcomesKept reg reg'
  reacked : ∀ w id p t d src r, e = .contents w id p t d src →
    reg.receivers.lookup id = some r → r.outcome = some (.ok ()) →
    (reg.onContent cfg w id p t d).2 = [(r.completeMessage, r.remote)]
  unreported : ∀ clk id retryable src r file, e = .notFound clk id retryable src →
    reg.receivers.lookup id = some r → r.outcome = some (.ok ()) →
    (reg.onNotFound clk id retryable).2 ≠ some (file, false)

/-- No refusal reaches a download that has an outcome, other than the same refusal. -/
def Unrefused (reg : TransferRegistry) : RegistryEvent → Prop
  | .notFound _ id retryable _ => ∀ r o, reg.receivers.lookup id = some r → r.outcome = some o →
    o = .error (refusal r retryable)
  | _ => True

variable {cfg : Settings} {reg reg' : TransferRegistry} {e : RegistryEvent}

theorem OutcomesKept.of_eq (h : reg'.receivers = reg.receivers) : OutcomesKept reg reg' := by
  intro id r o hr ho r' hr'
  rw [h, hr] at hr'
  obtain rfl := Option.some.inj hr'
  exact ho

/-- Changing one download keeps the outcomes if it keeps its own. -/
theorem OutcomesKept.of_insert {id : ℕ} {r' : ReceiverTransfer}
    (h : reg'.receivers = reg.receivers.insert id r')
    (hown : ∀ r o, reg.receivers.lookup id = some r → r.outcome = some o → r'.outcome = some o) :
    OutcomesKept reg reg' := by
  intro id' r o hr ho r1 hr1
  rw [h, HashMap.lookup_insert'] at hr1
  split at hr1
  next heq =>
    subst heq
    obtain rfl := Option.some.inj hr1
    exact hown r o hr ho
  next =>
    rw [hr] at hr1
    obtain rfl := Option.some.inj hr1
    exact ho

theorem onContent_kept (w : World) (id p t : ℕ) (d : Bytes) :
    OutcomesKept reg (reg.onContent cfg w id p t d).1 := by
  unfold onContent
  split
  next r hr =>
    refine .of_insert rfl fun r1 o hr1 ho => ?_
    obtain rfl : r = r1 := Option.some.inj (hr.symm.trans hr1)
    rw [ReceiverTransfer.onContent_of_outcome (by simp [ho])]
    exact ho
  next => exact .of_eq rfl

theorem tick_kept (w : World) (now : ℕ) : OutcomesKept reg (reg.tick cfg w now).1 := by
  intro id r o hr ho r' hr'
  simp only [tick, HashMap.lookup_mapVal, HashMap.lookup_retain, hr] at hr'
  obtain ⟨x, hx, rfl⟩ := Option.map_eq_some_iff.mp hr'
  obtain ⟨r1, hr1, rfl⟩ := Option.map_eq_some_iff.mp hx
  obtain rfl : r = r1 := Option.some.inj (Option.filter_eq_some_iff.mp hr1).1
  simp [ho]

theorem startReceiver_kept (ids : IdSource) (clk : Clock) (remote : SocketAddr)
    (filename : String) : OutcomesKept reg (reg.startReceiver cfg ids clk remote filename).1 := by
  unfold startReceiver
  split
  next => exact .of_eq rfl
  next hroom =>
    refine .of_insert rfl fun r o hr _ => ?_
    have hfree := (ids.fresh reg (by omega)).2.2.2
    exact absurd (HashMap.mem_iff_lookup.mpr ⟨r, hr⟩) hfree

theorem serve_receivers (clk : Clock) (id : ℕ) (filename : String) (src : SocketAddr) :
    (reg.serve clk id filename src).1.receivers = reg.receivers := by
  unfold serve
  repeat' split
  all_goals rfl

theorem onAck_receivers (clk : Clock) (id : ℕ) (ackType : AckType) (a b : ℕ) :
    (reg.onAck cfg clk id ackType a b).receivers = reg.receivers := by
  unfold onAck
  repeat' split
  all_goals rfl

/-- A refusal overwrites the outcome. -/
theorem onNotFound_kept_iff (clk : Clock) (id : ℕ) (retryable : Bool) (src : SocketAddr) :
    OutcomesKept reg (reg.onNotFound clk id retryable).1 ↔
      reg.Unrefused (.notFound clk id retryable src) := by
  cases hr : reg.receivers.lookup id with
  | none =>
    have heq : reg.onNotFound clk id retryable = (reg, none) := by
      unfold onNotFound
      rw [hr]
    rw [heq]
    exact iff_of_true (.of_eq rfl) fun r o hr' => by simp [hr] at hr'
  | some r =>
    have heq : (reg.onNotFound clk id retryable).1 = { reg with
        receivers := reg.receivers.insert id
          ((r.markNotFound retryable).fail (clk 0) (refusal r retryable)) } := by
      unfold onNotFound
      rw [hr]
      rfl
    rw [heq]
    constructor
    · intro hkept r1 o hr1 ho
      obtain rfl : r = r1 := Option.some.inj (hr.symm.trans hr1)
      have hnew := hkept id r o hr ho _ (AList.lookup_insert _)
      exact (Option.some.inj hnew).symm
    · intro hun
      refine .of_insert rfl fun r1 o hr1 ho => ?_
      obtain rfl : r = r1 := Option.some.inj (hr.symm.trans hr1)
      rw [hun r o hr ho]
      rfl

/-- Content for a completed download is answered with COMPLETE. -/
theorem onContent_reack {w : World} {id p t : ℕ} {d : Bytes} {r : ReceiverTransfer}
    (hr : reg.receivers.lookup id = some r) (ho : r.outcome = some (.ok ())) :
    (reg.onContent cfg w id p t d).2 = [(r.completeMessage, r.remote)] := by
  unfold onContent
  rw [hr]
  simp only [ReceiverTransfer.onContent, ho]
  rfl

/-- Outcomes are final after a step exactly when it is not a refusal of a download that
has an outcome. -/
theorem finalStep_iff : FinalStep cfg reg e (reg.apply cfg e) ↔ reg.Unrefused e := by
  constructor
  · intro h
    cases e with
    | notFound clk id retryable src => exact (onNotFound_kept_iff clk id retryable src).mp h.kept
    | _ => trivial
  · intro hun
    refine ⟨?_, fun w id p t d src r _ hr ho => onContent_reack hr ho, ?_⟩
    · cases e with
      | request clk id filename src => exact .of_eq (serve_receivers clk id filename src)
      | rejected id src retryable => exact .of_eq rfl
      | ack clk id ackType a b src => exact .of_eq (onAck_receivers clk id ackType a b)
      | contents w id p t d src => exact onContent_kept w id p t d
      | notFound clk id retryable src => exact (onNotFound_kept_iff clk id retryable src).mpr hun
      | tick w now => exact tick_kept w now
      | startReceiver ids clk remote filename => exact startReceiver_kept ids clk remote filename
      | removeReceiver id =>
        intro id' r o hr ho r' hr'
        rw [apply, removeReceiver, HashMap.lookup_erase'] at hr'
        split at hr'
        next => cases hr'
        next =>
          rw [hr] at hr'
          obtain rfl := Option.some.inj hr'
          exact ho
    · rintro clk id retryable src r file rfl hr ho
      have hsame := hun r (.ok ()) hr ho
      cases hsame

/-- Along a run of a registry outcomes are final exactly when no step of it refuses a
download that has an outcome already. -/
theorem outcomes_final_iff (cfg : Settings) (dir : Dir) (es : List RegistryEvent)
    (reg : TransferRegistry) :
    Run (fun r e r' => FinalStep cfg r e r' ∧ Step cfg r e r') (.new dir) es reg ↔
      Run (guarded Unrefused (Step cfg)) (.new dir) es reg := by
  constructor
  · intro h
    refine h.mono fun r e r' hstep => ?_
    obtain ⟨hfinal, hmk⟩ := hstep
    cases hmk
    exact ⟨finalStep_iff.mp hfinal, .mk r e⟩
  · intro h
    refine h.mono fun r e r' hstep => ?_
    obtain ⟨hun, hmk⟩ := hstep
    cases hmk
    exact ⟨finalStep_iff.mpr hun, .mk r e⟩

/-- A download of one packet is started and its packet arrives. -/
def onePacket : List RegistryEvent :=
  [.startReceiver smallestId (fun _ => 0) peerA "1.ts",
    .contents ⟨fun _ => 1, default, .ok, 0⟩ 1 1 1 [7] peerA]

/-- A late refusal of a completed download makes it a failure, is reported as a missing file,
and ends the answers to repeated contents. -/
theorem refusal_overwrites_outcome :
    ∃ reg, Run (Step defaultSettings) (.new ⟨∅, ["srv"], fun _ => none⟩) onePacket reg ∧
      (reg.receivers.lookup 1).map (·.outcome) = some (some (.ok ())) ∧
      (reg.onNotFound (fun _ => 2) 1 false).2 = some ("1.ts", false) ∧
      ((reg.apply defaultSettings (.notFound (fun _ => 2) 1 false peerA)).receivers.lookup 1).map
        (·.outcome) = some (some (.error (.notFound "1.ts"))) ∧
      ((reg.apply defaultSettings (.notFound (fun _ => 2) 1 false peerA)).onContent
        defaultSettings ⟨fun _ => 3, default, .ok, 0⟩ 1 1 1 [7]).2 = [] :=
  ⟨_, .cons (.mk _ _) (.one (.mk _ _)), by decide +kernel, by decide +kernel, by decide +kernel,
    by decide +kernel⟩

end TransferRegistry
end Qstream.Transfer

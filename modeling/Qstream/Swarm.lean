import Qstream.PeerSends
import Qstream.TransferGenuine

/-! The whole system: any number of processes, masters and peers, and the datagrams that they
have sent. A datagram may reach any process, any number of times and in any order, or none. -/
namespace Qstream
open Transfer Runs

/-- A process of the swarm. -/
inductive Party
  | master (cfg : NodeSettings) (n : Node)
  | peer (P : PeerConfig) (S : Peer)

inductive PartyEvent
  | master (e : NodeEvent)
  | peer (e : PeerEvent)

namespace PartyEvent

/-- The datagram that the event is the receipt of, with its source. -/
def datagram : PartyEvent → Option (Message × SocketAddr)
  | .master (.datagram _ m src) => some (m, src)
  | .peer (.datagram _ _ m src) => some (m, src)
  | _ => none

end PartyEvent

namespace Party

def node : Party → Node
  | .master _ n => n
  | .peer _ S => S.node

def registry (p : Party) : TransferRegistry := p.node.registry

def withDir (dir : Dir) : Party → Party
  | .master cfg n => .master cfg (n.withDir dir)
  | .peer P S => .peer P { S with node := S.node.withDir dir }

/-- A process that has just been started. -/
inductive Starts : Party → Prop
  | master (cfg : NodeSettings) (clk : Clock) (name manifestName : String) (dir : Dir)
      (localAddr : SocketAddr) (nonce : UInt32) :
    Starts (.master cfg (.new clk name .master manifestName dir localAddr nonce))
  | peer (P : PeerConfig) (w : World) (dir : Dir) (nonce : UInt32) (claimed : Option SocketAddr)
      (seed : UInt64) : Starts (.peer P (.initial P w dir nonce claimed seed))

/-- One step of a process, with what it sends. -/
inductive Step : Party → PartyEvent → Party → Outbox → Prop
  | master (cfg : NodeSettings) (n : Node) (e : NodeEvent) :
    Step (.master cfg n) (.master e) (.master cfg (n.apply cfg e).1) (n.apply cfg e).2
  | peer {P : PeerConfig} {S S' : Peer} {e : PeerEvent} {sent : Outbox} (hen : S.Enabled e)
      (h : S.apply P e = .ok (S', sent)) : Step (.peer P S) (.peer e) (.peer P S') sent

end Party

/-- The processes, the datagrams in flight, and the file that was asked for last under each id. -/
structure Swarm (ι : Type) where
  party : ι → Party
  wire : Outbox
  pulled : ℕ → String

/-- What happens in a swarm: a process takes a step, something else changes its files, a process
starts (again), or a datagram is gone for good. -/
inductive SwarmEvent (ι : Type)
  | act (i : ι) (e : PartyEvent)
  | disk (i : ι) (dir : Dir)
  | start (i : ι) (p : Party)
  | lose (x : Message × SocketAddr)

/-- A request makes its id stand for its file. -/
def asked (pulled : ℕ → String) (x : Message × SocketAddr) : ℕ → String :=
  match x.1 with
  | .segmentRequest i f => Function.update pulled i f
  | _ => pulled

/-- A request or content under id `i`. -/
def Message.Uses (i : ℕ) : Message → Prop
  | .segmentRequest j _ => j = i
  | .segmentContents j _ _ _ => j = i
  | _ => False

namespace Swarm
variable {ι : Type}

/-- Nothing is left of the transfers that had id `i`. -/
def Unused (X : Swarm ι) (i : ℕ) : Prop :=
  (∀ x ∈ X.wire, ¬ x.1.Uses i) ∧
    ∀ j, i ∉ (X.party j).registry.senders ∧ i ∉ (X.party j).registry.receivers

/-- Processes that have just been started, and nothing in flight. -/
structure Initial (X : Swarm ι) : Prop where
  starts : ∀ i, (X.party i).Starts
  silent : X.wire = []

variable [DecidableEq ι]

def put (X : Swarm ι) (i : ι) (p : Party) : Swarm ι :=
  { X with party := Function.update X.party i p }

inductive Step : Swarm ι → SwarmEvent ι → Swarm ι → Prop
  | act {X : Swarm ι} {i : ι} {e : PartyEvent} {p : Party} {sent : Outbox}
      (h : (X.party i).Step e p sent)
      (hin : ∀ m src, e.datagram = some (m, src) → ∃ dst, (m, dst) ∈ X.wire) :
    Step X (.act i e) { X.put i p with wire := X.wire ++ sent, pulled := sent.foldl asked X.pulled }
  | disk (X : Swarm ι) (i : ι) (dir : Dir) :
    Step X (.disk i dir) (X.put i ((X.party i).withDir dir))
  | start (X : Swarm ι) (i : ι) {p : Party} (h : p.Starts) : Step X (.start i p) (X.put i p)
  | lose (X : Swarm ι) (x : Message × SocketAddr) :
    Step X (.lose x) { X with wire := X.wire.erase x }

/-- What a process does with an event, where it can take it. -/
def act? (e : PartyEvent) : Party → Option (Party × Outbox)
  | .master cfg n =>
    match e with
    | .master e => some (.master cfg (n.apply cfg e).1, (n.apply cfg e).2)
    | .peer _ => none
  | .peer P S =>
    match e with
    | .peer e => if S.Enabled e then (S.apply P e).toOption.map fun r => (.peer P r.1, r.2) else none
    | .master _ => none

/-- The step of a process as a function. -/
def step? (X : Swarm ι) (i : ι) (e : PartyEvent) : Option (Swarm ι) :=
  if e.datagram.all fun d => X.wire.any fun x => x.1 = d.1 then
    (act? e (X.party i)).map fun r =>
      { X.put i r.1 with wire := X.wire ++ r.2, pulled := r.2.foldl asked X.pulled }
  else none

omit [DecidableEq ι] in
theorem step_of_act? {e : PartyEvent} {p q : Party} {sent : Outbox}
    (h : act? e p = some (q, sent)) : p.Step e q sent := by
  cases p with
  | master cfg n =>
    cases e with
    | master e =>
      obtain ⟨rfl, rfl⟩ := Prod.mk.inj (Option.some.inj h)
      exact .master cfg n e
    | peer e => cases h
  | peer P S =>
    cases e with
    | master e => cases h
    | peer e =>
      simp only [act?, Option.ite_none_right_eq_some, Option.map_eq_some_iff, Prod.mk.injEq] at h
      obtain ⟨hen, ⟨S', sent'⟩, hok, rfl, rfl⟩ := h
      exact .peer hen (Peer.ok_of_toOption hok)

theorem Step.of_step? {X X' : Swarm ι} {i : ι} {e : PartyEvent} (h : X.step? i e = some X') :
    Step X (.act i e) X' := by
  simp only [step?, Option.ite_none_right_eq_some, Option.map_eq_some_iff] at h
  obtain ⟨hin, ⟨p, sent⟩, hact, rfl⟩ := h
  refine .act (step_of_act? hact) fun m src hm => ?_
  rw [hm, Option.all_some, List.any_eq_true] at hin
  obtain ⟨⟨m', dst⟩, hmem, heq⟩ := hin
  obtain rfl : m' = m := of_decide_eq_true heq
  exact ⟨dst, hmem⟩

end Swarm
end Qstream

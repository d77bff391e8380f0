import Qstream.Counters
import Qstream.PeerLabels

/-! What the statistics of a node count for each peer, and what each step of a node adds. -/
namespace Qstream
open Transfer Counters

/-- What is counted of each peer. -/
inductive Column
  | pulls | downloadedBytes | nfPulls | timeouts | otherFails
  | served | uploadedBytes | nfServed | senderFails
  deriving DecidableEq

/-- Bytes are counted in 64 bits, all else in 32. -/
def Column.size : Column → ℕ
  | .downloadedBytes | .uploadedBytes => 2 ^ 64
  | _ => 2 ^ 32

def PeerStat.entry (s : PeerStat) : Column → ℕ
  | .pulls => s.pulls.toNat
  | .downloadedBytes => s.downloadedBytes.toNat
  | .nfPulls => s.nfPulls.toNat
  | .timeouts => s.timeouts.toNat
  | .otherFails => s.otherFails.toNat
  | .served => s.served.toNat
  | .uploadedBytes => s.uploadedBytes.toNat
  | .nfServed => s.nfServed.toNat
  | .senderFails => s.senderFails.toNat

theorem PeerStat.entry_lt (s : PeerStat) (c : Column) : s.entry c < c.size := by
  cases c
  case downloadedBytes | uploadedBytes => exact UInt64.toNat_lt _
  all_goals exact UInt32.toNat_lt _

theorem Column.size_dvd (c : Column) : c.size ∣ 2 ^ 64 := by
  cases c
  case downloadedBytes | uploadedBytes => exact dvd_rfl
  all_goals exact pow_dvd_pow 2 (by decide)

/-- Amounts by peer and column. -/
abbrev Ledger := SocketAddr → Column → ℕ

/-- What the end of a pull counts for its source. -/
def PullResult.posting (bytes : ℕ) : PullResult → Column → ℕ
  | .ok, .pulls => 1
  | .ok, .downloadedBytes => bytes
  | .notFound, .nfPulls => 1
  | .timeout, .timeouts => 1
  | .other, .otherFails => 1
  | _, _ => 0

/-- What the end of a serve counts for the requester. -/
def Transfer.RegEvent.posting : RegEvent → Column → ℕ
  | .served _ _, .served => 1
  | .served _ bytes, .uploadedBytes => bytes
  | .notFound _, .nfServed => 1
  | .senderFailed _, .senderFails => 1
  | _, _ => 0

/-- Postings, and the ledger that they make up. -/
abbrev Postings := List (SocketAddr × (Column → ℕ))

def Postings.ledger (l : Postings) : Ledger := (l.map fun x => Pi.single x.1 x.2).sum

def Postings.sum (l : Postings) (c : Column) : ℕ := (l.map fun x => x.2 c).sum

@[simp] theorem Postings.ledger_nil : Postings.ledger [] = 0 := rfl

@[simp] theorem Postings.ledger_append (l l' : Postings) :
    Postings.ledger (l ++ l') = Postings.ledger l + Postings.ledger l' := by
  simp [Postings.ledger]

@[simp] theorem Postings.sum_append (l l' : Postings) (c : Column) :
    Postings.sum (l ++ l') c = Postings.sum l c + Postings.sum l' c := by
  simp [Postings.sum]

namespace Node
variable {n n' : Node} {l l' : Postings} {a : SocketAddr} {d : Column → ℕ}

/-- What the statistics say about a peer. -/
def ledger (n : Node) : Ledger := fun a c => (n.peerStats.lookup a).elim 0 fun s => s.entry c

theorem ledger_lt (n : Node) (a : SocketAddr) (c : Column) : n.ledger a c < c.size := by
  unfold ledger
  cases n.peerStats.lookup a with
  | none => cases c <;> decide
  | some s => exact s.entry_lt c

/-- The sum of a column over all peers. -/
def sum (n : Node) (c : Column) : ℕ := n.peerStats.total fun s => s.entry c

/-- The node's own counter for a column, where it has one. -/
def counter (n : Node) : Column → Option ℕ
  | .pulls => some n.downloadedTotal.toNat
  | .downloadedBytes => some n.downloadedBytes.toNat
  | .served => some n.servedTotal.toNat
  | .uploadedBytes => some n.servedBytes.toNat
  | _ => none

/-- The statistics of `n'` show those of `n` and the postings `l`. -/
structure Posts (l : Postings) (n n' : Node) : Prop where
  ledger : ∀ a c, Shows c.size (n'.ledger a c) (n.ledger a c + l.ledger a c)
  sum : ∀ c, Shows c.size (n'.sum c) (n.sum c + l.sum c)
  counter : ∀ c, ∀ x' ∈ n'.counter c, ∃ x ∈ n.counter c, Shows (2 ^ 64) x' (x + l.sum c)

theorem Posts.of_same (hstats : n'.peerStats = n.peerStats)
    (hcount : ∀ c, n'.counter c = n.counter c) : Posts [] n n' where
  ledger a c := by
    rw [Node.ledger, hstats]
    exact .refl _
  sum c := by
    rw [Node.sum, hstats]
    exact .refl _
  counter c x hx := ⟨x, hcount c ▸ hx, .refl _⟩

theorem Posts.append {x : Node} (h : Posts l n x) (h' : Posts l' x n') : Posts (l ++ l') n n' where
  ledger a c := by
    rw [Postings.ledger_append, Pi.add_apply, Pi.add_apply, ← add_assoc]
    exact (h'.ledger a c).trans ((h.ledger a c).add (.refl _))
  sum c := by
    rw [Postings.sum_append, ← Nat.add_assoc]
    exact (h'.sum c).trans ((h.sum c).add (.refl _))
  counter c z hz := by
    obtain ⟨y, hy, hyz⟩ := h'.counter c z hz
    obtain ⟨x, hx, hxy⟩ := h.counter c y hy
    refine ⟨x, hx, ?_⟩
    rw [Postings.sum_append, ← Nat.add_assoc]
    exact hyz.trans (hxy.add (.refl _))

theorem Posts.congr {x y : Node} (h : Posts l x y) (hx : Posts [] n x) (hy : Posts [] y n') :
    Posts l n n' := by
  simpa using (hx.append h).append hy

/-- An entry that is made where there is none, and then added to. -/
theorem posts_entry (h : ∃ s f, n'.peerStats = (n.peerStats.orInsert a s).modify a f ∧
      (∀ c, s.entry c = 0) ∧ ∀ x c, Shows c.size ((f x).entry c) (x.entry c + d c))
    (hcount : ∀ c, ∀ x' ∈ n'.counter c, ∃ x ∈ n.counter c, Shows (2 ^ 64) x' (x + d c)) :
    Posts [(a, d)] n n' := by
  obtain ⟨s, f, h, hs, hf⟩ := h
  refine ⟨fun b c => ?_, fun c => ?_, fun c x' hx' => ?_⟩
  · simp only [Node.ledger, Postings.ledger, List.map_cons, List.map_nil, List.sum_cons,
      List.sum_nil, add_zero, h, HashMap.lookup_modify, HashMap.lookup_orInsert]
    by_cases hb : b = a
    · subst hb
      simp only [if_true, Pi.single_eq_same, Option.map_some, Option.elim_some]
      have hone := hf ((n.peerStats.lookup b).getD s) c
      cases hlook : n.peerStats.lookup b with
      | none => rwa [hlook, Option.getD_none, hs] at hone
      | some x => rwa [hlook, Option.getD_some] at hone
    · rw [if_neg hb, if_neg hb, Pi.single_eq_of_ne hb]
      exact .refl _
  · simpa [Node.sum, Postings.sum, h] using
      shows_total_entry (g := fun s => s.entry c) (hs c) (fun x => hf x c) n.peerStats a
  · simpa [Postings.sum] using hcount c x' hx'

/-- A change of an entry that is not counted. -/
theorem posts_modify (h : ∃ f, n'.peerStats = n.peerStats.modify a f ∧
      ∀ x c, (f x).entry c = x.entry c)
    (hcount : ∀ c, n'.counter c = n.counter c) : Posts [] n n' := by
  obtain ⟨f, h, hf⟩ := h
  have hledger (b : SocketAddr) (c : Column) : n'.ledger b c = n.ledger b c := by
    simp only [Node.ledger, h, HashMap.lookup_modify]
    split
    next hb =>
      rw [hb]
      cases n.peerStats.lookup a with
      | none => rfl
      | some x => exact hf x c
    next => rfl
  refine ⟨fun b c => ?_, fun c => ?_, fun c x hx => ⟨x, hcount c ▸ hx, .refl _⟩⟩
  · rw [hledger]
    exact .refl _
  · rw [Node.sum, h, HashMap.total_modify fun x => hf x c]
    exact .refl _

theorem posts_orInsert (h : ∃ s, n'.peerStats = n.peerStats.orInsert a s ∧ ∀ c, s.entry c = 0)
    (hcount : ∀ c, n'.counter c = n.counter c) : Posts [] n n' := by
  obtain ⟨s, h, hs⟩ := h
  have hledger (b : SocketAddr) (c : Column) : n'.ledger b c = n.ledger b c := by
    simp only [Node.ledger, h, HashMap.lookup_orInsert]
    split
    next hb =>
      rw [hb]
      cases n.peerStats.lookup a with
      | none => exact hs c
      | some x => rfl
    next => rfl
  refine ⟨fun b c => ?_, fun c => ?_, fun c x hx => ⟨x, hcount c ▸ hx, .refl _⟩⟩
  · rw [hledger]
    exact .refl _
  · rw [Node.sum, h, HashMap.total_orInsert (g := fun s : PeerStat => s.entry c) (hs c)]
    exact .refl _

@[simp] theorem entry_new (p : PeerLabel) (now : ℕ) (c : Column) : (PeerStat.new p now).entry c = 0 := by
  cases c <;> rfl

/-- The end of a pull is counted once, for its source. -/
theorem recordPull_posts (n : Node) (clk : Clock) (p : SocketAddr) (res : PullResult)
    (latency : Option ℕ) (bytes : ℕ) :
    Posts [(p, res.posting bytes)] n (n.recordPull clk p res latency bytes) := by
  cases res with
  | retryableNotFound =>
    refine posts_entry ⟨_, _, rfl, entry_new _ _, fun x c => ?_⟩ fun c x hx => ⟨x, hx, ?_⟩
    all_goals cases c <;> exact .refl _
  | ok =>
    refine posts_entry ⟨_, _, HashMap.modify_modify .., entry_new _ _, fun x c => ?_⟩
      fun c x hx => ?_
    · cases c
      case pulls => exact shows_add32 _ 1
      case downloadedBytes => exact shows_add64 _ bytes
      all_goals exact .refl _
    · cases c with
      | pulls =>
        cases hx
        exact ⟨_, rfl, shows_add64 n.downloadedTotal 1⟩
      | downloadedBytes =>
        cases hx
        exact ⟨_, rfl, shows_add64 n.downloadedBytes bytes⟩
      | served | uploadedBytes =>
        cases hx
        exact ⟨_, rfl, .refl _⟩
      | _ => cases hx
  | _ =>
    refine posts_entry ⟨_, _, HashMap.modify_modify .., entry_new _ _, fun x c => ?_⟩
      fun c x hx => ⟨x, hx, by cases c <;> first | exact .refl _ | cases hx⟩
    cases c <;> first | exact .refl _ | exact shows_add32 _ 1

/-- The end of a serve is counted once, for the requester. -/
theorem recordServe_posts (n : Node) (clk : Clock) (e : RegEvent) :
    Posts [(e.src, e.posting)] n (n.recordServe clk e) := by
  cases e with
  | served src bytes =>
    refine posts_entry ⟨_, _, rfl, entry_new _ _, fun x c => ?_⟩ fun c x hx => ?_
    · cases c
      case served => exact shows_add32 _ 1
      case uploadedBytes => exact shows_add64 _ bytes
      all_goals exact .refl _
    · cases c with
      | served =>
        cases hx
        exact ⟨_, rfl, shows_add64 n.servedTotal 1⟩
      | uploadedBytes =>
        cases hx
        exact ⟨_, rfl, shows_add64 n.servedBytes bytes⟩
      | pulls | downloadedBytes =>
        cases hx
        exact ⟨_, rfl, .refl _⟩
      | _ => cases hx
  | _ =>
    refine posts_entry ⟨_, _, rfl, entry_new _ _, fun x c => ?_⟩
      fun c x hx => ⟨x, hx, by cases c <;> first | exact .refl _ | cases hx⟩
    cases c <;> first | exact .refl _ | exact shows_add32 _ 1

theorem foldl_recordServe_posts (n : Node) (clk : Clock) (es : List RegEvent) :
    Posts (es.map fun e => (e.src, e.posting)) n (es.foldl (fun n e => n.recordServe clk e) n) := by
  induction es generalizing n with
  | nil => exact .of_same rfl fun _ => rfl
  | cons e es ih => exact (recordServe_posts n clk e).append (ih _)

theorem registerPeer_posts (n : Node) (clk : Clock) (src : SocketAddr) (name : String) :
    Posts [] n (n.registerPeer clk src name) :=
  posts_orInsert ⟨_, rfl, entry_new _ _⟩ fun c => by cases c <;> rfl

theorem discover_posts (n : Node) (clk : Clock) (src : SocketAddr) (name : String) :
    Posts [] n (n.discover clk src name) := by
  unfold discover
  split
  · have hreg := registerPeer_posts n clk src name
    split
    · exact hreg.congr (.of_same rfl fun _ => rfl) (.of_same rfl fun c => by cases c <;> rfl)
    · exact hreg
  · exact .of_same rfl fun _ => rfl

/-- Datagrams count nothing by themselves. -/
theorem handle_posts (n : Node) (cfg : NodeSettings) (w : World) (m : Message) (src : SocketAddr) :
    Posts [] n (n.handle cfg w m src).1 := by
  have htouch : Posts [] n (n.touchPeer w.clk src) :=
    posts_modify ⟨_, rfl, fun x c => by cases c <;> rfl⟩ fun c => by cases c <;> rfl
  have hsame {n' : Node} (hstats : n'.peerStats = (n.touchPeer w.clk src).peerStats)
      (hcount : ∀ c, n'.counter c = (n.touchPeer w.clk src).counter c) : Posts [] n n' :=
    htouch.append (.of_same hstats hcount)
  cases m with
  | handshakeRequest claimed name =>
    exact (htouch.append (registerPeer_posts _ _ _ _)).append
      (.of_same rfl fun c => by cases c <;> rfl)
  | ping nonce name =>
    simp only [handle]
    split
    · exact htouch
    · exact htouch.append (discover_posts _ _ _ _)
  | pong av => cases av <;> exact hsame rfl fun c => by cases c <;> rfl
  | segmentRequest id filename =>
    simp only [handle, originSeedAllowed_eq]
    cases (n.touchPeer w.clk src).admission cfg (w.after 2).clk filename src <;>
      exact hsame rfl fun c => by cases c <;> rfl
  | segmentNotFound id av retryable =>
    simp only [handle]
    split
    · unfold recordMissing
      split <;> cases av <;> exact hsame rfl fun c => by cases c <;> rfl
    · cases av <;> exact hsame rfl fun c => by cases c <;> rfl
  | _ => exact hsame rfl fun c => by cases c <;> rfl

/-- The timers count the serves that have ended. -/
theorem tick_posts (n : Node) (cfg : NodeSettings) (w : World) (now : ℕ) :
    Posts ((n.registry.tick cfg.transfer w now).1.events.map fun e => (e.src, e.posting)) n
      (n.tick cfg w now).1 := by
  have hserve := foldl_recordServe_posts { n with
    registry := { (n.registry.tick cfg.transfer w now).1 with events := [] } } w.clk
    (n.registry.tick cfg.transfer w now).1.events
  refine hserve.congr (.of_same rfl fun c => by cases c <;> rfl) (.of_same ?_ fun c => ?_)
  · exact (pruneSegments_proj (·.peerStats) (fun _ _ _ => rfl) _ _ _ _).trans
      (pingCycle_proj (·.peerStats) (fun _ _ _ _ => rfl) _ _ _)
  · exact (pruneSegments_proj (·.counter c) (fun _ _ _ => by cases c <;> rfl) _ _ _ _).trans
      (Eq.trans (by cases c <;> rfl)
        (pingCycle_proj (·.counter c) (fun _ _ _ _ => by cases c <;> rfl) _ _ _))

end Node

namespace Peer
variable {P : PeerConfig} {S S' : Peer}

theorem receive_posts {w refresh : World} {m : Message} {src : SocketAddr} {sent : Outbox}
    (h : S.receive P w refresh m src = .ok (S', sent)) : Node.Posts [] S.node S'.node := by
  have hhandle := Node.handle_posts S.node P.settings (w.after 1) m src
  rw [receive_node h]
  cases m with
  | handshakeResponse observed name => exact hhandle.append (Node.registerPeer_posts _ _ _ _)
  | manifestResponse data => exact hhandle.append (.of_same rfl fun c => by cases c <;> rfl)
  | _ => exact hhandle

/-- A collected job is counted once, for its source. -/
theorem reapJob_posts (w : World) (now : ℕ) (f : Finished) (n : Node) (s : Scheduler) :
    Node.Posts [(f.job.peer, f.result.posting (f.savedBytes.getD 0))] n
      (reapJob P w now f n s).1 := by
  have hcollect : Node.Posts [(f.job.peer, f.result.posting (f.savedBytes.getD 0))] n
      (collect w f n s).1 := by
    unfold collect
    cases f.outcome with
    | ok u => exact Node.recordPull_posts n _ _ _ _ _
    | error e =>
      exact (Node.recordPull_posts { n with registry := n.registry.removeReceiver f.id } _ _ _ _
        _).congr (.of_same rfl fun c => by cases c <;> rfl) (.of_same rfl fun _ => rfl)
  refine hcollect.congr (.of_same rfl fun _ => rfl) (.of_same ?_ fun c => ?_)
  · exact reapJob_of_collect (·.peerStats) (fun _ _ => rfl) (fun _ _ => rfl) w now f n s
  · exact reapJob_of_collect (·.counter c) (fun _ _ => by cases c <;> rfl)
      (fun _ _ => by cases c <;> rfl) w now f n s

end Peer
end Qstream

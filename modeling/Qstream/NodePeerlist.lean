import Qstream.NodeHandle
import Qstream.ProtocolRoundTrip
import Qstream.Ranking

/-! What a node answers to a request for its peers. -/
namespace Qstream
open Transfer

/-- An IPv4 address as a number, most significant byte first. -/
def Ipv4Addr.number (x : Ipv4Addr) : ℕ :=
  ((x.a.toNat * 256 + x.b.toNat) * 256 + x.c.toNat) * 256 + x.d.toNat

theorem Ipv4Addr.number_lt (x : Ipv4Addr) : x.number < 2 ^ 32 := by
  have ha := x.a.toNat_lt
  have hb := x.b.toNat_lt
  have hc := x.c.toNat_lt
  have hd := x.d.toNat_lt
  unfold number
  omega

theorem Ipv4Addr.number_inj {x y : Ipv4Addr} (h : x.number = y.number) : x = y := by
  obtain ⟨xa, xb, xc, xd⟩ := x
  obtain ⟨ya, yb, yc, yd⟩ := y
  simp only [number] at h
  have hb := xb.toNat_lt
  have hc := xc.toNat_lt
  have hd := xd.toNat_lt
  have hb' := yb.toNat_lt
  have hc' := yc.toNat_lt
  have hd' := yd.toNat_lt
  have ha : xa = ya := UInt8.toNat_inj.mp (by omega)
  have hb : xb = yb := UInt8.toNat_inj.mp (by omega)
  have hc : xc = yc := UInt8.toNat_inj.mp (by omega)
  have hd : xd = yd := UInt8.toNat_inj.mp (by omega)
  rw [ha, hb, hc, hd]

namespace SocketAddr

theorem sortKey_v4 (x : Ipv4Addr) (port : ℕ) :
    sortKey ⟨.v4 x, port⟩ = x.number * 65536 + port := rfl

theorem sortKey_v6 (x : BitVec 128) (port : ℕ) :
    sortKey ⟨.v6 x, port⟩ = 2 ^ 64 + x.toNat * 65536 + port := rfl

/-- Addresses with real ports are told apart by their place in the order. -/
theorem sortKey_inj {a b : SocketAddr} (ha : a.Typed) (hb : b.Typed)
    (h : a.sortKey = b.sortKey) : a = b := by
  obtain ⟨ip, port⟩ := a
  obtain ⟨ip', port'⟩ := b
  change port < 65536 at ha
  change port' < 65536 at hb
  cases ip with
  | v4 x =>
    have hx := x.number_lt
    cases ip' with
    | v4 y =>
      rw [sortKey_v4, sortKey_v4] at h
      have hnumber : x.number = y.number := by omega
      have hport : port = port' := by omega
      rw [Ipv4Addr.number_inj hnumber, hport]
    | v6 y =>
      rw [sortKey_v4, sortKey_v6] at h
      omega
  | v6 x =>
    cases ip' with
    | v4 y =>
      have hy := y.number_lt
      rw [sortKey_v4, sortKey_v6] at h
      omega
    | v6 y =>
      rw [sortKey_v6, sortKey_v6] at h
      have hnumber : x.toNat = y.toNat := by omega
      have hport : port = port' := by omega
      rw [BitVec.eq_of_toNat_eq hnumber, hport]

end SocketAddr

namespace Node
variable {n n' : Node} {cfg : NodeSettings} {w : World} {src p : SocketAddr}

/-- The order in which peers are advertised: by what they served, then by address. -/
def rank (n : Node) (p : SocketAddr) : ℕ ×ₗ ℕ := toLex (n.servedBy p, p.sortKey)

/-- A peer that may be advertised to `src`. -/
structure Eligible (n : Node) (src p : SocketAddr) : Prop where
  known : p ∈ n.peers
  other : p ≠ src
  reachable : remotePublic src = true → remotePublic p = true

/-- A peerlist as it should be. -/
structure PeerlistFor (n : Node) (src : SocketAddr) (peers : List (SocketAddr × UInt8)) : Prop where
  few : peers.length ≤ 16
  nodup : (peers.map Prod.fst).Nodup
  eligible : ∀ e ∈ peers, n.Eligible src e.1
  sorted : peers.Pairwise fun e e' => n.rank e.1 < n.rank e'.1
  /-- An eligible peer is left out only when there are sixteen that served less. -/
  least : ∀ p, n.Eligible src p → p ∉ peers.map Prod.fst →
    peers.length = 16 ∧ ∀ e ∈ peers, n.rank e.1 < n.rank p
  parents : ∀ i e, peers[i]? = some e → (e.2 &&& PEER_PARENT ≠ 0 ↔ i < 2)
  mapped : ∀ e ∈ peers, (e.2 &&& PEER_UPNP_MAPPED ≠ 0 ↔ n.claims.lookup e.1 = some e.1)
  sameIp : ∀ e ∈ peers, (e.2 &&& PEER_SAME_IP ≠ 0 ↔ ∃ ip, e.1.ip = .v4 ip ∧ src.ip = .v4 ip)

/-- The entries that a reply reads are those of `n`, in whatever order the maps hold them. -/
structure SameRecords (n n' : Node) : Prop where
  peers : ∀ a, a ∈ n'.peers ↔ a ∈ n.peers
  served : ∀ a, n'.servedBy a = n.servedBy a
  claims : ∀ a, n'.claims.lookup a = n.claims.lookup a

theorem SameRecords.refl (n : Node) : SameRecords n n :=
  ⟨fun _ => Iff.rfl, fun _ => rfl, fun _ => rfl⟩

theorem touchPeer_sameRecords (clk : Clock) (src : SocketAddr) :
    SameRecords n (n.touchPeer clk src) where
  peers _ := mem_touchPeer
  served a := by
    simp only [servedBy, touchPeer, HashMap.lookup_modify]
    by_cases h : a = src
    · rw [if_pos h, h]
      cases n.peerStats.lookup src <;> rfl
    · rw [if_neg h]
  claims _ := rfl

/-- The known peers that `src` may be told of. -/
def candidates (n : Node) (src : SocketAddr) : List SocketAddr :=
  n.peers.keys.filter fun p => p ≠ src ∧ ¬ (remotePublic src ∧ ¬ remotePublic p)

theorem advertisable_eq (n : Node) (src : SocketAddr) :
    n.advertisable src = Ranking.sorted n.rank (n.candidates src) := by
  unfold advertisable Ranking.sorted candidates
  congr 1
  funext a b
  have hle : n.rank a ≤ n.rank b ↔ _ := Prod.Lex.toLex_le_toLex
  exact decide_eq_decide.mpr hle.symm

theorem mem_candidates : p ∈ n.candidates src ↔ n.Eligible src p := by
  simp only [candidates, List.mem_filter, decide_eq_true_eq, ← AList.mem_keys]
  constructor
  · rintro ⟨hknown, hother, hreach⟩
    exact ⟨hknown, hother, fun h => by simpa [h] using hreach⟩
  · rintro ⟨hknown, hother, hreach⟩
    exact ⟨hknown, hother, fun ⟨h, hnot⟩ => hnot (hreach h)⟩

theorem candidates_nodup (n : Node) (src : SocketAddr) : (n.candidates src).Nodup :=
  n.peers.keys_nodup.filter _

theorem rank_injOn (ht : ∀ a ∈ n.peers, a.Typed) (src : SocketAddr) :
    Set.InjOn n.rank {a | a ∈ n.candidates src} := by
  intro a ha b hb h
  have hkey : a.sortKey = b.sortKey := congrArg (fun x => (ofLex x).2) h
  exact SocketAddr.sortKey_inj (ht a (mem_candidates.mp ha).known)
    (ht b (mem_candidates.mp hb).known) hkey

/-- The order in which the maps hold their entries does not show. -/
theorem peerlistMessage_congr (h : SameRecords n n') (ht : ∀ a ∈ n.peers, a.Typed)
    (src : SocketAddr) : n'.peerlistMessage src = n.peerlistMessage src := by
  have hrank : n'.rank = n.rank := by
    funext a
    rw [rank, h.served, rank]
  have hkeys : n'.peers.keys.Perm n.peers.keys :=
    (List.perm_ext_iff_of_nodup n'.peers.keys_nodup n.peers.keys_nodup).mpr fun a => by
      rw [← AList.mem_keys, ← AList.mem_keys, h.peers]
  have hsame : n'.advertisable src = n.advertisable src := by
    rw [advertisable_eq, advertisable_eq, hrank]
    exact Ranking.sorted_congr (rank_injOn ht src) (hkeys.filter _)
  have hflags (parents : List SocketAddr) : n'.peerFlags src parents = n.peerFlags src parents := by
    funext p
    simp only [peerFlags, h.claims]
  simp only [peerlistMessage, hsame, hflags]

/-- The entries of the reply. -/
def advertised (n : Node) (src : SocketAddr) : List (SocketAddr × UInt8) :=
  ((n.advertisable src).take MAX_ADVERTISED_PEERS).map fun p =>
    (p, n.peerFlags src ((n.advertisable src).take PARENT_COUNT) p)

theorem peerlistMessage_eq (n : Node) (src : SocketAddr) :
    n.peerlistMessage src = .peerlistResponse (n.advertised src) := rfl

theorem map_fst_advertised (n : Node) (src : SocketAddr) :
    (n.advertised src).map Prod.fst = (n.advertisable src).take MAX_ADVERTISED_PEERS := by
  simp [advertised, Function.comp_def]

/-- The three flags are three bits. -/
theorem peerFlags_bits (n : Node) (src : SocketAddr) (parents : List SocketAddr) (p : SocketAddr) :
    (n.peerFlags src parents p &&& PEER_UPNP_MAPPED ≠ 0 ↔ n.claims.lookup p = some p) ∧
    (n.peerFlags src parents p &&& PEER_SAME_IP ≠ 0 ↔ sameIp4 p src = true) ∧
    (n.peerFlags src parents p &&& PEER_PARENT ≠ 0 ↔ p ∈ parents) := by
  unfold peerFlags
  by_cases hclaim : n.claims.lookup p = some p <;> by_cases hip : sameIp4 p src = true <;>
    by_cases hparent : p ∈ parents <;>
    simp only [hclaim, hip, hparent, if_true, if_false, Bool.false_eq_true] <;> decide

theorem sameIp4_iff {a b : SocketAddr} :
    sameIp4 a b = true ↔ ∃ ip, a.ip = .v4 ip ∧ b.ip = .v4 ip := by
  unfold sameIp4
  cases a.ip <;> cases b.ip <;> simp [eq_comm]

theorem advertisable_nodup (n : Node) (src : SocketAddr) : (n.advertisable src).Nodup := by
  rw [advertisable_eq]
  exact (Ranking.sorted_perm _ _).nodup_iff.mpr (n.candidates_nodup src)

theorem advertisable_pairwise (ht : ∀ a ∈ n.peers, a.Typed) (src : SocketAddr) :
    (n.advertisable src).Pairwise fun a b => n.rank a < n.rank b := by
  rw [advertisable_eq]
  exact Ranking.sorted_pairwise (rank_injOn ht src) (n.candidates_nodup src)

theorem mem_advertisable : p ∈ n.advertisable src ↔ n.Eligible src p := by
  rw [advertisable_eq, Ranking.mem_sorted, mem_candidates]

theorem advertised_peerlistFor (ht : ∀ a ∈ n.peers, a.Typed) (src : SocketAddr) :
    n.PeerlistFor src (n.advertised src) where
  few := by simp [advertised, MAX_ADVERTISED_PEERS]
  nodup := by
    rw [map_fst_advertised]
    exact (n.advertisable_nodup src).sublist (List.take_sublist _ _)
  eligible e he := by
    have hmem : e.1 ∈ (n.advertised src).map Prod.fst := List.mem_map_of_mem he
    rw [map_fst_advertised] at hmem
    exact mem_advertisable.mp (List.mem_of_mem_take hmem)
  sorted := by
    have hpair := (advertisable_pairwise ht src).sublist (List.take_sublist MAX_ADVERTISED_PEERS _)
    rw [← map_fst_advertised, List.pairwise_map] at hpair
    exact hpair
  least p hp hout := by
    rw [map_fst_advertised] at hout
    have hlater : p ∈ (n.advertisable src).drop MAX_ADVERTISED_PEERS := by
      have hmem := mem_advertisable.mpr hp
      rw [← List.take_append_drop MAX_ADVERTISED_PEERS (n.advertisable src), List.mem_append] at hmem
      exact hmem.resolve_left hout
    refine ⟨?_, fun e he => ?_⟩
    · have hlong := List.length_pos_of_mem hlater
      rw [List.length_drop] at hlong
      rw [advertised, List.length_map, List.length_take]
      exact min_eq_left (by unfold MAX_ADVERTISED_PEERS at hlong ⊢; omega)
    · have hmem : e.1 ∈ (n.advertised src).map Prod.fst := List.mem_map_of_mem he
      rw [map_fst_advertised] at hmem
      exact (advertisable_pairwise ht src).rel_of_mem_take_of_mem_drop hmem hlater
  parents i e he := by
    rw [advertised, List.getElem?_map, Option.map_eq_some_iff] at he
    obtain ⟨p, hp, rfl⟩ := he
    have hat : (n.advertisable src)[i]? = some p := by
      rw [List.getElem?_take] at hp
      split at hp
      · exact hp
      · cases hp
    obtain ⟨hi, rfl⟩ := List.getElem?_eq_some_iff.mp hat
    rw [(n.peerFlags_bits src _ _).2.2, List.mem_take_iff_idxOf_lt (List.getElem_mem hi),
      (n.advertisable_nodup src).idxOf_getElem i hi]
    rfl
  mapped e he := by
    obtain ⟨p, -, rfl⟩ := List.mem_map.mp he
    exact (n.peerFlags_bits src _ p).1
  sameIp e he := by
    obtain ⟨p, -, rfl⟩ := List.mem_map.mp he
    exact (n.peerFlags_bits src _ p).2.1.trans sameIp4_iff

theorem handle_peerlistRequest (h : SameRecords n n') (ht : ∀ a ∈ n.peers, a.Typed) :
    (n'.handle cfg w .peerlistRequest src).2.1 =
      [(.peerlistResponse (n.advertised src), src)] := by
  have htouched : SameRecords n (n'.touchPeer w.clk src) := by
    have ht := touchPeer_sameRecords (n := n') w.clk src
    exact ⟨fun a => (ht.peers a).trans (h.peers a), fun a => (ht.served a).trans (h.served a),
      fun a => (ht.claims a).trans (h.claims a)⟩
  have hreply := peerlistMessage_congr htouched ht src
  rw [peerlistMessage_eq n] at hreply
  simp only [handle, hreply]

/-- The reply to every requester is a peerlist as it should be, whatever the order of the maps,
and the requester decodes it to the same list. -/
theorem peerlist_reply (n : Node) (cfg : NodeSettings) (w : World) (src : SocketAddr)
    (hpeers : ∀ a ∈ n.peers, a.Typed ∧ a.packable = true) :
    ∃ peers, n.PeerlistFor src peers ∧
      decode (encode (.peerlistResponse peers)) = .ok (.peerlistResponse peers) ∧
      ∀ n', SameRecords n n' →
        (n'.handle cfg w .peerlistRequest src).2.1 = [(.peerlistResponse peers, src)] := by
  have ht : ∀ a ∈ n.peers, a.Typed := fun a ha => (hpeers a ha).1
  have hadv := advertised_peerlistFor ht src
  have hknown : ∀ e ∈ n.advertised src, e.1.Typed ∧ e.1.packable = true :=
    fun e he => hpeers _ (hadv.eligible e he).known
  refine ⟨n.advertised src, hadv, ?_, fun n' hsame => handle_peerlistRequest hsame ht⟩
  have htyped : (Message.peerlistResponse (n.advertised src)).Typed := fun e he => (hknown e he).1
  have hlen : (encodePeers (n.advertised src)).length ≤ 65535 := by
    have hle := length_encodePeers_le (n.advertised src)
    have hfew := hadv.few
    omega
  rw [decode_encode_payload (header_lt htyped) hlen, decodePayload_payload htyped, norm,
    List.filter_eq_self.mpr fun e he => (hknown e he).2]

/-- A master that knows two peers. -/
def demoSwarm : Node :=
  ((Node.new (fun _ => 0) "master" .master "live.m3u8" ⟨∅, ["srv"], fun _ => none⟩
    ⟨.v4 ⟨198, 51, 100, 1⟩, 3333⟩ 7).registerPeer (fun _ => 0) ⟨.v4 ⟨203, 0, 113, 7⟩, 4444⟩
      "first").registerPeer (fun _ => 0) ⟨.v4 ⟨203, 0, 113, 8⟩, 4444⟩ "second"

theorem peerlist_reply_demo : ∃ peers,
    demoSwarm.PeerlistFor ⟨.v4 ⟨203, 0, 113, 8⟩, 4444⟩ peers ∧
    decode (encode (.peerlistResponse peers)) = .ok (.peerlistResponse peers) ∧
    ∀ n', SameRecords demoSwarm n' → (n'.handle ⟨defaultSettings, 2, 0⟩
      ⟨fun _ => 0, default, .ok, 0⟩ .peerlistRequest ⟨.v4 ⟨203, 0, 113, 8⟩, 4444⟩).2.1 =
        [(.peerlistResponse peers, ⟨.v4 ⟨203, 0, 113, 8⟩, 4444⟩)] := by
  refine peerlist_reply demoSwarm _ _ _ ?_
  show ∀ a ∈ demoSwarm.peers.keys, a.port < 65536 ∧ a.packable = true
  decide +kernel

end Node
end Qstream

import Qstream.TransferReassembly

/-! Reassembly from packets of any length. Nothing bounds a payload to its slot of
the buffer, so packets may overlap; the iteration order of the packet map then decides
which of them the file shows. -/
namespace Qstream.Transfer
open Chunks

namespace ReceiverTransfer

/-- The buffer's length. -/
def room (r : ReceiverTransfer) : ℕ := r.total.getD 0 * SEGMENT_PACKET_SIZE

/-- Where the last packet ends, at most at the end of the buffer. -/
def fileEnd (r : ReceiverTransfer) : ℕ :=
  match r.packets.lookup (r.total.getD 0) with
  | some d => min ((r.total.getD 0 - 1) * SEGMENT_PACKET_SIZE + d.length) r.room
  | none => 0

/-- The bytes `complete` writes. -/
def assembled (r : ReceiverTransfer) (ord : HashOrder) : Bytes :=
  (writeAll (List.replicate r.room 0) ((ord.iter r.packets).map slot)).take r.fileEnd

/-- Stored packets that both fit the buffer carry the same byte wherever both reach
inside the file. -/
def OverlapsAgree (r : ReceiverTransfer) : Prop :=
  ∀ p d q e, r.packets.lookup p = some d → r.packets.lookup q = some e →
    ∀ i < r.fileEnd, Covers r.room (slot (p, d)) i → Covers r.room (slot (q, e)) i →
      d[i - (slot (p, d)).1]? = e[i - (slot (q, e)).1]?

/-- `complete` comes to the same result whatever the order of the packet map. -/
def OrderFree (r : ReceiverTransfer) : Prop :=
  ∀ (env : World) (ord : HashOrder) (dir : Dir),
    r.complete { env with ord := ord } dir = r.complete env dir

theorem assemble_iter (r : ReceiverTransfer) (ord : HashOrder) :
    min (assemble (r.total.getD 0) (ord.iter r.packets)).2
      (assemble (r.total.getD 0) (ord.iter r.packets)).1.length = r.fileEnd ∧
    (assemble (r.total.getD 0) (ord.iter r.packets)).1 =
      writeAll (List.replicate r.room 0) ((ord.iter r.packets).map slot) := by
  rw [assemble_eq]
  refine ⟨?_, rfl⟩
  simp only [length_writeAll, List.length_replicate]
  have hmem : ∀ N, N ∈ (ord.iter r.packets).map Prod.fst ↔ ∃ d, r.packets.lookup N = some d := by
    intro N
    simp only [List.mem_map, Prod.exists, HashOrder.mem_iter, exists_and_right, exists_eq_right]
  unfold fileEnd
  cases hlast : r.packets.lookup (r.total.getD 0) with
  | none =>
    have hout : r.total.getD 0 ∉ (ord.iter r.packets).map Prod.fst := by
      rw [hmem, hlast]
      simp
    have hkeys : ∀ e ∈ ord.iter r.packets, e.1 = r.total.getD 0 → e.2 = [] := by
      intro e he heq
      exact absurd (heq ▸ List.mem_map_of_mem he) hout
    rw [foldl_size hkeys, if_neg hout, Nat.zero_min]
  | some d =>
    have hkeys : ∀ e ∈ ord.iter r.packets, e.1 = r.total.getD 0 → e.2 = d := by
      intro e he heq
      have hlook := HashOrder.mem_iter.mp (show (e.1, e.2) ∈ ord.iter r.packets from he)
      rw [heq, hlast] at hlook
      exact (Option.some.inj hlook).symm
    rw [foldl_size hkeys, if_pos ((hmem _).mpr ⟨d, hlast⟩)]
    rfl

/-- `complete` saves what is assembled, at its size. -/
theorem complete_eq (env : World) (r : ReceiverTransfer) (dir : Dir) :
    r.complete env dir =
      match dir.saveAtomic env.io env.wall r.filename (r.assembled env.ord) with
      | (dir', some e) => (r.fail (env.clk 7) (.writeFailed r.filename e), [], dir')
      | (dir', none) =>
        ({ r with
            savedBytes := some r.fileEnd
            outcome := some (.ok ())
            deadline := env.clk 7 + COMPLETE_GRACE }, [r.completeMessage], dir') := by
  obtain ⟨hsize, hbuf⟩ := assemble_iter r env.ord
  simp only [complete, hsize]
  rw [hbuf]
  rfl

theorem orderFree_iff_assembled (r : ReceiverTransfer) :
    r.OrderFree ↔ ∀ ord ord' : HashOrder, r.assembled ord = r.assembled ord' := by
  constructor
  · intro hfree ord ord'
    have hsaved (ord : HashOrder) :
        (r.complete ⟨fun _ => 0, ord, .ok, 0⟩
          ⟨∅, ["srv"], fun _ => none⟩).2.2.entries.lookup r.filename =
          some (.file (r.assembled ord) true 0) := by
      rw [complete_eq]
      exact (Dir.entries_saveAtomic_ok _ _ _ _ _).trans (if_pos rfl)
    have hsame := hsaved ord
    rw [hfree ⟨fun _ => 0, ord', .ok, 0⟩ ord ⟨∅, ["srv"], fun _ => none⟩, hsaved ord'] at hsame
    simp only [Option.some.injEq, FileEntry.file.injEq, and_true] at hsame
    exact hsame.symm
  · intro hsame env ord dir
    rw [complete_eq, complete_eq, hsame ord env.ord]

/-- The packet met last shows wherever it reaches inside the file. -/
theorem getElem?_assembled_last {r : ReceiverTransfer} {ord : HashOrder} {l : List (ℕ × Bytes)}
    {p : ℕ} {d : Bytes} (hl : ord.iter r.packets = l ++ [(p, d)]) {i : ℕ} (hi : i < r.fileEnd)
    (hc : Covers r.room (slot (p, d)) i) :
    (r.assembled ord)[i]? = d[i - (slot (p, d)).1]? := by
  have hroom : Covers (List.replicate r.room (0 : UInt8)).length (slot (p, d)) i := by
    rw [List.length_replicate]
    exact hc
  rw [assembled, List.getElem?_take, if_pos hi, hl, List.map_append, List.map_singleton,
    getElem?_writeAll_concat, if_pos hroom]
  rfl

theorem OverlapsAgree.assembled_eq {r : ReceiverTransfer} (h : r.OverlapsAgree)
    (ord ord' : HashOrder) : r.assembled ord = r.assembled ord' := by
  have hperm := (ord.iter_perm r.packets).trans (ord'.iter_perm r.packets).symm
  refine take_writeAll_perm (hperm.map slot) fun w hw v hv i hi hcw hcv => ?_
  rw [List.length_replicate] at hcw hcv
  obtain ⟨⟨p, d⟩, hp, rfl⟩ := List.mem_map.mp hw
  obtain ⟨⟨q, e⟩, hq, rfl⟩ := List.mem_map.mp hv
  exact h p d q e (HashOrder.mem_iter.mp hp) (HashOrder.mem_iter.mp hq) i hi hcw hcv

/-- Packets that keep to their slots are reassembled the same way in every order. -/
theorem orderFree_of_slots {r : ReceiverTransfer}
    (h : ∀ p d, r.packets.lookup p = some d → 1 ≤ p ∧ d.length ≤ SEGMENT_PACKET_SIZE) :
    r.OrderFree := by
  refine (orderFree_iff_assembled r).mpr fun ord ord' => ?_
  have hperm := (ord.iter_perm r.packets).trans (ord'.iter_perm r.packets).symm
  refine take_writeAll_perm (hperm.map slot) (agreeBelow_of_slots ?_ ?_)
  · exact fun e he => h e.1 e.2 (HashOrder.mem_iter.mp he)
  · have hkeys := (ord.iter_perm r.packets).map Prod.fst
    rw [HashMap.map_fst_pairs] at hkeys
    exact hkeys.nodup_iff.mpr r.packets.keys_nodup

/-- What `complete` writes does not depend on the order of the packet map exactly when
the stored packets agree wherever they overlap in the file. -/
theorem reassembly_order_free_iff (r : ReceiverTransfer) : r.OrderFree ↔ r.OverlapsAgree := by
  rw [orderFree_iff_assembled]
  constructor
  · intro hsame p d q e hp hq i hi hcp hcq
    obtain ⟨ord, l, hl⟩ := HashOrder.exists_last hp
    obtain ⟨ord', l', hl'⟩ := HashOrder.exists_last hq
    rw [← getElem?_assembled_last hl hi hcp, ← getElem?_assembled_last hl' hi hcq,
      hsame ord ord']
  · intro hagree ord ord'
    exact hagree.assembled_eq ord ord'

/-- A receiver told of two packets, whose first packet came with 1401 bytes. -/
def overlong : ReceiverTransfer :=
  ((new defaultSettings (fun _ => 0) 7 unspecifiedEndpoint "seg_0001.ts").onContent
    defaultSettings ⟨fun _ => 1, default, .ok, 0⟩ ⟨∅, ["srv"], fun _ => none⟩ 1 2
    (List.replicate SEGMENT_PACKET_SIZE 0 ++ [7])).1

/-- The last byte of the file is the one of packet 1 or of packet 2, as the order goes. -/
theorem overlong_packet_races :
    let saved (ord : HashOrder) :=
      ((overlong.onContent defaultSettings ⟨fun _ => 2, ord, .ok, 0⟩ ⟨∅, ["srv"], fun _ => none⟩
        2 2 [9]).2.2.read "seg_0001.ts").bind List.getLast?
    saved default = some 7 ∧ saved (HashOrder.last 0) = some 9 := by
  decide +kernel

end ReceiverTransfer
end Qstream.Transfer

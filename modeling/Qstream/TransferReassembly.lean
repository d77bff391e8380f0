import Qstream.TransferReceiverWindow

/-! Reassembly: a receiver that holds every packet of a file writes exactly that file. -/
namespace Qstream.Transfer
open Chunks

/-- The payload of packet `p` of `file`. -/
abbrev packetOf (file : Bytes) (p : ℕ) : Bytes := chunk SEGMENT_PACKET_SIZE file p

/-- The last packet of a file ends where the file ends. -/
theorem last_packet_end {file : Bytes} {N : ℕ} (hlo : (N - 1) * SEGMENT_PACKET_SIZE ≤ file.length)
    (hhi : file.length ≤ N * SEGMENT_PACKET_SIZE) :
    (N - 1) * SEGMENT_PACKET_SIZE + (packetOf file N).length = file.length := by
  rw [length_chunk]
  have hN : N * SEGMENT_PACKET_SIZE ≤ (N - 1) * SEGMENT_PACKET_SIZE + SEGMENT_PACKET_SIZE := by
    have h := Nat.mul_le_mul_right SEGMENT_PACKET_SIZE (show N ≤ N - 1 + 1 by omega)
    rwa [Nat.add_mul, Nat.one_mul] at h
  omega

/-- Where a packet is written. -/
def slot (e : ℕ × Bytes) : ℕ × Bytes := ((e.1 - 1) * SEGMENT_PACKET_SIZE, e.2)

/-- The two results of `assemble` do not depend on each other. -/
theorem assemble_eq (total : ℕ) (ps : List (ℕ × Bytes)) :
    assemble total ps =
      (writeAll (List.replicate (total * SEGMENT_PACKET_SIZE) 0) (ps.map slot),
        ps.foldl (fun size e =>
          if e.1 = total then (slot e).1 + e.2.length else size) 0) := by
  unfold assemble writeAll
  generalize List.replicate (total * SEGMENT_PACKET_SIZE) (0 : UInt8) = buf
  generalize 0 = size
  induction ps generalizing buf size with
  | nil => rfl
  | cons e ps ih => exact ih _ _

/-- The size is read off the packet numbered as the last one. -/
theorem foldl_size {total : ℕ} {ps : List (ℕ × Bytes)} {d : Bytes}
    (h : ∀ e ∈ ps, e.1 = total → e.2 = d) (size : ℕ) :
    ps.foldl (fun size e => if e.1 = total then (slot e).1 + e.2.length else size) size =
      if total ∈ ps.map Prod.fst then (total - 1) * SEGMENT_PACKET_SIZE + d.length else size := by
  induction ps generalizing size with
  | nil => rfl
  | cons e ps ih =>
    obtain ⟨he, hps⟩ := List.forall_mem_cons.mp h
    rw [List.foldl_cons, ih hps, List.map_cons]
    by_cases hin : total ∈ ps.map Prod.fst
    · rw [if_pos hin, if_pos (List.mem_cons_of_mem _ hin)]
    · by_cases heq : e.1 = total
      · rw [if_neg hin, if_pos heq, if_pos (heq ▸ List.mem_cons_self), slot, he heq, heq]
      · have hout : total ∉ e.1 :: ps.map Prod.fst := by
          simp only [List.mem_cons, not_or]
          exact ⟨fun h => heq h.symm, hin⟩
        rw [if_neg hin, if_neg heq, if_neg hout]

/-- From all the packets of a file, in any order, `assemble` gives back the file. -/
theorem assemble_file {file : Bytes} {N : ℕ} (hpos : 1 ≤ N)
    (hlo : (N - 1) * SEGMENT_PACKET_SIZE ≤ file.length)
    (hhi : file.length ≤ N * SEGMENT_PACKET_SIZE) {ps : List (ℕ × Bytes)}
    (hps : PiecesOf SEGMENT_PACKET_SIZE N file ps)
    (hall : ∀ p, 1 ≤ p → p ≤ N → p ∈ ps.map Prod.fst) :
    min (assemble N ps).2 (assemble N ps).1.length = file.length ∧
    (assemble N ps).1.take file.length = file := by
  have hbuf : (List.replicate (N * SEGMENT_PACKET_SIZE) (0 : UInt8)).length =
      N * SEGMENT_PACKET_SIZE := List.length_replicate
  have hlast : ∀ e ∈ ps, e.1 = N → e.2 = packetOf file N := by
    rintro e he rfl
    exact (hps e he).2.2
  have hasm : assemble N ps = (blitAll SEGMENT_PACKET_SIZE
      (List.replicate (N * SEGMENT_PACKET_SIZE) 0) ps, file.length) := by
    rw [assemble_eq, foldl_size hlast, if_pos (hall N hpos le_rfl), last_packet_end hlo hhi]
    exact congrArg (·, file.length) (writeAll_eq_blitAll hps hbuf)
  rw [hasm]
  refine ⟨?_, take_blitAll (by decide) hhi hps hall hbuf⟩
  rw [length_blitAll hps hbuf]
  omega

namespace ReceiverTransfer

/-- Every stored packet is the packet of `file` it is numbered as. -/
def Holds (r : ReceiverTransfer) (file : Bytes) : Prop :=
  ∀ p d, r.packets.lookup p = some d → d = packetOf file p

theorem Holds.store {r : ReceiverTransfer} {file : Bytes} (h : r.Holds file) (cfg : Settings)
    (clk : Clock) (p : ℕ) : (r.store cfg clk p (packetOf file p)).Holds file := by
  intro q d hq
  rw [store_packets, HashMap.lookup_insert'] at hq
  split at hq
  · rename_i heq
    cases hq
    rw [heq]
  · exact h q d hq

/-- `complete` with every packet of the file at hand. -/
theorem complete_file {r : ReceiverTransfer} {file : Bytes} {N : ℕ} (env : World)
    (dir : Dir) (hpos : 1 ≤ N) (hlo : (N - 1) * SEGMENT_PACKET_SIZE ≤ file.length)
    (hhi : file.length ≤ N * SEGMENT_PACKET_SIZE) (htot : r.total = some N)
    (hkeys : ∀ p ∈ r.packets, 1 ≤ p ∧ p ≤ N) (hall : ∀ p, 1 ≤ p → p ≤ N → p ∈ r.packets)
    (hholds : r.Holds file) :
    (env.io = .ok → r.complete env dir =
      ({ r with
          savedBytes := some file.length
          outcome := some (.ok ())
          deadline := env.clk 7 + COMPLETE_GRACE }, [r.completeMessage],
        (dir.saveAtomic .ok env.wall r.filename file).1)) ∧
    (env.io ≠ .ok → ∃ e dir', r.complete env dir =
      (r.fail (env.clk 7) (.writeFailed r.filename e), [], dir')) := by
  have hps : PiecesOf SEGMENT_PACKET_SIZE N file (env.ord.iter r.packets) := by
    intro e he
    have hlook := HashOrder.mem_iter.mp he
    have hmem := HashMap.mem_iff_lookup.mpr ⟨_, hlook⟩
    exact ⟨(hkeys _ hmem).1, (hkeys _ hmem).2, hholds _ _ hlook⟩
  have hcov : ∀ p, 1 ≤ p → p ≤ N → p ∈ (env.ord.iter r.packets).map Prod.fst := by
    intro p h1 h2
    obtain ⟨d, hd⟩ := HashMap.mem_iff_lookup.mp (hall p h1 h2)
    exact List.mem_map.mpr ⟨(p, d), HashOrder.mem_iter.mpr hd, rfl⟩
  obtain ⟨hsize, hdata⟩ := assemble_file hpos hlo hhi hps hcov
  constructor
  · intro hio
    have hres : dir.saveAtomic env.io env.wall r.filename file =
        ((dir.saveAtomic .ok env.wall r.filename file).1, none) := by rw [hio]; rfl
    simp only [complete, htot, Option.getD_some, hsize, hdata, hres]
  · intro hio
    cases hres : dir.saveAtomic env.io env.wall r.filename file with
    | mk dir' e =>
      cases e with
      | none => exact absurd (Dir.saveAtomic_error.mp (by rw [hres])) hio
      | some e =>
        refine ⟨e, dir', ?_⟩
        simp only [complete, htot, Option.getD_some, hsize, hdata, hres]

end ReceiverTransfer
end Qstream.Transfer

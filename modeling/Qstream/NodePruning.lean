import Qstream.NodeEffects
import Qstream.PlaylistReaders

/-! What pruning deletes, and when it deletes a segment that the manifest lists. -/
namespace Qstream.Node
open Text Transfer Playlist
variable (n : Node) (cfg : NodeSettings) (w : World) (now : ℕ)

/-- The bytes of the manifest on disk, whether they can be read or not. -/
def manifestOnDisk : Bytes :=
  match n.registry.dir.lookup n.manifestName with
  | some (.file data _ _) => data
  | _ => []

/-- A segment line of the manifest on disk names the file. -/
def Lists (name : String) : Prop := name ∈ (segments n.manifestOnDisk).map String.ofList

/-- The file `name` with entry `e` is there before pruning and not after it. -/
def Deletes (name : String) (e : FileEntry) : Prop :=
  n.registry.dir.entries.lookup name = some e ∧
    (n.pruneSegments cfg w now).1.registry.dir.entries.lookup name = none

/-- A name of the kinds that are pruned. -/
def prunedKind (name : String) : Bool :=
  (startsWith "seg_".toList name.toList ∧ ".ts".toList <:+ name.toList) ∨
    ".tmp".toList <:+ name.toList

/-- Only segments and temporary files of the retention age are deleted, and none that is listed. -/
def PrunesUnlisted : Prop :=
  ∀ name e, n.Deletes cfg w now name e →
    prunedKind name = true ∧ reachedAge (secs cfg.retentionSecs) w.wall e = true ∧ ¬ n.Lists name

/-- It is time to prune, and files can be deleted. -/
def PruningDue : Prop := ¬ (cfg.retentionSecs = 0 ∨ now < n.nextPrune ∨ w.io ≠ .ok)

variable {n cfg w now}

theorem prunable_iff {playlist : List String} {retention wall : ℕ} {name : String} {e : FileEntry} :
    prunable playlist retention wall name e = true ↔
      prunedKind name = true ∧ name ∉ playlist ∧ reachedAge retention wall e = true := by
  simp only [prunable, prunedKind, decide_eq_true_eq]

theorem deletes_iff {name : String} {e : FileEntry} :
    n.Deletes cfg w now name e ↔
      n.registry.dir.entries.lookup name = some e ∧ n.PruningDue cfg w now ∧
        prunable (parseManifest ((n.registry.dir.read n.manifestName).getD []))
          (secs cfg.retentionSecs) w.wall name e = true := by
  unfold Deletes PruningDue
  refine and_congr_right fun hfile => ?_
  rw [pruneSegments_registry]
  unfold prunedDir
  by_cases hidle : cfg.retentionSecs = 0 ∨ now < n.nextPrune ∨ w.io ≠ .ok
  · simp [hfile, hidle]
  · simp only [if_neg hidle, HashMap.lookup_retain, hfile, Option.filter_some]
    simp [hidle]

/-- The manifest that pruning reads protects nothing unless it is readable UTF-8. -/
theorem parseManifest_unreadable
    (h : ¬ ∃ data, n.registry.dir.read n.manifestName = some data ∧ (fromUtf8 data).isSome) :
    parseManifest ((n.registry.dir.read n.manifestName).getD []) = [] := by
  cases hread : n.registry.dir.read n.manifestName with
  | none => rfl
  | some data =>
    have hutf8 : fromUtf8 data = none := by
      refine Option.not_isSome_iff_eq_none.mp fun hs => h ⟨data, hread, hs⟩
    simp only [Option.getD_some, parseManifest, hutf8]

theorem manifestOnDisk_of_read {data : Bytes}
    (h : n.registry.dir.read n.manifestName = some data) : n.manifestOnDisk = data := by
  unfold Dir.read at h
  unfold manifestOnDisk
  split at h
  next d modified hlookup =>
    rw [hlookup]
    exact Option.some.inj h
  next => cases h

/-- Pruning spares all listed segments exactly when it is not its time, the manifest is readable
UTF-8, or none of the listed files is of a pruned kind and of the retention age. -/
theorem prunesUnlisted_iff (n : Node) (cfg : NodeSettings) (w : World) (now : ℕ) :
    n.PrunesUnlisted cfg w now ↔
      ¬ n.PruningDue cfg w now ∨
      (∃ data, n.registry.dir.read n.manifestName = some data ∧ (fromUtf8 data).isSome) ∨
      ∀ name e, n.registry.dir.entries.lookup name = some e → n.Lists name →
        ¬ (prunedKind name = true ∧ reachedAge (secs cfg.retentionSecs) w.wall e = true) := by
  constructor
  · intro hsafe
    by_contra hno
    obtain ⟨hdue, hunread, hold⟩ : _ ∧ _ ∧ _ := by simpa only [not_or, not_not] using hno
    refine hold fun name e hfile hlists hprunes => ?_
    have hdel : n.Deletes cfg w now name e := by
      refine deletes_iff.mpr ⟨hfile, hdue, prunable_iff.mpr ⟨hprunes.1, ?_, hprunes.2⟩⟩
      rw [parseManifest_unreadable hunread]
      exact List.not_mem_nil
    exact (hsafe name e hdel).2.2 hlists
  · intro hwhen name e hdel
    obtain ⟨hfile, hdue, hprunable⟩ := deletes_iff.mp hdel
    obtain ⟨hkind, hunlisted, hage⟩ := prunable_iff.mp hprunable
    refine ⟨hkind, hage, fun hlists => ?_⟩
    rcases hwhen with hidle | ⟨data, hread, hutf8⟩ | hnone
    · exact hidle hdue
    · obtain ⟨s, hs, rfl⟩ := List.mem_map.mp hlists
      rw [manifestOnDisk_of_read hread] at hs
      rw [hread, Option.getD_some] at hunlisted
      exact hunlisted (mem_parseManifest_of_segment hutf8 hs)
    · exact hnone name e hfile hlists ⟨hkind, hage⟩

/-- A manifest with a byte that is no UTF-8, and a segment that it lists. -/
def staleManifest : Bytes :=
  "#EXTM3U\n#EXTINF:2,Caf".toUTF8.toList ++ [0xE9] ++ "\nseg_1.ts\n".toUTF8.toList

def staleNode (manifest : Bytes) (readable : Bool) : Node :=
  .new (fun _ => 0) "peer" .peer "live.m3u8"
    ⟨AList.insert "live.m3u8" (.file manifest readable 0)
      (AList.insert "seg_1.ts" (.file [] true 0) ∅), ["srv"], fun _ => none⟩
      ⟨.v4 ⟨0, 0, 0, 0⟩, 5000⟩ 1

/-- A listed segment is deleted because the manifest is no UTF-8, or cannot be read. -/
theorem listed_segment_is_pruned :
    (staleNode staleManifest true).Deletes ⟨defaultSettings, 2, 60⟩
        ⟨fun _ => secs 31, default, .ok, secs 61⟩ (secs 31) "seg_1.ts" (.file [] true 0) ∧
      (staleNode staleManifest true).Lists "seg_1.ts" ∧
    (staleNode "seg_1.ts\n".toUTF8.toList false).Deletes ⟨defaultSettings, 2, 60⟩
        ⟨fun _ => secs 31, default, .ok, secs 61⟩ (secs 31) "seg_1.ts" (.file [] true 0) ∧
      (staleNode "seg_1.ts\n".toUTF8.toList false).Lists "seg_1.ts" ∧
    ¬ (staleNode staleManifest true).PrunesUnlisted ⟨defaultSettings, 2, 60⟩
        ⟨fun _ => secs 31, default, .ok, secs 61⟩ (secs 31) := by
  have hdel : (staleNode staleManifest true).Deletes ⟨defaultSettings, 2, 60⟩
      ⟨fun _ => secs 31, default, .ok, secs 61⟩ (secs 31) "seg_1.ts" (.file [] true 0) := by
    unfold Deletes
    decide +kernel
  have hlists : (staleNode staleManifest true).Lists "seg_1.ts" := by
    unfold Lists
    decide +kernel
  refine ⟨hdel, hlists, ?_, ?_, fun hsafe => (hsafe _ _ hdel).2.2 hlists⟩
  · unfold Deletes
    decide +kernel
  · unfold Lists
    decide +kernel

end Qstream.Node

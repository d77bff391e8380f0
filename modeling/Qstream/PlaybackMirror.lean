import Qstream.NodePruning
import Qstream.PeerWanted
import Qstream.PlaylistReaders

/-! The player's playlist as a derived file: the stored manifest and the segments that are present
determine what it has to hold. -/
namespace Qstream
open Text Playlist UnixPath

/-- What `playback.m3u8` has to hold. -/
def playlistDue (dir : Dir) (holdback : ℕ) : Option Bytes :=
  (dir.read LIVE_MANIFEST).bind fun manifest => playbackPlaylist dir manifest holdback

/-- The playlist holds what is due, and does not exist when nothing is. -/
def Mirrored (dir : Dir) (holdback : ℕ) : Prop :=
  match playlistDue dir holdback with
  | some data => dir.read PLAYBACK_MANIFEST = some data
  | none => dir.exists' PLAYBACK_MANIFEST = false

instance (dir : Dir) (holdback : ℕ) : Decidable (Mirrored dir holdback) := by
  unfold Mirrored
  split <;> infer_instance

/-- No name in the manifest leads to the player's playlist or to its temporary file. -/
def SparesPlayback (root : Path) (data : Bytes) : Prop :=
  ∀ s ∈ segments data, PLAYBACK_MANIFEST ∉ visited root (String.ofList s) ∧
    tmpName PLAYBACK_MANIFEST ∉ visited root (String.ofList s)

instance (root : Path) (data : Bytes) : Decidable (SparesPlayback root data) := by
  unfold SparesPlayback
  infer_instance

/-- A file that could be pruned and that a name in the manifest leads to is itself in it. -/
def ListsVisited (root : Path) (data : Bytes) : Prop :=
  ∀ s ∈ segments data, ∀ child ∈ visited root (String.ofList s),
    Node.prunedKind child = true → child.toList ∈ segments data

instance (root : Path) (data : Bytes) : Decidable (ListsVisited root data) := by
  unfold ListsVisited
  infer_instance

variable {dir dir' : Dir} {w : World} {holdback : ℕ} {data : Bytes}

theorem ne_of_tmpName {name f : String} (h : ¬ ".tmp".toList <:+ f.toList) : f ≠ tmpName name := by
  rintro rfl
  exact h ⟨name.toList, by simp [tmpName]⟩

theorem plain_live : plainName LIVE_MANIFEST = true := by decide

theorem plain_playback : plainName PLAYBACK_MANIFEST = true := by decide

theorem live_ne_tmpName (name : String) : LIVE_MANIFEST ≠ tmpName name := ne_of_tmpName (by decide)

theorem playback_ne_tmpName (name : String) : PLAYBACK_MANIFEST ≠ tmpName name :=
  ne_of_tmpName (by decide)

theorem lookup_live_refresh (w : World) (dir : Dir) (holdback : ℕ) :
    (refreshPlaybackManifest w dir holdback).1.lookup LIVE_MANIFEST = dir.lookup LIVE_MANIFEST :=
  lookup_refreshPlaybackManifest w dir holdback (not_visited plain_live (by decide) _)
    (not_visited plain_live (live_ne_tmpName _) _)

theorem root_refresh (w : World) (dir : Dir) (holdback : ℕ) :
    (refreshPlaybackManifest w dir holdback).1.root = dir.root := by
  unfold refreshPlaybackManifest
  split
  · rfl
  split
  · exact dir.root_removeFile _
  split
  · rfl
  rename_i data _ _
  rw [← dir.root_saveAtomic w.io w.wall PLAYBACK_MANIFEST data]
  split <;> rename_i hsave <;> rw [hsave]

theorem read_of_missing {f : String} (h : dir.exists' f = false) : dir.read f ≠ some data := by
  have hnone : dir.lookup f = none := by simpa [Dir.exists'] using h
  simp [Dir.read, hnone]

/-- The playlist of a manifest depends on which of its segments are present. -/
theorem playbackPlaylist_congr_segments
    (h : ∀ s ∈ segments data, dir'.isFile (String.ofList s) = dir.isFile (String.ofList s)) :
    playbackPlaylist dir' data holdback = playbackPlaylist dir data holdback := by
  obtain ⟨c, hplaylist, hsegments, -⟩ := exists_playlist data
  have hkept : c.segments.filter (isKept dir') = c.segments.filter (isKept dir) := by
    refine List.filter_congr fun k hk => ?_
    have hin : entry k ∈ numbered data := hsegments ▸ List.mem_map_of_mem hk
    exact h k.name (List.fst_mem_of_mem_zipIdx hin)
  rw [hplaylist, hplaylist, Collected.playlist, Collected.playlist, hkept]

theorem playlistDue_congr (hlive : dir'.lookup LIVE_MANIFEST = dir.lookup LIVE_MANIFEST)
    (hfile : ∀ data, dir.read LIVE_MANIFEST = some data → ∀ s ∈ segments data,
      dir'.isFile (String.ofList s) = dir.isFile (String.ofList s)) :
    playlistDue dir' holdback = playlistDue dir holdback := by
  have hread : dir'.read LIVE_MANIFEST = dir.read LIVE_MANIFEST := by simp only [Dir.read, hlive]
  rw [playlistDue, playlistDue, hread]
  cases hdata : dir.read LIVE_MANIFEST with
  | none => rfl
  | some data => exact playbackPlaylist_congr_segments (hfile data hdata)

/-- What a player's playlist has to hold does not depend on that playlist. -/
theorem playlistDue_of_others
    (hspares : ∀ data, dir.read LIVE_MANIFEST = some data → SparesPlayback dir.root data)
    (h : ∀ f, PLAYBACK_MANIFEST ∉ visited dir.root f → tmpName PLAYBACK_MANIFEST ∉ visited dir.root f →
      dir'.lookup f = dir.lookup f) :
    playlistDue dir' holdback = playlistDue dir holdback := by
  have hlive := h LIVE_MANIFEST (not_visited plain_live (by decide) _)
    (not_visited plain_live (live_ne_tmpName _) _)
  refine playlistDue_congr hlive fun data hdata s hs => ?_
  simp only [Dir.isFile, h _ (hspares data hdata s hs).1 (hspares data hdata s hs).2]

/-- A playlist that is no directory mirrors the stored state after every refresh. -/
theorem mirrored_refresh (hio : w.io = .ok) (hlive : (dir.read LIVE_MANIFEST).isSome)
    (hspares : ∀ data, dir.read LIVE_MANIFEST = some data → SparesPlayback dir.root data)
    (hplain : dir.lookup PLAYBACK_MANIFEST ≠ some .directory) :
    Mirrored (refreshPlaybackManifest w dir holdback).1 holdback := by
  obtain ⟨manifest, hmanifest⟩ := Option.isSome_iff_exists.mp hlive
  have hdue : playlistDue (refreshPlaybackManifest w dir holdback).1 holdback =
      playbackPlaylist dir manifest holdback := by
    rw [playlistDue_of_others hspares fun f hf ht =>
      lookup_refreshPlaybackManifest w dir holdback hf ht, playlistDue, hmanifest, Option.bind_some]
  rw [Mirrored, hdue]
  simp only [refreshPlaybackManifest, hmanifest]
  cases hplaylist : playbackPlaylist dir manifest holdback with
  | none => simp only [Dir.exists', Dir.lookup_removed plain_playback hplain, Option.isSome_none]
  | some data =>
    simp only
    split
    next hsame => exact hsame
    next =>
      have hsaved := Dir.lookup_saveAtomic_ok dir w.wall plain_playback data
      rw [hio]
      simp only [Dir.saveAtomic] at hsaved ⊢
      simp only [Dir.read, hsaved]

/-! Pruning. -/

variable {n : Node} {cfg : NodeSettings} {now : ℕ}

/-- Pruning leaves a name alone if all children that it leads to are listed, or of another kind
than what is pruned. -/
theorem lookup_prunedDir {f : String}
    (hkept : ∀ child ∈ visited n.registry.dir.root f,
      Node.prunedKind child = true →
        child ∈ parseManifest ((n.registry.dir.read n.manifestName).getD [])) :
    (n.prunedDir cfg w now).lookup f = n.registry.dir.lookup f := by
  unfold Node.prunedDir
  split
  next => rfl
  next =>
    refine Dir.lookup_withEntries _ fun child hchild => ?_
    rw [HashMap.lookup_retain]
    cases n.registry.dir.entries.lookup child with
    | none => rfl
    | some e =>
      have hnot : ¬ Node.prunable (parseManifest ((n.registry.dir.read n.manifestName).getD []))
          (secs cfg.retentionSecs) w.wall child e = true := fun hprune => by
        obtain ⟨hkind, hunlisted, -⟩ := Node.prunable_iff.mp hprune
        exact hunlisted (hkept child hchild hkind)
      simp [hnot]

/-- Neither manifest is ever pruned. -/
theorem lookup_prunedDir_manifest {f : String} (hplain : plainName f = true)
    (hkind : Node.prunedKind f = false) :
    (n.prunedDir cfg w now).lookup f = n.registry.dir.lookup f := by
  refine lookup_prunedDir fun child hchild hpruned => ?_
  rw [(mem_visited_plainName hplain _).mp hchild, hkind] at hpruned
  cases hpruned

theorem lookup_live_pruned :
    (n.prunedDir cfg w now).lookup LIVE_MANIFEST = n.registry.dir.lookup LIVE_MANIFEST :=
  lookup_prunedDir_manifest plain_live (by decide)

theorem lookup_playback_pruned :
    (n.prunedDir cfg w now).lookup PLAYBACK_MANIFEST = n.registry.dir.lookup PLAYBACK_MANIFEST :=
  lookup_prunedDir_manifest plain_playback (by decide)

theorem root_prunedDir : (n.prunedDir cfg w now).root = n.registry.dir.root := by
  unfold Node.prunedDir
  split <;> rfl

theorem prunedDir_idle (h : cfg.retentionSecs = 0) : n.prunedDir cfg w now = n.registry.dir :=
  if_pos (.inl h)

/-- Pruning does not change what is due when it reads the names the playlist reads. -/
theorem playlistDue_prunedDir (hname : n.manifestName = LIVE_MANIFEST)
    (hread : cfg.retentionSecs = 0 ∨ ∀ data, n.registry.dir.read LIVE_MANIFEST = some data →
      (fromUtf8 data).isSome ∧ ListsVisited n.registry.dir.root data) :
    playlistDue (n.prunedDir cfg w now) holdback = playlistDue n.registry.dir holdback := by
  rcases hread with hidle | hread
  · rw [prunedDir_idle hidle]
  refine playlistDue_congr lookup_live_pruned fun data hdata s hs => ?_
  obtain ⟨hutf, hlists⟩ := hread data hdata
  have hkept : ∀ child ∈ visited n.registry.dir.root (String.ofList s),
      Node.prunedKind child = true →
        child ∈ parseManifest ((n.registry.dir.read n.manifestName).getD []) := by
    intro child hchild hkind
    rw [hname, hdata, Option.getD_some, ← String.ofList_toList (s := child)]
    exact mem_parseManifest_of_segment hutf (hlists s hs child hchild hkind)
  simp only [Dir.isFile, lookup_prunedDir hkept]

theorem mirrored_prunedDir (hname : n.manifestName = LIVE_MANIFEST)
    (hread : cfg.retentionSecs = 0 ∨ ∀ data, n.registry.dir.read LIVE_MANIFEST = some data →
      (fromUtf8 data).isSome ∧ ListsVisited n.registry.dir.root data) :
    Mirrored (n.prunedDir cfg w now) holdback ↔ Mirrored n.registry.dir holdback := by
  simp only [Mirrored, playlistDue_prunedDir hname hread, Dir.read, Dir.exists', lookup_playback_pruned]

end Qstream

import Qstream.Http
import Qstream.PlaylistSequence
import Qstream.SegmentInventory

/-! The sequence numbers that are counted up from a manifest's own: in the playlist a player
gets, and in the log of what a player requests. -/
namespace Qstream
open Text

/-- The value of the first line with a tag. -/
def findTag (tag : List Char) (text : List (List Char)) : Option (List Char) :=
  text.findSome? (stripPrefix tag)

/-- The media sequence that requests are logged against. -/
def loggedSequence (manifest : Bytes) : Option ℕ :=
  (findTag MEDIA_SEQUENCE_TAG (lines (fromUtf8Lossy manifest))).bind fun value =>
    parseU64 (trim value)

/-- The sequence number of a requested segment of the manifest, before it is reduced. -/
def requestedSum (manifest : Bytes) (requested : String) : Option ℕ :=
  ((parseManifest manifest).idxOf? requested).bind fun position =>
    (loggedSequence manifest).map fun base => base + position

/-- The sequence number of the last segment of the manifest, before it is reduced. -/
def latestSum (manifest : Bytes) : Option ℕ :=
  if (parseManifest manifest).length = 0 then none
  else (loggedSequence manifest).map fun base => base + ((parseManifest manifest).length - 1)

/-- What is logged of a request, with sums that wrap. -/
def logPlaybackRequest (root : Dir) (requested : String) : String :=
  let manifest := (root.read "live.m3u8").getD []
  let latest := (parseManifest manifest).getLast?.getD "unknown"
  let targetDuration := ((findTag "#EXT-X-TARGETDURATION:".toList
    (lines (fromUtf8Lossy manifest))).bind fun value => parseU64 (trim value)).getD 0
  let requestedSequence :=
    ((requestedSum manifest requested).map (· % 2 ^ 64)).or (segmentNumber requested)
  let latestSequence := ((latestSum manifest).map (· % 2 ^ 64)).or (segmentNumber latest)
  "http: playback piece requested " ++ requested ++ "; master tip " ++ latest ++ "; approx delay " ++
  match requestedSequence, latestSequence with
  | some requestedSeq, some latestSeq =>
    let behind := latestSeq - requestedSeq
    let delaySeconds := min (behind * targetDuration) (2 ^ 64 - 1)
    toString delaySeconds ++ "s (" ++ toString behind ++ " segments)"
  | _, _ => "unknown"

namespace Playlist

/-- The counter of `playback_playlist` before its first line and after each. -/
def runningSequence (root : Dir) (data : Bytes) : List ℕ :=
  (textLines data).inits.map fun pre =>
    (pre.foldl (PlaylistScan.line root) (.start (mediaSequence (textLines data)))).seq

/-- The sums of a request. -/
def requestSums (data : Bytes) (requested : String) : List ℕ :=
  (requestedSum data requested).toList ++ (latestSum data).toList

theorem scan_line_seq (root : Dir) (s : PlaylistScan) (line : List Char) :
    (PlaylistScan.line root s line).seq = s.seq + (segmentName line).toList.length := by
  unfold PlaylistScan.line segmentName
  split
  · split
    · rfl
    · dsimp only
      split <;> rfl
  · dsimp only
    split
    · rfl
    · split <;> rfl

/-- The counter grows by one for each segment, present or not. -/
theorem scan_seq (root : Dir) (s : PlaylistScan) (text : List (List Char)) :
    (text.foldl (PlaylistScan.line root) s).seq = s.seq + (text.filterMap segmentName).length := by
  induction text generalizing s with
  | nil => rfl
  | cons line text ih =>
    rw [List.foldl_cons, ih, scan_line_seq, Nat.add_assoc]
    cases hname : segmentName line with
    | none => rw [List.filterMap_cons_none hname, Option.toList_none, List.length_nil, Nat.zero_add]
    | some name =>
      rw [List.filterMap_cons_some hname, Option.toList_some, List.length_singleton,
        List.length_cons, Nat.add_comm 1]

theorem runningSequence_lt_iff {root : Dir} {data : Bytes} {bound : ℕ} :
    (∀ s ∈ runningSequence root data, s < bound) ↔
      mediaSequence (textLines data) + (segments data).length < bound := by
  simp only [runningSequence, List.forall_mem_map, List.mem_inits, scan_seq, PlaylistScan.start]
  refine ⟨fun h => h _ List.prefix_rfl, fun h pre hpre => lt_of_le_of_lt ?_ h⟩
  exact Nat.add_le_add_left (hpre.filterMap segmentName).length_le _

theorem loggedSequence_lt {data : Bytes} {base : ℕ} (h : loggedSequence data = some base) :
    base < 2 ^ 64 := by
  obtain ⟨value, -, hvalue⟩ := Option.bind_eq_some_iff.mp h
  exact parseU64_lt hvalue

/-- The sum for the last segment is the largest. -/
theorem requestSums_lt_iff {data : Bytes} {requested : String} :
    (∀ s ∈ requestSums data requested, s < 2 ^ 64) ↔
      ∀ base ∈ loggedSequence data, base + (parseManifest data).length ≤ 2 ^ 64 := by
  cases hbase : loggedSequence data with
  | none => simp [requestSums, requestedSum, latestSum, hbase]
  | some base =>
    have hfits := loggedSequence_lt hbase
    have hposition : ∀ s ∈ requestedSum data requested, s < base + (parseManifest data).length := by
      intro s hs
      obtain ⟨position, hposition, hs⟩ := Option.bind_eq_some_iff.mp hs
      rw [hbase, Option.map_some] at hs
      obtain rfl : base + position = s := Option.some.inj hs
      exact Nat.add_lt_add_left ((List.idxOf?_eq_some_iff.mp hposition).1) base
    simp only [Option.mem_some_iff, forall_eq', requestSums, List.mem_append, Option.mem_toList]
    constructor
    · intro hsums
      by_cases hempty : (parseManifest data).length = 0
      · omega
      · have hlast := hsums (base + ((parseManifest data).length - 1))
          (.inr (by simp [latestSum, hempty, hbase]))
        omega
    · rintro hbound s (hs | hs)
      · exact (hposition s hs).trans_le hbound
      · unfold latestSum at hs
        split at hs
        next => cases hs
        next hne =>
          rw [hbase, Option.map_some] at hs
          obtain rfl : base + ((parseManifest data).length - 1) = s := Option.some.inj hs
          omega

/-- No number is counted beyond a `u64`, in the playlist or in the log, just when the manifest's
own numbers leave room for its segments. -/
theorem no_overflow_iff (root : Dir) (data : Bytes) (requested : String) :
    ((∀ s ∈ runningSequence root data, s < 2 ^ 64) ∧
        ∀ s ∈ requestSums data requested, s < 2 ^ 64) ↔
      mediaSequence (textLines data) + (segments data).length < 2 ^ 64 ∧
        ∀ base ∈ loggedSequence data, base + (parseManifest data).length ≤ 2 ^ 64 :=
  and_congr runningSequence_lt_iff requestSums_lt_iff

/-- Two segments, counted from the last number. -/
def lastNumbers : Bytes :=
  "#EXTM3U\n#EXT-X-MEDIA-SEQUENCE:18446744073709551615\na.ts\nb.ts\n".toUTF8.toList

/-- The second segment is number `2 ^ 64`: the playlist that lists only it starts again at zero. -/
theorem sequence_overflows :
    2 ^ 64 ∈ runningSequence (withFiles ["b.ts"]) lastNumbers ∧
      2 ^ 64 ∈ requestSums lastNumbers "b.ts" ∧
      (playbackPlaylist (withFiles ["b.ts"]) lastNumbers 0).map
        (fun out => mediaSequence (textLines out)) = some 0 := by
  refine ⟨by decide +kernel, by decide +kernel, by decide +kernel⟩

end Playlist
end Qstream

import Qstream.PlaylistReading

/-! The two readers of a manifest: the one that queues, counts and protects segments, and the
one that derives the playlist. -/
namespace Qstream.Playlist
open Text

theorem trim_ne_nil_of_tag {line : List Char} (h : startsWith ['#'] line = true) :
    trim line ≠ [] := by
  obtain ⟨rest, rfl⟩ := startsWith_iff.mp h
  have hhead : ('#' :: rest).dropWhile isWhitespace = '#' :: rest :=
    List.dropWhile_cons_of_neg (by decide)
  intro hnil
  have hall := List.rdropWhile_eq_nil_iff.mp (hhead ▸ (trim_eq_rdropWhile ('#' :: rest)).symm.trans hnil)
  exact absurd (hall '#' List.mem_cons_self) (by decide)

/-- The lines that `parse_manifest` takes for segments. -/
def isListed (line : List Char) : Bool := line ≠ [] ∧ ¬ startsWith ['#'] line

/-- Without blank lines that are not empty it takes the same lines. -/
theorem map_trim_filter {text : List (List Char)} (h : ∀ line ∈ text, trim line = [] → line = []) :
    (text.filter isListed).map trim = text.filterMap segmentName := by
  induction text with
  | nil => rfl
  | cons line text ih =>
    have hrest := ih fun l hl => h l (List.mem_cons_of_mem _ hl)
    by_cases htag : startsWith ['#'] line = true
    · have hname : segmentName line = none := if_pos htag
      rw [List.filter_cons_of_neg (by simp [isListed, htag]), List.filterMap_cons_none hname, hrest]
    by_cases hblank : trim line = []
    · have hname : segmentName line = none := by rw [segmentName, if_neg htag, if_pos hblank]
      have hempty := h line List.mem_cons_self hblank
      rw [List.filter_cons_of_neg (by simp [isListed, hempty]), List.filterMap_cons_none hname, hrest]
    · have hname : segmentName line = some (trim line) := by
        rw [segmentName, if_neg htag, if_neg hblank]
      have hne : line ≠ [] := by
        rintro rfl
        exact hblank (by decide)
      rw [List.filter_cons_of_pos (by simp [isListed, hne, htag]), List.filterMap_cons_some hname,
        List.map_cons, hrest]

theorem parseManifest_of_utf8 {data : Bytes} {s : List Char} (h : fromUtf8 data = some s) :
    parseManifest data = ((lines s).filter isListed).map fun line => String.ofList (trim line) := by
  simp only [parseManifest, h]
  rfl

theorem segments_of_utf8 {data : Bytes} {s : List Char} (h : fromUtf8 data = some s) :
    segments data = (lines s).filterMap segmentName := by
  rw [segments, textLines, fromUtf8_eq_some.mp h, fromUtf8Lossy_encodeUtf8]

/-- Of UTF-8 the reader that takes more lines takes every segment. -/
theorem mem_parseManifest_of_segment {data : Bytes} {s : List Char}
    (hutf : (fromUtf8 data).isSome) (hs : s ∈ segments data) :
    String.ofList s ∈ parseManifest data := by
  obtain ⟨text, htext⟩ := Option.isSome_iff_exists.mp hutf
  rw [segments_of_utf8 htext] at hs
  obtain ⟨line, hline, hname⟩ := List.mem_filterMap.mp hs
  obtain ⟨htag, hblank, rfl⟩ := segmentName_eq_some.mp hname
  have hne : line ≠ [] := by
    rintro rfl
    exact hblank (by decide)
  rw [parseManifest_of_utf8 htext]
  exact List.mem_map.mpr ⟨line, List.mem_filter.mpr ⟨hline, by simp [isListed, hne, htag]⟩, rfl⟩

/-- The readers see the same segments exactly when the manifest is UTF-8 in which a line without
any visible character is empty, or is no UTF-8 and names no segment. -/
theorem readers_agree_iff (data : Bytes) :
    parseManifest data = (segments data).map String.ofList ↔
      (∀ s, fromUtf8 data = some s → ∀ line ∈ lines s, trim line = [] → line = []) ∧
        (fromUtf8 data = none → segments data = []) := by
  cases hutf8 : fromUtf8 data with
  | none =>
    have hparse : parseManifest data = [] := by simp only [parseManifest, hutf8]
    rw [hparse]
    constructor
    · intro heq
      exact ⟨fun s hs => (Option.some_ne_none s hs.symm).elim,
        fun _ => List.map_eq_nil_iff.mp heq.symm⟩
    · rintro ⟨-, hnil⟩
      rw [hnil rfl, List.map_nil]
  | some s =>
    rw [parseManifest_of_utf8 hutf8, segments_of_utf8 hutf8]
    constructor
    · intro heq
      refine ⟨?_, fun hnone => (Option.some_ne_none s hnone).elim⟩
      intro s' hs line hline hblank
      obtain rfl := Option.some.inj hs
      by_contra hne
      -- the blank line gives an empty name, which the playlist never takes
      have htag : ¬ startsWith ['#'] line = true := fun htag => trim_ne_nil_of_tag htag hblank
      have hmem : String.ofList [] ∈ ((lines s).filter isListed).map
          fun line => String.ofList (trim line) := by
        refine List.mem_map.mpr ⟨line, List.mem_filter.mpr ⟨hline, ?_⟩, by rw [hblank]⟩
        simp [isListed, hne, htag]
      rw [heq] at hmem
      obtain ⟨n, hn, hempty⟩ := List.mem_map.mp hmem
      obtain ⟨l, -, hname⟩ := List.mem_filterMap.mp hn
      obtain ⟨-, hn0, rfl⟩ := segmentName_eq_some.mp hname
      exact hn0 (String.ofList_injective hempty)
    · rintro ⟨hblank, -⟩
      rw [← map_trim_filter (hblank s rfl), List.map_map]
      rfl

/-- A line with a blank in it, and a manifest with a byte that is no UTF-8. -/
def demoBlank : Bytes := "#EXTM3U\n#EXTINF:2,\na.ts\n \n#EXTINF:2,\nb.ts\n".toUTF8.toList
def demoLatin : Bytes := "#EXTM3U\n#EXTINF:2,Caf".toUTF8.toList ++ [0xE9] ++ "\na.ts\n".toUTF8.toList

/-- The blank line is a segment to one reader only, and so is the segment after the byte. -/
theorem blank_line_is_a_segment :
    parseManifest demoBlank = ["a.ts", "", "b.ts"] ∧
    segments demoBlank = ["a.ts".toList, "b.ts".toList] ∧
    parseManifest demoBlank ≠ (segments demoBlank).map String.ofList ∧
    parseManifest demoLatin = [] ∧ segments demoLatin = ["a.ts".toList] := by
  decide +kernel

end Qstream.Playlist

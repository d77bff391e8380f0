import Qstream.PlaylistItems

/-! What a player reads in a playlist, and what it reads in the one `playback_playlist` writes. -/
namespace Qstream.Playlist
open Text

/-- A tag line other than the media sequence. -/
def IsTag (line : List Char) : Prop :=
  startsWith ['#'] line = true ∧ startsWith MEDIA_SEQUENCE_TAG line = false ∧ '\n' ∉ line

def IsName (name : List Char) : Prop := trim name = name ∧ name ≠ [] ∧ '\n' ∉ name

theorem isName_trim {line : List Char} (h : '\n' ∉ line) (hne : trim line ≠ []) :
    IsName (trim line) := ⟨trim_trim line, hne, fun hm => h (mem_of_mem_trim hm)⟩

/-! What is written of it. -/

def sequenceTag (seq : ℕ) : List Char := MEDIA_SEQUENCE_TAG ++ (toString (seq % 2 ^ 64)).toList

/-- The lines of a playlist with its media sequence put in. -/
def insertLine (tag : List Char) : List (List Char) → List (List Char)
  | [] => [tag]
  | line :: rest =>
    if startsWith "#EXTM3U".toList line ∨ startsWith "#EXT-X-VERSION:".toList line then
      line :: tag :: rest
    else line :: insertLine tag rest

def bodyLines (header : List (List Char)) (kept : List KeptSegment) : List (List Char) :=
  header ++ kept.flatMap fun k => k.tags ++ [k.name]

/-- The playlist of what a scan has collected. -/
def Collected.playlist (c : Collected) (root : Dir) (holdbackSegments : ℕ) : Option Bytes :=
  let kept := c.segments.filter (isKept root)
  let keepCount := kept.length - holdbackSegments
  match kept with
  | [] => none
  | first :: _ =>
    if c.sawM3u = false ∨ keepCount = 0 then none
    else some (asBytes (joinLines (insertLine (sequenceTag first.seq)
      (lines (joinLines (bodyLines c.header (kept.take keepCount)))))))

theorem insertSequence_eq (tag : List Char) (ls : List (List Char)) :
    insertSequence (tag ++ ['\n']) ls = joinLines (insertLine tag ls) := by
  induction ls with
  | nil => simp [insertSequence, insertLine, joinLines]
  | cons line ls ih =>
    simp only [insertSequence, insertLine]
    split
    · simp [joinLines]
    · simp [ih, joinLines]

theorem joinLines_bodyLines (header : List (List Char)) (kept : List KeptSegment) :
    joinLines (bodyLines header kept) = (header.flatMap fun tag => tag ++ ['\n']) ++
      kept.flatMap fun k => (k.tags.flatMap fun tag => tag ++ ['\n']) ++ k.name ++ ['\n'] := by
  rw [bodyLines, joinLines_append]
  congr 1
  induction kept with
  | nil => rfl
  | cons k kept ih =>
    rw [List.flatMap_cons, List.flatMap_cons, joinLines_append, ih, joinLines_append]
    simp [joinLines]

theorem playbackPlaylist_eq (root : Dir) (data : Bytes) (holdback : ℕ) :
    playbackPlaylist root data holdback =
      (collected (textLines data)).playlist root holdback := by
  obtain ⟨p, b, n, heq⟩ := collects_collected (textLines data) root []
  rw [List.nil_append] at heq
  have hfold : (lines (fromUtf8Lossy data)).foldl (PlaylistScan.line root)
      (.start (mediaSequence (lines (fromUtf8Lossy data)))) =
      ⟨n, (collected (textLines data)).header, p,
        (collected (textLines data)).segments.filter (isKept root),
        (collected (textLines data)).sawM3u, b⟩ := heq
  simp only [playbackPlaylist, hfold, Collected.playlist]
  cases (collected (textLines data)).segments.filter (isKept root) with
  | nil => rfl
  | cons first rest =>
    simp only [joinLines_bodyLines, insertSequence_eq, sequenceTag]

theorem isTag_of_mem_items {text : List (List Char)} (hlines : ∀ line ∈ text, '\n' ∉ line)
    {l : List Char} (h : .tag l ∈ items text) : IsTag l := by
  obtain ⟨hl, htag, hms⟩ := tag_mem_items.mp h
  exact ⟨htag, hms, hlines l hl⟩

theorem isName_of_mem_items {text : List (List Char)} (hlines : ∀ line ∈ text, '\n' ∉ line)
    {n : List Char} (h : .segment n ∈ items text) : IsName n := by
  obtain ⟨line, hline, hname⟩ := segment_mem_items.mp h
  obtain ⟨-, hne, rfl⟩ := segmentName_eq_some.mp hname
  exact isName_trim (hlines line hline) hne

/-- The scan of a manifest determines its playlists, whatever is present and held back. -/
theorem exists_playlist (data : Bytes) :
    ∃ c : Collected,
      (∀ root holdback, playbackPlaylist root data holdback = c.playlist root holdback) ∧
      c.segments.map entry = numbered data ∧
      (∀ line ∈ c.header, IsTag line) ∧
      ∀ k ∈ c.segments, IsName k.name ∧ ∀ line ∈ k.tags, IsTag line := by
  have hlines : ∀ line ∈ textLines data, '\n' ∉ line := fun _ hl => newline_notMem_lines hl
  refine ⟨collected (textLines data), fun root holdback => playbackPlaylist_eq root data holdback,
    collected_numbered data, fun line hl => isTag_of_mem_items hlines (tag_mem_of_header hl),
    fun k hk => ?_⟩
  obtain ⟨hname, htags⟩ := mem_collected_segments hk
  exact ⟨isName_of_mem_items hlines hname, fun line hl => isTag_of_mem_items hlines (htags line hl)⟩

/-! What is read of it. -/

theorem segmentName_of_tag {line : List Char} (h : startsWith ['#'] line = true) :
    segmentName line = none := if_pos h

theorem segmentName_of_name {name : List Char} (h : IsName name) :
    segmentName name = if startsWith ['#'] name then none else some name := by
  rw [segmentName, h.1, if_neg h.2.1]

theorem IsTag.segmentName_chomp {line : List Char} (h : IsTag line) :
    segmentName (chomp (chomp line)) = none :=
  segmentName_of_tag
    (startsWith_chomp_of_ne (by decide) (startsWith_chomp_of_ne (by decide) h.1))

theorem IsName.chomp_eq {name : List Char} (h : IsName name) : chomp name = name := by
  rw [← h.1]
  exact chomp_trim name

theorem sequenceTag_clean (seq : ℕ) : '\r' ∉ sequenceTag seq ∧ '\n' ∉ sequenceTag seq := by
  have hdigit {c : Char} (hc : isAsciiDigit c = false) (hms : c ∉ MEDIA_SEQUENCE_TAG) :
      c ∉ sequenceTag seq := by
    rw [sequenceTag, List.mem_append, not_or]
    refine ⟨hms, fun hm => ?_⟩
    rw [isAsciiDigit_of_mem_toString hm] at hc
    cases hc
  exact ⟨hdigit (by decide) (by decide), hdigit (by decide) (by decide)⟩

theorem exists_insertLine (tag : List Char) (ls : List (List Char)) :
    ∃ as bs, ls = as ++ bs ∧ insertLine tag ls = as ++ tag :: bs := by
  induction ls with
  | nil => exact ⟨[], [], rfl, rfl⟩
  | cons line ls ih =>
    rw [insertLine]
    split
    · exact ⟨[line], ls, rfl, rfl⟩
    · obtain ⟨as, bs, rfl, heq⟩ := ih
      exact ⟨line :: as, bs, rfl, by rw [heq]; rfl⟩

/-- The lines of a body, which are all a reader splits it into. -/
theorem newline_notMem_bodyLines {header : List (List Char)} {kept : List KeptSegment}
    (hheader : ∀ line ∈ header, IsTag line)
    (hkept : ∀ k ∈ kept, IsName k.name ∧ ∀ line ∈ k.tags, IsTag line) :
    ∀ line ∈ bodyLines header kept, '\n' ∉ line := by
  intro line hl
  rcases List.mem_append.mp hl with hl | hl
  · exact (hheader line hl).2.2
  obtain ⟨k, hk, hl⟩ := List.mem_flatMap.mp hl
  rcases List.mem_append.mp hl with hl | hl
  · exact ((hkept k hk).2 line hl).2.2
  · rw [List.mem_singleton.mp hl]
    exact (hkept k hk).1.2.2

/-- The segments of a body are the names in it that do not read as tags. -/
theorem filterMap_bodyLines {header : List (List Char)} {kept : List KeptSegment}
    (hheader : ∀ line ∈ header, IsTag line)
    (hkept : ∀ k ∈ kept, IsName k.name ∧ ∀ line ∈ k.tags, IsTag line) :
    (bodyLines header kept).filterMap (fun line => segmentName (chomp (chomp line))) =
      (kept.map KeptSegment.name).filter fun name => ¬ startsWith ['#'] name := by
  have htags {ls : List (List Char)} (h : ∀ line ∈ ls, IsTag line) :
      ls.filterMap (fun line => segmentName (chomp (chomp line))) = [] :=
    List.filterMap_eq_nil_iff.mpr fun line hl => (h line hl).segmentName_chomp
  rw [bodyLines, List.filterMap_append, htags hheader, List.nil_append]
  induction kept with
  | nil => rfl
  | cons k kept ih =>
    obtain ⟨hname, hk⟩ := hkept k List.mem_cons_self
    rw [List.flatMap_cons, List.filterMap_append, List.filterMap_append, htags hk, List.nil_append,
      ih fun k' hk' => hkept k' (List.mem_cons_of_mem _ hk'), List.map_cons]
    have hread : segmentName (chomp (chomp k.name)) =
        if startsWith ['#'] k.name then none else some k.name := by
      rw [hname.chomp_eq, hname.chomp_eq, segmentName_of_name hname]
    by_cases hhash : startsWith ['#'] k.name = true
    · simp [hread, hhash]
    · simp [hread, hhash]

/-- A reader of the written bytes sees the lines of the body with the media sequence among them. -/
theorem textLines_written {header : List (List Char)} {kept : List KeptSegment} (seq : ℕ)
    (hheader : ∀ line ∈ header, IsTag line)
    (hkept : ∀ k ∈ kept, IsName k.name ∧ ∀ line ∈ k.tags, IsTag line) :
    textLines (asBytes (joinLines (insertLine (sequenceTag seq)
      (lines (joinLines (bodyLines header kept)))))) =
    (insertLine (sequenceTag seq) ((bodyLines header kept).map chomp)).map chomp := by
  have hbody := newline_notMem_bodyLines hheader hkept
  rw [textLines, asBytes_eq, fromUtf8Lossy_encodeUtf8, lines_joinLines hbody]
  refine lines_joinLines fun line hl => ?_
  obtain ⟨as, bs, heq, hins⟩ := exists_insertLine (sequenceTag seq) ((bodyLines header kept).map chomp)
  have hrest : ∀ l ∈ as ++ bs, '\n' ∉ l := by
    intro l hl
    rw [← heq] at hl
    obtain ⟨l', hl', rfl⟩ := List.mem_map.mp hl
    exact fun hm => hbody l' hl' ((chomp_isPrefix l').mem hm)
  rw [hins, List.mem_append, List.mem_cons] at hl
  rcases hl with hl | rfl | hl
  · exact hrest line (List.mem_append_left _ hl)
  · exact (sequenceTag_clean seq).2
  · exact hrest line (List.mem_append_right _ hl)

/-- The segments a reader finds in the written bytes. -/
theorem segments_written {header : List (List Char)} {kept : List KeptSegment} (seq : ℕ)
    (hheader : ∀ line ∈ header, IsTag line)
    (hkept : ∀ k ∈ kept, IsName k.name ∧ ∀ line ∈ k.tags, IsTag line) :
    segments (asBytes (joinLines (insertLine (sequenceTag seq)
      (lines (joinLines (bodyLines header kept)))))) =
    (kept.map KeptSegment.name).filter fun name => ¬ startsWith ['#'] name := by
  rw [← filterMap_bodyLines hheader hkept, segments, textLines_written seq hheader hkept,
    List.filterMap_map]
  obtain ⟨as, bs, heq, hins⟩ := exists_insertLine (sequenceTag seq) ((bodyLines header kept).map chomp)
  have htag : segmentName (chomp (sequenceTag seq)) = none :=
    segmentName_of_tag (startsWith_chomp_of_ne (by decide) (startsWith_iff.mpr ⟨_, rfl⟩))
  have hdrop : (insertLine (sequenceTag seq) ((bodyLines header kept).map chomp)).filterMap
        (segmentName ∘ chomp) =
      ((bodyLines header kept).map chomp).filterMap (segmentName ∘ chomp) := by
    rw [hins, heq, List.filterMap_append, List.filterMap_append,
      List.filterMap_cons_none (f := segmentName ∘ chomp) htag]
  rw [hdrop, List.filterMap_map]
  rfl

end Qstream.Playlist

import Qstream.Playlist
import Qstream.TextLines
import Qstream.TextUtf8

/-! A playlist as a list of tags and segments: which tags go with which segment, and what a
scan collects of it. -/
namespace Qstream.Playlist
open Text

def textLines (data : Bytes) : List (List Char) := lines (fromUtf8Lossy data)

/-- The segment a line names: any line that is neither blank nor begins with `#`. -/
def segmentName (line : List Char) : Option (List Char) :=
  if startsWith ['#'] line then none
  else if trim line = [] then none
  else some (trim line)

def segments (data : Bytes) : List (List Char) := (textLines data).filterMap segmentName

/-- The segments with their media sequence numbers. -/
def numbered (data : Bytes) : List (List Char × ℕ) :=
  (segments data).zipIdx (mediaSequence (textLines data))

def isPresent (root : Dir) (s : List Char × ℕ) : Bool := root.isFile (String.ofList s.1)

/-- The segments of the manifest that are present, with their numbers in the manifest. -/
def present (root : Dir) (data : Bytes) : List (List Char × ℕ) :=
  (numbered data).filter (isPresent root)

/-- Those of them that are listed: all but the newest. -/
def listed (root : Dir) (data : Bytes) (holdbackSegments : ℕ) : List (List Char × ℕ) :=
  (present root data).take ((present root data).length - holdbackSegments)

/-- A kept segment without its tags. -/
def entry (k : KeptSegment) : List Char × ℕ := (k.name, k.seq)

def isKept (root : Dir) (k : KeptSegment) : Bool := isPresent root (entry k)

/-- What a scan from a state with the given tags collects, whichever files are present. -/
structure Collected where
  header : List (List Char)
  sawM3u : Bool
  segments : List KeptSegment

/-- From `s` on, whichever files are present, the scan of the lines ends with what `c` collects. -/
def Collects (text : List (List Char)) (s : PlaylistScan) (c : Collected) : Prop :=
  ∀ root kept, ∃ pending sawSegmentTag seq,
    text.foldl (PlaylistScan.line root) { s with kept := kept } =
      ⟨seq, c.header, pending, kept ++ c.segments.filter (isKept root), c.sawM3u, sawSegmentTag⟩

namespace Collects
variable {line : List Char} {text : List (List Char)} {s s' : PlaylistScan} {c : Collected}

/-- A line that keeps no segment. -/
theorem cons (hline : ∀ root kept,
    PlaylistScan.line root { s with kept := kept } line = { s' with kept := kept })
    (h : Collects text s' c) : Collects (line :: text) s c := by
  intro root kept
  rw [List.foldl_cons, hline]
  exact h root kept

/-- A line that names a segment, which is kept if it is present. -/
theorem segment (htag : ¬ startsWith ['#'] line = true) (hblank : trim line ≠ [])
    (h : Collects text { s with pending := [], seq := s.seq + 1 } c) :
    Collects (line :: text) s
      { c with segments := ⟨s.seq, s.pending, trim line⟩ :: c.segments } := by
  intro root kept
  dsimp only
  by_cases hfile : root.isFile (String.ofList (trim line)) = true
  · have hkept : isKept root ⟨s.seq, s.pending, trim line⟩ = true := hfile
    obtain ⟨p, b, n, heq⟩ := h root (kept ++ [⟨s.seq, s.pending, trim line⟩])
    refine ⟨p, b, n, ?_⟩
    rw [List.foldl_cons, List.filter_cons_of_pos hkept, List.append_cons, ← heq]
    simp only [PlaylistScan.line, htag, hblank, hfile, if_true, if_false, Bool.false_eq_true]
  · have hkept : ¬ isKept root ⟨s.seq, s.pending, trim line⟩ = true := hfile
    obtain ⟨p, b, n, heq⟩ := h root kept
    refine ⟨p, b, n, ?_⟩
    rw [List.foldl_cons, List.filter_cons_of_neg hkept, ← heq]
    simp only [PlaylistScan.line, htag, hblank, hfile, if_false, Bool.false_eq_true]

end Collects

/-- A line of a playlist that counts: a tag other than the media sequence, or a segment. -/
inductive Item
  | tag (line : List Char)
  | segment (name : List Char)
  deriving DecidableEq, Repr

namespace Item

def ofLine (line : List Char) : Option Item :=
  if startsWith ['#'] line then
    if startsWith MEDIA_SEQUENCE_TAG line then none else some (.tag line)
  else if trim line = [] then none
  else some (.segment (trim line))

/-- The line that is written for it. -/
def line : Item → List Char
  | .tag line => line
  | .segment name => name

def isTag : Item → Bool
  | .tag _ => true
  | .segment _ => false

/-- The tag that opens the part of the playlist where tags go with segments. -/
def opensSegments : Item → Bool
  | .tag line => startsWith "#EXTINF:".toList line
  | .segment _ => false

end Item

def items (text : List (List Char)) : List Item := text.filterMap Item.ofLine

/-- What comes before the first `#EXTINF`. -/
def front (es : List Item) : List Item := es.takeWhile fun e => ¬ e.opensSegments

/-- The tags before the first `#EXTINF`. -/
def headerTags (es : List Item) : List (List Char) := ((front es).filter Item.isTag).map Item.line

/-- All but the header. -/
def bodyItems (es : List Item) : List Item :=
  ((front es).filter fun e => ¬ e.isTag) ++ es.dropWhile fun e => ¬ e.opensSegments

/-- Every segment with its number and the tags since the segment before it; `tags` are those
that wait for the first one. -/
def blocks (tags : List (List Char)) (seq : ℕ) : List Item → List KeptSegment
  | [] => []
  | .tag line :: es => blocks (tags ++ [line]) seq es
  | .segment name :: es => ⟨seq, tags, name⟩ :: blocks [] (seq + 1) es

/-- The tags after the last segment. -/
def trailing (tags : List (List Char)) : List Item → List (List Char)
  | [] => tags
  | .tag line :: es => trailing (tags ++ [line]) es
  | .segment _ :: es => trailing [] es

def blockItems (k : KeptSegment) : List Item := k.tags.map .tag ++ [.segment k.name]

/-- The blocks and the trailing tags are all there is, in order. -/
theorem blocks_append_trailing (tags : List (List Char)) (seq : ℕ) (es : List Item) :
    (blocks tags seq es).flatMap blockItems ++ (trailing tags es).map .tag = tags.map .tag ++ es := by
  induction es generalizing tags seq with
  | nil => simp [blocks, trailing]
  | cons e es ih =>
    cases e with
    | tag line => simp [blocks, trailing, ih]
    | segment name => simp [blocks, trailing, ih, blockItems]

theorem mem_blocks {tags : List (List Char)} {seq : ℕ} {es : List Item} {k : KeptSegment}
    (h : k ∈ blocks tags seq es) :
    .segment k.name ∈ es ∧ ∀ line ∈ k.tags, line ∈ tags ∨ .tag line ∈ es := by
  have hsub : blockItems k ⊆ tags.map .tag ++ es := by
    intro e he
    rw [← blocks_append_trailing tags seq es]
    exact List.mem_append_left _ (List.mem_flatMap.mpr ⟨k, h, he⟩)
  constructor
  · have hname := hsub (List.mem_append_right _ (List.mem_singleton_self (Item.segment k.name)))
    rcases List.mem_append.mp hname with hm | hm
    · obtain ⟨line, -, heq⟩ := List.mem_map.mp hm
      cases heq
    · exact hm
  · intro line hline
    have htag := hsub (List.mem_append_left _ (List.mem_map_of_mem hline))
    rcases List.mem_append.mp htag with hm | hm
    · obtain ⟨line', hm, heq⟩ := List.mem_map.mp hm
      cases heq
      exact .inl hm
    · exact .inr hm

/-- The blocks' names and numbers are the segments, numbered from `seq` on. -/
theorem map_entry_blocks (tags : List (List Char)) (seq : ℕ) (es : List Item) :
    (blocks tags seq es).map entry =
      ((es.filter fun e => ¬ e.isTag).map Item.line).zipIdx seq := by
  induction es generalizing tags seq with
  | nil => rfl
  | cons e es ih =>
    cases e with
    | tag line => simp [blocks, Item.isTag, ih]
    | segment name => simp [blocks, Item.isTag, Item.line, entry, ih, List.zipIdx_cons]

/-! The lines and their items. -/

theorem ofLine_eq_tag {line l : List Char} :
    Item.ofLine line = some (.tag l) ↔
      l = line ∧ startsWith ['#'] line = true ∧ startsWith MEDIA_SEQUENCE_TAG line = false := by
  unfold Item.ofLine
  by_cases htag : startsWith ['#'] line = true
  · by_cases hms : startsWith MEDIA_SEQUENCE_TAG line = true
    · simp [htag, hms]
    · simp [htag, hms, eq_comm]
  · by_cases hblank : trim line = [] <;> simp [htag, hblank]

theorem ofLine_eq_segment {line n : List Char} :
    Item.ofLine line = some (.segment n) ↔ segmentName line = some n := by
  unfold Item.ofLine segmentName
  by_cases htag : startsWith ['#'] line = true
  · by_cases hms : startsWith MEDIA_SEQUENCE_TAG line = true <;> simp [htag, hms]
  · by_cases hblank : trim line = [] <;> simp [htag, hblank]

theorem tag_mem_items {text : List (List Char)} {l : List Char} :
    .tag l ∈ items text ↔
      l ∈ text ∧ startsWith ['#'] l = true ∧ startsWith MEDIA_SEQUENCE_TAG l = false := by
  simp only [items, List.mem_filterMap, ofLine_eq_tag]
  constructor
  · rintro ⟨line, hline, rfl, htag⟩
    exact ⟨hline, htag⟩
  · rintro ⟨hl, htag⟩
    exact ⟨l, hl, rfl, htag⟩

theorem segment_mem_items {text : List (List Char)} {n : List Char} :
    .segment n ∈ items text ↔ ∃ line ∈ text, segmentName line = some n := by
  simp only [items, List.mem_filterMap, ofLine_eq_segment]

/-- The segments among the items are those of the text. -/
theorem items_segments (text : List (List Char)) :
    ((items text).filter fun e => ¬ e.isTag).map Item.line = text.filterMap segmentName := by
  induction text with
  | nil => rfl
  | cons line text ih =>
    rw [items, List.filterMap_cons, List.filterMap_cons]
    cases hitem : Item.ofLine line with
    | none =>
      have hnone : segmentName line = none := by
        cases hname : segmentName line with
        | none => rfl
        | some n => rw [ofLine_eq_segment.mpr hname] at hitem; cases hitem
      rw [hnone]
      exact ih
    | some e =>
      cases e with
      | tag l =>
        have hnone : segmentName line = none := if_pos (ofLine_eq_tag.mp hitem).2.1
        rw [hnone]
        exact ih
      | segment n =>
        rw [ofLine_eq_segment.mp hitem]
        exact congrArg (n :: ·) ih

/-! The header and the body, item by item. -/

section Items
variable {e : Item} (es : List Item)

theorem front_cons (h : e.opensSegments = false) : front (e :: es) = e :: front es :=
  List.takeWhile_cons_of_pos (by simp [h])

theorem front_opening (h : e.opensSegments = true) : front (e :: es) = [] :=
  List.takeWhile_cons_of_neg (by simp [h])

theorem headerTags_tag {l : List Char} (h : (Item.tag l).opensSegments = false) :
    headerTags (.tag l :: es) = l :: headerTags es := by
  rw [headerTags, front_cons es h]
  rfl

theorem headerTags_segment (n : List Char) : headerTags (.segment n :: es) = headerTags es := by
  rw [headerTags, front_cons es rfl]
  rfl

theorem headerTags_opening (h : e.opensSegments = true) : headerTags (e :: es) = [] := by
  rw [headerTags, front_opening es h]
  rfl

theorem bodyItems_tag {l : List Char} (h : (Item.tag l).opensSegments = false) :
    bodyItems (.tag l :: es) = bodyItems es := by
  rw [bodyItems, front_cons es h, List.dropWhile_cons_of_pos (by simp [h])]
  rfl

theorem bodyItems_segment (n : List Char) :
    bodyItems (.segment n :: es) = .segment n :: bodyItems es := by
  rw [bodyItems, front_cons es rfl, List.dropWhile_cons_of_pos (by rfl)]
  rfl

theorem bodyItems_opening (h : e.opensSegments = true) : bodyItems (e :: es) = e :: es := by
  rw [bodyItems, front_opening es h, List.dropWhile_cons_of_neg (by simp [h])]
  rfl

end Items

/-! What the scan collects. -/

def isM3u (line : List Char) : Bool := startsWith "#EXTM3U".toList line

/-- Two of the tags that the scan looks for are never the same line. -/
theorem startsWith_unique {p q line : List Char} (h : startsWith p line = true) (hpq : ¬ p <+: q)
    (hqp : ¬ q <+: p) : startsWith q line = false := by
  rw [Bool.eq_false_iff]
  intro hq
  rcases List.prefix_or_prefix_of_prefix (startsWith_iff.mp h) (startsWith_iff.mp hq) with hp | hp
  · exact hpq hp
  · exact hqp hp

theorem ofLine_of_m3u {line : List Char} (h : isM3u line = true) :
    Item.ofLine line = some (.tag line) := by
  refine ofLine_eq_tag.mpr ⟨rfl, ?_, startsWith_unique h (by decide) (by decide)⟩
  exact startsWith_iff.mpr (.trans (by decide) (startsWith_iff.mp h))

theorem line_of_none {line : List Char} (h : Item.ofLine line = none) (root : Dir)
    (s : PlaylistScan) : PlaylistScan.line root s line = s := by
  unfold Item.ofLine at h
  unfold PlaylistScan.line
  by_cases htag : startsWith ['#'] line = true
  · by_cases hms : startsWith MEDIA_SEQUENCE_TAG line = true
    · rw [if_pos htag, if_pos hms]
    · simp [htag, hms] at h
  · by_cases hblank : trim line = []
    · simp only [htag, hblank, if_true, if_false, Bool.false_eq_true]
    · simp [htag, hblank] at h

/-- A tag waits for the next segment once a segment tag was seen, and else goes to the header. -/
theorem line_of_tag {line l : List Char} (h : Item.ofLine line = some (.tag l)) (root : Dir)
    (s : PlaylistScan) :
    PlaylistScan.line root s line =
      if s.sawSegmentTag || (Item.tag l).opensSegments then
        { s with sawM3u := s.sawM3u || isM3u l, sawSegmentTag := true, pending := s.pending ++ [l] }
      else
        { s with sawM3u := s.sawM3u || isM3u l, sawSegmentTag := false, header := s.header ++ [l] } := by
  obtain ⟨rfl, htag, hms⟩ := ofLine_eq_tag.mp h
  by_cases hseg : (s.sawSegmentTag || (Item.tag l).opensSegments) = true
  · have hseg' : (s.sawSegmentTag || startsWith "#EXTINF:".toList l) = true := hseg
    simp only [PlaylistScan.line, htag, hms, hseg, hseg', isM3u, if_true, if_false, Bool.false_eq_true]
  · have hseg' : (s.sawSegmentTag || startsWith "#EXTINF:".toList l) = false :=
      Bool.eq_false_iff.mpr hseg
    simp only [PlaylistScan.line, htag, hms, hseg, hseg', isM3u, if_true, if_false, Bool.false_eq_true]

theorem isM3u_of_no_tag {line : List Char} (h : ∀ l, Item.ofLine line ≠ some (.tag l)) :
    isM3u line = false :=
  Bool.eq_false_iff.mpr fun hm => h line (ofLine_of_m3u hm)

theorem segmentName_eq_some {line n : List Char} :
    segmentName line = some n ↔ startsWith ['#'] line = false ∧ trim line ≠ [] ∧ trim line = n := by
  unfold segmentName
  by_cases htag : startsWith ['#'] line = true
  · simp [htag]
  · by_cases hblank : trim line = [] <;> simp [htag, hblank]

/-- What a scan collects from a state on. -/
def collectedFrom (s : PlaylistScan) (text : List (List Char)) : Collected where
  header := if s.sawSegmentTag then s.header else s.header ++ headerTags (items text)
  sawM3u := s.sawM3u || text.any isM3u
  segments := blocks s.pending s.seq
    (if s.sawSegmentTag then items text else bodyItems (items text))

section Step
variable {line : List Char} (text : List (List Char)) (s : PlaylistScan)

theorem collectedFrom_blank (h : Item.ofLine line = none) :
    collectedFrom s (line :: text) = collectedFrom s text := by
  have hm3u : isM3u line = false := isM3u_of_no_tag (by simp [h])
  simp only [collectedFrom, items, List.filterMap_cons_none h, List.any_cons, hm3u, Bool.false_or]

/-- From the first tag that opens the segments on, tags wait for the next segment. -/
theorem collectedFrom_pending (h : Item.ofLine line = some (.tag line))
    (hopen : (s.sawSegmentTag || (Item.tag line).opensSegments) = true) :
    collectedFrom s (line :: text) = collectedFrom { s with
      sawM3u := s.sawM3u || isM3u line, sawSegmentTag := true, pending := s.pending ++ [line] }
      text := by
  have hcons : items (line :: text) = .tag line :: items text := List.filterMap_cons_some h
  simp only [collectedFrom, hcons, List.any_cons, Bool.or_assoc, if_true]
  cases hs : s.sawSegmentTag with
  | true => rfl
  | false =>
    have hextinf : (Item.tag line).opensSegments = true := by simpa [hs] using hopen
    simp [headerTags_opening _ hextinf, bodyItems_opening _ hextinf, blocks]

theorem collectedFrom_header (h : Item.ofLine line = some (.tag line))
    (hopen : ¬ (s.sawSegmentTag || (Item.tag line).opensSegments) = true) :
    collectedFrom s (line :: text) = collectedFrom { s with
      sawM3u := s.sawM3u || isM3u line, sawSegmentTag := false, header := s.header ++ [line] }
      text := by
  have hcons : items (line :: text) = .tag line :: items text := List.filterMap_cons_some h
  obtain ⟨hs, hextinf⟩ := Bool.or_eq_false_iff.mp (Bool.eq_false_iff.mpr hopen)
  simp [collectedFrom, hcons, hs, Bool.or_assoc, headerTags_tag _ hextinf, bodyItems_tag _ hextinf]

theorem collectedFrom_segment {n : List Char} (h : Item.ofLine line = some (.segment n)) :
    collectedFrom s (line :: text) =
      { collectedFrom { s with pending := [], seq := s.seq + 1 } text with
        segments := ⟨s.seq, s.pending, n⟩ ::
          (collectedFrom { s with pending := [], seq := s.seq + 1 } text).segments } := by
  have hcons : items (line :: text) = .segment n :: items text := List.filterMap_cons_some h
  have hm3u : isM3u line = false := isM3u_of_no_tag (by simp [h])
  cases hs : s.sawSegmentTag <;>
    simp [collectedFrom, hcons, hs, hm3u, headerTags_segment, bodyItems_segment, blocks]

end Step

theorem collects_items (text : List (List Char)) (s : PlaylistScan) :
    Collects text s (collectedFrom s text) := by
  induction text generalizing s with
  | nil =>
    intro root kept
    refine ⟨s.pending, s.sawSegmentTag, s.seq, ?_⟩
    simp [collectedFrom, items, headerTags, bodyItems, front, blocks]
  | cons line text ih =>
    cases hitem : Item.ofLine line with
    | none =>
      rw [collectedFrom_blank text s hitem]
      exact (ih s).cons fun root kept => line_of_none hitem root _
    | some e =>
      cases e with
      | tag l =>
        obtain rfl := (ofLine_eq_tag.mp hitem).1
        by_cases hopen : (s.sawSegmentTag || (Item.tag l).opensSegments) = true
        · rw [collectedFrom_pending text s hitem hopen]
          exact (ih _).cons fun root kept => by rw [line_of_tag hitem, if_pos hopen]
        · rw [collectedFrom_header text s hitem hopen]
          exact (ih _).cons fun root kept => by rw [line_of_tag hitem, if_neg hopen]
      | segment n =>
        obtain ⟨htag, hblank, rfl⟩ := segmentName_eq_some.mp (ofLine_eq_segment.mp hitem)
        rw [collectedFrom_segment text s hitem]
        exact (ih _).segment (by simp [htag]) hblank

/-- What a playlist's scan collects. -/
def collected (text : List (List Char)) : Collected where
  header := headerTags (items text)
  sawM3u := text.any isM3u
  segments := blocks [] (mediaSequence text) (bodyItems (items text))

theorem collects_collected (text : List (List Char)) :
    Collects text (.start (mediaSequence text)) (collected text) := by
  have hstart : collectedFrom (.start (mediaSequence text)) text = collected text := by
    simp [collectedFrom, collected, PlaylistScan.start]
  rw [← hstart]
  exact collects_items text _

theorem bodyItems_sublist (es : List Item) : (bodyItems es).Sublist es := by
  have h : (bodyItems es).Sublist (front es ++ es.dropWhile fun e => ¬ e.opensSegments) :=
    List.filter_sublist.append (List.Sublist.refl _)
  rwa [front, List.takeWhile_append_dropWhile] at h

/-- Taking the header out takes no segment out. -/
theorem filter_bodyItems (es : List Item) :
    (bodyItems es).filter (fun e => ¬ e.isTag) = es.filter fun e => ¬ e.isTag := by
  rw [bodyItems, List.filter_append, List.filter_filter, ← List.takeWhile_append_dropWhile
    (p := fun e : Item => ¬ e.opensSegments) (l := es), List.filter_append]
  simp [front]

theorem collected_numbered (data : Bytes) :
    (collected (textLines data)).segments.map entry = numbered data := by
  rw [collected, map_entry_blocks, filter_bodyItems, items_segments]
  rfl

theorem tag_mem_of_header {text : List (List Char)} {l : List Char}
    (h : l ∈ (collected text).header) : .tag l ∈ items text := by
  obtain ⟨e, he, rfl⟩ := List.mem_map.mp h
  obtain ⟨hfront, htag⟩ := List.mem_filter.mp he
  cases e with
  | tag l => exact (List.takeWhile_sublist _).mem hfront
  | segment n => cases htag

theorem mem_collected_segments {text : List (List Char)} {k : KeptSegment}
    (h : k ∈ (collected text).segments) :
    .segment k.name ∈ items text ∧ ∀ l ∈ k.tags, .tag l ∈ items text := by
  obtain ⟨hname, htags⟩ := mem_blocks h
  refine ⟨(bodyItems_sublist _).mem hname, fun l hl => ?_⟩
  exact (bodyItems_sublist _).mem ((htags l hl).resolve_left List.not_mem_nil)

end Qstream.Playlist

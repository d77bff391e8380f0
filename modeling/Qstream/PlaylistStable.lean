import Qstream.PlaylistComplete

/-! A playlist that was derived is derived from itself again. -/
namespace Qstream.Playlist
open Text

/-- An `#EXTM3U` line stands before the first `#EXTINF`. -/
def OpensWithM3u (text : List (List Char)) : Prop :=
  ∃ line ∈ text.takeWhile (fun line => ¬ startsWith "#EXTINF:".toList line),
    startsWith "#EXTM3U".toList line = true

/-- Every segment has an `#EXTINF` of its own. -/
def Timed (ks : List KeptSegment) : Prop :=
  ∀ k ∈ ks, ∃ line ∈ k.tags, startsWith "#EXTINF:".toList line = true

theorem mem_takeWhile_append {α : Type*} {p : α → Bool} {as bs : List α}
    (h : ∃ a ∈ as, p a = false) {x : α} (hx : x ∈ (as ++ bs).takeWhile p) : x ∈ as := by
  induction as with
  | nil =>
    obtain ⟨a, ha, -⟩ := h
    cases ha
  | cons a as ih =>
    by_cases ha : p a = true
    · rw [List.cons_append, List.takeWhile_cons_of_pos ha] at hx
      rcases List.mem_cons.mp hx with rfl | hx
      · exact List.mem_cons_self
      · obtain ⟨b, hb, hpb⟩ := h
        rcases List.mem_cons.mp hb with rfl | hb
        · exact absurd ha (by simp [hpb])
        · exact List.mem_cons_of_mem _ (ih ⟨b, hb, hpb⟩ hx)
    · rw [List.cons_append, List.takeWhile_cons_of_neg ha] at hx
      cases hx

/-- A body whose first segment is timed has no segment before the first `#EXTINF`. -/
theorem tagsFirst_front_bodyOf (header : List (List Char)) {k : KeptSegment} (ks : List KeptSegment)
    (hk : ∃ line ∈ k.tags, startsWith "#EXTINF:".toList line = true) :
    TagsFirst (front (bodyOf header (k :: ks))) := by
  obtain ⟨line, hline, hextinf⟩ := hk
  have hopens : (Item.tag line).opensSegments = true := hextinf
  have htags : ∀ e ∈ front (bodyOf header (k :: ks)), e.isTag = true := by
    intro e he
    have hsplit : bodyOf header (k :: ks) = (header.map Item.tag ++ k.tags.map Item.tag) ++
        ([.segment k.name] ++ ks.flatMap blockItems) := by
      simp [bodyOf, blockItems, List.flatMap_cons]
    rw [front, hsplit] at he
    have hmem : e ∈ header.map Item.tag ++ k.tags.map Item.tag :=
      mem_takeWhile_append ⟨.tag line, List.mem_append_right _ (List.mem_map_of_mem hline),
        by simp [hopens]⟩ he
    rw [← List.map_append] at hmem
    obtain ⟨l, -, rfl⟩ := List.mem_map.mp hmem
    rfl
  exact List.pairwise_of_forall_mem_list fun a ha _ _ _ => htags a ha

/-- A body ends with a segment. -/
theorem trailing_bodyOf {header : List (List Char)} {ks : List KeptSegment} (hks : ks ≠ [])
    (hfirst : TagsFirst (front (bodyOf header ks))) :
    trailing [] (bodyItems (bodyOf header ks)) = [] := by
  obtain ⟨ks, k, rfl⟩ := List.eq_nil_or_concat ks |>.resolve_left hks
  have hbody : bodyOf header (ks.concat k) =
      (header.map Item.tag ++ ks.flatMap blockItems ++ k.tags.map Item.tag) ++ [.segment k.name] := by
    simp [bodyOf, blockItems]
  rw [hbody] at hfirst ⊢
  refine (trailing_eq_nil_iff hfirst ⟨k.name, List.mem_append_right _ (List.mem_singleton_self _)⟩).mpr ?_
  rw [List.getLast?_concat]
  intro e he
  cases he
  rfl

/-- An item of a manifest whose names do not read as tags is read back from its line. -/
theorem ofLine_line {text : List (List Char)} (hlines : ∀ line ∈ text, '\n' ∉ line)
    (hnamed : ∀ n, .segment n ∈ items text → startsWith ['#'] n = false) {e : Item}
    (he : e ∈ items text) : Item.ofLine e.line = some e := by
  cases e with
  | tag l => exact ofLine_eq_tag.mpr ⟨rfl, (tag_mem_items.mp he).2⟩
  | segment n =>
    have hname := isName_of_mem_items hlines he
    refine ofLine_eq_segment.mpr (segmentName_eq_some.mpr ⟨hnamed n he, ?_, hname.1⟩)
    rw [Item.line, hname.1]
    exact hname.2.1

/-- What is read of a playlist of blocks `ks`. -/
theorem items_insertLine_bodyLines {text : List (List Char)} (hlines : ∀ line ∈ text, '\n' ∉ line)
    (hnamed : ∀ n, .segment n ∈ items text → startsWith ['#'] n = false) {ks : List KeptSegment}
    (hks : ∀ k ∈ ks, k ∈ segmentBlocks text) (seq : ℕ) :
    items (insertLine (sequenceTag seq) (bodyLines (headerTags (items text)) ks)) =
      bodyOf (headerTags (items text)) ks := by
  rw [items_insertLine, bodyLines_eq, items, List.filterMap_map]
  have hread : ∀ e ∈ bodyOf (headerTags (items text)) ks, (Item.ofLine ∘ Item.line) e = some e := by
    intro e he
    refine ofLine_line hlines hnamed ?_
    rcases List.mem_append.mp he with hm | hm
    · obtain ⟨l, hl, rfl⟩ := List.mem_map.mp hm
      exact tag_mem_of_header hl
    · obtain ⟨k, hk, hm⟩ := List.mem_flatMap.mp hm
      obtain ⟨hname, htags⟩ := mem_collected_segments (hks k hk)
      rcases List.mem_append.mp hm with hm | hm
      · obtain ⟨l, hl, rfl⟩ := List.mem_map.mp hm
        exact htags l hl
      · rw [List.mem_singleton.mp hm]
        exact hname
  rw [List.filterMap_congr hread, List.filterMap_some]

theorem exists_m3u_of_opens {text : List (List Char)} (h : OpensWithM3u text) :
    ∃ l ∈ headerTags (items text), startsWith "#EXTM3U".toList l = true := by
  obtain ⟨line, hline, hm3u⟩ := h
  refine ⟨line, ?_, hm3u⟩
  induction text with
  | nil => cases hline
  | cons l text ih =>
    by_cases hl : startsWith "#EXTINF:".toList l = true
    · rw [List.takeWhile_cons_of_neg (by simpa using hl)] at hline
      cases hline
    rw [List.takeWhile_cons_of_pos (by simpa using hl)] at hline
    rcases List.mem_cons.mp hline with rfl | hline
    · rw [items, List.filterMap_cons_some (ofLine_of_m3u hm3u),
        headerTags_tag _ (Bool.eq_false_iff.mpr hl)]
      exact List.mem_cons_self
    have hrest := ih hline
    rw [items]
    cases hitem : Item.ofLine l with
    | none => rwa [List.filterMap_cons_none hitem]
    | some e =>
      rw [List.filterMap_cons_some hitem]
      cases e with
      | tag l' =>
        obtain rfl := (ofLine_eq_tag.mp hitem).1
        rw [headerTags_tag _ (Bool.eq_false_iff.mpr hl)]
        exact List.mem_cons_of_mem _ hrest
      | segment n =>
        rw [headerTags_segment]
        exact hrest

theorem sequenceTag_mod (seq : ℕ) : sequenceTag (seq % 2 ^ 64) = sequenceTag seq := by
  rw [sequenceTag, sequenceTag, Nat.mod_mod]

theorem names_bodyOf (header : List (List Char)) (ks : List KeptSegment) :
    ((bodyOf header ks).filter fun e => ¬ e.isTag).map Item.line = ks.map KeptSegment.name := by
  have htags (ls : List (List Char)) : (ls.map Item.tag).filter (fun e => ¬ e.isTag) = [] := by
    simp [Item.isTag]
  rw [bodyOf, List.filter_append, htags, List.nil_append]
  induction ks with
  | nil => rfl
  | cons k ks ih =>
    rw [List.flatMap_cons, List.filter_append, List.map_append, ih, blockItems, List.filter_append,
      htags]
    rfl

/-- The media sequence read of a playlist is the number of its first block. -/
theorem mediaSequence_playlist {root : Dir} {data : Bytes} {holdback : ℕ} {out : Bytes}
    {first : KeptSegment} {rest : List KeptSegment}
    (hnames : ∀ n ∈ segments data, startsWith ['#'] n = false)
    (hout : playbackPlaylist root data holdback = some out)
    (hlisted : listedBlocks root (textLines data) holdback = first :: rest) :
    mediaSequence (textLines out) = first.seq % 2 ^ 64 := by
  obtain ⟨s, hs, -, hmedia⟩ := read_playlist hout
  have heq : (listed root data holdback).head? = some (entry first) := by
    rw [listed_eq_map, hlisted]
    rfl
  obtain rfl : s = entry first := Option.some.inj (hs.symm.trans heq)
  rw [hmedia, reread_eq_mod]
  · rfl
  intro t ht
  refine isPlain_of_not_tag (hnames t.1 ?_)
  have hin : t.1 ∈ (numbered data).map Prod.fst :=
    List.mem_map_of_mem (mem_numbered_of_listed ht).1
  rwa [numbered, List.zipIdx_map_fst] at hin

/-- The playlist still names itself one. -/
theorem exists_m3u_insertLine {text : List (List Char)} (h : OpensWithM3u text) (seq : ℕ)
    (ks : List KeptSegment) :
    ∃ line ∈ insertLine (sequenceTag seq) (bodyLines (headerTags (items text)) ks),
      startsWith "#EXTM3U".toList line = true := by
  obtain ⟨l, hl, hstarts⟩ := exists_m3u_of_opens h
  obtain ⟨as, bs, heq, hins⟩ := exists_insertLine (sequenceTag seq)
    (bodyLines (headerTags (items text)) ks)
  have hin : l ∈ as ++ bs := heq ▸ List.mem_append_left _ hl
  refine ⟨l, ?_, hstarts⟩
  rw [hins]
  exact List.mem_append.mpr ((List.mem_append.mp hin).imp_right (List.mem_cons_of_mem _))

/-- From a playlist whose segments are present the same playlist is derived. -/
theorem playlist_again {root root' : Dir} {data : Bytes} {holdback : ℕ} {out : Bytes}
    (hm3u : OpensWithM3u (textLines data)) (htimed : Timed (segmentBlocks (textLines data)))
    (hnames : ∀ n ∈ segments data, startsWith ['#'] n = false)
    (hcr : ∀ line ∈ textLines data, '\r' ∉ line)
    (hout : playbackPlaylist root data holdback = some out)
    (hstill : ∀ s ∈ listed root data holdback, isPresent root' s = true) :
    playbackPlaylist root' out 0 = some out := by
  have hlines : ∀ line ∈ textLines data, '\n' ∉ line := fun _ hl => newline_notMem_lines hl
  have hnamed : ∀ n, .segment n ∈ items (textLines data) → startsWith ['#'] n = false :=
    fun n hn => hnames n (segment_mem_items_iff.mp hn)
  obtain ⟨first, rest, hlisted, hbytes⟩ := exists_lines hcr hout
  have hmedia := mediaSequence_playlist hnames hout hlisted
  have hks := mem_segmentBlocks hlisted
  have hclean := bodyLines_clean hcr hks
  have hlt : first.seq % 2 ^ 64 < 2 ^ 64 := Nat.mod_lt _ (by decide)
  have hends := (derived_insertLine hlt (bodyLines_plain hks hnames) hclean).endings
  rw [sequenceTag_mod] at hends
  -- the second reader sees the lines as they were written
  have htext : textLines out = insertLine (sequenceTag first.seq)
      (bodyLines (headerTags (items (textLines data))) (first :: rest)) := by
    rw [hbytes, textLines, asBytes_eq, fromUtf8Lossy_encodeUtf8, lines_joinLines_clean hends]
  have hitems : items (textLines out) = bodyOf (headerTags (items (textLines data))) (first :: rest) := by
    rw [htext, items_insertLine_bodyLines hlines hnamed hks]
  have hsegments : segments out = (first :: rest).map KeptSegment.name := by
    rw [segments, ← items_segments, hitems, names_bodyOf]
  have hfirst := tagsFirst_front_bodyOf (headerTags (items (textLines data))) rest
    (htimed first (hks first List.mem_cons_self))
  -- its items need no rearrangement
  have hbody : bodyLines (headerTags (items (textLines out))) (segmentBlocks (textLines out)) =
      bodyLines (headerTags (items (textLines data))) (first :: rest) := by
    rw [bodyLines_eq, segmentBlocks, hitems, (bodyOf_eq_iff _ _).mpr
      ⟨hfirst, trailing_bodyOf (List.cons_ne_nil first rest) hfirst⟩, bodyLines_eq]
  have hm3u' := htext ▸ exists_m3u_insertLine hm3u first.seq (first :: rest)
  have hall : ∀ n ∈ segments out, root'.isFile (String.ofList n) = true := by
    intro n hn
    rw [hsegments] at hn
    obtain ⟨k, hk, rfl⟩ := List.mem_map.mp hn
    refine hstill (entry k) ?_
    rw [listed_eq_map, hlisted]
    exact List.mem_map_of_mem hk
  rw [playlist_complete hm3u' hall (by rw [hsegments]; exact List.cons_ne_nil _ _), hmedia, hbody,
    sequenceTag_mod, lines_joinLines_clean hclean, hbytes]

/-- Deriving once more from a derived playlist changes nothing, byte for byte, and neither does
serving it over HTTP as long as its files are present. -/
theorem playlist_idempotent (root : Dir) (data : Bytes) (holdback : ℕ) (out : Bytes)
    (hm3u : OpensWithM3u (textLines data)) (htimed : Timed (segmentBlocks (textLines data)))
    (hnames : ∀ n ∈ segments data, startsWith ['#'] n = false)
    (hcrlf : OnlyCrlf (fromUtf8Lossy data))
    (hout : playbackPlaylist root data holdback = some out) :
    playbackPlaylist root out 0 = some out ∧
      ∀ root', (∀ s ∈ listed root data holdback, isPresent root' s = true) →
        filterPlaylist root' out = out := by
  have hcr := return_notMem_lines hcrlf
  constructor
  · exact playlist_again hm3u htimed hnames hcr hout fun s hs => (mem_numbered_of_listed hs).2
  · intro root' hstill
    rw [filterPlaylist, playlist_again hm3u htimed hnames hcr hout hstill, Option.getD_some]

/-- A tag before the `#EXTINF` of the second segment moves to the header when the first segment is
missing, and stays where it is. -/
theorem playlist_idempotent_demo :
    ∃ out, playbackPlaylist (withFiles ["b.ts"]) demoOpen 0 = some out ∧
      playbackPlaylist (withFiles ["b.ts"]) out 0 = some out ∧ out ≠ demoOpen := by
  cases hout : playbackPlaylist (withFiles ["b.ts"]) demoOpen 0 with
  | none => exact absurd hout (by decide +kernel)
  | some out =>
    refine ⟨out, rfl, ?_, ?_⟩
    · refine (playlist_idempotent (withFiles ["b.ts"]) demoOpen 0 out ⟨"#EXTM3U".toList, ?_⟩ ?_ ?_ ?_
        hout).1
      · decide +kernel
      · unfold Timed
        decide +kernel
      · decide +kernel
      · decide +kernel
    · rintro rfl
      exact absurd hout (by decide +kernel)

end Qstream.Playlist

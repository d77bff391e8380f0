import Qstream.PlaylistDerivation
import Qstream.Http

/-! What a playlist keeps of a manifest whose segments are all present. -/
namespace Qstream.Playlist
open Text

/-! The items of what is written. -/

/-- The items of a body. -/
def bodyOf (header : List (List Char)) (ks : List KeptSegment) : List Item :=
  header.map .tag ++ ks.flatMap blockItems

theorem bodyLines_eq (header : List (List Char)) (ks : List KeptSegment) :
    bodyLines header ks = (bodyOf header ks).map Item.line := by
  have htags (ls : List (List Char)) : (ls.map Item.tag).map Item.line = ls := by
    rw [List.map_map]
    exact List.map_id ls
  rw [bodyOf, List.map_append, htags, List.map_flatMap, bodyLines]
  refine congrArg (header ++ ·) (List.flatMap_congr fun k _ => ?_)
  rw [blockItems, List.map_append, htags]
  rfl

/-- What is read of the line that is written for an item. -/
def readBack (e : Item) : Option Item := Item.ofLine (chomp (chomp e.line))

theorem readBack_tag {l : List Char} (h : IsTag l) :
    readBack (.tag l) = some (.tag (chomp (chomp l))) := by
  refine ofLine_eq_tag.mpr ⟨rfl, ?_, startsWith_chomp (startsWith_chomp h.2.1)⟩
  exact startsWith_chomp_of_ne (by decide) (startsWith_chomp_of_ne (by decide) h.1)

theorem readBack_segment {n : List Char} (h : IsName n) (hn : startsWith ['#'] n = false) :
    readBack (.segment n) = some (.segment n) := by
  unfold readBack
  rw [Item.line, h.chomp_eq, h.chomp_eq]
  exact ofLine_eq_segment.mpr (segmentName_eq_some.mpr ⟨hn, by rw [h.1]; exact h.2.1, h.1⟩)

theorem ofLine_sequenceTag (seq : ℕ) : Item.ofLine (sequenceTag seq) = none := by
  have htag : startsWith ['#'] (sequenceTag seq) = true :=
    startsWith_iff.mpr (.trans (by decide) (startsWith_iff.mp (startsWith_sequenceTag seq)))
  rw [Item.ofLine, if_pos htag, if_pos (startsWith_sequenceTag seq)]

/-- The media sequence that is put in is no item. -/
theorem items_insertLine (seq : ℕ) (ls : List (List Char)) :
    items (insertLine (sequenceTag seq) ls) = items ls := by
  obtain ⟨as, bs, rfl, hins⟩ := exists_insertLine (sequenceTag seq) ls
  rw [hins, items, items, List.filterMap_append, List.filterMap_append,
    List.filterMap_cons_none (ofLine_sequenceTag seq)]

theorem items_written {header : List (List Char)} {ks : List KeptSegment} (seq : ℕ)
    (hheader : ∀ line ∈ header, IsTag line)
    (hks : ∀ k ∈ ks, IsName k.name ∧ ∀ line ∈ k.tags, IsTag line) :
    items (textLines (asBytes (joinLines (insertLine (sequenceTag seq)
      (lines (joinLines (bodyLines header ks))))))) = (bodyOf header ks).filterMap readBack := by
  obtain ⟨as, bs, heq, hins⟩ := exists_insertLine (sequenceTag seq) ((bodyLines header ks).map chomp)
  have hbody : (as ++ bs).map chomp = (bodyOf header ks).map fun e => chomp (chomp e.line) := by
    rw [← heq, bodyLines_eq, List.map_map, List.map_map]
    rfl
  rw [textLines_written seq hheader hks, hins, List.map_append, List.map_cons, items,
    List.filterMap_append, List.filterMap_cons_none (by
      rw [chomp_sequenceTag]
      exact ofLine_sequenceTag seq), ← List.filterMap_append, ← List.map_append, hbody,
    List.filterMap_map]
  rfl

/-! The items of a body against those of the manifest. -/

/-- No tag comes after a segment. -/
def TagsFirst (es : List Item) : Prop := es.Pairwise fun a b => b.isTag = true → a.isTag = true

theorem tagsFirst_iff {es : List Item} :
    TagsFirst es ↔ es.filter Item.isTag ++ es.filter (fun e => ¬ e.isTag) = es := by
  constructor
  · intro h
    induction es with
    | nil => rfl
    | cons e es ih =>
      obtain ⟨hhead, htail⟩ := List.pairwise_cons.mp h
      by_cases he : e.isTag = true
      · rw [List.filter_cons_of_pos he, List.filter_cons_of_neg (by simp [he]), List.cons_append,
          ih htail]
      · have hrest : ∀ b ∈ es, b.isTag = false :=
          fun b hb => Bool.eq_false_iff.mpr fun htag => he (hhead b hb htag)
        rw [List.filter_eq_nil_iff.mpr fun b hb => ?_, List.filter_eq_self.mpr fun b hb => ?_,
          List.nil_append]
        · rcases List.mem_cons.mp hb with rfl | hb
          · simp [he]
          · simp [hrest b hb]
        · rcases List.mem_cons.mp hb with rfl | hb
          · exact he
          · simp [hrest b hb]
  · intro h
    rw [← h]
    refine List.pairwise_append.mpr ⟨?_, ?_, ?_⟩
    · exact List.pairwise_of_forall_mem_list fun a ha b _ _ => (List.mem_filter.mp ha).2
    · refine List.pairwise_of_forall_mem_list fun a _ b hb htag => ?_
      simpa [htag] using (List.mem_filter.mp hb).2
    · intro a ha b _ _
      exact (List.mem_filter.mp ha).2

theorem map_tag_headerTags (es : List Item) :
    (headerTags es).map .tag = (front es).filter Item.isTag := by
  rw [headerTags, List.map_map]
  refine (List.map_congr_left fun e he => ?_).trans (List.map_id _)
  cases e with
  | tag l => rfl
  | segment n => cases (List.mem_filter.mp he).2

/-- The body of the whole manifest and the trailing tags are all its items, the tags before the
first `#EXTINF` put in front. -/
theorem bodyOf_append_trailing (seq : ℕ) (es : List Item) :
    bodyOf (headerTags es) (blocks [] seq (bodyItems es)) ++
        (trailing [] (bodyItems es)).map .tag =
      ((front es).filter Item.isTag ++ (front es).filter fun e => ¬ e.isTag) ++
        es.dropWhile fun e => ¬ e.opensSegments := by
  rw [bodyOf, List.append_assoc, blocks_append_trailing, map_tag_headerTags, List.map_nil,
    List.nil_append, bodyItems, List.append_assoc]

theorem append_dropWhile_front (es : List Item) :
    front es ++ es.dropWhile (fun e => ¬ e.opensSegments) = es := List.takeWhile_append_dropWhile

/-- Nothing but the trailing tags is missing in the body. -/
theorem trailing_of_length {seq : ℕ} {es : List Item}
    (h : (bodyOf (headerTags es) (blocks [] seq (bodyItems es))).length = es.length) :
    trailing [] (bodyItems es) = [] := by
  have hlen := congrArg List.length (bodyOf_append_trailing seq es)
  have hfront := congrArg List.length (append_dropWhile_front es)
  have hsplit := List.length_eq_length_filter_add (l := front es) Item.isTag
  have hneg : ((front es).filter fun e => ¬ e.isTag).length =
      ((front es).filter fun e => !e.isTag).length := by simp
  simp only [List.length_append, List.length_map, h, hneg] at hlen hfront
  exact List.length_eq_zero_iff.mp (by omega)

/-- A body of the whole manifest is the manifest item by item exactly when no tag before the
first `#EXTINF` comes after a segment, and none after the last segment. -/
theorem bodyOf_eq_iff (seq : ℕ) (es : List Item) :
    bodyOf (headerTags es) (blocks [] seq (bodyItems es)) = es ↔
      TagsFirst (front es) ∧ trailing [] (bodyItems es) = [] := by
  have happ := bodyOf_append_trailing seq es
  constructor
  · intro heq
    have hnil := trailing_of_length (congrArg List.length heq)
    rw [heq, hnil, List.map_nil, List.append_nil] at happ
    refine ⟨tagsFirst_iff.mpr ?_, hnil⟩
    exact List.append_cancel_right (happ.symm.trans (append_dropWhile_front es).symm)
  · rintro ⟨hfirst, hnil⟩
    rw [hnil, List.map_nil, List.append_nil, tagsFirst_iff.mp hfirst, append_dropWhile_front] at happ
    exact happ

/-- Without trailing tags the body has the tags of the manifest in their order. -/
theorem tags_bodyOf {seq : ℕ} {es : List Item} (h : trailing [] (bodyItems es) = []) :
    (bodyOf (headerTags es) (blocks [] seq (bodyItems es))).filter Item.isTag =
      es.filter Item.isTag := by
  have happ := bodyOf_append_trailing seq es
  rw [h, List.map_nil, List.append_nil] at happ
  have hnone : ((front es).filter fun e => ¬ e.isTag).filter Item.isTag = [] := by
    refine List.filter_eq_nil_iff.mpr fun e he => ?_
    simpa using (List.mem_filter.mp he).2
  conv_rhs => rw [← append_dropWhile_front es]
  rw [happ, List.filter_append, List.filter_append, List.filter_filter, hnone, List.append_nil,
    List.filter_append]
  simp only [Bool.and_self]

/-- No tag is left over exactly when the last item is a segment. -/
theorem trailing_eq_nil_iff {es : List Item} (hfirst : TagsFirst (front es))
    (hseg : ∃ n, .segment n ∈ es) :
    trailing [] (bodyItems es) = [] ↔ ∀ e ∈ es.getLast?, e.isTag = false := by
  have happ := bodyOf_append_trailing 0 es
  rw [tagsFirst_iff.mp hfirst, append_dropWhile_front] at happ
  constructor
  · intro hnil e he
    rw [hnil, List.map_nil, List.append_nil] at happ
    obtain ⟨n, hn⟩ := hseg
    have hblocks : blocks [] 0 (bodyItems es) ≠ [] := by
      intro hnone
      rw [bodyOf, hnone, List.flatMap_nil, List.append_nil] at happ
      rw [← happ] at hn
      obtain ⟨l, -, heq⟩ := List.mem_map.mp hn
      cases heq
    obtain ⟨ks, k, hks⟩ := List.eq_nil_or_concat (blocks [] 0 (bodyItems es)) |>.resolve_left hblocks
    have hlast : es.getLast? = some (.segment k.name) := by
      rw [← happ, bodyOf, hks, List.concat_eq_append, List.flatMap_append, List.flatMap_singleton,
        blockItems, ← List.append_assoc, ← List.append_assoc, List.getLast?_concat]
    rw [hlast] at he
    cases he
    rfl
  · intro hlast
    by_contra hne
    obtain ⟨ts, l, hts⟩ := List.eq_nil_or_concat (trailing [] (bodyItems es)) |>.resolve_left hne
    have htag : es.getLast? = some (.tag l) := by
      rw [← happ, hts, List.concat_eq_append, List.map_append, List.map_singleton,
        ← List.append_assoc, List.getLast?_concat]
    cases hlast _ htag

/-! The playlist of a complete store. -/

theorem segments_eq (data : Bytes) : segments data = (segmentBlocks (textLines data)).map KeptSegment.name := by
  have hmap := congrArg (List.map Prod.fst) (collected_numbered data)
  rw [numbered, List.zipIdx_map_fst, List.map_map] at hmap
  exact hmap.symm

theorem isKept_of_all {root : Dir} {data : Bytes}
    (hall : ∀ n ∈ segments data, root.isFile (String.ofList n) = true) :
    (segmentBlocks (textLines data)).filter (isKept root) = segmentBlocks (textLines data) := by
  refine List.filter_eq_self.mpr fun k hk => hall k.name ?_
  rw [segments_eq]
  exact List.mem_map_of_mem hk

/-- With all segments present the playlist is the whole body, under the manifest's number. -/
theorem playlist_complete {root : Dir} {data : Bytes}
    (hm3u : ∃ line ∈ textLines data, startsWith "#EXTM3U".toList line = true)
    (hall : ∀ n ∈ segments data, root.isFile (String.ofList n) = true)
    (hne : segments data ≠ []) :
    playbackPlaylist root data 0 = some (asBytes (joinLines (insertLine
      (sequenceTag (mediaSequence (textLines data))) (lines (joinLines (bodyLines
        (headerTags (items (textLines data))) (segmentBlocks (textLines data)))))))) := by
  have hkept := isKept_of_all hall
  have hsaw : (collected (textLines data)).sawM3u = true := by
    simpa [collected, isM3u] using hm3u
  cases hK : segmentBlocks (textLines data) with
  | nil => exact absurd (by rw [segments_eq, hK, List.map_nil]) hne
  | cons first rest =>
    have hseq : first.seq = mediaSequence (textLines data) := by
      have hnum := collected_numbered data
      rw [show (collected (textLines data)).segments = first :: rest from hK, numbered,
        segments_eq, hK, List.map_cons, List.map_cons, List.zipIdx_cons] at hnum
      exact congrArg Prod.snd (List.cons.inj hnum).1
    have hsegments : (collected (textLines data)).segments.filter (isKept root) = first :: rest :=
      hkept.trans hK
    rw [playbackPlaylist_eq, Collected.playlist, ← hseq, hsegments]
    dsimp only
    rw [if_neg (by simp [hsaw]), Nat.sub_zero, List.take_length]
    rfl

/-- The same tags and segments in the same order, and the same media sequence. -/
structure SameContent (data out : Bytes) : Prop where
  items : items (textLines out) = items (textLines data)
  sequence : mediaSequence (textLines out) = mediaSequence (textLines data)

/-- The last item is a segment, no tag stands between a segment and the first `#EXTINF`, no name
reads as a tag, and no tag ends with a carriage return. -/
structure Lossless (text : List (List Char)) : Prop where
  closed : ∀ e ∈ (items text).getLast?, e.isTag = false
  ordered : TagsFirst (front (items text))
  named : ∀ n, .segment n ∈ items text → startsWith ['#'] n = false
  bare : ∀ l, .tag l ∈ items text → ¬ ['\r'] <:+ l

/-- An item as it is read back, when its name does not read as a tag. -/
def chomped : Item → Item
  | .tag l => .tag (chomp (chomp l))
  | .segment n => .segment n

theorem chomp_chomp_eq_iff {l : List Char} : chomp (chomp l) = l ↔ ¬ ['\r'] <:+ l := by
  constructor
  · rintro heq ⟨t, rfl⟩
    have hlen := (chomp_isPrefix (chomp (t ++ ['\r']))).length_le
    rw [heq, chomp_concat, List.length_append, List.length_singleton] at hlen
    omega
  · intro h
    have hone : chomp l = l := by
      rw [chomp, stripSuffix, if_neg h]
      rfl
    rw [hone, hone]

theorem readBack_eq {text : List (List Char)} (hlines : ∀ line ∈ text, '\n' ∉ line)
    (hnamed : ∀ n, .segment n ∈ items text → startsWith ['#'] n = false) {e : Item}
    (he : e ∈ items text) : readBack e = some (chomped e) := by
  cases e with
  | tag l => exact readBack_tag (isTag_of_mem_items hlines he)
  | segment n => exact readBack_segment (isName_of_mem_items hlines he) (hnamed n he)

theorem bodyOf_subset (seq : ℕ) (es : List Item) {e : Item}
    (he : e ∈ bodyOf (headerTags es) (blocks [] seq (bodyItems es))) : e ∈ es := by
  have hmem := List.mem_append_left ((trailing [] (bodyItems es)).map .tag) he
  rw [bodyOf_append_trailing] at hmem
  rw [← append_dropWhile_front es]
  refine List.mem_append.mpr ((List.mem_append.mp hmem).imp_left fun hfront => ?_)
  rcases List.mem_append.mp hfront with hf | hf <;> exact (List.mem_filter.mp hf).1

theorem filterMap_readBack {text : List (List Char)} (hlines : ∀ line ∈ text, '\n' ∉ line)
    (hnamed : ∀ n, .segment n ∈ items text → startsWith ['#'] n = false) (seq : ℕ) :
    (bodyOf (headerTags (items text)) (blocks [] seq (bodyItems (items text)))).filterMap readBack =
      (bodyOf (headerTags (items text)) (blocks [] seq (bodyItems (items text)))).map chomped := by
  rw [← List.filterMap_eq_map]
  exact List.filterMap_congr fun e he => readBack_eq hlines hnamed (bodyOf_subset seq _ he)

/-- What is read back is the manifest item by item exactly when it is lossless. -/
theorem map_chomped_eq_iff (seq : ℕ) (es : List Item) :
    (bodyOf (headerTags es) (blocks [] seq (bodyItems es))).map chomped = es ↔
      (TagsFirst (front es) ∧ trailing [] (bodyItems es) = []) ∧
        ∀ l, .tag l ∈ es → ¬ ['\r'] <:+ l := by
  have hsame (hbare : ∀ l, .tag l ∈ es → ¬ ['\r'] <:+ l) :
      (bodyOf (headerTags es) (blocks [] seq (bodyItems es))).map chomped =
        bodyOf (headerTags es) (blocks [] seq (bodyItems es)) := by
    refine (List.map_congr_left fun e he => ?_).trans (List.map_id _)
    cases e with
    | tag l => exact congrArg Item.tag (chomp_chomp_eq_iff.mpr (hbare l (bodyOf_subset seq es he)))
    | segment n => rfl
  rw [← bodyOf_eq_iff seq]
  constructor
  · intro heq
    have hbare : ∀ l, .tag l ∈ es → ¬ ['\r'] <:+ l := by
      have hnil := trailing_of_length (by rw [← List.length_map chomped, heq])
      have htags : (es.filter Item.isTag).map chomped = (es.filter Item.isTag).map id := by
        have htagsOf := @tags_bodyOf seq es hnil
        rw [List.map_id, ← htagsOf]
        conv_rhs => rw [htagsOf, ← heq, List.filter_map]
        refine congrArg (List.map chomped) (List.filter_congr fun e _ => ?_)
        cases e <;> rfl
      intro l hl
      have hread := List.map_inj_left.mp htags (.tag l) (List.mem_filter.mpr ⟨hl, rfl⟩)
      exact chomp_chomp_eq_iff.mp (Item.tag.inj hread)
    exact ⟨(hsame hbare).symm.trans heq, hbare⟩
  · rintro ⟨heq, hbare⟩
    exact (hsame hbare).trans heq

theorem mediaSequence_lt (text : List (List Char)) : mediaSequence text < 2 ^ 64 := by
  have hparse (s : List Char) : (parseU64 s).getD 0 < 2 ^ 64 := by
    unfold parseU64
    dsimp only
    split_ifs with hdigits hfits
    · decide
    · exact hfits
    · decide
  have hstep (seq : ℕ) (line : List Char) (h : seq < 2 ^ 64) : mediaStep seq line < 2 ^ 64 := by
    unfold mediaStep
    split
    · exact hparse _
    · exact h
  rw [mediaSequence_eq]
  have hfold : ∀ (ls : List (List Char)) (seq : ℕ), seq < 2 ^ 64 → ls.foldl mediaStep seq < 2 ^ 64 := by
    intro ls
    induction ls with
    | nil => exact fun _ h => h
    | cons line ls ih => exact fun seq h => ih _ (hstep seq line h)
  exact hfold text 0 (by decide)

theorem segment_mem_items_iff {data : Bytes} {n : List Char} :
    .segment n ∈ items (textLines data) ↔ n ∈ segments data := by
  rw [segment_mem_items, segments, List.mem_filterMap]

/-- The written body of a whole manifest is clean. -/
theorem clean_blocks (data : Bytes) :
    (∀ line ∈ headerTags (items (textLines data)), IsTag line) ∧
      ∀ k ∈ segmentBlocks (textLines data), IsName k.name ∧ ∀ line ∈ k.tags, IsTag line := by
  have hlines : ∀ line ∈ textLines data, '\n' ∉ line := fun _ hl => newline_notMem_lines hl
  refine ⟨fun line hl => isTag_of_mem_items hlines (tag_mem_of_header hl), fun k hk => ?_⟩
  obtain ⟨hname, htags⟩ := mem_collected_segments hk
  exact ⟨isName_of_mem_items hlines hname, fun line hl => isTag_of_mem_items hlines (htags line hl)⟩

/-- With all segments present, the playlist that is served for one that begins with `#EXTM3U` has
the same content exactly when there are no segments or nothing in it gets lost. -/
theorem complete_store_iff (root : Dir) (data : Bytes)
    (hm3u : ∃ line, (textLines data).head? = some line ∧ startsWith "#EXTM3U".toList line = true)
    (hall : ∀ n ∈ segments data, root.isFile (String.ofList n) = true) :
    SameContent data (filterPlaylist root data) ↔
      segments data = [] ∨ Lossless (textLines data) := by
  by_cases hne : segments data = []
  · have hnone : playbackPlaylist root data 0 = none := by
      refine (playbackPlaylist_eq_none root data 0).mpr (.inr ?_)
      rw [present, numbered, hne]
      exact Nat.zero_le _
    rw [filterPlaylist, hnone]
    exact iff_of_true ⟨rfl, rfl⟩ (.inl hne)
  have hlines : ∀ line ∈ textLines data, '\n' ∉ line := fun _ hl => newline_notMem_lines hl
  obtain ⟨hheader, hclean⟩ := clean_blocks data
  obtain ⟨line, hhead, hstarts⟩ := hm3u
  rw [filterPlaylist, playlist_complete ⟨line, List.mem_of_mem_head? hhead, hstarts⟩ hall hne,
    Option.getD_some, or_iff_right hne]
  have hitems := items_written (mediaSequence (textLines data)) hheader hclean
  have hexists : ∃ n, .segment n ∈ items (textLines data) := by
    obtain ⟨n, hn⟩ := List.exists_mem_of_ne_nil _ hne
    exact ⟨n, segment_mem_items_iff.mpr hn⟩
  have hread (hnamed : ∀ n, .segment n ∈ items (textLines data) → startsWith ['#'] n = false) :=
    hitems.trans (filterMap_readBack hlines hnamed (mediaSequence (textLines data)))
  constructor
  · intro hsame
    have hnamed : ∀ n, .segment n ∈ items (textLines data) → startsWith ['#'] n = false := by
      have hnames := segments_written (mediaSequence (textLines data)) hheader hclean
      rw [segments, ← items_segments, hsame.items, items_segments, ← segments_eq] at hnames
      intro n hn
      have hin := List.filter_eq_self.mp hnames.symm n (segment_mem_items_iff.mp hn)
      simpa using hin
    obtain ⟨⟨hfirst, hnil⟩, hbare⟩ := (map_chomped_eq_iff (mediaSequence (textLines data)) _).mp
      ((hread hnamed).symm.trans hsame.items)
    exact ⟨(trailing_eq_nil_iff hfirst hexists).mp hnil, hfirst, hnamed, hbare⟩
  · rintro ⟨hclosed, hfirst, hnamed, hbare⟩
    refine ⟨(hread hnamed).trans ((map_chomped_eq_iff (mediaSequence (textLines data)) _).mpr
      ⟨⟨hfirst, (trailing_eq_nil_iff hfirst hexists).mpr hclosed⟩, hbare⟩), ?_⟩
    rw [textLines_written _ hheader hclean]
    refine (mediaSequence_written _ hheader hclean fun k hk => ?_).trans
      (reread_eq (mediaSequence_lt _))
    exact isPlain_of_not_tag (hnamed k.name (mem_collected_segments hk).1)

def demoOpen : Bytes := "#EXTM3U\n#EXTINF:2,\na.ts\n#EXT-X-GAP\n#EXTINF:2,\nb.ts\n".toUTF8.toList

/-- The same with the tag that ends a stream. -/
def demoEnded : Bytes := demoOpen ++ "#EXT-X-ENDLIST\n".toUTF8.toList

theorem complete_store_open :
    SameContent demoOpen (filterPlaylist (withFiles ["a.ts", "b.ts"]) demoOpen) := by
  refine (complete_store_iff (withFiles ["a.ts", "b.ts"]) demoOpen
    ⟨"#EXTM3U".toList, by decide +kernel⟩ (by decide +kernel)).mpr (.inr ?_)
  have hitems : items (textLines demoOpen) = [.tag "#EXTM3U".toList, .tag "#EXTINF:2,".toList,
      .segment "a.ts".toList, .tag "#EXT-X-GAP".toList, .tag "#EXTINF:2,".toList,
      .segment "b.ts".toList] := by decide +kernel
  refine ⟨?_, ?_, ?_, ?_⟩
  all_goals rw [hitems]
  · simp [Item.isTag]
  · exact tagsFirst_iff.mpr (by decide +kernel)
  · simp [startsWith]
  · simp only [List.mem_cons, Item.tag.injEq, reduceCtorEq, List.not_mem_nil, or_false, false_or]
    rintro l (rfl | rfl | rfl | rfl) <;> decide

/-- The tag that ends a stream is lost although the store is complete. -/
theorem endlist_is_lost :
    (∃ line, (textLines demoEnded).head? = some line ∧ startsWith "#EXTM3U".toList line = true) ∧
    (∀ n ∈ segments demoEnded, (withFiles ["a.ts", "b.ts"]).isFile (String.ofList n) = true) ∧
    .tag "#EXT-X-ENDLIST".toList ∈ items (textLines demoEnded) ∧
    .tag "#EXT-X-ENDLIST".toList ∉
      items (textLines (filterPlaylist (withFiles ["a.ts", "b.ts"]) demoEnded)) ∧
    ¬ SameContent demoEnded (filterPlaylist (withFiles ["a.ts", "b.ts"]) demoEnded) := by
  have hin : .tag "#EXT-X-ENDLIST".toList ∈ items (textLines demoEnded) := by decide +kernel
  have hout : .tag "#EXT-X-ENDLIST".toList ∉
      items (textLines (filterPlaylist (withFiles ["a.ts", "b.ts"]) demoEnded)) := by
    decide +kernel
  refine ⟨⟨"#EXTM3U".toList, by decide +kernel⟩, by decide +kernel, hin, hout, fun h => hout ?_⟩
  rw [h.items]
  exact hin

end Qstream.Playlist

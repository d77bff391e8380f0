import Qstream.PlaylistSequence

/-! The playlist that is derived from a manifest, line by line. -/
namespace Qstream.Playlist
open Text

/-- The segments of a manifest, each with its number and its own tags. -/
def segmentBlocks (text : List (List Char)) : List KeptSegment :=
  blocks [] (mediaSequence text) (bodyItems (items text))

/-- Those that are listed: the present ones less the newest. -/
def listedBlocks (root : Dir) (text : List (List Char)) (holdback : ℕ) : List KeptSegment :=
  let kept := (segmentBlocks text).filter (isKept root)
  kept.take (kept.length - holdback)

/-- A header line after which the media sequence is put. -/
def takesSequence (line : List Char) : Bool :=
  startsWith "#EXTM3U".toList line ∨ startsWith "#EXT-X-VERSION:".toList line

/-- The lines `ls` are the header and the listed segments, each directly preceded by its tags,
with one media sequence among them. -/
structure Derived (header : List (List Char)) (ks : List KeptSegment) (seq : ℕ)
    (ls : List (List Char)) : Prop where
  content : ls.filter (fun line => ¬ startsWith MEDIA_SEQUENCE_TAG line) =
    header ++ ks.flatMap fun k => k.tags ++ [k.name]
  sequence : ls.filter (startsWith MEDIA_SEQUENCE_TAG) =
    [MEDIA_SEQUENCE_TAG ++ (toString seq).toList]
  inHeader : (∃ line ∈ header, takesSequence line) →
    (ks.flatMap fun k => k.tags ++ [k.name]) <:+ ls
  endings : ∀ line ∈ ls, '\n' ∉ line ∧ '\r' ∉ line

theorem insertLine_append {tag : List Char} {as : List (List Char)}
    (h : ∃ line ∈ as, takesSequence line) (bs : List (List Char)) :
    insertLine tag (as ++ bs) = insertLine tag as ++ bs := by
  induction as with
  | nil =>
    obtain ⟨line, hline, -⟩ := h
    cases hline
  | cons line as ih =>
    rw [List.cons_append, insertLine, insertLine]
    split
    next => rfl
    next hno =>
      obtain ⟨line', hmem, htakes⟩ := h
      rcases List.mem_cons.mp hmem with rfl | hmem
      · exact absurd (of_decide_eq_true htakes) hno
      · rw [ih ⟨line', hmem, htakes⟩, List.cons_append]

/-- The lines of a scan, without stray carriage returns. -/
theorem mem_bodyLines {text : List (List Char)} {ks : List KeptSegment}
    (hks : ∀ k ∈ ks, k ∈ segmentBlocks text) {line : List Char}
    (h : line ∈ bodyLines (headerTags (items text)) ks) :
    .tag line ∈ items text ∨ .segment line ∈ items text := by
  rcases List.mem_append.mp h with hl | hl
  · exact .inl (tag_mem_of_header hl)
  obtain ⟨k, hk, hl⟩ := List.mem_flatMap.mp hl
  obtain ⟨hname, htags⟩ := mem_collected_segments (hks k hk)
  rcases List.mem_append.mp hl with hl | hl
  · exact .inl (htags line hl)
  · exact .inr (List.mem_singleton.mp hl ▸ hname)

theorem return_notMem_items {text : List (List Char)} (h : ∀ line ∈ text, '\r' ∉ line)
    {line : List Char} (hitem : .tag line ∈ items text ∨ .segment line ∈ items text) :
    '\r' ∉ line := by
  rcases hitem with htag | hseg
  · exact h line (tag_mem_items.mp htag).1
  · obtain ⟨l, hl, hname⟩ := segment_mem_items.mp hseg
    obtain ⟨-, -, rfl⟩ := segmentName_eq_some.mp hname
    exact fun hm => h l hl (mem_of_mem_trim hm)

theorem newline_notMem_items {text : List (List Char)} (h : ∀ line ∈ text, '\n' ∉ line)
    {line : List Char} (hitem : .tag line ∈ items text ∨ .segment line ∈ items text) :
    '\n' ∉ line := by
  rcases hitem with htag | hseg
  · exact (isTag_of_mem_items h htag).2.2
  · exact (isName_of_mem_items h hseg).2.2

/-- A playlist is missing when there is no `#EXTM3U`, or nothing to list. -/
theorem playbackPlaylist_eq_none (root : Dir) (data : Bytes) (holdback : ℕ) :
    playbackPlaylist root data holdback = none ↔
      (∀ line ∈ textLines data, startsWith "#EXTM3U".toList line = false) ∨
        (present root data).length ≤ holdback := by
  have hlen : (present root data).length =
      ((collected (textLines data)).segments.filter (isKept root)).length := by
    rw [present, ← collected_numbered, List.filter_map, List.length_map]
    rfl
  have hm3u : (collected (textLines data)).sawM3u = false ↔
      ∀ line ∈ textLines data, startsWith "#EXTM3U".toList line = false := by
    simp [collected, isM3u]
  rw [playbackPlaylist_eq, hlen, ← hm3u]
  unfold Collected.playlist
  dsimp only
  generalize (collected (textLines data)).segments.filter (isKept root) = kept
  cases kept with
  | nil => simp
  | cons first rest =>
    dsimp only
    split
    next hnone =>
      refine iff_of_true rfl (hnone.imp_right fun hcount => ?_)
      omega
    next hsome =>
      refine iff_of_false (Option.some_ne_none _) fun hnone => hsome (hnone.imp_right fun hcount => ?_)
      omega

theorem mem_segmentBlocks {root : Dir} {text : List (List Char)} {holdback : ℕ}
    {ks : List KeptSegment} (h : listedBlocks root text holdback = ks) :
    ∀ k ∈ ks, k ∈ segmentBlocks text := by
  intro k hk
  rw [← h] at hk
  exact List.mem_of_mem_filter (List.mem_of_mem_take hk)

theorem bodyLines_clean {data : Bytes} {ks : List KeptSegment}
    (hcr : ∀ line ∈ textLines data, '\r' ∉ line)
    (hks : ∀ k ∈ ks, k ∈ segmentBlocks (textLines data)) :
    ∀ line ∈ bodyLines (headerTags (items (textLines data))) ks, '\n' ∉ line ∧ '\r' ∉ line := by
  intro line hl
  have hitem := mem_bodyLines hks hl
  exact ⟨newline_notMem_items (fun _ hl => newline_notMem_lines hl) hitem,
    return_notMem_items hcr hitem⟩

theorem bodyLines_plain {data : Bytes} {ks : List KeptSegment}
    (hks : ∀ k ∈ ks, k ∈ segmentBlocks (textLines data))
    (hnames : ∀ name ∈ segments data, startsWith ['#'] name = false) :
    ∀ line ∈ bodyLines (headerTags (items (textLines data))) ks, IsPlain line := by
  intro line hl
  rcases mem_bodyLines hks hl with htag | hseg
  · exact (tag_mem_items.mp htag).2.2
  · obtain ⟨l, hl, hname⟩ := segment_mem_items.mp hseg
    exact isPlain_of_not_tag (hnames line (List.mem_filterMap.mpr ⟨l, hl, hname⟩))

/-- The lines of a playlist, when no line of the manifest has a carriage return. -/
theorem exists_lines {root : Dir} {data : Bytes} {holdback : ℕ} {out : Bytes}
    (hcr : ∀ line ∈ textLines data, '\r' ∉ line)
    (hout : playbackPlaylist root data holdback = some out) :
    ∃ first rest, listedBlocks root (textLines data) holdback = first :: rest ∧
      out = asBytes (joinLines (insertLine (sequenceTag first.seq)
        (bodyLines (headerTags (items (textLines data))) (first :: rest)))) := by
  obtain ⟨first, rest, htake, -, rfl⟩ :=
    Collected.playlist_eq_some (playbackPlaylist_eq root data holdback ▸ hout)
  have hlisted : listedBlocks root (textLines data) holdback = first :: rest := htake
  refine ⟨first, rest, hlisted, ?_⟩
  have hclean := bodyLines_clean hcr (mem_segmentBlocks hlisted)
  exact congrArg (fun ls => asBytes (joinLines (insertLine (sequenceTag first.seq) ls)))
    (lines_joinLines_clean hclean)

theorem startsWith_sequenceTag (seq : ℕ) : startsWith MEDIA_SEQUENCE_TAG (sequenceTag seq) = true :=
  startsWith_iff.mpr ⟨_, rfl⟩

/-- One line is added to the body, and it is the only media sequence. -/
theorem derived_insertLine {header : List (List Char)} {ks : List KeptSegment} {seq : ℕ}
    (hseq : seq < 2 ^ 64) (hplain : ∀ line ∈ bodyLines header ks, IsPlain line)
    (hends : ∀ line ∈ bodyLines header ks, '\n' ∉ line ∧ '\r' ∉ line) :
    Derived header ks seq (insertLine (sequenceTag seq) (bodyLines header ks)) := by
  obtain ⟨as, bs, heq, hins⟩ := exists_insertLine (sequenceTag seq) (bodyLines header ks)
  have hkeep {ls : List (List Char)} (hls : ∀ line ∈ ls, line ∈ bodyLines header ks) :
      ls.filter (fun line => ¬ startsWith MEDIA_SEQUENCE_TAG line) = ls ∧
        ls.filter (startsWith MEDIA_SEQUENCE_TAG) = [] := by
    refine ⟨List.filter_eq_self.mpr fun line hl => ?_, List.filter_eq_nil_iff.mpr fun line hl => ?_⟩
    · simp [show startsWith MEDIA_SEQUENCE_TAG line = false from hplain line (hls line hl)]
    · simp [show startsWith MEDIA_SEQUENCE_TAG line = false from hplain line (hls line hl)]
  obtain ⟨has, has'⟩ := hkeep fun line hl => heq ▸ List.mem_append_left bs hl
  obtain ⟨hbs, hbs'⟩ := hkeep fun line hl => heq ▸ List.mem_append_right as hl
  have htag : sequenceTag seq = MEDIA_SEQUENCE_TAG ++ (toString seq).toList := by
    rw [sequenceTag, Nat.mod_eq_of_lt hseq]
  refine ⟨?_, ?_, fun htakes => ?_, ?_⟩
  · rw [hins, List.filter_append, has, List.filter_cons_of_neg (by simp [startsWith_sequenceTag]),
      hbs, ← heq]
    rfl
  · rw [hins, List.filter_append, has', List.filter_cons_of_pos (startsWith_sequenceTag seq), hbs',
      htag]
    rfl
  · rw [bodyLines, insertLine_append htakes]
    exact List.suffix_append _ _
  · intro line hl
    rw [hins] at hl
    rcases List.mem_append.mp hl with hl | hl
    · exact hends line (heq ▸ List.mem_append_left bs hl)
    rcases List.mem_cons.mp hl with rfl | hl
    · exact ⟨(sequenceTag_clean seq).2, (sequenceTag_clean seq).1⟩
    · exact hends line (heq ▸ List.mem_append_right as hl)

theorem listed_eq_map (root : Dir) (data : Bytes) (holdback : ℕ) :
    listed root data holdback = (listedBlocks root (textLines data) holdback).map entry :=
  listed_eq (collected_numbered data) root holdback

/-- Derivation is exact: of UTF-8 without stray carriage returns, whose numbers fit and whose
names do not read as tags, there is no playlist just when there is no `#EXTM3U` or nothing to
list, and otherwise it consists of the header and the listed segments with their tags. -/
theorem playlist_derivation (root : Dir) (data : Bytes) (holdback : ℕ) (s : List Char)
    (hutf8 : fromUtf8 data = some s) (hcrlf : OnlyCrlf s)
    (hmax : mediaSequence (lines s) + (segments data).length < 2 ^ 64)
    (hnames : ∀ name ∈ segments data, startsWith ['#'] name = false) :
    (playbackPlaylist root data holdback = none ↔
      (∀ line ∈ lines s, startsWith "#EXTM3U".toList line = false) ∨
        (present root data).length ≤ holdback) ∧
    ∀ out, playbackPlaylist root data holdback = some out →
      ∃ first rest ls, listedBlocks root (lines s) holdback = first :: rest ∧
        (first :: rest).map entry = listed root data holdback ∧
        out = asBytes (joinLines ls) ∧
        Derived (headerTags (items (lines s))) (first :: rest) first.seq ls := by
  have htext : textLines data = lines s := by
    rw [fromUtf8_eq_some.mp hutf8, textLines, fromUtf8Lossy_encodeUtf8]
  rw [← htext] at hmax ⊢
  have hcr : ∀ line ∈ textLines data, '\r' ∉ line := htext ▸ return_notMem_lines hcrlf
  refine ⟨playbackPlaylist_eq_none root data holdback, fun out hout => ?_⟩
  obtain ⟨first, rest, hlisted, rfl⟩ := exists_lines hcr hout
  have hentries := listed_eq_map root data holdback
  rw [hlisted] at hentries
  have hks := mem_segmentBlocks hlisted
  refine ⟨first, rest, _, hlisted, hentries.symm, rfl,
    derived_insertLine ?_ (bodyLines_plain hks hnames) (bodyLines_clean hcr hks)⟩
  have hfirst : entry first ∈ listed root data holdback := hentries ▸ List.mem_cons_self
  exact (number_lt (mem_numbered_of_listed hfirst).1).trans hmax

/-- Two segments, with carriage returns at some line ends. -/
def demoCrlf : List Char :=
  ("#EXTM3U\r\n#EXT-X-MEDIA-SEQUENCE:7\r\n#EXTINF:2,\r\na.ts\r\n" ++
    "\n#EXT-X-GAP\n#EXTINF:2,\nb.ts\n").toList

def demoSecond : KeptSegment := ⟨8, ["#EXT-X-GAP".toList, "#EXTINF:2,".toList], "b.ts".toList⟩

/-- The missing segment takes its tags with it; with nothing present there is no playlist. -/
theorem playlist_derivation_crlf :
    (∃ ls, playbackPlaylist (withFiles ["b.ts"]) (asBytes demoCrlf) 0 = some (asBytes (joinLines ls)) ∧
      Derived ["#EXTM3U".toList] [demoSecond] 8 ls) ∧
    playbackPlaylist (withFiles []) (asBytes demoCrlf) 0 = none := by
  have hutf8 : fromUtf8 (asBytes demoCrlf) = some demoCrlf := by rw [asBytes_eq, fromUtf8_encodeUtf8]
  have hcrlf : OnlyCrlf demoCrlf := by decide +kernel
  have hmax : mediaSequence (lines demoCrlf) + (segments (asBytes demoCrlf)).length < 2 ^ 64 := by
    decide +kernel
  have hnames : ∀ name ∈ segments (asBytes demoCrlf), startsWith ['#'] name = false := by
    decide +kernel
  constructor
  · obtain ⟨-, hsome⟩ := playlist_derivation (withFiles ["b.ts"]) (asBytes demoCrlf) 0 demoCrlf hutf8
      hcrlf hmax hnames
    cases hout : playbackPlaylist (withFiles ["b.ts"]) (asBytes demoCrlf) 0 with
    | none => exact absurd hout (by decide +kernel)
    | some out =>
      obtain ⟨first, rest, ls, hlisted, -, rfl, hderived⟩ := hsome out hout
      have hblocks : first :: rest = [demoSecond] := hlisted.symm.trans (by decide +kernel)
      obtain ⟨rfl, rfl⟩ := List.cons.inj hblocks
      have hheader : headerTags (items (lines demoCrlf)) = ["#EXTM3U".toList] := by decide +kernel
      exact ⟨ls, rfl, hheader ▸ hderived⟩
  · exact (playlist_derivation (withFiles []) (asBytes demoCrlf) 0 demoCrlf hutf8
      hcrlf hmax hnames).1.mpr (.inr (by decide +kernel))

end Qstream.Playlist

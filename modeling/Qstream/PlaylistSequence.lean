import Qstream.PlaylistReading

/-! The media sequence numbers of a playback playlist: its first number is right, and every
later position counts one up, also over a segment that is missing. -/
namespace Qstream.Playlist
open Text

/-! Increasing numbers without a gap. -/

theorem mem_bounds {l : List ℕ} {a b n : ℕ} (hs : l.Pairwise (· < ·)) (ha : l.head? = some a)
    (hb : l.getLast? = some b) (hn : n ∈ l) : a ≤ n ∧ n ≤ b := by
  constructor
  · obtain ⟨t, rfl⟩ := List.head?_eq_some_iff.mp ha
    rcases List.mem_cons.mp hn with rfl | hn
    · exact le_rfl
    · exact (List.rel_of_pairwise_cons hs hn).le
  · obtain ⟨t, rfl⟩ := List.getLast?_eq_some_iff.mp hb
    rcases List.mem_append.mp hn with hn | hn
    · exact ((List.pairwise_append.mp hs).2.2 n hn b (List.mem_singleton_self b)).le
    · exact (List.mem_singleton.mp hn).le

def mediaStep (seq : ℕ) (line : List Char) : ℕ :=
  match stripPrefix MEDIA_SEQUENCE_TAG line with
  | some rest => (parseU64 (trim rest)).getD 0
  | none => seq

theorem mediaSequence_eq (text : List (List Char)) : mediaSequence text = text.foldl mediaStep 0 :=
  rfl

/-- A line that is not a media sequence. -/
def IsPlain (line : List Char) : Prop := startsWith MEDIA_SEQUENCE_TAG line = false

theorem IsPlain.chomp {line : List Char} (h : IsPlain line) : IsPlain (chomp line) :=
  startsWith_chomp h

theorem foldl_mediaStep_plain {ls : List (List Char)} (h : ∀ line ∈ ls, IsPlain line) (seq : ℕ) :
    ls.foldl mediaStep seq = seq := by
  induction ls with
  | nil => rfl
  | cons line ls ih =>
    have hnone : stripPrefix MEDIA_SEQUENCE_TAG line = none :=
      if_neg fun hp => Bool.eq_false_iff.mp (h line List.mem_cons_self) (startsWith_iff.mpr hp)
    rw [List.foldl_cons, mediaStep, hnone]
    exact ih fun l hl => h l (List.mem_cons_of_mem _ hl)

/-- What is read of a media sequence that was written: itself, as long as it fits. -/
def reread (seq : ℕ) : ℕ := (parseU64 (toString (seq % 2 ^ 64)).toList).getD 0

theorem reread_eq_mod (seq : ℕ) : reread seq = seq % 2 ^ 64 := by
  rw [reread, parseU64_toString (Nat.mod_lt _ (by decide)), Option.getD_some]

theorem reread_eq {seq : ℕ} (h : seq < 2 ^ 64) : reread seq = seq := by
  rw [reread_eq_mod, Nat.mod_eq_of_lt h]

theorem mediaStep_sequenceTag (acc seq : ℕ) : mediaStep acc (sequenceTag seq) = reread seq := by
  have hsome : stripPrefix MEDIA_SEQUENCE_TAG (sequenceTag seq) =
      some (toString (seq % 2 ^ 64)).toList := by
    rw [stripPrefix, sequenceTag, if_pos (List.prefix_append _ _), List.drop_left]
  simp only [mediaStep, hsome, trim_toString, reread]

/-- The lines a reader of the written playlist sees. -/
def writtenLines (header : List (List Char)) (seq : ℕ) (kept : List KeptSegment) :
    List (List Char) := (insertLine (sequenceTag seq) ((bodyLines header kept).map chomp)).map chomp

theorem chomp_sequenceTag (seq : ℕ) : chomp (sequenceTag seq) = sequenceTag seq :=
  chomp_of_notMem (sequenceTag_clean seq).1

theorem isPlain_chomp_chomp {ls : List (List Char)} (h : ∀ line ∈ ls, IsPlain line) :
    ∀ line ∈ (ls.map chomp).map chomp, IsPlain line := by
  intro line hl
  obtain ⟨l1, hl1, rfl⟩ := List.mem_map.mp hl
  obtain ⟨l2, hl2, rfl⟩ := List.mem_map.mp hl1
  exact (h l2 hl2).chomp.chomp

theorem isPlain_bodyLines {header : List (List Char)} {kept : List KeptSegment}
    (hheader : ∀ line ∈ header, IsTag line)
    (hkept : ∀ k ∈ kept, IsName k.name ∧ ∀ line ∈ k.tags, IsTag line)
    (hnames : ∀ k ∈ kept, IsPlain k.name) : ∀ line ∈ bodyLines header kept, IsPlain line := by
  intro line hl
  rcases List.mem_append.mp hl with hl | hl
  · exact (hheader line hl).2.1
  obtain ⟨k, hk, hl⟩ := List.mem_flatMap.mp hl
  rcases List.mem_append.mp hl with hl | hl
  · exact ((hkept k hk).2 line hl).2.1
  · rw [List.mem_singleton.mp hl]
    exact hnames k hk

/-- The media sequence read is the one put in, unless a name poses as another one. -/
theorem mediaSequence_written {header : List (List Char)} {kept : List KeptSegment} (seq : ℕ)
    (hheader : ∀ line ∈ header, IsTag line)
    (hkept : ∀ k ∈ kept, IsName k.name ∧ ∀ line ∈ k.tags, IsTag line)
    (hnames : ∀ k ∈ kept, IsPlain k.name) :
    mediaSequence (writtenLines header seq kept) = reread seq := by
  obtain ⟨as, bs, heq, hins⟩ :=
    exists_insertLine (sequenceTag seq) ((bodyLines header kept).map chomp)
  have hplain := isPlain_chomp_chomp (isPlain_bodyLines hheader hkept hnames)
  rw [heq, List.map_append] at hplain
  rw [mediaSequence_eq, writtenLines, hins, List.map_append, List.map_cons, List.foldl_append,
    List.foldl_cons, chomp_sequenceTag, mediaStep_sequenceTag]
  exact foldl_mediaStep_plain (fun l hl => hplain l (List.mem_append_right _ hl)) _

/-! The playlist that is written against what it should list. -/

theorem map_snd_numbered (data : Bytes) : (numbered data).map Prod.snd =
    List.range' (mediaSequence (textLines data)) (segments data).length :=
  List.zipIdx_map_snd _ _

theorem numbered_increasing (data : Bytes) :
    ((numbered data).map Prod.snd).Pairwise (· < ·) := by
  rw [map_snd_numbered]
  exact List.pairwise_lt_range'

theorem present_increasing (root : Dir) (data : Bytes) :
    ((present root data).map Prod.snd).Pairwise (· < ·) :=
  (numbered_increasing data).sublist (List.filter_sublist.map _)

theorem listed_isPrefix (root : Dir) (data : Bytes) (holdback : ℕ) :
    listed root data holdback <+: present root data := List.take_prefix _ _

theorem listed_increasing (root : Dir) (data : Bytes) (holdback : ℕ) :
    ((listed root data holdback).map Prod.snd).Pairwise (· < ·) :=
  (present_increasing root data).sublist ((listed_isPrefix root data holdback).sublist.map _)

/-- A playlist is written when there is something to list, under the number of the first
present segment. -/
theorem Collected.playlist_eq_some {c : Collected} {root : Dir} {holdback : ℕ} {out : Bytes}
    (h : c.playlist root holdback = some out) :
    ∃ first rest, (c.segments.filter (isKept root)).take
        ((c.segments.filter (isKept root)).length - holdback) = first :: rest ∧
      c.sawM3u = true ∧ out = asBytes (joinLines (insertLine (sequenceTag first.seq)
        (lines (joinLines (bodyLines c.header (first :: rest)))))) := by
  unfold Collected.playlist at h
  dsimp only at h
  generalize c.segments.filter (isKept root) = kept at h ⊢
  cases kept with
  | nil => cases h
  | cons first rest =>
    dsimp only at h
    split at h
    next => cases h
    next hok =>
      obtain ⟨hm3u, hcount⟩ := not_or.mp hok
      obtain ⟨n, hn⟩ := Nat.exists_eq_succ_of_ne_zero hcount
      rw [hn, List.take_succ_cons] at h ⊢
      exact ⟨first, rest.take n, rfl, by simpa using hm3u, (Option.some.inj h).symm⟩

theorem listed_eq {c : Collected} {data : Bytes} (hmap : c.segments.map entry = numbered data)
    (root : Dir) (holdback : ℕ) :
    listed root data holdback = ((c.segments.filter (isKept root)).take
      ((c.segments.filter (isKept root)).length - holdback)).map entry := by
  have hpresent : present root data = (c.segments.filter (isKept root)).map entry := by
    rw [present, ← hmap, List.filter_map]
    rfl
  rw [listed, hpresent, List.length_map, List.map_take]

theorem Collected.playlist_isSome {c : Collected} {root : Dir} {holdback : ℕ}
    (hm3u : c.sawM3u = true) (hne : (c.segments.filter (isKept root)).take
      ((c.segments.filter (isKept root)).length - holdback) ≠ []) :
    ∃ out, c.playlist root holdback = some out := by
  unfold Collected.playlist
  dsimp only
  generalize c.segments.filter (isKept root) = kept at hne ⊢
  cases kept with
  | nil => exact absurd List.take_nil hne
  | cons first rest =>
    have hcount : (first :: rest).length - holdback ≠ 0 := fun h => hne (by rw [h, List.take_zero])
    dsimp only
    rw [if_neg (not_or.mpr ⟨by simp [hm3u], hcount⟩)]
    exact ⟨_, rfl⟩

theorem mem_numbered_of_listed {root : Dir} {data : Bytes} {holdback : ℕ} {s : List Char × ℕ}
    (h : s ∈ listed root data holdback) : s ∈ numbered data ∧ isPresent root s = true :=
  List.mem_filter.mp ((listed_isPrefix root data holdback).mem h)

theorem isPlain_of_not_tag {name : List Char} (h : startsWith ['#'] name = false) :
    IsPlain name := by
  have htag : ['#'] <+: MEDIA_SEQUENCE_TAG := by decide
  refine Bool.eq_false_iff.mpr fun hms => Bool.eq_false_iff.mp h ?_
  exact startsWith_iff.mpr (htag.trans (startsWith_iff.mp hms))

theorem number_lt {data : Bytes} {s : List Char × ℕ} (hs : s ∈ numbered data) :
    s.2 < mediaSequence (textLines data) + (segments data).length :=
  (List.mem_range'_1.mp (map_snd_numbered data ▸ List.mem_map_of_mem hs)).2

/-- What a playlist says: the names that are not read as tags, and, unless a name poses as the
media sequence, the number of the first one. -/
theorem read_playlist {root : Dir} {data : Bytes} {holdback : ℕ} {out : Bytes}
    (hout : playbackPlaylist root data holdback = some out) :
    ∃ first, (listed root data holdback).head? = some first ∧
      segments out = ((listed root data holdback).map Prod.fst).filter
        (fun name => ¬ startsWith ['#'] name) ∧
      ((∀ s ∈ listed root data holdback, IsPlain s.1) →
        mediaSequence (textLines out) = reread first.2) := by
  obtain ⟨c, hplay, hmap, hheader, hclean⟩ := exists_playlist data
  obtain ⟨first, rest, htake, -, rfl⟩ := Collected.playlist_eq_some (hplay root holdback ▸ hout)
  have hlisted := listed_eq hmap root holdback
  rw [htake] at hlisted
  have hkept : ∀ k ∈ first :: rest, IsName k.name ∧ ∀ line ∈ k.tags, IsTag line := by
    intro k hk
    rw [← htake] at hk
    exact hclean k (List.mem_of_mem_filter (List.mem_of_mem_take hk))
  have hfirst : (listed root data holdback).head? = some (entry first) := by rw [hlisted]; rfl
  refine ⟨entry first, hfirst, ?_, fun hplain => ?_⟩
  · rw [segments_written first.seq hheader hkept, hlisted, List.map_map]
    rfl
  · rw [textLines_written first.seq hheader hkept]
    refine mediaSequence_written first.seq hheader hkept fun k hk => ?_
    exact hplain (entry k) (hlisted ▸ List.mem_map_of_mem hk)

/-- A directory with the given files. -/
def withFiles (names : List String) : Dir :=
  ⟨names.foldl (fun entries name => entries.insert name (.file [] true 0)) ∅, ["srv"],
    fun _ => none⟩

/-- Three segments from number 100 on. -/
def threeSegments : Bytes :=
  "#EXTM3U\n#EXT-X-MEDIA-SEQUENCE:100\na.ts\nb.ts\nc.ts\n".toUTF8.toList

def playlistOf (names : List String) : Bytes :=
  (playbackPlaylist (withFiles names) threeSegments 0).getD []

end Qstream.Playlist

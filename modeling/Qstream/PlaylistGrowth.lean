import Qstream.PlaylistSequence
import Qstream.Runs

/-! The playlists of one manifest while files are added to the directory, in whatever order. -/
namespace Qstream.Playlist
open Text Runs

/-- The given names come to name files, and all that named one before still do. -/
def Added (root : Dir) (names : Set String) (root' : Dir) : Prop :=
  ∀ name, root'.isFile name = true ↔ root.isFile name = true ∨ name ∈ names

/-- No added file is a segment which the manifest has before the last one listed. -/
def Appends (data : Bytes) (holdback : ℕ) (root : Dir) (names : Set String) : Prop :=
  ∀ s ∈ numbered data, String.ofList s.1 ∈ names → isPresent root s = false →
    ∀ b ∈ (listed root data holdback).getLast?, b.2 < s.2

/-- Playback goes forward from one playlist to another: its media sequence does not decrease, and
the segments listed first are listed again in front. -/
def Forward (out out' : Bytes) : Prop :=
  mediaSequence (textLines out) ≤ mediaSequence (textLines out') ∧ segments out <+: segments out'

/-- A prefix of what is kept of an increasing list stays one when what is kept besides comes
after it. -/
theorem prefix_filter {l : List (List Char × ℕ)} (hinc : (l.map Prod.snd).Pairwise (· < ·))
    {p q : List Char × ℕ → Bool} {L : List (List Char × ℕ)} (hL : L <+: l.filter p)
    (hpq : ∀ s ∈ l, p s = true → q s = true)
    (hnew : ∀ s ∈ l, q s = true → p s = false → ∀ t ∈ L, t.2 < s.2) : L <+: l.filter q := by
  induction l generalizing L with
  | nil => exact hL
  | cons s l ih =>
    obtain ⟨hbefore, htail⟩ := List.pairwise_cons.mp hinc
    have hpq' : ∀ t ∈ l, p t = true → q t = true := fun t ht => hpq t (List.mem_cons_of_mem _ ht)
    have hnew' {L' : List (List Char × ℕ)} (hsub : ∀ t ∈ L', t ∈ L) :
        ∀ t ∈ l, q t = true → p t = false → ∀ u ∈ L', u.2 < t.2 :=
      fun t ht hq hp u hu => hnew t (List.mem_cons_of_mem _ ht) hq hp u (hsub u hu)
    by_cases hp : p s = true
    · have hq := hpq s List.mem_cons_self hp
      rw [List.filter_cons_of_pos hp] at hL
      rw [List.filter_cons_of_pos hq]
      cases L with
      | nil => exact List.nil_prefix
      | cons t L =>
        obtain ⟨rfl, hrest⟩ := List.cons_prefix_cons.mp hL
        exact List.cons_prefix_cons.mpr
          ⟨rfl, ih htail hrest hpq' (hnew' fun _ => List.mem_cons_of_mem _)⟩
    · rw [List.filter_cons_of_neg hp] at hL
      by_cases hq : q s = true
      · -- a kept element in front of the prefix leaves no room for the prefix
        cases L with
        | nil => exact List.nil_prefix
        | cons t L =>
          have ht : t ∈ l := List.mem_of_mem_filter (hL.mem List.mem_cons_self)
          have hlt := hnew s List.mem_cons_self hq (Bool.eq_false_iff.mpr hp) t List.mem_cons_self
          have hgt := hbefore t.2 (List.mem_map_of_mem ht)
          omega
      · rw [List.filter_cons_of_neg hq]
        exact ih htail hL hpq' (hnew' fun _ => id)

theorem Added.isPresent {root root' : Dir} {names : Set String} (h : Added root names root')
    {s : List Char × ℕ} (hs : isPresent root s = true) : isPresent root' s = true :=
  (h _).mpr (.inl hs)

/-- What is listed stays in front when the added files come after it. -/
theorem listed_prefix_of_added {root root' : Dir} {names : Set String} {data : Bytes}
    {holdback : ℕ} (h : Added root names root') (happ : Appends data holdback root names) :
    listed root data holdback <+: listed root' data holdback := by
  have hsub : (present root data).length ≤ (present root' data).length :=
    (List.monotone_filter_right _ fun s => h.isPresent).length_le
  have hlen : (listed root data holdback).length ≤ (present root' data).length - holdback := by
    rw [listed, List.length_take]
    omega
  refine List.prefix_take_iff.mpr ⟨?_, hlen⟩
  refine prefix_filter (numbered_increasing data) (listed_isPrefix root data holdback)
    (fun s _ => h.isPresent) fun s hs hq hp t ht => ?_
  have hname : String.ofList s.1 ∈ names := by
    refine ((h _).mp hq).resolve_left fun hfile => ?_
    exact Bool.eq_false_iff.mp hp hfile
  obtain ⟨b, hb⟩ : ∃ b, (listed root data holdback).getLast? = some b :=
    ⟨_, List.getLast?_eq_some_getLast (List.ne_nil_of_mem ht)⟩
  obtain ⟨a, ha⟩ : ∃ a, (listed root data holdback).head? = some a :=
    ⟨_, List.head?_eq_some_head (List.ne_nil_of_mem ht)⟩
  have hlast := (mem_bounds (listed_increasing root data holdback) (a := a.2) (b := b.2)
    (by rw [List.head?_map, ha]; rfl) (by rw [List.getLast?_map, hb]; rfl)
    (List.mem_map_of_mem ht)).2
  exact hlast.trans_lt (happ s hs hname hp b hb)

theorem Forward.trans {out out' out'' : Bytes} (h : Forward out out') (h' : Forward out' out'') :
    Forward out out'' := ⟨h.1.trans h'.1, h.2.trans h'.2⟩

theorem present_subset {root root' : Dir} {names : Set String} (data : Bytes)
    (h : Added root names root') : ∀ s ∈ present root data, s ∈ present root' data := by
  intro s hs
  obtain ⟨hmem, hp⟩ := List.mem_filter.mp hs
  exact List.mem_filter.mpr ⟨hmem, h.isPresent hp⟩

/-- Adding files that come after everything listed moves playback forward. -/
theorem forward_of_added {root root' : Dir} {names : Set String} {data : Bytes} {holdback : ℕ}
    (h : Added root names root') (happ : Appends data holdback root names)
    (hplain : ∀ s ∈ present root' data, IsPlain s.1) {out : Bytes}
    (hout : playbackPlaylist root data holdback = some out) :
    ∃ out', playbackPlaylist root' data holdback = some out' ∧ Forward out out' := by
  have hpre := listed_prefix_of_added h happ
  obtain ⟨first, hfirst, hsegments, hmedia⟩ := read_playlist hout
  have hfirst' : (listed root' data holdback).head? = some first := by
    obtain ⟨rest, hrest⟩ := List.head?_eq_some_iff.mp hfirst
    obtain ⟨more, hmore⟩ := hpre
    rw [← hmore, hrest]
    rfl
  obtain ⟨out', hout'⟩ : ∃ out', playbackPlaylist root' data holdback = some out' := by
    obtain ⟨c, hplay, hmap, -⟩ := exists_playlist data
    obtain ⟨-, -, -, hm3u, -⟩ := Collected.playlist_eq_some (hplay root holdback ▸ hout)
    rw [hplay]
    refine Collected.playlist_isSome hm3u fun hnil => ?_
    rw [listed_eq hmap, hnil] at hfirst'
    cases hfirst'
  obtain ⟨first', heq, hsegments', hmedia'⟩ := read_playlist hout'
  obtain rfl : first = first' := Option.some.inj (hfirst'.symm.trans heq)
  have hlisted' : ∀ s ∈ listed root' data holdback, IsPlain s.1 :=
    fun s hs => hplain s ((listed_isPrefix root' data holdback).mem hs)
  refine ⟨out', hout', ?_, ?_⟩
  · rw [hmedia fun s hs => hlisted' s (hpre.mem hs), hmedia' hlisted']
  · rw [hsegments, hsegments']
    exact (hpre.map Prod.fst).filter _

/-- While files are added and none of them is a segment before the last one listed, playback goes
forward from any moment to any later one, unless a present name poses as a media sequence. -/
theorem playback_forward (data : Bytes) (holdback : ℕ) {root root' : Dir}
    {added : List (Set String)}
    (h : Run (guarded (Appends data holdback) Added) root added root')
    (hplain : ∀ s ∈ present root' data, IsPlain s.1) {out : Bytes}
    (hout : playbackPlaylist root data holdback = some out) :
    ∃ out', playbackPlaylist root' data holdback = some out' ∧ Forward out out' := by
  induction h generalizing out with
  | nil => exact ⟨out, hout, le_rfl, List.prefix_rfl⟩
  | cons hstep hrest ih =>
    rename_i r t u names es
    have hpresent : ∀ s ∈ present t data, s ∈ present u data :=
      hrest.invariant (I := fun v => ∀ s ∈ present t data, s ∈ present v data)
        (fun _ _ _ hv hst s hs => present_subset data hst.2 s (hv s hs)) fun _ hs => hs
    obtain ⟨out1, hout1, hfwd⟩ := forward_of_added hstep.2 hstep.1
      (fun s hs => hplain s (hpresent s hs)) hout
    obtain ⟨out2, hout2, hfwd'⟩ := ih hplain hout1
    exact ⟨out2, hout2, hfwd.trans hfwd'⟩

/-- A new file is found under its name, and under every other name that leads to it. -/
theorem added_write (root : Dir) {name : String} (hnew : root.entries.lookup name = none)
    (data : Bytes) (wall : ℕ) :
    Added root {x | (root.write name data wall).isFile x = true} (root.write name data wall) := by
  intro x
  refine ⟨.inr, fun h => h.elim (fun hfile => ?_) id⟩
  have hmore : ∀ child e, root.entries.lookup child = some e →
      (root.write name data wall).entries.lookup child = some e := by
    intro child e he
    have hne : child ≠ name := by
      rintro rfl
      simp [hnew] at he
    rw [Dir.write, HashMap.lookup_insert', if_neg hne, he]
  unfold Dir.isFile at hfile ⊢
  split at hfile
  next heq => rw [Dir.lookup_of_fewer (d := root.write name data wall) hmore heq]
  next => cases hfile

theorem playback_forward_newest :
    ∃ out', playbackPlaylist (withFiles ["a.ts", "b.ts"]) threeSegments 0 = some out' ∧
      Forward (playlistOf ["a.ts"]) out' := by
  have hstep : guarded (Appends threeSegments 0) Added (withFiles ["a.ts"])
      {x | (withFiles ["a.ts", "b.ts"]).isFile x = true} (withFiles ["a.ts", "b.ts"]) :=
    ⟨by unfold Appends; decide +kernel, added_write (withFiles ["a.ts"]) (by decide) [] 0⟩
  exact playback_forward threeSegments 0 (.one hstep) (by unfold IsPlain; decide +kernel)
    (by decide +kernel)

/-- A segment that, trimmed, reads as a media sequence. -/
def posingSegment : Bytes :=
  "#EXTM3U\n#EXT-X-MEDIA-SEQUENCE:9\na.ts\n #EXT-X-MEDIA-SEQUENCE:5\n".toUTF8.toList

/-- The newest segment comes first and an older one after it: the media sequence falls from 102 to
100, and what was listed is not listed in front. A segment that poses as a media sequence lowers
it, too. -/
theorem older_segment_moves_back :
    Run Added (withFiles ["c.ts"]) [{x | (withFiles ["c.ts", "a.ts"]).isFile x = true}]
        (withFiles ["c.ts", "a.ts"]) ∧
      playbackPlaylist (withFiles ["c.ts"]) threeSegments 0 = some (playlistOf ["c.ts"]) ∧
      playbackPlaylist (withFiles ["c.ts", "a.ts"]) threeSegments 0 =
        some (playlistOf ["c.ts", "a.ts"]) ∧
      numbered (playlistOf ["c.ts"]) = [("c.ts".toList, 102)] ∧
      numbered (playlistOf ["c.ts", "a.ts"]) = [("a.ts".toList, 100), ("c.ts".toList, 101)] ∧
      ¬ Forward (playlistOf ["c.ts"]) (playlistOf ["c.ts", "a.ts"]) ∧
      (playbackPlaylist (withFiles ["a.ts"]) posingSegment 0).map numbered =
        some [("a.ts".toList, 9)] ∧
      (playbackPlaylist (withFiles ["a.ts", "#EXT-X-MEDIA-SEQUENCE:5"]) posingSegment 0).map
        numbered = some [("a.ts".toList, 5)] := by
  refine ⟨.one (added_write (withFiles ["c.ts"]) (by decide) [] 0), by decide +kernel,
    by decide +kernel, by decide +kernel, by decide +kernel, fun h => ?_, by decide +kernel,
    by decide +kernel⟩
  exact absurd h.1 (by decide +kernel)

end Qstream.Playlist

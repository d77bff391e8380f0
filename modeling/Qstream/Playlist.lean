import Qstream.Storage

/-! The playlist a player gets: the synced manifest cut down to the segments that are
present, less the newest few. -/
namespace Qstream
open Text

/-- A kept segment: its media sequence number, the tag lines before it, its name. -/
structure KeptSegment where
  seq : ℕ
  tags : List (List Char)
  name : List Char
  deriving DecidableEq, Repr

/-- What `playback_playlist` carries from line to line. -/
structure PlaylistScan where
  seq : ℕ
  header : List (List Char)
  pending : List (List Char)
  kept : List KeptSegment
  sawM3u : Bool
  sawSegmentTag : Bool
  deriving DecidableEq, Repr

def MEDIA_SEQUENCE_TAG : List Char := "#EXT-X-MEDIA-SEQUENCE:".toList

/-- The media sequence of the manifest: the last such tag, 0 when it does not parse. -/
def mediaSequence (text : List (List Char)) : ℕ :=
  text.foldl (fun seq line => match stripPrefix MEDIA_SEQUENCE_TAG line with
    | some rest => (parseU64 (trim rest)).getD 0
    | none => seq) 0

def PlaylistScan.start (seq : ℕ) : PlaylistScan := ⟨seq, [], [], [], false, false⟩

def PlaylistScan.line (root : Dir) (s : PlaylistScan) (line : List Char) : PlaylistScan :=
  if startsWith ['#'] line then
    if startsWith MEDIA_SEQUENCE_TAG line then s
    else
      let s := { s with
        sawM3u := s.sawM3u || startsWith "#EXTM3U".toList line
        sawSegmentTag := s.sawSegmentTag || startsWith "#EXTINF:".toList line }
      if s.sawSegmentTag then { s with pending := s.pending ++ [line] }
      else { s with header := s.header ++ [line] }
  else
    let name := trim line
    if name = [] then s
    else if root.isFile (String.ofList name) then
      { s with kept := s.kept ++ [⟨s.seq, s.pending, name⟩], pending := [], seq := s.seq + 1 }
    else { s with pending := [], seq := s.seq + 1 }

/-- Put `insert` after the first header line of the playlist, or at its end. -/
def insertSequence (insert : List Char) : List (List Char) → List Char
  | [] => insert
  | line :: rest =>
    if startsWith "#EXTM3U".toList line ∨ startsWith "#EXT-X-VERSION:".toList line then
      line ++ ['\n'] ++ insert ++ rest.flatMap fun l => l ++ ['\n']
    else line ++ ['\n'] ++ insertSequence insert rest

/-- The player-facing playlist; `none` when too few segments are present. -/
def playbackPlaylist (root : Dir) (data : Bytes) (holdbackSegments : ℕ) : Option Bytes :=
  let text := lines (fromUtf8Lossy data)
  let scan := text.foldl (PlaylistScan.line root) (.start (mediaSequence text))
  let keepCount := scan.kept.length - holdbackSegments
  match scan.kept with
  | [] => none
  | first :: _ =>
    if scan.sawM3u = false ∨ keepCount = 0 then none
    else
      let body := (scan.header.flatMap fun tag => tag ++ ['\n']) ++
        ((scan.kept.take keepCount).flatMap fun k =>
          (k.tags.flatMap fun tag => tag ++ ['\n']) ++ k.name ++ ['\n'])
      -- the counter is a `u64` and wraps; here it counts on and is reduced when it is written
      let insert := MEDIA_SEQUENCE_TAG ++ (toString (first.seq % 2 ^ 64)).toList ++ ['\n']
      some (asBytes (insertSequence insert (lines body)))

end Qstream

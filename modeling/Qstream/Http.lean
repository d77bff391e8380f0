import Qstream.Playlist
import Qstream.Storage

/-! The HTTP side of a node: one request, read and answered from the segment root. The log
lines are left out, and with them the manifest that is read for one of them. -/
namespace Qstream
open Text

def MAX_REQUEST_BYTES : ℕ := 8192

/-- What the node shares with the statistics pages. -/
structure StatsSnapshot where
  lines : List String
  json : String
  metrics : String
  deriving DecidableEq, Repr

/-- What `respond` is called with; a response to HEAD has no body on the wire. -/
structure Response where
  status : ℕ
  reason : String
  mime : String
  body : Bytes
  headOnly : Bool
  deriving DecidableEq, Repr

/-- The bytes written to the connection. -/
def Response.written (r : Response) : Bytes :=
  asBytes ("HTTP/1.1 " ++ toString r.status ++ " " ++ r.reason ++ "\r\nContent-Type: " ++ r.mime ++
    "\r\nContent-Length: " ++ toString r.body.length ++
    "\r\nConnection: close\r\n\r\n").toList ++ if r.headOnly then [] else r.body

/-- The loop that reads the head of the request; `none` when the connection ends first. -/
def readHead (buf : Bytes) : List Bytes → Option Bytes
  | [] => none
  | chunk :: rest =>
    if chunk = [] then none
    else
      let buf := buf ++ chunk
      if [0x0D, 0x0A, 0x0D, 0x0A] <:+: buf ∨ buf.length ≥ MAX_REQUEST_BYTES then some buf
      else readHead buf rest

/-- `split_whitespace`: `word` is the word being read. -/
def splitWhitespace (word : List Char) : List Char → List (List Char)
  | [] => if word = [] then [] else [word]
  | c :: cs =>
    if isWhitespace c then
      if word = [] then splitWhitespace [] cs else word :: splitWhitespace [] cs
    else splitWhitespace (word ++ [c]) cs

/-- The first two words of the request line, empty when they are missing. -/
def requestLine (buf : Bytes) : List Char × List Char :=
  let parts := splitWhitespace [] ((lines (fromUtf8Lossy buf)).headD [])
  (parts.headD [], parts.tail.headD [])

/-- The target without its query and without leading slashes. -/
def targetName (target : List Char) : String :=
  String.ofList ((target.takeWhile (· ≠ '?')).dropWhile (· = '/'))

def endsWith (suffix name : String) : Bool := suffix.toList <:+ name.toList

def mimeOf (name : String) : String :=
  if endsWith ".m3u8" name then "application/vnd.apple.mpegurl"
  else if endsWith ".ts" name then "video/mp2t"
  else if endsWith ".mp4" name then "video/mp4"
  else "application/octet-stream"

/-- The playlist cut down to the segments that are present, or all of it. -/
def filterPlaylist (root : Dir) (data : Bytes) : Bytes := (playbackPlaylist root data 0).getD data

def textBytes (s : String) : Bytes := asBytes s.toList

def notFoundResponse (headOnly : Bool) : Response :=
  ⟨404, "Not Found", "text/plain", textBytes "not found\n", headOnly⟩

/-- The statistics pages and the health check. -/
def statsRoute (stats : Option StatsSnapshot) (name : String) (headOnly : Bool) :
    Option Response :=
  match stats with
  | some g =>
    if name = "peers" then
      let body := "\n".intercalate g.lines
      some ⟨200, "OK", "text/plain",
        textBytes (if body = "" then "node stats not ready\n" else body ++ "\n"), headOnly⟩
    else if name = "stats" then
      some ⟨200, "OK", "application/json",
        textBytes (if g.json = "" then "\x7b\x7d" else g.json ++ "\n"), headOnly⟩
    else if name = "metrics" then
      some ⟨200, "OK", "text/plain; version=0.0.4",
        textBytes (if g.metrics = "" then "" else g.metrics ++ "\n"), headOnly⟩
    else if name = "health" then
      some ⟨200, "OK", "text/plain", textBytes "ok\n", headOnly⟩
    else none
  | none =>
    if name = "health" then some ⟨200, "OK", "text/plain", textBytes "ok\n", headOnly⟩ else none

/-- A file of the segment root. -/
def fileRoute (root : Dir) (name : String) (headOnly : Bool) : Response :=
  if ¬ validFilename name then notFoundResponse headOnly
  else match root.read name with
    | some data =>
      ⟨200, "OK", mimeOf name, if endsWith ".m3u8" name then filterPlaylist root data else data,
        headOnly⟩
    | none => notFoundResponse headOnly

/-- One connection: what is answered to the chunks that arrive, if anything. -/
def handleConnection (root : Dir) (stats : Option StatsSnapshot) (chunks : List Bytes) :
    Option Response :=
  (readHead [] chunks).map fun buf =>
    let (method, target) := requestLine buf
    let headOnly : Bool := method = "HEAD".toList
    if method ≠ "GET".toList ∧ method ≠ "HEAD".toList then
      ⟨405, "Method Not Allowed", "text/plain", textBytes "method not allowed\n", false⟩
    else
      let name := targetName target
      (statsRoute stats name headOnly).getD (fileRoute root name headOnly)

/-- A request is answered without the files, or as one file of the segment root. -/
theorem handleConnection_cases (stats : Option StatsSnapshot) (chunks : List Bytes) :
    (∃ answer, ∀ root, handleConnection root stats chunks = answer) ∨
    ∃ name headOnly, ∀ root,
      handleConnection root stats chunks = some (fileRoute root name headOnly) := by
  simp only [handleConnection]
  cases readHead [] chunks with
  | none => exact .inl ⟨none, fun _ => rfl⟩
  | some buf =>
    simp only [Option.map_some]
    split
    next => exact .inl ⟨_, fun _ => rfl⟩
    next =>
    cases hroute : statsRoute stats (targetName (requestLine buf).2)
        (decide ((requestLine buf).1 = "HEAD".toList)) with
    | some answer => exact .inl ⟨some answer, fun _ => rfl⟩
    | none => exact .inr ⟨_, _, fun _ => rfl⟩

/-- A file route answers 404 or with a file it was allowed to name. -/
theorem fileRoute_cases (root : Dir) (name : String) (headOnly : Bool) :
    fileRoute root name headOnly = notFoundResponse headOnly ∨
    ∃ data, validFilename name = true ∧ root.read name = some data ∧
      ((fileRoute root name headOnly).body = data ∨
        (fileRoute root name headOnly).body = filterPlaylist root data) := by
  unfold fileRoute
  split
  next => exact .inl rfl
  next hvalid =>
  split
  next data hread =>
    refine .inr ⟨data, not_not.mp hvalid, hread, ?_⟩
    by_cases hplaylist : endsWith ".m3u8" name = true
    · exact .inr (if_pos hplaylist)
    · exact .inl (if_neg hplaylist)
  next => exact .inl rfl

/-- The playlist looks at the files' presence only. -/
theorem playbackPlaylist_congr {root root' : Dir} (h : ∀ name, root.isFile name = root'.isFile name)
    (data : Bytes) (holdback : ℕ) :
    playbackPlaylist root data holdback = playbackPlaylist root' data holdback := by
  have hline : PlaylistScan.line root = PlaylistScan.line root' := by
    funext s line
    simp only [PlaylistScan.line, h]
  simp only [playbackPlaylist, hline]

theorem fileRoute_congr {root root' : Dir} (hfile : ∀ name, root.isFile name = root'.isFile name)
    (hchild : ∀ name, plainName name = true → root.lookup name = root'.lookup name)
    (name : String) (headOnly : Bool) :
    fileRoute root name headOnly = fileRoute root' name headOnly := by
  unfold fileRoute
  by_cases hvalid : validFilename name = true
  · have hread : root.read name = root'.read name := by
      simp only [Dir.read, hchild name (plainName_of_validFilename hvalid)]
    simp only [hread, filterPlaylist, playbackPlaylist_congr hfile]
  · rw [if_pos hvalid, if_pos hvalid]

example : targetName "//live.m3u8?x=../y".toList = "live.m3u8" := by decide +kernel

example : (handleConnection ⟨∅, ["srv"], fun _ => some (.file [1] true 0)⟩ none
    [textBytes "GET /../key HTTP/1.1\r\n\r\n"]).map Response.status = some 404 := by decide +kernel

end Qstream

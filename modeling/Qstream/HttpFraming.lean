import Qstream.Http
import Qstream.HttpMessage
import Qstream.TextLines
import Qstream.TextUtf8

/-! Responses as a client reads them: each is one message, and its length says where it ends. -/
namespace Qstream
open Text HttpMessage

theorem textBytes_append (s t : String) : textBytes (s ++ t) = textBytes s ++ textBytes t := by
  simp only [textBytes, asBytes_eq, encodeUtf8, String.toList_append, List.flatMap_append]

/-- A byte below 128 stands for its character only. -/
theorem toNat_of_mem_encode {b : UInt8} {c : Char} (hb : b.toNat < 128)
    (h : b ∈ String.utf8EncodeChar c) : c.toNat = b.toNat := by
  rw [encode_of_toNat] at h
  split at h
  · obtain rfl := List.mem_singleton.mp h
    rw [UInt8.toNat_ofNat']
    omega
  split at h
  · simp only [List.mem_cons, List.not_mem_nil, or_false] at h
    rcases h with rfl | rfl <;> rw [UInt8.toNat_ofNat'] at hb <;> omega
  split at h
  · simp only [List.mem_cons, List.not_mem_nil, or_false] at h
    rcases h with rfl | rfl | rfl <;> rw [UInt8.toNat_ofNat'] at hb <;> omega
  · simp only [List.mem_cons, List.not_mem_nil, or_false] at h
    rcases h with rfl | rfl | rfl | rfl <;> rw [UInt8.toNat_ofNat'] at hb <;> omega

/-- A string without carriage returns has no such byte. -/
theorem cr_not_mem_textBytes {s : String} (h : '\r' ∉ s.toList) : CR ∉ textBytes s := by
  intro hmem
  rw [textBytes, asBytes_eq] at hmem
  obtain ⟨c, hc, hbyte⟩ := List.mem_flatMap.mp hmem
  have hcr : c = '\r' := Char.toNat_inj.mp (toNat_of_mem_encode (by decide) hbyte)
  exact h (hcr ▸ hc)

theorem cr_not_mem_toString (n : ℕ) : '\r' ∉ (toString n).toList := fun h =>
  absurd (isAsciiDigit_of_mem_toString h) (by decide)

theorem digit_of_mem_toDigits {n : ℕ} {c : Char} (h : c ∈ Nat.toDigits 10 n) :
    48 ≤ c.toNat ∧ c.toNat ≤ 57 :=
  Char.isDigit_iff_toNat.mp (Nat.isDigit_of_mem_toDigits (by decide) le_rfl h)

theorem textBytes_toString (n : ℕ) :
    textBytes (toString n) = (Nat.toDigits 10 n).map fun c => UInt8.ofNat c.toNat := by
  rw [textBytes, asBytes_eq, Nat.toString_eq_ofList_toDigits, String.toList_ofList, encodeUtf8,
    List.map_eq_flatMap]
  refine List.flatMap_congr fun c hc => ?_
  have hdigit := digit_of_mem_toDigits hc
  rw [encode_of_toNat, if_pos (by omega)]

theorem readNat_textBytes (n : ℕ) : readNat (textBytes (toString n)) = some n := by
  have hbyte : ∀ c ∈ Nat.toDigits 10 n, (UInt8.ofNat c.toNat).toNat = c.toNat := by
    intro c hc
    rw [UInt8.toNat_ofNat']
    have hdigit := digit_of_mem_toDigits hc
    omega
  rw [textBytes_toString, readNat, if_pos, List.foldl_map]
  · have hread := Nat.ofDigitChars_ten_toDigits (n := n)
    rw [Nat.ofDigitChars_eq_foldl] at hread
    refine (congrArg some ?_).trans (congrArg some hread)
    refine List.foldl_ext _ _ 0 fun k c hc => ?_
    rw [hbyte c hc, Nat.mul_comm]
    rfl
  · refine ⟨by simp [Nat.toDigits_ne_nil], fun d hd => ?_⟩
    obtain ⟨c, hc, rfl⟩ := List.mem_map.mp hd
    rw [UInt8.le_iff_toNat_le, UInt8.le_iff_toNat_le, hbyte c hc]
    exact digit_of_mem_toDigits hc

/-- A response as a frame. -/
def Response.frame (r : Response) : Frame where
  start := textBytes ("HTTP/1.1 " ++ toString r.status ++ " " ++ r.reason)
  fields := [(textBytes "Content-Type", textBytes r.mime),
    (textBytes "Content-Length", textBytes (toString r.body.length)),
    (textBytes "Connection", textBytes "close")]
  body := r.body

theorem Response.written_eq (r : Response) :
    r.written = r.frame.head ++ if r.headOnly then [] else r.body := by
  have hhead : asBytes ("HTTP/1.1 " ++ toString r.status ++ " " ++ r.reason ++
      "\r\nContent-Type: " ++ r.mime ++ "\r\nContent-Length: " ++ toString r.body.length ++
      "\r\nConnection: close\r\n\r\n").toList = r.frame.head := by
    have htype : textBytes "\r\nContent-Type: " = [CR, LF] ++ textBytes "Content-Type" ++ [COLON, SPACE] := by
      decide +kernel
    have hlength : textBytes "\r\nContent-Length: " =
        [CR, LF] ++ textBytes "Content-Length" ++ [COLON, SPACE] := by decide +kernel
    have hclose : textBytes "\r\nConnection: close\r\n\r\n" = [CR, LF] ++ textBytes "Connection" ++
        [COLON, SPACE] ++ textBytes "close" ++ [CR, LF] ++ [CR, LF] := by decide +kernel
    change textBytes _ = _
    simp only [textBytes_append, htype, hlength, hclose, frame, Frame.head, List.map_cons,
      List.map_nil, List.flatMap_cons, List.flatMap_nil, endLine, writeField, List.append_assoc,
      List.append_nil]
  rw [written, hhead]

/-- The texts that responses are made of. -/
def reasons : List String := ["OK", "Not Found", "Method Not Allowed"]

def mimes : List String := ["text/plain", "application/json", "text/plain; version=0.0.4",
  "application/vnd.apple.mpegurl", "video/mp2t", "video/mp4", "application/octet-stream"]

/-- A response made of these texts, with a body for GET and without one for HEAD. -/
structure Response.Answers (r : Response) (headOnly : Bool) : Prop where
  headOnly : r.headOnly = headOnly
  reason : r.reason ∈ reasons
  mime : r.mime ∈ mimes

theorem statsRoute_answers {stats : Option StatsSnapshot} {name : String} {headOnly : Bool}
    {r : Response} (h : statsRoute stats name headOnly = some r) : r.Answers headOnly := by
  have hanswers (body : Bytes) (mime : String) (hmime : mime ∈ mimes) :
      Response.Answers ⟨200, "OK", mime, body, headOnly⟩ headOnly :=
    ⟨rfl, List.mem_cons_self, hmime⟩
  unfold statsRoute at h
  cases stats with
  | some g =>
    dsimp only at h
    split at h
    · cases h
      exact hanswers _ _ (by decide)
    split at h
    · cases h
      exact hanswers _ _ (by decide)
    split at h
    · cases h
      exact hanswers _ _ (by decide)
    split at h
    · cases h
      exact hanswers _ _ (by decide)
    · cases h
  | none =>
    dsimp only at h
    split at h
    · cases h
      exact hanswers _ _ (by decide)
    · cases h

theorem mimeOf_mem (name : String) : mimeOf name ∈ mimes := by
  unfold mimeOf
  split_ifs <;> decide

theorem fileRoute_answers (root : Dir) (name : String) (headOnly : Bool) :
    (fileRoute root name headOnly).Answers headOnly := by
  have hnotFound : (notFoundResponse headOnly).Answers headOnly :=
    ⟨rfl, by simp [notFoundResponse, reasons], by simp [notFoundResponse, mimes]⟩
  unfold fileRoute
  split
  · exact hnotFound
  split
  · exact ⟨rfl, List.mem_cons_self, mimeOf_mem name⟩
  · exact hnotFound

theorem handleConnection_answers {root : Dir} {stats : Option StatsSnapshot} {chunks : List Bytes}
    {r : Response} (h : handleConnection root stats chunks = some r) :
    ∃ buf, readHead [] chunks = some buf ∧
      r.Answers (decide ((requestLine buf).1 = "HEAD".toList)) := by
  obtain ⟨buf, hbuf, rfl⟩ := Option.map_eq_some_iff.mp h
  refine ⟨buf, hbuf, ?_⟩
  dsimp only
  split
  next hmethod => exact ⟨(decide_eq_false hmethod.2).symm, by simp [reasons], by simp [mimes]⟩
  next =>
  cases hroute : statsRoute stats (targetName (requestLine buf).2)
      (decide ((requestLine buf).1 = "HEAD".toList)) with
  | some answer => exact statsRoute_answers hroute
  | none => exact fileRoute_answers ..

theorem Response.frame_clean {r : Response} (hreason : r.reason ∈ reasons) (hmime : r.mime ∈ mimes) :
    r.frame.Clean := by
  have hreasons : ∀ t ∈ reasons, '\r' ∉ t.toList := by decide
  have hmimes : ∀ t ∈ mimes, '\r' ∉ t.toList ∧ (textBytes t).head? ≠ some SPACE := by
    decide +kernel
  refine ⟨⟨?_, cr_not_mem_textBytes ?_⟩, ?_, ?_⟩
  · simp only [frame, textBytes_append]
    have hne : textBytes "HTTP/1.1 " ≠ [] := by decide +kernel
    simp [hne]
  · simp only [String.toList_append, List.mem_append, not_or]
    exact ⟨⟨⟨by decide, cr_not_mem_toString _⟩, by decide⟩, hreasons _ hreason⟩
  · have hnames : ∀ t ∈ ["Content-Type", "Content-Length", "Connection"],
        CR ∉ textBytes t ∧ COLON ∉ textBytes t := by decide +kernel
    simp only [frame, List.forall_mem_cons]
    exact ⟨hnames _ (by simp), hnames _ (by simp), hnames _ (by simp), fun _ h => by cases h⟩
  · have hclose : CR ∉ textBytes "close" ∧ (textBytes "close").head? ≠ some SPACE := by
      decide +kernel
    have hlength : (textBytes (toString r.body.length)).head? ≠ some SPACE := by
      intro hspace
      have hmem := List.mem_of_mem_head? hspace
      rw [textBytes_toString] at hmem
      obtain ⟨c, hc, heq⟩ := List.mem_map.mp hmem
      have hdigit := digit_of_mem_toDigits hc
      have htoNat := congrArg UInt8.toNat heq
      rw [UInt8.toNat_ofNat'] at htoNat
      simp only [SPACE, UInt8.reduceToNat] at htoNat
      omega
    obtain ⟨hcr, hspace⟩ := hmimes _ hmime
    simp only [frame, List.forall_mem_cons]
    exact ⟨⟨cr_not_mem_textBytes hcr, hspace⟩,
      ⟨cr_not_mem_textBytes (cr_not_mem_toString _), hlength⟩, hclose, fun _ h => by cases h⟩

theorem Response.frame_length (r : Response) :
    (r.frame.fields.lookup (textBytes "Content-Length")).bind readNat = some r.frame.body.length := by
  have hother : (textBytes "Content-Length" == textBytes "Content-Type") = false := by
    decide +kernel
  simp only [frame, List.lookup_cons, hother, beq_self_eq_true]
  exact readNat_textBytes _

/-- A client that knows whether it has asked with HEAD reads any response as the one message it
is, whatever follows it. -/
theorem Response.Answers.read {r : Response} {headOnly : Bool} (h : r.Answers headOnly)
    (rest : Bytes) : HttpMessage.read (textBytes "Content-Length") (!headOnly) (r.written ++ rest) =
      some ({ r.frame with body := if headOnly then [] else r.body }, rest) := by
  have hread := read_head (r.frame_clean h.reason h.mime) r.frame_length (!headOnly) rest
  have hbody : r.frame.body = r.body := rfl
  rw [r.written_eq, h.headOnly]
  cases headOnly with
  | false => simpa [hbody] using hread
  | true => simpa [hbody] using hread

theorem statsRoute_head (stats : Option StatsSnapshot) (name : String) :
    statsRoute stats name true =
      (statsRoute stats name false).map fun r => { r with headOnly := true } := by
  unfold statsRoute
  cases stats with
  | some g =>
    dsimp only
    split_ifs <;> rfl
  | none =>
    dsimp only
    split_ifs <;> rfl

theorem fileRoute_head (root : Dir) (name : String) :
    fileRoute root name true = { fileRoute root name false with headOnly := true } := by
  unfold fileRoute
  split
  · rfl
  split <;> rfl

/-- HEAD is answered as GET of the same target is, but for the body. -/
theorem handleConnection_head {root : Dir} {stats : Option StatsSnapshot} {chunks chunks' : List Bytes}
    {r : Response} (h : handleConnection root stats chunks = some r) {buf buf' : Bytes}
    (hbuf : readHead [] chunks = some buf) (hget : (requestLine buf).1 = "GET".toList)
    (hbuf' : readHead [] chunks' = some buf')
    (hhead : requestLine buf' = ("HEAD".toList, (requestLine buf).2)) :
    handleConnection root stats chunks' = some { r with headOnly := true } := by
  have hne : "GET".toList ≠ "HEAD".toList := by decide
  simp only [handleConnection, hbuf, Option.map_some, hget, decide_eq_false hne, ne_eq,
    not_true_eq_false, false_and, if_false, Option.some.injEq] at h
  simp only [handleConnection, hbuf', Option.map_some, hhead, ne_eq, not_true_eq_false, and_false,
    if_false, decide_true, Option.some.injEq, ← h, statsRoute_head, fileRoute_head]
  cases statsRoute stats (targetName (requestLine buf).2) false <;> rfl

/-- Whatever is asked for, the answer is read as the one message it is, whatever follows it. The
answer to HEAD is read as that to GET of the same target, without the body. -/
theorem responses_framed {root : Dir} {stats : Option StatsSnapshot} {chunks : List Bytes}
    {r : Response} (h : handleConnection root stats chunks = some r) (rest : Bytes) :
    ∃ buf, readHead [] chunks = some buf ∧
      (let head := decide ((requestLine buf).1 = "HEAD".toList)
      HttpMessage.read (textBytes "Content-Length") (!head) (r.written ++ rest) =
        some ({ r.frame with body := if head then [] else r.body }, rest)) ∧
      ∀ chunks' buf', readHead [] chunks' = some buf' → (requestLine buf).1 = "GET".toList →
        requestLine buf' = ("HEAD".toList, (requestLine buf).2) →
        ∃ r', handleConnection root stats chunks' = some r' ∧
          HttpMessage.read (textBytes "Content-Length") false (r'.written ++ rest) =
            some ({ r.frame with body := [] }, rest) := by
  obtain ⟨buf, hbuf, hanswers⟩ := handleConnection_answers h
  refine ⟨buf, hbuf, hanswers.read rest, fun chunks' buf' hbuf' hget hhead => ?_⟩
  have hsame : Response.Answers { r with headOnly := true } true :=
    ⟨rfl, hanswers.reason, hanswers.mime⟩
  exact ⟨_, handleConnection_head h hbuf hget hbuf' hhead, hsame.read rest⟩

/-- A health check whose answer is followed by something else, and the same with HEAD. -/
theorem responses_framed_demo : ∃ r r', handleConnection ⟨∅, ["srv"], fun _ => none⟩ none
      [textBytes "GET /health HTTP/1.1\r\n\r\n"] = some r ∧ r.body = textBytes "ok\n" ∧
    handleConnection ⟨∅, ["srv"], fun _ => none⟩ none
      [textBytes "HEAD /health HTTP/1.1\r\n\r\n"] = some r' ∧
    HttpMessage.read (textBytes "Content-Length") true (r.written ++ [1, 2]) =
      some (r.frame, [1, 2]) ∧
    HttpMessage.read (textBytes "Content-Length") false (r'.written ++ [1, 2]) =
      some ({ r.frame with body := [] }, [1, 2]) := by
  have h : handleConnection ⟨∅, ["srv"], fun _ => none⟩ none
      [textBytes "GET /health HTTP/1.1\r\n\r\n"] =
      some ⟨200, "OK", "text/plain", textBytes "ok\n", false⟩ := by decide +kernel
  obtain ⟨buf, hbuf, hread, hheads⟩ := responses_framed h [1, 2]
  have hget : (readHead [] [textBytes "GET /health HTTP/1.1\r\n\r\n"]).all
      (fun buf => requestLine buf = ("GET".toList, "/health".toList)) = true := by decide +kernel
  rw [hbuf, Option.all_some] at hget
  have hget := of_decide_eq_true hget
  obtain ⟨buf', hbuf', hhead⟩ := (Option.any_eq_true ..).mp (by decide +kernel :
    (readHead [] [textBytes "HEAD /health HTTP/1.1\r\n\r\n"]).any
      (fun buf => requestLine buf = ("HEAD".toList, "/health".toList)) = true)
  rw [hget] at hread hheads
  obtain ⟨r', hr', hread'⟩ := hheads _ buf' hbuf' rfl (of_decide_eq_true hhead)
  exact ⟨_, r', h, rfl, hr', hread, hread'⟩

end Qstream

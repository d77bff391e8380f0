import Qstream.HttpFraming
import Qstream.SwarmSegments

/-! What a player gets from any process of the swarm. -/
namespace Qstream
open Transfer Runs

/-- A connection on which a segment is asked for with GET. -/
structure Gets (chunks : List Bytes) (f : String) : Prop where
  segment : IsSegment f
  asked : ∃ buf, readHead [] chunks = some buf ∧ (requestLine buf).1 = "GET".toList ∧
    targetName (requestLine buf).2 = f

theorem IsSegment.not_playlist {f : String} (h : IsSegment f) : endsWith ".m3u8" f = false := by
  obtain ⟨digits, hf, -⟩ := h.toList
  refine decide_eq_false fun hsuffix => ?_
  obtain ⟨front, hfront⟩ := hsuffix
  have hlast := congrArg List.getLast? (hf.symm.trans hfront.symm)
  have hts : ".ts".toList.getLast? = some 's' := by decide
  have hm3u8 : ".m3u8".toList.getLast? = some '8' := by decide
  rw [← List.append_assoc, List.getLast?_append, List.getLast?_append, List.getLast?_append,
    hts, hm3u8] at hlast
  exact absurd (Option.some.inj hlast) (by decide)

theorem IsSegment.not_page {f : String} (h : IsSegment f) (stats : Option StatsSnapshot) :
    statsRoute stats f false = none := by
  obtain ⟨digits, hf, -⟩ := h.toList
  have hne (page : String) (hpage : page.toList.take 4 ≠ "seg_".toList) : f ≠ page := by
    rintro rfl
    exact hpage (by rw [hf]; rfl)
  cases stats <;> simp only [statsRoute, hne "peers" (by decide), hne "stats" (by decide),
    hne "metrics" (by decide), hne "health" (by decide), if_false]

/-- A segment is served as it is stored, or it is not found. -/
theorem Gets.answer {chunks : List Bytes} {f : String} (h : Gets chunks f) (root : Dir)
    (stats : Option StatsSnapshot) :
    handleConnection root stats chunks = some (notFoundResponse false) ∨
    ∃ data, root.read f = some data ∧ handleConnection root stats chunks =
      some ⟨200, "OK", mimeOf f, data, false⟩ := by
  obtain ⟨buf, hbuf, hmethod, hname⟩ := h.asked
  have hhead : decide ("GET".toList = "HEAD".toList) = false := by decide
  have hanswer : handleConnection root stats chunks = some (fileRoute root f false) := by
    simp only [handleConnection, hbuf, Option.map_some, hmethod, hname, hhead,
      h.segment.not_page stats]
    simp
  rw [hanswer]
  unfold fileRoute
  split
  · exact .inl rfl
  split
  next data hread => exact .inr ⟨data, hread, by simp [h.segment.not_playlist]⟩
  next => exact .inl rfl

namespace Swarm
variable {ι : Type} [DecidableEq ι]

/-- In every run of a swarm, whoever is asked for a segment answers that there is none or gives
the player exactly the broadcast one, and what comes after the answer is not taken for a part of
it. -/
theorem played_segments_intact (B : Broadcast) {X₀ X : Swarm ι} (hstart : X₀.Initial)
    (hdirs : ∀ i, (X₀.party i).registry.dir.Authentic B) {es : List (SwarmEvent ι)}
    (h : Run (guarded (Orderly B) Step) X₀ es X) (i : ι) (stats : Option StatsSnapshot)
    {chunks : List Bytes} {f : String} (hget : Gets chunks f) (rest : Bytes) :
    ∃ r m, handleConnection (X.party i).registry.dir stats chunks = some r ∧
      HttpMessage.read (textBytes "Content-Length") true (r.written ++ rest) = some (m, rest) ∧
      (m.start = textBytes "HTTP/1.1 404 Not Found" ∨
        m.start = textBytes "HTTP/1.1 200 OK" ∧ B.segment f = some m.body) := by
  have hX : X.Authentic B :=
    h.invariant (fun _ _ _ hs hst => hst.2.authentic hst.1 hs) (hstart.authentic hdirs)
  rcases hget.answer (X.party i).registry.dir stats with hanswer | ⟨data, hread, hanswer⟩
  · have hframed : (notFoundResponse false).Answers false :=
      ⟨rfl, by simp [notFoundResponse, reasons], by simp [notFoundResponse, mimes]⟩
    exact ⟨_, _, hanswer, hframed.read rest, .inl (by decide +kernel)⟩
  · have hframed : Response.Answers ⟨200, "OK", mimeOf f, data, false⟩ false :=
      ⟨rfl, List.mem_cons_self, mimeOf_mem f⟩
    have hok : textBytes ("HTTP/1.1 " ++ toString 200 ++ " " ++ "OK") =
        textBytes "HTTP/1.1 200 OK" := by decide +kernel
    exact ⟨_, _, hanswer, hframed.read rest, .inr ⟨hok,
      (hX.parties i).files f data hget.segment hread⟩⟩

def demoGet : List Bytes := [textBytes "GET /seg_1.ts HTTP/1.1\r\n\r\n"]

theorem demoGet_gets : Gets demoGet "seg_1.ts" where
  segment := by
    unfold IsSegment
    decide
  asked := by
    have hparsed : ((readHead [] demoGet).any fun buf => (requestLine buf).1 = "GET".toList ∧
        targetName (requestLine buf).2 = "seg_1.ts") = true := by decide +kernel
    obtain ⟨buf, hbuf, hparsed⟩ := (Option.any_eq_true ..).mp hparsed
    exact ⟨buf, hbuf, of_decide_eq_true hparsed⟩

/-- The peer has downloaded the segment, and a player asks for it. -/
theorem played_segments_intact_demo : ∃ X, Run (guarded (Orderly demoBroadcast) Step) demoSwarm
      demoEvents X ∧ ∃ r m, handleConnection (X.party true).registry.dir none demoGet = some r ∧
      HttpMessage.read (textBytes "Content-Length") true (r.written ++ [7]) = some (m, [7]) ∧
      m.body = [1, 2, 3] := by
  have hrun : ((exec demoStep? demoSwarm demoEvents).any fun X =>
      (handleConnection (X.party true).registry.dir none demoGet).any fun r =>
        (HttpMessage.read (textBytes "Content-Length") true (r.written ++ [7])).any fun m =>
          m.1.start = textBytes "HTTP/1.1 200 OK" ∧ m.1.body = [1, 2, 3]) = true := by
    decide +kernel
  obtain ⟨X, hX, hok⟩ := Run.exists_of_exec (f := demoStep?) (fun _ _ _ => step_of_demoStep?) hrun
  obtain ⟨r, m, hr, hread, hm⟩ := played_segments_intact demoBroadcast demoSwarm_initial
    demoSwarm_authentic hX true none demoGet_gets [7]
  rw [hr, Option.any_some, hread, Option.any_some] at hok
  exact ⟨X, hX, r, m, hr, hread, (of_decide_eq_true hok).2⟩

end Swarm
end Qstream

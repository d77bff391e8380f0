import Qstream.NodeHandle
import Qstream.TextLines

/-! The metrics page, and what a scraper reads on it. -/
namespace Qstream
open Transfer Text

/-- The escapes of `json_escape`. -/
def jsonEscapeChar (c : Char) : List Char :=
  match c with
  | '"' => ['\\', '"']
  | '\\' => ['\\', '\\']
  | '\n' => ['\\', 'n']
  | '\r' => ['\\', 'r']
  | '\t' => ['\\', 't']
  | c =>
    if c.toNat < 0x20 then
      ['\\', 'u', '0', '0', Nat.digitChar (c.toNat / 16), Nat.digitChar (c.toNat % 16)]
    else [c]

def jsonEscape (s : String) : List Char := s.toList.flatMap jsonEscapeChar

/-! How addresses are displayed. -/

def Ipv4Addr.display (ip : Ipv4Addr) : String :=
  ".".intercalate ([ip.a, ip.b, ip.c, ip.d].map fun b => toString b.toNat)

/-- The eight groups of an IPv6 address. -/
def groups6 (ip : BitVec 128) : List ℕ :=
  (List.range 8).map fun i => ip.toNat / 2 ^ (16 * (7 - i)) % 65536

/-- Where the first longest run of zero groups starts, and its length. -/
def longestZeros (groups : List ℕ) : ℕ × ℕ :=
  (groups.zipIdx.foldl (fun (longest, current) (group, i) =>
    if group = 0 then
      let current : ℕ × ℕ := (if current.2 = 0 then i else current.1, current.2 + 1)
      (if current.2 > longest.2 then current else longest, current)
    else (longest, (0, 0))) (((0, 0) : ℕ × ℕ), ((0, 0) : ℕ × ℕ))).1

def displayGroups (groups : List ℕ) : String :=
  ":".intercalate (groups.map fun g => String.ofList (Nat.toDigits 16 g))

def display6 (ip : BitVec 128) : String :=
  let groups := groups6 ip
  let (start, len) := longestZeros groups
  if ip.toNat / 2 ^ 32 = 0xffff then
    "::ffff:" ++ Ipv4Addr.display ⟨UInt8.ofNat (ip.toNat / 2 ^ 24), UInt8.ofNat (ip.toNat / 2 ^ 16),
      UInt8.ofNat (ip.toNat / 2 ^ 8), UInt8.ofNat ip.toNat⟩
  else if len > 1 then
    displayGroups (groups.take start) ++ "::" ++ displayGroups (groups.drop (start + len))
  else displayGroups groups

def SocketAddr.display (addr : SocketAddr) : String :=
  match addr.ip with
  | .v4 ip => ip.display ++ ":" ++ toString addr.port
  | .v6 ip => "[" ++ display6 ip ++ "]:" ++ toString addr.port

/-- The text of a label. -/
def PeerLabel.text : PeerLabel → String
  | .name s => s
  | .address a => a.display

/-! The page. -/

/-- Name, help text and type of the metrics. -/
def DEFS : List (String × String × String) :=
  [("qstream_uptime_seconds", "Seconds since node start.", "gauge"),
    ("qstream_peers_in_swarm", "Number of peers currently known to this node.", "gauge"),
    ("qstream_downloaded_segments_total", "Segments fully downloaded by this node.", "counter"),
    ("qstream_downloaded_bytes_total", "Bytes fully downloaded by this node.", "counter"),
    ("qstream_uploaded_segments_total", "Segments served to other nodes.", "counter"),
    ("qstream_uploaded_bytes_total", "Bytes served to other nodes.", "counter"),
    ("qstream_store_segments", "Segments currently in the local store.", "gauge"),
    ("qstream_store_bytes", "Bytes currently in the local store.", "gauge"),
    ("qstream_edge_segment", "Newest segment number in the synced manifest.", "gauge"),
    ("qstream_local_newest", "Newest segment number in the local store.", "gauge"),
    ("qstream_catch_up", "Segments behind the live edge (0 = caught up).", "gauge"),
    ("qstream_active_transfers", "In-flight senders + receivers.", "gauge"),
    ("qstream_queue_depth", "Pending segment pulls in the queue.", "gauge"),
    ("qstream_inflight", "Active pull jobs.", "gauge"),
    ("qstream_rss_bytes", "Resident memory of this process.", "gauge"),
    ("qstream_fault_dropped_total", "Datagrams dropped by fault injection.", "counter"),
    ("qstream_fault_emitted_total", "Datagrams emitted by fault injection.", "counter"),
    ("qstream_origin_seed_assignments_total", "Origin seed leases assigned to peers.", "counter"),
    ("qstream_origin_seed_denials_total",
      "Origin seed requests denied after the per-segment budget.", "counter"),
    ("qstream_peer_score", "Quality score 0-100 for a known peer.", "gauge"),
    ("qstream_peer_pulls_total", "Successful pulls from a peer.", "counter"),
    ("qstream_peer_downloaded_bytes_total", "Payload bytes downloaded from a peer.", "counter"),
    ("qstream_peer_nf_pulls_total", "NOT_FOUND responses from a peer.", "counter"),
    ("qstream_peer_timeouts_total", "No-response failures from a peer.", "counter"),
    ("qstream_peer_served_total", "Segments served to a peer.", "counter"),
    ("qstream_peer_uploaded_bytes_total", "Payload bytes uploaded to a peer.", "counter"),
    ("qstream_peer_latency_ms", "EWMA first-packet latency to a peer.", "gauge")]

/-- What the page reports of the clock, the segment root, the scheduler, the process and the
fault injector. -/
structure Readings where
  uptime : ℕ
  storeCount : ℕ
  storeBytes : ℕ
  edge : ℕ
  localNewest : ℕ
  queueDepth : ℕ
  inflight : ℕ
  rssBytes : ℕ
  /-- Dropped and emitted datagrams, when faults are injected. -/
  fault : Option (ℕ × ℕ)
  deriving DecidableEq, Repr

/-- One sample: its metric, the labels with their values before they are escaped, its value. -/
structure Sample where
  metric : String
  labels : List (String × String)
  value : ℕ
  deriving DecidableEq, Repr

namespace Sample

def labelText (l : String × String) : List Char :=
  l.1.toList ++ "=\"".toList ++ jsonEscape l.2 ++ "\"".toList

/-- The label set as it is written. -/
def labelSet (x : Sample) : List Char :=
  '{' :: [','].intercalate (x.labels.map labelText) ++ ['}']

/-- What tells two series of samples apart on the page. -/
def series (x : Sample) : String × List Char := (x.metric, x.labelSet)

def line (x : Sample) : List Char :=
  x.metric.toList ++ x.labelSet ++ ' ' :: (toString x.value).toList

end Sample

namespace Node

/-- The samples about the node itself. -/
def ownSamples (n : Node) (r : Readings) : List Sample :=
  let nl := [("node", n.name)]
  [⟨"qstream_uptime_seconds", nl, r.uptime⟩,
    ⟨"qstream_peers_in_swarm", nl, n.peers.len⟩,
    ⟨"qstream_downloaded_segments_total", nl, n.downloadedTotal.toNat⟩,
    ⟨"qstream_downloaded_bytes_total", nl, n.downloadedBytes.toNat⟩,
    ⟨"qstream_uploaded_segments_total", nl, n.servedTotal.toNat⟩,
    ⟨"qstream_uploaded_bytes_total", nl, n.servedBytes.toNat⟩,
    ⟨"qstream_store_segments", nl, r.storeCount⟩,
    ⟨"qstream_store_bytes", nl, r.storeBytes⟩,
    ⟨"qstream_edge_segment", nl, r.edge⟩,
    ⟨"qstream_local_newest", nl, r.localNewest⟩,
    ⟨"qstream_catch_up", nl, r.edge - r.localNewest⟩,
    ⟨"qstream_active_transfers", nl, n.registry.activeCount⟩,
    ⟨"qstream_queue_depth", nl, r.queueDepth⟩,
    ⟨"qstream_inflight", nl, r.inflight⟩,
    ⟨"qstream_origin_seed_assignments_total", nl, n.originSeedAssignments⟩,
    ⟨"qstream_origin_seed_denials_total", nl, n.originSeedDenials⟩,
    ⟨"qstream_rss_bytes", nl, r.rssBytes⟩] ++
  match r.fault with
  | some (dropped, emitted) =>
    [⟨"qstream_fault_dropped_total", nl, dropped⟩, ⟨"qstream_fault_emitted_total", nl, emitted⟩]
  | none => []

/-- The samples about one peer. -/
def peerSamples (n : Node) (stat : PeerStat) : List Sample :=
  let pl := [("node", n.name), ("peer", stat.name.text)]
  [⟨"qstream_peer_score", pl, stat.score⟩,
    ⟨"qstream_peer_pulls_total", pl, stat.pulls.toNat⟩,
    ⟨"qstream_peer_downloaded_bytes_total", pl, stat.downloadedBytes.toNat⟩,
    ⟨"qstream_peer_nf_pulls_total", pl, stat.nfPulls.toNat⟩,
    ⟨"qstream_peer_timeouts_total", pl, stat.timeouts.toNat⟩,
    ⟨"qstream_peer_served_total", pl, stat.served.toNat⟩,
    ⟨"qstream_peer_uploaded_bytes_total", pl, stat.uploadedBytes.toNat⟩,
    ⟨"qstream_peer_latency_ms", pl, stat.latencyMs⟩]

/-- The peers, those of the best score first. -/
def ranked (n : Node) : List (SocketAddr × PeerStat) :=
  n.peerStats.pairs.mergeSort fun a b => b.2.score < a.2.score ∨
    (a.2.score = b.2.score ∧ a.1.sortKey ≤ b.1.sortKey)

def samples (n : Node) (r : Readings) : List Sample :=
  n.ownSamples r ++ n.ranked.flatMap fun e => n.peerSamples e.2

def headerLines : List (List Char) :=
  DEFS.flatMap fun (name, help, ty) =>
    [("# HELP " ++ name ++ " " ++ help).toList, ("# TYPE " ++ name ++ " " ++ ty).toList]

def metricsText (n : Node) (r : Readings) : List Char :=
  joinLines (headerLines ++ (n.samples r).map Sample.line)

end Node

/-! What a scraper reads. -/

/-- The escapes of the exposition format. -/
def unescapeChar : Char → Option Char
  | '\\' => some '\\'
  | '"' => some '"'
  | 'n' => some '\n'
  | _ => none

/-- A label value up to its closing quote, and what follows the quote. -/
def readValue : List Char → Option (List Char × List Char)
  | [] => none
  | '"' :: rest => some ([], rest)
  | '\\' :: [] => none
  | '\\' :: c :: rest =>
    (unescapeChar c).bind fun c' => (readValue rest).map fun x => (c' :: x.1, x.2)
  | c :: rest => if c = '\n' then none else (readValue rest).map fun x => (c :: x.1, x.2)

/-- A character that both formats write alike. -/
def Exposable (c : Char) : Prop := c = '\n' ∨ 0x20 ≤ c.toNat

instance (c : Char) : Decidable (Exposable c) := inferInstanceAs (Decidable (_ ∨ _))

def ExposableText (s : String) : Prop := ∀ c ∈ s.toList, Exposable c

instance (s : String) : Decidable (ExposableText s) :=
  inferInstanceAs (Decidable (∀ c ∈ s.toList, Exposable c))

theorem readValue_cons {c : Char} (hquote : c ≠ '"') (hslash : c ≠ '\\') (hline : c ≠ '\n')
    (rest : List Char) :
    readValue (c :: rest) = (readValue rest).map fun x => (c :: x.1, x.2) := by
  rw [readValue]
  · rw [if_neg hline]
  · exact hquote
  · exact fun h _ => hslash h
  · exact fun _ _ h => absurd h hslash

/-- Of one character, a scraper reads what was written, or nothing at all. -/
theorem readValue_jsonEscapeChar (c : Char) (rest : List Char) :
    readValue (jsonEscapeChar c ++ rest) =
      if Exposable c then (readValue rest).map fun x => (c :: x.1, x.2) else none := by
  unfold jsonEscapeChar
  split
  · rfl
  · rfl
  · rfl
  · rfl
  · rfl
  next hquote hslash hline hreturn htab =>
    split
    next hcontrol =>
      rw [if_neg fun h => h.elim hline (Nat.not_le_of_lt hcontrol)]
      rfl
    next hplain =>
      rw [if_pos (.inr (Nat.le_of_not_lt hplain)), List.singleton_append,
        readValue_cons hquote hslash hline]

theorem readValue_flatMap (cs rest : List Char) :
    readValue (cs.flatMap jsonEscapeChar ++ '"' :: rest) =
      if ∀ c ∈ cs, Exposable c then some (cs, rest) else none := by
  induction cs with
  | nil => simp [readValue]
  | cons c cs ih =>
    rw [List.flatMap_cons, List.append_assoc, readValue_jsonEscapeChar, ih]
    simp only [List.forall_mem_cons]
    by_cases hc : Exposable c
    · simp [hc]
    · simp [hc]

theorem readValue_jsonEscape (s : String) (rest : List Char) :
    readValue (jsonEscape s ++ '"' :: rest) =
      if ExposableText s then some (s.toList, rest) else none := readValue_flatMap s.toList rest

/-- A value comes back exactly when its characters do. -/
theorem readValue_eq_iff {s : String} :
    readValue (jsonEscape s ++ ['"']) = some (s.toList, []) ↔ ExposableText s := by
  rw [readValue_jsonEscape]
  by_cases h : ExposableText s <;> simp [h]

theorem jsonEscape_inj {s t : String} (hs : ExposableText s) (ht : ExposableText t)
    (h : jsonEscape s = jsonEscape t) : s = t := by
  have hread := readValue_eq_iff.mpr hs
  rw [h, readValue_eq_iff.mpr ht] at hread
  exact String.toList_inj.mp (congrArg Prod.fst (Option.some.inj hread)).symm

/-! The lines of the page. -/

theorem digitChar_ne {d : ℕ} (h : d < 16) : Nat.digitChar d ≠ '\n' ∧ Nat.digitChar d ≠ '\r' := by
  interval_cases d <;> decide

/-- Line ends are escaped. -/
theorem lineEnd_notMem_jsonEscape (s : String) : '\n' ∉ jsonEscape s ∧ '\r' ∉ jsonEscape s := by
  have hchar : ∀ c, '\n' ∉ jsonEscapeChar c ∧ '\r' ∉ jsonEscapeChar c := by
    intro c
    unfold jsonEscapeChar
    split
    · decide
    · decide
    · decide
    · decide
    · decide
    next hquote hslash hline hreturn htab =>
      split
      next hcontrol =>
        have hhigh := digitChar_ne (show c.toNat / 16 < 16 by omega)
        have hlow := digitChar_ne (show c.toNat % 16 < 16 by omega)
        simp [hhigh.1.symm, hhigh.2.symm, hlow.1.symm, hlow.2.symm]
      next => simp [Ne.symm hline, Ne.symm hreturn]
  unfold jsonEscape
  simp only [List.mem_flatMap, not_exists, not_and]
  exact ⟨fun c _ => (hchar c).1, fun c _ => (hchar c).2⟩

/-- A line of text with no line end inside it. -/
def OneLine (l : List Char) : Prop := '\n' ∉ l ∧ '\r' ∉ l

theorem OneLine.append {l l' : List Char} (h : OneLine l) (h' : OneLine l') : OneLine (l ++ l') :=
  ⟨fun hmem => (List.mem_append.mp hmem).elim h.1 h'.1,
    fun hmem => (List.mem_append.mp hmem).elim h.2 h'.2⟩

theorem oneLine_toString (k : ℕ) : OneLine (toString k).toList := by
  refine ⟨fun h => ?_, fun h => ?_⟩
  · exact absurd (isAsciiDigit_of_mem_toString h) (by decide)
  · exact absurd (isAsciiDigit_of_mem_toString h) (by decide)

instance (l : List Char) : Decidable (OneLine l) := inferInstanceAs (Decidable (_ ∧ _))

namespace Node
variable {n : Node} {r : Readings} {x : Sample}

theorem mem_ranked {e : SocketAddr × PeerStat} :
    e ∈ n.ranked ↔ n.peerStats.lookup e.1 = some e.2 := by
  rw [ranked, (List.mergeSort_perm _ _).mem_iff, HashMap.mem_pairs]

theorem ownSamples_spec (n : Node) (r : Readings) : ∀ x ∈ n.ownSamples r,
    x.labels = [("node", n.name)] ∧ x.metric ∈ DEFS.map Prod.fst := by
  unfold ownSamples
  cases r.fault <;> simp [DEFS]

theorem peerSamples_spec (n : Node) (stat : PeerStat) : ∀ x ∈ n.peerSamples stat,
    x.labels = [("node", n.name), ("peer", stat.name.text)] ∧ x.metric ∈ DEFS.map Prod.fst := by
  simp [peerSamples, DEFS]

/-- No metric is reported twice of the node, or of one peer. -/
theorem metrics_nodup (n : Node) (r : Readings) (stat : PeerStat) :
    ((n.ownSamples r ++ n.peerSamples stat).map Sample.metric).Nodup := by
  unfold ownSamples peerSamples
  cases r.fault <;> simp only [List.map_cons, List.map_nil, List.cons_append,
    List.nil_append] <;> decide

theorem mem_samples : x ∈ n.samples r ↔
    x ∈ n.ownSamples r ∨ ∃ e ∈ n.ranked, x ∈ n.peerSamples e.2 := by
  simp only [samples, List.mem_append, List.mem_flatMap]

/-- Each sample is of a metric whose type the page announces. -/
theorem samples_metric (h : x ∈ n.samples r) : x.metric ∈ DEFS.map Prod.fst := by
  rcases mem_samples.mp h with h | ⟨e, -, h⟩
  · exact (ownSamples_spec n r x h).2
  · exact (peerSamples_spec n e.2 x h).2

theorem labels_of_mem_samples (h : x ∈ n.samples r) : x.labels = [("node", n.name)] ∨
    ∃ e ∈ n.ranked, x.labels = [("node", n.name), ("peer", e.2.name.text)] := by
  rcases mem_samples.mp h with h | ⟨e, he, h⟩
  · exact .inl (ownSamples_spec n r x h).1
  · exact .inr ⟨e, he, (peerSamples_spec n e.2 x h).1⟩

theorem oneLine_labelText {k : String} (hk : OneLine k.toList) (v : String) :
    OneLine (Sample.labelText (k, v)) :=
  ((hk.append (by decide)).append (lineEnd_notMem_jsonEscape v)).append (by decide)

theorem oneLine_line (h : x ∈ n.samples r) : OneLine x.line := by
  have hmetrics : ∀ m ∈ DEFS.map Prod.fst, OneLine m.toList := by decide +kernel
  have hnode := oneLine_labelText (k := "node") (by decide) n.name
  have hset : OneLine x.labelSet := by
    have hbrace : OneLine ['{'] := by decide
    rcases labels_of_mem_samples h with hlabels | ⟨e, -, hlabels⟩
    · have heq : x.labelSet = ['{'] ++ Sample.labelText ("node", n.name) ++ ['}'] := by
        simp [Sample.labelSet, hlabels, List.intercalate]
      rw [heq]
      exact (hbrace.append hnode).append (by decide)
    · have heq : x.labelSet = ['{'] ++ (Sample.labelText ("node", n.name) ++ [','] ++
          Sample.labelText ("peer", e.2.name.text)) ++ ['}'] := by
        simp [Sample.labelSet, hlabels, List.intercalate]
      rw [heq]
      exact (hbrace.append ((hnode.append (by decide)).append
        (oneLine_labelText (by decide) _))).append (by decide)
  have hvalue : OneLine (' ' :: (toString x.value).toList) :=
    OneLine.append (l := [' ']) (by decide) (oneLine_toString _)
  exact ((hmetrics _ (samples_metric h)).append hset).append hvalue

/-- Whatever the names are, after the announcements the page has one line for each sample. -/
theorem metricsText_eq (n : Node) (r : Readings) : ∃ page,
    n.metricsText r = joinLines headerLines ++ page ∧
      lines page = (n.samples r).map Sample.line := by
  refine ⟨joinLines ((n.samples r).map Sample.line), joinLines_append _ _,
    lines_joinLines_clean fun l hl => ?_⟩
  obtain ⟨x, hx, rfl⟩ := List.mem_map.mp hl
  exact oneLine_line hx

/-- The page as a scraper wants it: after the announcements a line for each sample, no series
twice, and every name comes back. -/
structure ExposesWell (n : Node) (r : Readings) : Prop where
  page : ∃ page, n.metricsText r = joinLines headerLines ++ page ∧
    lines page = (n.samples r).map Sample.line
  distinct : ((n.samples r).map Sample.series).Nodup
  decodes : ∀ x ∈ n.samples r, ∀ l ∈ x.labels,
    readValue (jsonEscape l.2 ++ ['"']) = some (l.2.toList, [])

/-- The label under which the statistics have `a`. -/
def label (n : Node) (a : SocketAddr) : Option PeerLabel :=
  (n.peerStats.lookup a).map PeerStat.name

/-- The labels of the peers with statistics can be written, and no two of them are the same. -/
structure LabelsExposable (n : Node) : Prop where
  written : ∀ a p, n.label a = some p → ExposableText p.text
  apart : ∀ a b p q, n.label a = some p → n.label b = some q → p.text = q.text → a = b

/-- The label set of the samples about a peer. -/
def peerLabelSet (n : Node) (peer : String) : List Char :=
  '{' :: [','].intercalate [Sample.labelText ("node", n.name), Sample.labelText ("peer", peer)] ++
    ['}']

theorem peerLabelSet_inj {s t : String} (hs : ExposableText s) (ht : ExposableText t)
    (h : n.peerLabelSet s = n.peerLabelSet t) : s = t := by
  simp only [peerLabelSet, List.intercalate, List.intersperse, List.flatten_cons, List.flatten_nil,
    Sample.labelText, List.cons_append, List.append_assoc, List.cons.injEq, List.append_cancel_left_eq,
    List.append_cancel_right_eq, true_and] at h
  exact jsonEscape_inj hs ht (by simpa using h)

theorem map_series_peerSamples (n : Node) (stat : PeerStat) :
    (n.peerSamples stat).map Sample.series =
      ((n.peerSamples stat).map Sample.metric).map fun m => (m, n.peerLabelSet stat.name.text) := by
  rw [List.map_map]
  refine List.map_congr_left fun x hx => ?_
  simp only [Sample.series, Sample.labelSet, (peerSamples_spec n stat x hx).1]
  rfl

theorem series_nodup_of_metrics {l : List Sample} (h : (l.map Sample.metric).Nodup) :
    (l.map Sample.series).Nodup := by
  refine List.Nodup.of_map Prod.fst ?_
  rwa [List.map_map]

theorem ranked_nodup (n : Node) : n.ranked.Nodup := by
  rw [ranked, (List.mergeSort_perm _ _).nodup_iff]
  refine List.Nodup.of_map Prod.fst ?_
  rw [HashMap.map_fst_pairs]
  exact n.peerStats.keys_nodup

/-- The samples about two peers share a series exactly when their label sets are the same. -/
theorem disjoint_series_iff (s t : PeerStat) :
    List.Disjoint ((n.peerSamples s).map Sample.series) ((n.peerSamples t).map Sample.series) ↔
      n.peerLabelSet s.name.text ≠ n.peerLabelSet t.name.text := by
  rw [map_series_peerSamples, map_series_peerSamples]
  constructor
  · intro h heq
    have hfirst (u : PeerStat) : ("qstream_peer_score", n.peerLabelSet s.name.text) ∈
        ((n.peerSamples u).map Sample.metric).map fun m => (m, n.peerLabelSet s.name.text) :=
      List.mem_cons_self
    exact h (hfirst s) (heq ▸ hfirst t)
  · intro hne y hs ht
    obtain ⟨_, -, rfl⟩ := List.mem_map.mp hs
    obtain ⟨_, -, heq⟩ := List.mem_map.mp ht
    exact hne (congrArg Prod.snd heq).symm

theorem distinct_iff (n : Node) (r : Readings) : ((n.samples r).map Sample.series).Nodup ↔
    ∀ a b s t, n.peerStats.lookup a = some s → n.peerStats.lookup b = some t →
      n.peerLabelSet s.name.text = n.peerLabelSet t.name.text → a = b := by
  have hpairs : n.ranked.Pairwise (fun e e' =>
      n.peerLabelSet e.2.name.text ≠ n.peerLabelSet e'.2.name.text) ↔
      ∀ a b s t, n.peerStats.lookup a = some s → n.peerStats.lookup b = some t →
        n.peerLabelSet s.name.text = n.peerLabelSet t.name.text → a = b := by
    constructor
    · intro h a b s t ha hb heq
      by_contra hne
      have : Std.Symm fun e e' : SocketAddr × PeerStat =>
          n.peerLabelSet e.2.name.text ≠ n.peerLabelSet e'.2.name.text := ⟨fun _ _ h => h.symm⟩
      have hab : (a, s) ≠ (b, t) := fun hab => hne (Prod.ext_iff.mp hab).1
      exact h.forall (mem_ranked.mpr ha) (mem_ranked.mpr hb) hab heq
    · intro h
      refine n.ranked_nodup.imp_of_mem fun {e e'} he he' hne heq => hne ?_
      have hkeys : e.1 = e'.1 := h _ _ _ _ (mem_ranked.mp he) (mem_ranked.mp he') heq
      have hstats : e.2 = e'.2 := by
        have hlookup := mem_ranked.mp he
        rw [hkeys, mem_ranked.mp he'] at hlookup
        exact (Option.some.inj hlookup).symm
      exact Prod.ext hkeys hstats
  have hone (s : PeerStat) := List.nodup_append.mp (List.map_append ▸ metrics_nodup n r s)
  have hown : ((n.ownSamples r).map Sample.series).Nodup :=
    series_nodup_of_metrics (hone (.new (.name "") 0)).1
  rw [samples, List.map_append, List.nodup_append, List.map_flatMap, List.nodup_flatMap, ← hpairs]
  constructor
  · rintro ⟨-, ⟨-, hpeers⟩, -⟩
    exact hpeers.imp fun h => (disjoint_series_iff _ _).mp h
  · intro hpeers
    refine ⟨hown, ⟨fun e _ => series_nodup_of_metrics (hone e.2).2.1,
      hpeers.imp fun h => (disjoint_series_iff _ _).mpr h⟩, fun y hy z hz heq => ?_⟩
    obtain ⟨x, hx, rfl⟩ := List.mem_map.mp hy
    obtain ⟨e, -, he⟩ := List.mem_flatMap.mp hz
    obtain ⟨x', hx', rfl⟩ := List.mem_map.mp he
    exact (hone e.2).2.2 _ (List.mem_map_of_mem hx) _ (List.mem_map_of_mem hx')
      (congrArg Prod.fst heq)

theorem label_eq_some {a : SocketAddr} {p : PeerLabel} :
    n.label a = some p ↔ ∃ s, n.peerStats.lookup a = some s ∧ s.name = p := Option.map_eq_some_iff

/-- The page is as a scraper wants it exactly when the names allow it. -/
theorem exposesWell_iff (n : Node) (r : Readings) :
    n.ExposesWell r ↔ ExposableText n.name ∧ n.LabelsExposable := by
  constructor
  · intro h
    have hown : ⟨"qstream_uptime_seconds", [("node", n.name)], r.uptime⟩ ∈ n.samples r :=
      mem_samples.mpr (.inl List.mem_cons_self)
    refine ⟨readValue_eq_iff.mp (h.decodes _ hown _ List.mem_cons_self), ⟨fun a p hp => ?_,
      fun a b p q hp hq heq => ?_⟩⟩
    · obtain ⟨s, hs, rfl⟩ := label_eq_some.mp hp
      have hpeer : ⟨"qstream_peer_score", [("node", n.name), ("peer", s.name.text)], s.score⟩ ∈
          n.samples r :=
        mem_samples.mpr (.inr ⟨(a, s), mem_ranked.mpr hs, List.mem_cons_self⟩)
      exact readValue_eq_iff.mp (h.decodes _ hpeer ("peer", s.name.text)
        (List.mem_cons_of_mem _ List.mem_cons_self))
    · obtain ⟨s, hs, rfl⟩ := label_eq_some.mp hp
      obtain ⟨t, ht, rfl⟩ := label_eq_some.mp hq
      exact (distinct_iff n r).mp h.distinct a b s t hs ht (by rw [heq])
  · rintro ⟨hown, hlabels⟩
    have hpeer {a : SocketAddr} {s : PeerStat} (hs : n.peerStats.lookup a = some s) :
        n.label a = some s.name := label_eq_some.mpr ⟨s, hs, rfl⟩
    refine ⟨metricsText_eq n r, (distinct_iff n r).mpr fun a b s t hs ht heq => ?_,
      fun x hx l hl => ?_⟩
    · exact hlabels.apart a b _ _ (hpeer hs) (hpeer ht)
        (peerLabelSet_inj (hlabels.written a _ (hpeer hs)) (hlabels.written b _ (hpeer ht)) heq)
    · refine readValue_eq_iff.mpr ?_
      rcases labels_of_mem_samples hx with hx | ⟨e, he, hx⟩
      · rw [hx, List.mem_singleton] at hl
        rw [hl]
        exact hown
      · rw [hx] at hl
        rcases List.mem_cons.mp hl with rfl | hl
        · exact hown
        · rw [List.mem_singleton.mp hl]
          exact hlabels.written _ _ (hpeer (mem_ranked.mp he))

end Node
end Qstream

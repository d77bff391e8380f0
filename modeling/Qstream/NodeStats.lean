import Qstream.Json
import Qstream.NodeMetrics

/-! The stats document, and what a JSON reader finds in it. -/
namespace Qstream
open Json (Body Reads ReadsMember Value)

def CARGO_PKG_VERSION : String := "0.1.0"

def Role.text : Role → String
  | .master => "master"
  | .peer => "peer"

/-! The pieces of the document's format strings. -/

def jsonString (s : String) : List Char := '"' :: jsonEscape s ++ ['"']

/-- A string that is written as it is. -/
def jsonPlain (s : String) : List Char := '"' :: s.toList ++ ['"']

def jsonMember (key : String) (value : List Char) : List Char :=
  '"' :: key.toList ++ '"' :: ':' :: value

def jsonCount (key : String) (n : ℕ) : List Char := jsonMember key (toString n).toList

def jsonObject (members : List (List Char)) : List Char := '{' :: [','].intercalate members ++ ['}']

/-- Members with their keys. -/
def valueObject (ms : List (String × Value)) : Value :=
  .object (ms.map fun m => (m.1.toList, m.2))

namespace Node

def peerJson (addr : SocketAddr) (s : PeerStat) : List Char :=
  jsonObject [jsonMember "name" (jsonString s.name.text),
    jsonMember "addr" (jsonPlain addr.display),
    jsonCount "score" s.score,
    jsonCount "pulls" s.pulls.toNat,
    jsonCount "downloaded_bytes" s.downloadedBytes.toNat,
    jsonCount "nf_pulls" s.nfPulls.toNat,
    jsonCount "timeouts" s.timeouts.toNat,
    jsonCount "served" s.served.toNat,
    jsonCount "uploaded_bytes" s.uploadedBytes.toNat,
    jsonCount "nf_served" s.nfServed.toNat,
    jsonCount "latency_ms" s.latencyMs]

def faultJson : Option (ℕ × ℕ) → List Char
  | some (dropped, emitted) =>
    jsonMember "fault" (jsonObject [jsonCount "dropped" dropped, jsonCount "emitted" emitted])
  | none => jsonMember "fault" "null".toList

def publicJson : Option SocketAddr → List Char
  | some a => jsonPlain a.display
  | none => "null".toList

/-- JSON stats document for GET /stats. -/
def statsJson (n : Node) (r : Readings) : List Char :=
  jsonObject [jsonMember "version" (jsonPlain CARGO_PKG_VERSION),
    jsonMember "node" (jsonString n.name),
    jsonMember "role" (jsonPlain n.role.text),
    jsonCount "uptime_secs" r.uptime,
    jsonCount "peers_in_swarm" n.peers.len,
    jsonMember "public_endpoint" (publicJson n.myPublic),
    jsonMember "peers"
      ('[' :: [','].intercalate (n.ranked.map fun e => peerJson e.1 e.2) ++ [']']),
    jsonMember "downloaded"
      (jsonObject [jsonCount "segments" n.downloadedTotal.toNat, jsonCount "bytes" n.downloadedBytes.toNat]),
    jsonMember "uploaded"
      (jsonObject [jsonCount "segments" n.servedTotal.toNat, jsonCount "bytes" n.servedBytes.toNat]),
    jsonCount "store_bytes" r.storeBytes,
    jsonCount "store_segments" r.storeCount,
    jsonCount "edge_segment" r.edge,
    jsonCount "local_newest" r.localNewest,
    jsonCount "catch_up" (r.edge - r.localNewest),
    jsonCount "active_transfers" n.registry.activeCount,
    jsonCount "queue_depth" r.queueDepth,
    jsonCount "inflight" r.inflight,
    faultJson r.fault,
    jsonCount "rss_bytes" r.rssBytes]

/-! What the document says. -/

def peerValue (addr : SocketAddr) (s : PeerStat) : Value :=
  valueObject [("name", .string s.name.text.toList),
    ("addr", .string addr.display.toList),
    ("score", .number s.score),
    ("pulls", .number s.pulls.toNat),
    ("downloaded_bytes", .number s.downloadedBytes.toNat),
    ("nf_pulls", .number s.nfPulls.toNat),
    ("timeouts", .number s.timeouts.toNat),
    ("served", .number s.served.toNat),
    ("uploaded_bytes", .number s.uploadedBytes.toNat),
    ("nf_served", .number s.nfServed.toNat),
    ("latency_ms", .number s.latencyMs)]

def faultValue : Option (ℕ × ℕ) → Value
  | some (dropped, emitted) =>
    valueObject [("dropped", .number dropped), ("emitted", .number emitted)]
  | none => .null

def publicValue : Option SocketAddr → Value
  | some a => .string a.display.toList
  | none => .null

def statsValue (n : Node) (r : Readings) : Value :=
  valueObject [("version", .string CARGO_PKG_VERSION.toList),
    ("node", .string n.name.toList),
    ("role", .string n.role.text.toList),
    ("uptime_secs", .number r.uptime),
    ("peers_in_swarm", .number n.peers.len),
    ("public_endpoint", publicValue n.myPublic),
    ("peers", .array (n.ranked.map fun e => peerValue e.1 e.2)),
    ("downloaded",
      valueObject [("segments", .number n.downloadedTotal.toNat), ("bytes", .number n.downloadedBytes.toNat)]),
    ("uploaded",
      valueObject [("segments", .number n.servedTotal.toNat), ("bytes", .number n.servedBytes.toNat)]),
    ("store_bytes", .number r.storeBytes),
    ("store_segments", .number r.storeCount),
    ("edge_segment", .number r.edge),
    ("local_newest", .number r.localNewest),
    ("catch_up", .number (r.edge - r.localNewest)),
    ("active_transfers", .number n.registry.activeCount),
    ("queue_depth", .number r.queueDepth),
    ("inflight", .number r.inflight),
    ("fault", faultValue r.fault),
    ("rss_bytes", .number r.rssBytes)]

end Node

/-! Strings as they are read. -/

theorem hexUnit_of_control {c : Char} (h : c.toNat < 0x20) :
    Json.hexUnit '0' '0' (Nat.digitChar (c.toNat / 16)) (Nat.digitChar (c.toNat % 16)) =
      some c.toNat := by
  generalize c.toNat = k at h
  interval_cases k <;> rfl

/-- A character's escape is one piece of a string. -/
theorem body_jsonEscapeChar (c : Char) {cs : List Char} {us : List ℕ} (h : Body cs us) :
    Body (jsonEscapeChar c ++ cs) (c.toNat :: us) := by
  unfold jsonEscapeChar
  split
  · exact .escape rfl h
  · exact .escape rfl h
  · exact .escape rfl h
  · exact .escape rfl h
  · exact .escape rfl h
  next hquote hslash _ _ _ =>
    split
    next hcontrol => exact .unit (hexUnit_of_control hcontrol) h
    next hplain => exact .plain hquote hslash (Nat.le_of_not_lt hplain) h

theorem body_flatMap (cs : List Char) : Body (cs.flatMap jsonEscapeChar) (cs.map Char.toNat) := by
  induction cs with
  | nil => exact .nil
  | cons c cs ih => exact body_jsonEscapeChar c ih

/-- Text that needs no escapes. -/
def PlainChar (c : Char) : Prop := c ≠ '"' ∧ c ≠ '\\' ∧ 0x20 ≤ c.toNat

instance (c : Char) : Decidable (PlainChar c) := inferInstanceAs (Decidable (_ ∧ _))

theorem body_plain {cs : List Char} (h : ∀ c ∈ cs, PlainChar c) : Body cs (cs.map Char.toNat) := by
  induction cs with
  | nil => exact .nil
  | cons c cs ih =>
    obtain ⟨⟨hquote, hslash, hlow⟩, hrest⟩ := List.forall_mem_cons.mp h
    exact .plain hquote hslash hlow (ih hrest)

theorem plainChar_of_mem_toDigits {b n : ℕ} (hb : 1 < b ∧ b ≤ 16) :
    ∀ c ∈ Nat.toDigits b n, PlainChar c := by
  induction n using Nat.strong_induction_on with
  | _ n ih =>
    have hdigit {d : ℕ} (hd : d < b) : PlainChar d.digitChar := by
      have hd : d < 16 := lt_of_lt_of_le hd hb.2
      interval_cases d <;> decide
    by_cases hsmall : n < b
    · rw [Nat.toDigits_of_lt_base hsmall]
      exact List.forall_mem_singleton.mpr (hdigit hsmall)
    · have hn : n / b < n := Nat.div_lt_self (by omega) hb.1
      rw [Nat.toDigits_of_base_le hb.1 (Nat.le_of_not_lt hsmall)]
      exact List.forall_mem_append.mpr
        ⟨ih _ hn, List.forall_mem_singleton.mpr (hdigit (Nat.mod_lt n (by omega)))⟩

def PlainText (s : String) : Prop := ∀ c ∈ s.toList, PlainChar c

theorem PlainText.append {s t : String} (hs : PlainText s) (ht : PlainText t) :
    PlainText (s ++ t) := by
  unfold PlainText
  rw [String.toList_append]
  exact List.forall_mem_append.mpr ⟨hs, ht⟩

theorem PlainText.intercalate {sep : String} (hsep : PlainText sep) {ss : List String}
    (h : ∀ s ∈ ss, PlainText s) : PlainText (sep.intercalate ss) := by
  unfold PlainText
  rw [String.toList_intercalate]
  induction ss with
  | nil => exact fun c hc => by cases hc
  | cons s ss ih =>
    obtain ⟨hs, hss⟩ := List.forall_mem_cons.mp h
    cases ss with
    | nil => rwa [List.map_cons, List.map_nil, List.intercalate_singleton]
    | cons t ss =>
      have hrest := ih hss
      simp only [List.map_cons, List.intercalate_cons_cons] at hrest ⊢
      exact List.forall_mem_append.mpr ⟨List.forall_mem_append.mpr ⟨hs, hsep⟩, hrest⟩

theorem plainText_toDigits {b : ℕ} (hb : 1 < b ∧ b ≤ 16) (n : ℕ) :
    PlainText (String.ofList (Nat.toDigits b n)) := by
  unfold PlainText
  rw [String.toList_ofList]
  exact plainChar_of_mem_toDigits hb

theorem plainText_toString (n : ℕ) : PlainText (toString n) := by
  rw [Nat.toString_eq_ofList_toDigits]
  exact plainText_toDigits (by decide) n

theorem plainText_display4 (ip : Ipv4Addr) : PlainText ip.display :=
  .intercalate (by simp [PlainText, PlainChar]) fun s hs => by
    obtain ⟨b, -, rfl⟩ := List.mem_map.mp hs
    exact plainText_toString b.toNat

theorem plainText_displayGroups (groups : List ℕ) : PlainText (displayGroups groups) :=
  .intercalate (by simp [PlainText, PlainChar]) fun s hs => by
    obtain ⟨g, -, rfl⟩ := List.mem_map.mp hs
    exact plainText_toDigits (by decide) g

theorem plainText_display6 (ip : BitVec 128) : PlainText (display6 ip) := by
  simp only [display6]
  split
  · exact .append (by simp [PlainText, PlainChar]) (plainText_display4 _)
  split
  · have hcolons : PlainText "::" := by simp [PlainText, PlainChar]
    exact .append (.append (plainText_displayGroups _) hcolons) (plainText_displayGroups _)
  · exact plainText_displayGroups _

/-- Addresses are displayed in digits and separators. -/
theorem plainText_display (addr : SocketAddr) : PlainText addr.display := by
  unfold SocketAddr.display
  split
  · exact .append (.append (plainText_display4 _) (by simp [PlainText, PlainChar]))
      (plainText_toString _)
  · have hopen : PlainText "[" := by simp [PlainText, PlainChar]
    have hclose : PlainText "]:" := by simp [PlainText, PlainChar]
    exact .append (.append (.append hopen (plainText_display6 _)) hclose) (plainText_toString _)

/-! The pieces as they are read. -/

theorem reads_jsonString (s : String) : Reads (jsonString s) (.string s.toList) :=
  .string (body_flatMap s.toList) (Json.joinUnits_toNat s.toList)

theorem reads_jsonPlain {s : String} (h : PlainText s) :
    Reads (jsonPlain s) (.string s.toList) := .string (body_plain h) (Json.joinUnits_toNat s.toList)

theorem reads_jsonMember {key : String} {t : List Char} {v : Value}
    (hkey : PlainText key) (h : Reads t v) :
    ReadsMember (jsonMember key t) (key.toList, v) :=
  ⟨key.toList, _, t, rfl, body_plain hkey, Json.joinUnits_toNat key.toList, h⟩

theorem reads_jsonCount {key : String} (hkey : PlainText key) (n : ℕ) :
    ReadsMember (jsonCount key n) (key.toList, .number n) := reads_jsonMember hkey (.number n)

theorem reads_jsonObject {ts : List (List Char)} {ms : List (String × Value)}
    (h : List.Forall₂ (fun t m => ReadsMember t (m.1.toList, m.2)) ts ms) :
    Reads (jsonObject ts) (valueObject ms) :=
  .object (List.forall₂_map_right_iff.mpr h)

namespace Node

theorem reads_peerJson (addr : SocketAddr) (s : PeerStat) :
    Reads (peerJson addr s) (peerValue addr s) := by
  refine reads_jsonObject (.cons (reads_jsonMember (by simp [PlainText, PlainChar]) (reads_jsonString _)) (.cons
    (reads_jsonMember (by simp [PlainText, PlainChar]) (reads_jsonPlain (plainText_display addr))) ?_))
  iterate 9 refine .cons (reads_jsonCount (by simp [PlainText, PlainChar]) _) ?_
  exact .nil

theorem reads_faultJson (fault : Option (ℕ × ℕ)) :
    ReadsMember (faultJson fault) ("fault".toList, faultValue fault) := by
  cases fault with
  | none => exact reads_jsonMember (by simp [PlainText, PlainChar]) .null
  | some counts =>
    refine reads_jsonMember (by simp [PlainText, PlainChar]) (reads_jsonObject ?_)
    exact .cons (reads_jsonCount (by simp [PlainText, PlainChar]) _) (.cons (reads_jsonCount (by simp [PlainText, PlainChar]) _) .nil)

theorem reads_publicJson (addr : Option SocketAddr) :
    Reads (publicJson addr) (publicValue addr) := by
  cases addr with
  | none => exact .null
  | some a => exact reads_jsonPlain (plainText_display a)

/-- The document of every node is read field by field. -/
theorem reads_statsJson (n : Node) (r : Readings) : Reads (n.statsJson r) (n.statsValue r) := by
  have hrole : PlainText n.role.text := by cases n.role <;> simp [Role.text, PlainText, PlainChar]
  have hversion : PlainText CARGO_PKG_VERSION := by
    simp [CARGO_PKG_VERSION, PlainText, PlainChar]
  have hpeers : List.Forall₂ Reads (n.ranked.map fun e => peerJson e.1 e.2)
      (n.ranked.map fun e => peerValue e.1 e.2) := by
    rw [List.forall₂_map_left_iff, List.forall₂_map_right_iff]
    exact List.forall₂_same.mpr fun e _ => reads_peerJson e.1 e.2
  refine reads_jsonObject (.cons (reads_jsonMember (by simp [PlainText, PlainChar]) (reads_jsonPlain hversion)) (.cons
    (reads_jsonMember (by simp [PlainText, PlainChar]) (reads_jsonString _)) (.cons
    (reads_jsonMember (by simp [PlainText, PlainChar]) (reads_jsonPlain hrole)) ?_)))
  iterate 2 refine .cons (reads_jsonCount (by simp [PlainText, PlainChar]) _) ?_
  refine .cons (reads_jsonMember (by simp [PlainText, PlainChar]) (reads_publicJson _)) (.cons
    (reads_jsonMember (by simp [PlainText, PlainChar]) (.array hpeers)) ?_)
  have htwo {k l : String} (hk : PlainText k) (hl : PlainText l)
      (x y : ℕ) : Reads (jsonObject [jsonCount k x, jsonCount l y])
        (valueObject [(k, .number x), (l, .number y)]) :=
    reads_jsonObject (.cons (reads_jsonCount hk x) (.cons (reads_jsonCount hl y) .nil))
  iterate 2 refine .cons (reads_jsonMember (by simp [PlainText, PlainChar]) (htwo (by simp [PlainText, PlainChar]) (by simp [PlainText, PlainChar]) _ _)) ?_
  iterate 8 refine .cons (reads_jsonCount (by simp [PlainText, PlainChar]) _) ?_
  exact .cons (reads_faultJson _) (.cons (reads_jsonCount (by simp [PlainText, PlainChar]) _) .nil)

end Node

/-- An escaped string is a JSON string for every text, and is read back as that text, so that the
stats document is read as it was meant whatever the names in it are. -/
theorem jsonEscape_roundTrips (s : String) :
    Body (jsonEscape s) (s.toList.map Char.toNat) ∧ (∀ c ∈ jsonEscape s, 0x20 ≤ c.toNat) ∧
      (∀ rest, Json.readString (jsonEscape s ++ '"' :: rest) = some (s.toList, rest)) ∧
      ∀ (n : Node) (r : Readings), Json.read (n.statsJson r) = some (n.statsValue r) := by
  have hbody : Body (jsonEscape s) (s.toList.map Char.toNat) := body_flatMap s.toList
  refine ⟨hbody, hbody.printable, fun rest => ?_, fun n r => (n.reads_statsJson r).read⟩
  exact Json.readString_of_body hbody (Json.joinUnits_toNat s.toList) rest

end Qstream

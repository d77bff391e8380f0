import Qstream.Markup
import Qstream.UpnpMapping

/-! The router at the other end. It is a parameter, of which only what is documented is relied on:
it reads the requests as messages of HTTP with an envelope in them, and keeps a table of
mappings. -/
namespace Qstream
open Text

/-- A mapping as a router keeps it. -/
structure Mapping where
  remoteHost : List Char
  externalPort : ℕ
  protocol : List Char
  internalPort : ℕ
  internalClient : Ipv4Addr
  enabled : Bool
  description : List Char
  leaseDuration : ℕ
  deriving DecidableEq

/-- The mapping that an envelope asks for. -/
def Mapping.read (envelope : List Char) : Option Mapping := do
  let argument (name : String) := Markup.content name.toList envelope
  let remoteHost ← argument "NewRemoteHost"
  let externalPort ← (argument "NewExternalPort").bind parseU64
  let protocol ← argument "NewProtocol"
  let internalPort ← (argument "NewInternalPort").bind parseU64
  let internalClient ← (argument "NewInternalClient").bind Ipv4Addr.parse
  let enabled ← argument "NewEnabled"
  let description ← argument "NewPortMappingDescription"
  let leaseDuration ← (argument "NewLeaseDuration").bind parseU64
  return ⟨remoteHost, externalPort, protocol, internalPort, internalClient, enabled = ['1'],
    description, leaseDuration⟩

/-- UDP at the same port inside and outside, from everywhere and for good. -/
def udpMapping (internal : Ipv4Addr) (port : ℕ) : Mapping where
  remoteHost := []
  externalPort := port
  protocol := "UDP".toList
  internalPort := port
  internalClient := internal
  enabled := true
  description := "qstream".toList
  leaseDuration := 0

/-- What a mapping is kept under. -/
def Mapping.key (x : Mapping) : List Char × ℕ × List Char := (x.remoteHost, x.externalPort, x.protocol)

abbrev MappingTable := List Char × ℕ × List Char → Option Mapping

/-- A new mapping takes the place of the one under its key. -/
def MappingTable.with (t : MappingTable) (x : Mapping) : MappingTable :=
  Function.update t x.key (some x)

/-- A response of HTTP: the lines of a head, an empty one, and the body. -/
def IsResponse (response body : List Char) : Prop :=
  ∃ head : List (List Char), head ≠ [] ∧ (∀ l ∈ head, l ≠ [] ∧ '\r' ∉ l) ∧
    response = head.flatMap (· ++ ['\r', '\n']) ++ ['\r', '\n'] ++ body

/-- A response with an element. -/
def Gives (response name text : List Char) : Prop :=
  ∃ opening closing : List Markup.Piece, (∀ p ∈ opening, p.Plain) ∧ .tag name ∉ opening ∧
    IsResponse response
      (Markup.write (opening ++ .tag name :: .text text :: .tag ('/' :: name) :: closing))

/-- A response with a tag of that name, under whatever prefix. -/
def Confirms (response name : List Char) : Prop :=
  ∃ (pieces : List Markup.Piece) (t : List Char), .tag t ∈ pieces ∧ name <:+: t ∧
    IsResponse response (Markup.write pieces)

/-- A response that has no element of either action. -/
def Refuses (response : List Char) : Prop :=
  ∃ body, IsResponse response body ∧ ¬ Markup.bracketed "NewExternalIPAddress".toList <:+: body ∧
    ¬ "AddPortMappingResponse".toList <:+: body

/-- A router with a connection service, in its states. -/
structure Gateway (σ : Type*) where
  service : List Char
  host : List Char
  path : List Char
  externalIp : σ → Ipv4Addr
  table : σ → MappingTable
  /-- Whether it makes a mapping when it is asked for it; it does not when it is not reached. -/
  admits : σ → Mapping → Bool
  service_plain : '#' ∉ service
  host_plain : '/' ∉ host ∧ ∀ c ∈ host, isWhitespace c = false
  path_plain : path.head? = some '/' ∧ ∀ c ∈ path, isWhitespace c = false

namespace Gateway
variable {σ : Type*} (g : Gateway σ)

/-- Its control URL. -/
def url : List Char := "http://".toList ++ g.host ++ g.path

/-- The request is for an action of its service. -/
def accepts (m : HttpMessage.Frame) (action : List Char) : Prop :=
  m.start = asBytes ("POST ".toList ++ g.path ++ " HTTP/1.1".toList) ∧
  m.fields.lookup (textBytes "SOAPAction") = some (asBytes (soapAction g.service action))

instance (m : HttpMessage.Frame) (action : List Char) : Decidable (g.accepts m action) :=
  inferInstanceAs (Decidable (_ ∧ _))

/-- What is relied on of the router. `post` gives the response to a request, if it comes in time;
whether it does is left open, and so is what else changes in the state. -/
structure Serves (post : List Char → Bytes → σ → Option (List Char) × σ) : Prop where
  /-- Asked for the external address it changes no mapping, and answers with the address. -/
  external : ∀ request m s, HttpMessage.read (textBytes "Content-Length") true request = some (m, []) →
    g.accepts m "GetExternalIPAddress".toList →
    g.table (post g.host request s).2 = g.table s ∧
      ∀ r ∈ (post g.host request s).1,
        Gives r "NewExternalIPAddress".toList (g.externalIp s).display.toList
  /-- A mapping that it admits is made and confirmed. -/
  made : ∀ request m x s, HttpMessage.read (textBytes "Content-Length") true request = some (m, []) →
    g.accepts m "AddPortMapping".toList → (fromUtf8 m.body).bind Mapping.read = some x →
    g.admits s x = true →
    g.table (post g.host request s).2 = (g.table s).with x ∧
      ∀ r ∈ (post g.host request s).1, Confirms r "AddPortMappingResponse".toList
  /-- One that it does not admit is refused. -/
  refused : ∀ request m x s, HttpMessage.read (textBytes "Content-Length") true request = some (m, []) →
    g.accepts m "AddPortMapping".toList → (fromUtf8 m.body).bind Mapping.read = some x →
    g.admits s x = false →
    g.table (post g.host request s).2 = g.table s ∧ ∀ r ∈ (post g.host request s).1, Refuses r
  /-- Actions of a service that it does not have are refused. -/
  foreign : ∀ request m service action s,
    HttpMessage.read (textBytes "Content-Length") true request = some (m, []) →
    m.fields.lookup (textBytes "SOAPAction") = some (asBytes (soapAction service action)) →
    '#' ∉ service → service ≠ g.service →
    g.table (post g.host request s).2 = g.table s ∧ ∀ r ∈ (post g.host request s).1, Refuses r

end Gateway

theorem hash_split {a b s t : List Char} (ha : '#' ∉ a) (hb : '#' ∉ b) :
    a ++ '#' :: s = b ++ '#' :: t ↔ a = b ∧ s = t := by
  induction a generalizing b with
  | nil =>
    cases b with
    | nil => simp
    | cons d b => simp [(List.ne_and_not_mem_of_not_mem_cons hb).1]
  | cons c a ih =>
    obtain ⟨hc, ha⟩ := List.ne_and_not_mem_of_not_mem_cons ha
    cases b with
    | nil => simp [hc.symm]
    | cons d b =>
      have hb := (List.ne_and_not_mem_of_not_mem_cons hb).2
      simp [ih ha hb, and_assoc]

theorem asBytes_inj {s t : List Char} : asBytes s = asBytes t ↔ s = t := by
  refine ⟨fun h => ?_, congrArg asBytes⟩
  rw [asBytes_eq, asBytes_eq] at h
  have hread := congrArg fromUtf8 h
  rwa [fromUtf8_encodeUtf8, fromUtf8_encodeUtf8, Option.some.injEq] at hread

/-- The service and the action can be told from the field. -/
theorem soapAction_inj {service service' action action' : List Char} (h : '#' ∉ service)
    (h' : '#' ∉ service') :
    soapAction service action = soapAction service' action' ↔ service = service' ∧ action = action' := by
  simp only [soapAction, List.cons_append, List.append_assoc, List.cons.injEq, true_and,
    hash_split h h', List.append_left_inj]

theorem lookup_soapFrame (host path action args : List Char) :
    (soapFrame host path action args).fields.lookup (textBytes "SOAPAction") =
      some (asBytes (soapAction SERVICE action)) := by
  have h1 : (textBytes "SOAPAction" == textBytes "Host") = false := by decide +kernel
  have h2 : (textBytes "SOAPAction" == textBytes "Content-Type") = false := by decide +kernel
  simp only [soapFrame, List.lookup_cons, h1, h2, beq_self_eq_true]

/-! The mapping in the envelope, and the answers as the node reads them. -/

/-- The elements of a request for a mapping. -/
def mappingFields (internal : Ipv4Addr) (port : ℕ) : List (List Char × List Char) :=
  [("NewRemoteHost".toList, []), ("NewExternalPort".toList, (toString port).toList),
    ("NewProtocol".toList, "UDP".toList), ("NewInternalPort".toList, (toString port).toList),
    ("NewInternalClient".toList, internal.display.toList), ("NewEnabled".toList, ['1']),
    ("NewPortMappingDescription".toList, "qstream".toList), ("NewLeaseDuration".toList, ['0'])]

/-- What stands before the elements. -/
def envelopeHead : List Markup.Piece :=
  [.tag "?xml version=\"1.0\"?".toList, .text ['\n'],
    .tag ("s:Envelope xmlns:s=\"http://schemas.xmlsoap.org/soap/envelope/\" ".toList ++
      "s:encodingStyle=\"http://schemas.xmlsoap.org/soap/encoding/\"".toList), .text ['\n'],
    .tag "s:Body".toList, .text ['\n'],
    .tag ("u:AddPortMapping xmlns:u=\"".toList ++ SERVICE ++ ['"']), .text ['\n']]

def envelopeEnd : List Markup.Piece :=
  [.text ['\n'], .tag "/u:AddPortMapping".toList, .text ['\n'], .tag "/s:Body".toList,
    .text ['\n'], .tag "/s:Envelope".toList]

theorem mappingArgs_eq (internal : Ipv4Addr) (port : ℕ) :
    mappingArgs internal port = Markup.write (Markup.elements (mappingFields internal port)) := by
  have h1 : "<NewRemoteHost></NewRemoteHost><NewExternalPort>".toList =
      Markup.bracketed "NewRemoteHost".toList ++ Markup.bracketed ('/' :: "NewRemoteHost".toList) ++
        Markup.bracketed "NewExternalPort".toList := by decide +kernel
  have h2 : "</NewExternalPort><NewProtocol>UDP</NewProtocol><NewInternalPort>".toList =
      Markup.bracketed ('/' :: "NewExternalPort".toList) ++ Markup.bracketed "NewProtocol".toList ++
        "UDP".toList ++ Markup.bracketed ('/' :: "NewProtocol".toList) ++
        Markup.bracketed "NewInternalPort".toList := by decide +kernel
  have h3 : "</NewInternalPort><NewInternalClient>".toList =
      Markup.bracketed ('/' :: "NewInternalPort".toList) ++
        Markup.bracketed "NewInternalClient".toList := by decide +kernel
  have h4 : "</NewInternalClient><NewEnabled>1</NewEnabled>".toList =
      Markup.bracketed ('/' :: "NewInternalClient".toList) ++ Markup.bracketed "NewEnabled".toList ++
        ['1'] ++ Markup.bracketed ('/' :: "NewEnabled".toList) := by decide +kernel
  have h5 : "<NewPortMappingDescription>qstream</NewPortMappingDescription>".toList =
      Markup.bracketed "NewPortMappingDescription".toList ++ "qstream".toList ++
        Markup.bracketed ('/' :: "NewPortMappingDescription".toList) := by decide +kernel
  have h6 : "<NewLeaseDuration>0</NewLeaseDuration>".toList =
      Markup.bracketed "NewLeaseDuration".toList ++ ['0'] ++
        Markup.bracketed ('/' :: "NewLeaseDuration".toList) := by decide +kernel
  unfold mappingArgs
  simp only [h1, h2, h3, h4, h5, h6, mappingFields, Markup.elements, Markup.write,
    Markup.Piece.write, List.flatMap_cons, List.flatMap_nil, List.append_assoc, List.append_nil,
    List.nil_append, List.cons_append]

/-- The envelope is markup around the elements. -/
theorem soapEnvelope_eq (internal : Ipv4Addr) (port : ℕ) :
    soapEnvelope "AddPortMapping".toList (mappingArgs internal port) =
      Markup.write (envelopeHead ++ Markup.elements (mappingFields internal port) ++ envelopeEnd) := by
  have hhead : "<?xml version=\"1.0\"?>\n<s:Envelope ".toList ++
      "xmlns:s=\"http://schemas.xmlsoap.org/soap/envelope/\" ".toList ++
      "s:encodingStyle=\"http://schemas.xmlsoap.org/soap/encoding/\">\n<s:Body>\n<u:".toList ++
      "AddPortMapping".toList ++ " xmlns:u=\"".toList ++ SERVICE ++ "\">\n".toList =
        Markup.write envelopeHead := by decide +kernel
  have hend : "\n</u:".toList ++ ("AddPortMapping".toList ++ ">\n</s:Body>\n</s:Envelope>".toList) =
      Markup.write envelopeEnd := by decide +kernel
  have hwrite (ps qs : List Markup.Piece) :
      Markup.write (ps ++ qs) = Markup.write ps ++ Markup.write qs := List.flatMap_append
  unfold soapEnvelope
  rw [hhead, List.append_assoc, List.append_assoc, hend, mappingArgs_eq, hwrite, hwrite,
    List.append_assoc]

/-- The router reads the mapping that is meant. -/
theorem read_mapping (internal : Ipv4Addr) {port : ℕ} (hport : port < 65536) :
    Mapping.read (soapEnvelope "AddPortMapping".toList (mappingArgs internal port)) =
      some (udpMapping internal port) := by
  have hdigits : '<' ∉ (toString port).toList := fun h =>
    absurd (isAsciiDigit_of_mem_toString h) (by decide)
  have hnames : ∀ name ∈ ["NewRemoteHost", "NewExternalPort", "NewProtocol", "NewInternalPort",
      "NewInternalClient", "NewEnabled", "NewPortMappingDescription", "NewLeaseDuration"],
      '<' ∉ name.toList ∧ '>' ∉ name.toList := by
    decide
  have hargs : ∀ a ∈ mappingFields internal port, ('<' ∉ a.1 ∧ '>' ∉ a.1) ∧ '<' ∉ a.2 := by
    intro a ha
    simp only [mappingFields, List.mem_cons, List.not_mem_nil, or_false] at ha
    rcases ha with rfl | rfl | rfl | rfl | rfl | rfl | rfl | rfl
    · exact ⟨hnames _ (by simp), by decide⟩
    · exact ⟨hnames _ (by simp), hdigits⟩
    · exact ⟨hnames _ (by simp), by decide⟩
    · exact ⟨hnames _ (by simp), hdigits⟩
    · exact ⟨hnames _ (by simp), bracket_not_mem_display internal⟩
    · exact ⟨hnames _ (by simp), by decide⟩
    · exact ⟨hnames _ (by simp), by decide⟩
    · exact ⟨hnames _ (by simp), by decide⟩
  have hhead : ∀ p ∈ envelopeHead, p.Plain := by decide +kernel
  have hfield {name t : List Char} (hname : '>' ∉ name) (hopen : name.head? ≠ some '/')
      (hnot : .tag name ∉ envelopeHead) (h : (mappingFields internal port).lookup name = some t) :
      Markup.content name (soapEnvelope "AddPortMapping".toList (mappingArgs internal port)) = some t := by
    rw [soapEnvelope_eq]
    exact Markup.content_elements hname hopen hhead hnot hargs h envelopeEnd
  generalize soapEnvelope "AddPortMapping".toList (mappingArgs internal port) = e at hfield
  have hremote : Markup.content "NewRemoteHost".toList e = some [] :=
    hfield (by decide) (by decide) (by decide +kernel) rfl
  have hexternal : Markup.content "NewExternalPort".toList e = some (toString port).toList :=
    hfield (by decide) (by decide) (by decide +kernel) rfl
  have hprotocol : Markup.content "NewProtocol".toList e = some "UDP".toList :=
    hfield (by decide) (by decide) (by decide +kernel) rfl
  have hinternal : Markup.content "NewInternalPort".toList e = some (toString port).toList :=
    hfield (by decide) (by decide) (by decide +kernel) rfl
  have hclient : Markup.content "NewInternalClient".toList e = some internal.display.toList :=
    hfield (by decide) (by decide) (by decide +kernel) rfl
  have henabled : Markup.content "NewEnabled".toList e = some ['1'] :=
    hfield (by decide) (by decide) (by decide +kernel) rfl
  have hdescription : Markup.content "NewPortMappingDescription".toList e = some "qstream".toList :=
    hfield (by decide) (by decide) (by decide +kernel) rfl
  have hlease : Markup.content "NewLeaseDuration".toList e = some ['0'] :=
    hfield (by decide) (by decide) (by decide +kernel) rfl
  have hnumber : parseU64 (toString port).toList = some port := parseU64_toString (by omega)
  have hzero : parseU64 ['0'] = some 0 := by decide
  simp only [Mapping.read, hremote, hexternal, hprotocol, hinternal, hclient, henabled,
    hdescription, hlease, Option.bind_eq_bind, Option.bind_some, hnumber, hzero,
    Ipv4Addr.parse_display]
  rfl

/-! The answers as the node reads them. -/

/-- A search passes over text without the first character of the pattern. -/
theorem find_skip {c : Char} {t : List Char} (ht : c ∉ t) (p s : List Char) :
    find (c :: p) (t ++ s) = (find (c :: p) s).map (· + t.length) := by
  induction t with
  | nil => simp
  | cons d t ih =>
    obtain ⟨hd, ht⟩ := List.ne_and_not_mem_of_not_mem_cons ht
    rw [List.cons_append, find_cons, if_neg (by simp [startsWith, hd]), ih ht, Option.map_map]
    rfl

theorem find_prefix (p s : List Char) : find p (p ++ s) = some 0 := by
  cases h : p ++ s with
  | nil =>
    obtain ⟨rfl, rfl⟩ := List.append_eq_nil_iff.mp h
    rfl
  | cons c u => rw [find_cons, ← h, if_pos (by simp [startsWith])]

theorem find_eq_after (p s : List Char) :
    (find p s).map (fun i => s.drop (i + p.length)) = Markup.after p s := by
  induction s with
  | nil => cases p <;> simp [find, startsWith, Markup.after]
  | cons c s ih =>
    rw [find_cons, Markup.after]
    by_cases h : p <+: c :: s
    · simp [startsWith, h]
    · rw [if_neg (by simpa [startsWith] using h), if_neg h, ← ih, Option.map_map]
      congr 1
      funext i
      simp [Nat.add_right_comm]

theorem find_isSome_iff {p s : List Char} : (find p s).isSome ↔ p <:+: s := by
  rw [find, List.findIdx?_isSome, List.any_eq_true, List.infix_iff_prefix_suffix]
  exact exists_congr fun t => by simp [startsWith, List.mem_tails, and_comm]

/-- The text of an element is found between its tags. -/
theorem tagText_write {name t : List Char} {ps : List Markup.Piece} (hname : '>' ∉ name)
    (hps : ∀ p ∈ ps, p.Plain) (hnot : .tag name ∉ ps) (ht : '<' ∉ t) (qs : List Markup.Piece) :
    tagText (Markup.write (ps ++ .tag name :: .text t :: .tag ('/' :: name) :: qs)) name =
      some (trim t) := by
  have hafter := find_eq_after (Markup.bracketed name)
    (Markup.write (ps ++ .tag name :: .text t :: .tag ('/' :: name) :: qs))
  rw [Markup.after_tag hname hps hnot] at hafter
  obtain ⟨i, hi, hrest⟩ := Option.map_eq_some_iff.mp hafter
  have hopen : ['<'] ++ name ++ ['>'] = Markup.bracketed name := rfl
  have hclose : ['<', '/'] ++ name ++ ['>'] = '<' :: ('/' :: name ++ ['>']) := rfl
  have hsplit : Markup.write (.text t :: .tag ('/' :: name) :: qs) =
      t ++ ('<' :: ('/' :: name ++ ['>']) ++ Markup.write qs) := by
    simp [Markup.write, Markup.Piece.write, Markup.bracketed]
  simp only [tagText, hopen, hclose, hi, Option.bind_some, hrest, hsplit, find_skip ht,
    find_prefix, Option.map_some, Nat.zero_add, List.take_left]

/-- The empty line comes right after the lines. -/
theorem find_blank {ls : List (List Char)} (hls : ls ≠ []) (h : ∀ l ∈ ls, l ≠ [] ∧ '\r' ∉ l)
    (body : List Char) :
    (find "\r\n\r\n".toList (ls.flatMap (· ++ ['\r', '\n']) ++ ['\r', '\n'] ++ body)).map (· + 4) =
      some (ls.flatMap (· ++ ['\r', '\n']) ++ ['\r', '\n']).length := by
  have hpattern : "\r\n\r\n".toList = '\r' :: ['\n', '\r', '\n'] := rfl
  rw [hpattern]
  induction ls with
  | nil => exact absurd rfl hls
  | cons l ls ih =>
    have hl := (h l List.mem_cons_self).2
    rw [List.flatMap_cons, List.append_assoc, List.append_assoc, List.append_assoc, find_skip hl]
    cases ls with
    | nil =>
      have hend : ['\r', '\n'] ++ ([].flatMap (· ++ ['\r', '\n']) ++ (['\r', '\n'] ++ body)) =
          '\r' :: ['\n', '\r', '\n'] ++ body := rfl
      rw [hend, find_prefix]
      simp
    | cons l' ls =>
      have hrest := ih (List.cons_ne_nil _ _) fun m hm => h m (List.mem_cons_of_mem _ hm)
      obtain ⟨hne, hl'⟩ := h l' (List.mem_cons_of_mem _ List.mem_cons_self)
      obtain ⟨c, t, rfl⟩ := List.exists_cons_of_ne_nil hne
      have hc : c ≠ '\r' := fun hc => hl' (hc ▸ List.mem_cons_self)
      -- the next line does not begin with a line end
      have hstart (s : List Char) : find ('\r' :: ['\n', '\r', '\n']) (['\r', '\n'] ++ (c :: s)) =
          (find ('\r' :: ['\n', '\r', '\n']) (c :: s)).map (· + 2) := by
        rw [List.cons_append, find_cons, if_neg (by simp [startsWith, hc.symm]), find_skip (by decide),
          Option.map_map]
        rfl
      have hcons : ((c :: t) :: ls).flatMap (· ++ ['\r', '\n']) ++ ['\r', '\n'] ++ body =
          c :: (t ++ ['\r', '\n'] ++ ls.flatMap (· ++ ['\r', '\n']) ++ ['\r', '\n'] ++ body) := by
        simp
      obtain ⟨i, hi, hlen⟩ := Option.map_eq_some_iff.mp hrest
      rw [← List.append_assoc (List.flatMap _ _), hcons, hstart, ← hcons, hi, Option.map_some,
        Option.map_some, Option.map_some, Option.some.injEq]
      simp only [List.length_append, List.length_cons, List.length_nil] at hlen ⊢
      omega

theorem IsResponse.bodyOf {response body : List Char} (h : IsResponse response body) :
    bodyOf response = some body := by
  obtain ⟨head, hne, hlines, rfl⟩ := h
  obtain ⟨i, hi, hlen⟩ := Option.map_eq_some_iff.mp (find_blank hne hlines body)
  unfold Qstream.bodyOf
  rw [hi, Option.map_some, hlen, List.drop_left]

/-- The node reads the external address from the answer. -/
theorem Gives.read {response : List Char} {ip : Ipv4Addr}
    (h : Gives response "NewExternalIPAddress".toList ip.display.toList) :
    ((bodyOf response).bind (tagText · "NewExternalIPAddress".toList)).bind
      (fun t => Ipv4Addr.parse (trim t)) = some ip := by
  obtain ⟨opening, closing, hplain, hsilent, hresponse⟩ := h
  rw [hresponse.bodyOf, Option.bind_some,
    tagText_write (by decide) hplain hsilent (bracket_not_mem_display ip), Option.bind_some,
    trim_display, trim_display, Ipv4Addr.parse_display]

theorem Confirms.read {response : List Char} (h : Confirms response "AddPortMappingResponse".toList) :
    (bodyOf response).map (fun body => (find "AddPortMappingResponse".toList body).isSome) =
      some true := by
  obtain ⟨pieces, t, htag, hname, hresponse⟩ := h
  obtain ⟨before, after, rfl⟩ := List.append_of_mem htag
  have hinfix : t <:+: Markup.write (before ++ .tag t :: after) :=
    ⟨Markup.write before ++ ['<'], '>' :: Markup.write after,
      by simp [Markup.write, Markup.Piece.write, Markup.bracketed]⟩
  rw [hresponse.bodyOf, Option.map_some, find_isSome_iff.mpr (hname.trans hinfix)]

theorem Refuses.read {response : List Char} (h : Refuses response) :
    (bodyOf response).bind (tagText · "NewExternalIPAddress".toList) = none ∧
    (bodyOf response).map (fun body => (find "AddPortMappingResponse".toList body).isSome) =
      some false := by
  obtain ⟨body, hresponse, hno, hnot⟩ := h
  have haddress : find (['<'] ++ "NewExternalIPAddress".toList ++ ['>']) body = none :=
    Option.not_isSome_iff_eq_none.mp fun hsome => hno (find_isSome_iff.mp hsome)
  have hconfirm : (find "AddPortMappingResponse".toList body).isSome = false :=
    Bool.eq_false_iff.mpr fun hsome => hnot (find_isSome_iff.mp hsome)
  rw [hresponse.bodyOf, Option.bind_some, Option.map_some, hconfirm, tagText]
  exact ⟨by simp only [haddress, Option.bind_none], rfl⟩

namespace Gateway
variable {σ : Type*} (g : Gateway σ) {post : List Char → Bytes → σ → Option (List Char) × σ}

theorem splitUrl_url : splitUrl g.url = some (g.host, g.path) := by
  obtain ⟨rest, hpath⟩ := List.head?_eq_some_iff.mp g.path_plain.1
  have hurl : g.url = "http://".toList ++ (g.host ++ '/' :: rest) := by
    unfold url
    rw [hpath, List.append_assoc]
  have hstrip : stripPrefix "http://".toList g.url = some (g.host ++ '/' :: rest) := by
    rw [hurl, stripPrefix, if_pos (List.prefix_append _ _), List.drop_left]
  rw [splitUrl, hstrip, Option.map_some, find_char g.host_plain.1]
  simp [hpath]

/-- The response to a call, as the network gives it. -/
def call (post : List Char → Bytes → σ → Option (List Char) × σ) (action args : List Char) (s : σ) :
    Option (List Char) × σ :=
  post g.host (asBytes (soapRequest g.host g.path action args)) s

theorem soapCall_url (action args : List Char) (s : σ) :
    soapCall post g.url action args s = ((g.call post action args s).1.bind bodyOf,
      (g.call post action args s).2) := by
  simp only [soapCall, splitUrl_url, call]

/-- A call is read as the message it is. -/
theorem read_call {action : List Char} (haction : '\r' ∉ action) (args : List Char) :
    HttpMessage.read (textBytes "Content-Length") true
      (asBytes (soapRequest g.host g.path action args)) =
        some (soapFrame g.host g.path action args, []) :=
  read_soapRequest g.host_plain.2 g.path_plain.2 haction args

theorem accepts_soapFrame (hservice : g.service = SERVICE) (action args : List Char) :
    g.accepts (soapFrame g.host g.path action args) action :=
  ⟨rfl, by rw [lookup_soapFrame, hservice]⟩

/-- A request is for one action of one service only. -/
theorem accepts_only {m : HttpMessage.Frame} {service action name : List Char} (hservice : '#' ∉ service)
    (h : m.fields.lookup (textBytes "SOAPAction") = some (asBytes (soapAction service action)))
    (hname : g.accepts m name) : service = g.service ∧ action = name := by
  have hsame := h.symm.trans hname.2
  rwa [Option.some.injEq, asBytes_inj, soapAction_inj hservice g.service_plain] at hsame

variable {g}

theorem Serves.foreign_call (hg : g.Serves post) (hservice : g.service ≠ SERVICE) {action : List Char}
    (haction : '\r' ∉ action) (args : List Char) (s : σ) :
    g.table (g.call post action args s).2 = g.table s ∧
      ∀ r ∈ (g.call post action args s).1, Refuses r :=
  hg.foreign _ _ SERVICE action s (g.read_call haction args) (lookup_soapFrame ..) (by decide)
    (Ne.symm hservice)

/-- The call for the external address. -/
def asked (g : Gateway σ) (post : List Char → Bytes → σ → Option (List Char) × σ) (s : σ) :
    Option (List Char) × σ :=
  g.call post "GetExternalIPAddress".toList [] s

/-- The call for the mapping. -/
def added (g : Gateway σ) (post : List Char → Bytes → σ → Option (List Char) × σ)
    (internal : Ipv4Addr) (port : ℕ) (s : σ) : Option (List Char) × σ :=
  g.call post "AddPortMapping".toList (mappingArgs internal port) s

/-- The address is learnt when the service is the one that is asked and the answer comes. -/
theorem Serves.getExternalIp (hg : g.Serves post) (s : σ) :
    getExternalIp post g.url s =
      (if g.service = SERVICE ∧ (g.asked post s).1.isSome then some (g.externalIp s) else none,
        (g.asked post s).2) ∧
    g.table (g.asked post s).2 = g.table s := by
  have haction : '\r' ∉ "GetExternalIPAddress".toList := by decide
  have hcall : Qstream.getExternalIp post g.url s =
      ((((g.asked post s).1.bind bodyOf).bind (tagText · "NewExternalIPAddress".toList)).bind
        fun ip => Ipv4Addr.parse (trim ip), (g.asked post s).2) := by
    rw [Qstream.getExternalIp, soapCall_url]
    rfl
  rw [hcall]
  by_cases hservice : g.service = SERVICE
  · obtain ⟨htable, hanswer⟩ := hg.external _ _ s (g.read_call haction [])
      (g.accepts_soapFrame hservice _ _)
    refine ⟨Prod.ext ?_ rfl, htable⟩
    cases hresponse : (g.asked post s).1 with
    | none => exact (if_neg fun h => Bool.false_ne_true h.2).symm
    | some r =>
      rw [Option.bind_some, (hanswer r hresponse).read]
      exact (if_pos ⟨hservice, rfl⟩).symm
  · obtain ⟨htable, hanswer⟩ := hg.foreign_call hservice haction [] s
    refine ⟨Prod.ext ?_ rfl, htable⟩
    rw [if_neg fun h => hservice h.1]
    cases hresponse : (g.asked post s).1 with
    | none => rfl
    | some r => rw [Option.bind_some, (hanswer r hresponse).read.1, Option.bind_none]

theorem read_mappingFrame (g : Gateway σ) (internal : Ipv4Addr) {port : ℕ} (hport : port < 65536) :
    (fromUtf8 (soapFrame g.host g.path "AddPortMapping".toList (mappingArgs internal port)).body).bind
      Mapping.read = some (udpMapping internal port) := by
  change (fromUtf8 (asBytes (soapEnvelope _ _))).bind _ = _
  rw [asBytes_eq, fromUtf8_encodeUtf8, Option.bind_some, read_mapping internal hport]

/-- The mapping is made when the router admits it, and known to be when the confirmation comes. -/
theorem Serves.addPortMapping (hg : g.Serves post) (hservice : g.service = SERVICE)
    (internal : Ipv4Addr) {port : ℕ} (hport : port < 65536) (s : σ) :
    addPortMapping post (some internal) g.url port s =
      ((g.added post internal port s).1.map fun _ => g.admits s (udpMapping internal port),
        (g.added post internal port s).2) ∧
    g.table (g.added post internal port s).2 =
      if g.admits s (udpMapping internal port) then (g.table s).with (udpMapping internal port)
      else g.table s := by
  have haction : '\r' ∉ "AddPortMapping".toList := by decide
  have hread := g.read_call haction (mappingArgs internal port)
  have haccepts := g.accepts_soapFrame hservice "AddPortMapping".toList (mappingArgs internal port)
  have hmapping := g.read_mappingFrame internal hport
  have hcall : Qstream.addPortMapping post (some internal) g.url port s =
      (((g.added post internal port s).1.bind bodyOf).map fun body =>
        (find "AddPortMappingResponse".toList body).isSome, (g.added post internal port s).2) := by
    rw [Qstream.addPortMapping, soapCall_url]
    rfl
  rw [hcall]
  cases hadmits : g.admits s (udpMapping internal port) with
  | true =>
    obtain ⟨htable, hanswer⟩ := hg.made _ _ _ s hread haccepts hmapping hadmits
    refine ⟨Prod.ext ?_ rfl, htable⟩
    cases hresponse : (g.added post internal port s).1 with
    | none => rfl
    | some r => exact (hanswer r hresponse).read
  | false =>
    obtain ⟨htable, hanswer⟩ := hg.refused _ _ _ s hread haccepts hmapping hadmits
    refine ⟨Prod.ext ?_ rfl, htable⟩
    cases hresponse : (g.added post internal port s).1 with
    | none => rfl
    | some r => exact (hanswer r hresponse).read.2

/-- What the node makes of the two calls. -/
theorem Serves.tryMap (hg : g.Serves post) {wordFinal : List Char → List Char → Bool}
    {get : List Char → Bytes → Option (List Char)} {responses : List Bytes}
    (hfound : discoverControlUrl wordFinal (httpGet get) responses = some g.url)
    (internal : Ipv4Addr) {port : ℕ} (hport : port < 65536) (s : σ) :
    tryMap post wordFinal get responses (some internal) port s =
      if g.service = SERVICE ∧ (g.asked post s).1.isSome then
        (if g.admits (g.asked post s).2 (udpMapping internal port) ∧
            (g.added post internal port (g.asked post s).2).1.isSome then
          some ⟨.v4 (g.externalIp s), port⟩ else none,
        (g.added post internal port (g.asked post s).2).2)
      else (none, (g.asked post s).2) := by
  have hip := (hg.getExternalIp s).1
  rw [Qstream.tryMap, hfound]
  dsimp only
  rw [hip]
  by_cases hlearnt : g.service = SERVICE ∧ (g.asked post s).1.isSome
  · rw [if_pos hlearnt, if_pos hlearnt]
    dsimp only
    rw [(hg.addPortMapping hlearnt.1 internal hport (g.asked post s).2).1]
    generalize g.added post internal port (g.asked post s).2 = added
    rcases added with ⟨_ | r, s'⟩
    · simp
    · cases g.admits (g.asked post s).2 (udpMapping internal port) <;> simp
  · rw [if_neg hlearnt, if_neg hlearnt]

end Gateway

/-- With any such router, a mapping is made exactly when the connection service is the one that is
asked, the external address comes, and the router admits the mapping; it is then for the node's own
address and no other one changes. It is claimed, at the external address, exactly when its
confirmation comes too. -/
theorem mapping_installed {σ : Type*} (g : Gateway σ)
    {post : List Char → Bytes → σ → Option (List Char) × σ} (hg : g.Serves post)
    {wordFinal : List Char → List Char → Bool} {get : List Char → Bytes → Option (List Char)}
    {responses : List Bytes}
    (hfound : discoverControlUrl wordFinal (httpGet get) responses = some g.url)
    (internal : Ipv4Addr) {port : ℕ} (hport : port < 65536) (s : σ) :
    let asked := g.asked post s
    let made : Prop := g.service = SERVICE ∧ asked.1.isSome ∧
      g.admits asked.2 (udpMapping internal port)
    let result := tryMap post wordFinal get responses (some internal) port s
    (∀ a, result.1 = some a ↔ made ∧ (g.added post internal port asked.2).1.isSome ∧
      a = ⟨.v4 (g.externalIp s), port⟩) ∧
    (made → g.table result.2 = (g.table s).with (udpMapping internal port)) ∧
    (¬ made → g.table result.2 = g.table s) := by
  intro asked made result
  have hresult : result = _ := hg.tryMap hfound internal hport s
  have hunchanged : g.table asked.2 = g.table s := (hg.getExternalIp s).2
  by_cases hlearnt : g.service = SERVICE ∧ asked.1.isSome
  · rw [if_pos hlearnt] at hresult
    have htable := (hg.addPortMapping hlearnt.1 internal hport asked.2).2
    rw [hunchanged] at htable
    rw [hresult]
    refine ⟨fun a => ?_, fun hmade => htable.trans (if_pos hmade.2.2), fun hnot => htable.trans
      (if_neg fun hadmits => hnot ⟨hlearnt.1, hlearnt.2, hadmits⟩)⟩
    rw [Option.ite_none_right_eq_some, Option.some.injEq]
    exact ⟨fun h => ⟨⟨hlearnt.1, hlearnt.2, h.1.1⟩, h.1.2, h.2.symm⟩,
      fun h => ⟨⟨h.1.2.2, h.2.1⟩, h.2.2.symm⟩⟩
  · rw [if_neg hlearnt] at hresult
    have hnot : ¬ made := fun h => hlearnt ⟨h.1, h.2.1⟩
    rw [hresult]
    exact ⟨fun a => iff_of_false nofun fun h => hnot h.1, fun h => absurd h hnot,
      fun _ => hunchanged⟩

/-- A router that maps the ports from 1024 on. -/
def demoGateway : Gateway MappingTable where
  service := SERVICE
  host := "10.0.0.1:5000".toList
  path := "/ctl/IPConn".toList
  externalIp _ := ⟨203, 0, 113, 9⟩
  table := id
  admits _ x := 1024 ≤ x.externalPort
  service_plain := by decide +kernel
  host_plain := by simp [isWhitespace]
  path_plain := by simp [isWhitespace]

def demoResponse (body : List Char) : List Char :=
  ["HTTP/1.1 200 OK".toList, "Connection: close".toList].flatMap (· ++ ['\r', '\n']) ++
    ['\r', '\n'] ++ body

/-- An answer with an element in the usual envelope. -/
def demoAnswer (name text : List Char) : List Char :=
  demoResponse (Markup.write ([.tag "s:Envelope".toList, .tag "s:Body".toList] ++
    .tag name :: .text text :: .tag ('/' :: name) ::
      [.tag "/s:Body".toList, .tag "/s:Envelope".toList]))

def demoFault : List Char := demoResponse "<s:Fault></s:Fault>".toList

/-- What that router does with a POST; if it is slow, it confirms mappings too late. -/
def demoPost (slow : Bool) (host : List Char) (request : Bytes) (table : MappingTable) :
    Option (List Char) × MappingTable :=
  match HttpMessage.read (textBytes "Content-Length") true request with
  | some (m, []) =>
    if host ≠ demoGateway.host then (none, table)
    else if demoGateway.accepts m "GetExternalIPAddress".toList then
      (some (demoAnswer "NewExternalIPAddress".toList (demoGateway.externalIp table).display.toList), table)
    else if demoGateway.accepts m "AddPortMapping".toList then
      match (fromUtf8 m.body).bind Mapping.read with
      | some x =>
        if demoGateway.admits table x then
          (if slow then none else some (demoAnswer "u:AddPortMappingResponse".toList []), table.with x)
        else (some demoFault, table)
      | none => (some demoFault, table)
    else (some demoFault, table)
  | _ => (none, table)

theorem isResponse_demoResponse (body : List Char) : IsResponse (demoResponse body) body :=
  ⟨["HTTP/1.1 200 OK".toList, "Connection: close".toList], List.cons_ne_nil _ _, by decide +kernel, rfl⟩

theorem refuses_demoFault : Refuses demoFault :=
  ⟨_, isResponse_demoResponse _, by decide +kernel, by decide +kernel⟩

theorem gives_demoAnswer (ip : Ipv4Addr) :
    Gives (demoAnswer "NewExternalIPAddress".toList ip.display.toList) "NewExternalIPAddress".toList
      ip.display.toList :=
  ⟨[.tag "s:Envelope".toList, .tag "s:Body".toList], [.tag "/s:Body".toList, .tag "/s:Envelope".toList],
    by decide +kernel, by decide +kernel, isResponse_demoResponse _⟩

theorem confirms_demoAnswer :
    Confirms (demoAnswer "u:AddPortMappingResponse".toList []) "AddPortMappingResponse".toList :=
  ⟨_, "u:AddPortMappingResponse".toList, by decide +kernel, by decide +kernel, isResponse_demoResponse _⟩

theorem demoGateway_serves (slow : Bool) : demoGateway.Serves (demoPost slow) where
  external request m s hread haccepts := by
    rw [demoPost, hread]
    dsimp only
    rw [if_neg fun h => h rfl, if_pos haccepts]
    refine ⟨rfl, fun r hr => ?_⟩
    obtain rfl := Option.mem_some_iff.mp hr
    exact gives_demoAnswer _
  made request m x s hread haccepts hmapping hadmits := by
    have hother : ¬ demoGateway.accepts m "GetExternalIPAddress".toList := fun h =>
      absurd (demoGateway.accepts_only demoGateway.service_plain haccepts.2 h).2 (by decide)
    rw [demoPost, hread]
    dsimp only
    rw [if_neg fun h => h rfl, if_neg hother, if_pos haccepts, hmapping]
    dsimp only
    rw [if_pos hadmits]
    refine ⟨rfl, fun r hr => ?_⟩
    obtain ⟨-, hr⟩ := Option.ite_none_left_eq_some.mp hr
    exact Option.some.inj hr ▸ confirms_demoAnswer
  refused request m x s hread haccepts hmapping hadmits := by
    have hother : ¬ demoGateway.accepts m "GetExternalIPAddress".toList := fun h =>
      absurd (demoGateway.accepts_only demoGateway.service_plain haccepts.2 h).2 (by decide)
    rw [demoPost, hread]
    dsimp only
    rw [if_neg fun h => h rfl, if_neg hother, if_pos haccepts, hmapping]
    dsimp only
    rw [if_neg (Bool.eq_false_iff.mp hadmits)]
    exact ⟨rfl, fun r hr => Option.mem_some_iff.mp hr ▸ refuses_demoFault⟩
  foreign request m service action s hread hlookup hplain hservice := by
    have hnone (name : List Char) : ¬ demoGateway.accepts m name := fun h =>
      hservice (demoGateway.accepts_only hplain hlookup h).1
    rw [demoPost, hread]
    dsimp only
    rw [if_neg fun h => h rfl, if_neg (hnone _), if_neg (hnone _)]
    exact ⟨rfl, fun r hr => Option.mem_some_iff.mp hr ▸ refuses_demoFault⟩

theorem demoGateway_asked (slow : Bool) (table : MappingTable) :
    demoGateway.asked (demoPost slow) table =
      (some (demoAnswer "NewExternalIPAddress".toList (demoGateway.externalIp table).display.toList),
        table) := by
  rw [Gateway.asked, Gateway.call, demoPost, demoGateway.read_call (by decide)]
  dsimp only
  rw [if_neg fun h => h rfl, if_pos (demoGateway.accepts_soapFrame rfl _ _)]

theorem demoGateway_added (slow : Bool) (table : MappingTable) :
    (demoGateway.added (demoPost slow) ⟨192, 168, 1, 7⟩ 5000 table).1 =
      if slow then none else some (demoAnswer "u:AddPortMappingResponse".toList []) := by
  have haccepts := demoGateway.accepts_soapFrame rfl "AddPortMapping".toList
    (mappingArgs ⟨192, 168, 1, 7⟩ 5000)
  have hother : ¬ demoGateway.accepts _ "GetExternalIPAddress".toList := fun h =>
    absurd (demoGateway.accepts_only demoGateway.service_plain haccepts.2 h).2 (by decide)
  rw [Gateway.added, Gateway.call, demoPost, demoGateway.read_call (by decide)]
  dsimp only
  rw [if_neg fun h => h rfl, if_neg hother, if_pos haccepts,
    demoGateway.read_mappingFrame ⟨192, 168, 1, 7⟩ (by decide)]
  have hadmits : demoGateway.admits table (udpMapping ⟨192, 168, 1, 7⟩ 5000) = true := rfl
  dsimp only
  rw [if_pos hadmits]

/-- The node asks that router to map a port. -/
def demoTry (slow : Bool) : Option SocketAddr × MappingTable :=
  tryMap (demoPost slow) (fun _ _ => false) (fun _ _ => some (describing "/ctl/IPConn".toList))
    [textBytes "HTTP/1.1 200 OK\r\nLOCATION: http://10.0.0.1:5000/desc.xml\r\n\r\n"]
    (some ⟨192, 168, 1, 7⟩) 5000 fun _ => none

/-- From the search to the mapping: it is claimed when its confirmation comes, and made but not
claimed when that comes too late. -/
theorem mapping_installed_demo :
    (demoTry false).1 = some ⟨.v4 ⟨203, 0, 113, 9⟩, 5000⟩ ∧ (demoTry true).1 = none ∧
    ∀ slow, demoGateway.table (demoTry slow).2 ([], 5000, "UDP".toList) =
      some (udpMapping ⟨192, 168, 1, 7⟩ 5000) := by
  have hfound : discoverControlUrl (fun _ _ => false)
      (httpGet fun _ _ => some (describing "/ctl/IPConn".toList))
      [textBytes "HTTP/1.1 200 OK\r\nLOCATION: http://10.0.0.1:5000/desc.xml\r\n\r\n"] =
        some demoGateway.url := by decide +kernel
  have hmade (slow : Bool) : demoGateway.service = SERVICE ∧
      (demoGateway.asked (demoPost slow) fun _ => none).1.isSome ∧
      demoGateway.admits (demoGateway.asked (demoPost slow) fun _ => none).2
        (udpMapping ⟨192, 168, 1, 7⟩ 5000) := by
    rw [demoGateway_asked]
    exact ⟨rfl, rfl, by decide⟩
  have hclaimed (slow : Bool) (a : SocketAddr) : (demoTry slow).1 = some a ↔ _ :=
    (mapping_installed demoGateway (demoGateway_serves slow) hfound ⟨192, 168, 1, 7⟩
      (by decide : 5000 < 65536) fun _ => none).1 a
  have htable (slow : Bool) : demoGateway.table (demoTry slow).2 = _ :=
    (mapping_installed demoGateway (demoGateway_serves slow) hfound ⟨192, 168, 1, 7⟩
      (by decide : 5000 < 65536) fun _ => none).2.1 (hmade slow)
  refine ⟨(hclaimed false _).mpr ⟨hmade false, by rw [demoGateway_added]; rfl, rfl⟩, ?_, fun slow => ?_⟩
  · refine Option.eq_none_iff_forall_ne_some.mpr fun a ha => ?_
    have hanswered := ((hclaimed true a).mp ha).2.1
    rw [demoGateway_added] at hanswered
    cases hanswered
  · rw [htable]
    exact Function.update_self ..

end Qstream

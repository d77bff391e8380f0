import Qstream.HttpFraming
import Qstream.NodeMetrics
import Qstream.Upnp

/-! Asking the router for a mapping. What hosts answer is a parameter: to GET, which changes
nothing, and to POST, which may change the state of the network. -/
namespace Qstream
open Text

/-- A number of at most three digits, without leading zeros. -/
def parseOctet (digits : List Char) : Option UInt8 :=
  if digits.length ≤ 3 ∧ (digits.head? = some '0' → digits = ['0']) ∧ digits.all isAsciiDigit then
    (parseU64 digits).bind fun n => if n < 256 then some (UInt8.ofNat n) else none
  else none

def Ipv4Addr.parse (s : List Char) : Option Ipv4Addr :=
  match (s.splitOn '.').map parseOctet with
  | [some a, some b, some c, some d] => some ⟨a, b, c, d⟩
  | _ => none

/-- The request of a minimal GET. -/
def getRequest (host path : List Char) : List Char :=
  "GET ".toList ++ path ++ " HTTP/1.1\r\nHost: ".toList ++ host ++
    "\r\nConnection: close\r\n\r\n".toList

def httpGet (get : List Char → Bytes → Option (List Char)) (host path : List Char) :
    Option (List Char) :=
  get host (asBytes (getRequest host path))

def soapEnvelope (action args : List Char) : List Char :=
  "<?xml version=\"1.0\"?>\n<s:Envelope ".toList ++
    "xmlns:s=\"http://schemas.xmlsoap.org/soap/envelope/\" ".toList ++
    "s:encodingStyle=\"http://schemas.xmlsoap.org/soap/encoding/\">\n<s:Body>\n<u:".toList ++
    action ++ " xmlns:u=\"".toList ++ SERVICE ++ "\">\n".toList ++ args ++ "\n</u:".toList ++
    action ++ ">\n</s:Body>\n</s:Envelope>".toList

def soapAction (service action : List Char) : List Char :=
  '"' :: service ++ '#' :: action ++ ['"']

def soapRequest (host path action args : List Char) : List Char :=
  let envelope := soapEnvelope action args
  "POST ".toList ++ path ++ " HTTP/1.1\r\nHost: ".toList ++ host ++
    "\r\nContent-Type: text/xml; charset=\"utf-8\"\r\nSOAPAction: ".toList ++
    soapAction SERVICE action ++ "\r\nContent-Length: ".toList ++
    (toString (asBytes envelope).length).toList ++ "\r\nConnection: close\r\n\r\n".toList ++
    envelope

section Soap
variable {σ : Type*} (post : List Char → Bytes → σ → Option (List Char) × σ)

/-- POST an action to the control URL, and take the body of the response. -/
def soapCall (controlUrl action args : List Char) (s : σ) : Option (List Char) × σ :=
  match splitUrl controlUrl with
  | none => (none, s)
  | some (host, path) =>
    let (response, s) := post host (asBytes (soapRequest host path action args)) s
    (response.bind bodyOf, s)

def getExternalIp (controlUrl : List Char) (s : σ) : Option Ipv4Addr × σ :=
  let (body, s) := soapCall post controlUrl "GetExternalIPAddress".toList [] s
  ((body.bind (tagText · "NewExternalIPAddress".toList)).bind fun ip => Ipv4Addr.parse (trim ip), s)

def mappingArgs (internal : Ipv4Addr) (port : ℕ) : List Char :=
  "<NewRemoteHost></NewRemoteHost><NewExternalPort>".toList ++ (toString port).toList ++
    "</NewExternalPort><NewProtocol>UDP</NewProtocol><NewInternalPort>".toList ++
    (toString port).toList ++ "</NewInternalPort><NewInternalClient>".toList ++
    internal.display.toList ++ "</NewInternalClient><NewEnabled>1</NewEnabled>".toList ++
    "<NewPortMappingDescription>qstream</NewPortMappingDescription>".toList ++
    "<NewLeaseDuration>0</NewLeaseDuration>".toList

/-- `localIp` is the address that the kernel would use. -/
def addPortMapping (localIp : Option Ipv4Addr) (controlUrl : List Char) (port : ℕ) (s : σ) :
    Option Bool × σ :=
  match localIp with
  | none => (none, s)
  | some internal =>
    let (body, s) := soapCall post controlUrl "AddPortMapping".toList (mappingArgs internal port) s
    (body.map fun body => (find "AddPortMappingResponse".toList body).isSome, s)

/-- Map the UDP port on the router; `responses` are the answers to the search. -/
def tryMap (wordFinal : List Char → List Char → Bool) (get : List Char → Bytes → Option (List Char))
    (responses : List Bytes) (localIp : Option Ipv4Addr) (port : ℕ) (s : σ) :
    Option SocketAddr × σ :=
  match discoverControlUrl wordFinal (httpGet get) responses with
  | none => (none, s)
  | some controlUrl =>
    match getExternalIp post controlUrl s with
    | (none, s) => (none, s)
    | (some externalIp, s) =>
      match addPortMapping post localIp controlUrl port s with
      | (some true, s) => (some ⟨.v4 externalIp, port⟩, s)
      | (_, s) => (none, s)

end Soap

/-! A POST as whoever gets it reads it. -/

theorem asBytes_append (s t : List Char) : asBytes (s ++ t) = asBytes s ++ asBytes t := by
  simp only [asBytes_eq, encodeUtf8, List.flatMap_append]

/-- A POST as a frame. -/
def soapFrame (host path action args : List Char) : HttpMessage.Frame where
  start := asBytes ("POST ".toList ++ path ++ " HTTP/1.1".toList)
  fields := [(textBytes "Host", asBytes host),
    (textBytes "Content-Type", textBytes "text/xml; charset=\"utf-8\""),
    (textBytes "SOAPAction", asBytes (soapAction SERVICE action)),
    (textBytes "Content-Length", textBytes (toString (asBytes (soapEnvelope action args)).length)),
    (textBytes "Connection", textBytes "close")]
  body := asBytes (soapEnvelope action args)

theorem soapRequest_eq (host path action args : List Char) :
    asBytes (soapRequest host path action args) =
      (soapFrame host path action args).head ++ (soapFrame host path action args).body := by
  have hhost : asBytes " HTTP/1.1\r\nHost: ".toList = asBytes " HTTP/1.1".toList ++
      [HttpMessage.CR, HttpMessage.LF] ++ textBytes "Host" ++ [HttpMessage.COLON, HttpMessage.SPACE] := by
    decide +kernel
  have htype : asBytes "\r\nContent-Type: text/xml; charset=\"utf-8\"\r\nSOAPAction: ".toList =
      [HttpMessage.CR, HttpMessage.LF] ++ textBytes "Content-Type" ++
        [HttpMessage.COLON, HttpMessage.SPACE] ++ textBytes "text/xml; charset=\"utf-8\"" ++
        [HttpMessage.CR, HttpMessage.LF] ++ textBytes "SOAPAction" ++
        [HttpMessage.COLON, HttpMessage.SPACE] := by
    decide +kernel
  have hlength : asBytes "\r\nContent-Length: ".toList = [HttpMessage.CR, HttpMessage.LF] ++
      textBytes "Content-Length" ++ [HttpMessage.COLON, HttpMessage.SPACE] := by
    decide +kernel
  have hclose : asBytes "\r\nConnection: close\r\n\r\n".toList = [HttpMessage.CR, HttpMessage.LF] ++
      textBytes "Connection" ++ [HttpMessage.COLON, HttpMessage.SPACE] ++ textBytes "close" ++
      [HttpMessage.CR, HttpMessage.LF] ++ [HttpMessage.CR, HttpMessage.LF] := by
    decide +kernel
  have hnumber (n : ℕ) : asBytes (toString n).toList = textBytes (toString n) := rfl
  unfold soapRequest
  simp only [soapFrame, HttpMessage.Frame.head, asBytes_append, hhost, htype, hlength,
    hclose, hnumber, List.map_cons, List.map_nil, List.flatMap_cons, List.flatMap_nil,
    HttpMessage.endLine, HttpMessage.writeField, List.append_assoc, List.append_nil]

/-- Text without a carriage return has no such byte. -/
theorem cr_not_mem_asBytes {s : List Char} (h : '\r' ∉ s) : HttpMessage.CR ∉ asBytes s := by
  have hbytes := cr_not_mem_textBytes (s := String.ofList s) (by simpa using h)
  rwa [textBytes, String.toList_ofList] at hbytes

theorem head?_asBytes {s : List Char} (h : ' ' ∉ s) : (asBytes s).head? ≠ some HttpMessage.SPACE := by
  intro hspace
  have hmem := List.mem_of_mem_head? hspace
  rw [asBytes_eq] at hmem
  obtain ⟨c, hc, hbyte⟩ := List.mem_flatMap.mp hmem
  have hblank : c = ' ' := Char.toNat_inj.mp (toNat_of_mem_encode (by decide) hbyte)
  exact h (hblank ▸ hc)

theorem not_mem_of_plain {s : List Char} (h : ∀ c ∈ s, isWhitespace c = false) :
    '\r' ∉ s ∧ ' ' ∉ s :=
  ⟨fun hc => absurd (h _ hc) (by decide), fun hc => absurd (h _ hc) (by decide)⟩

theorem soapFrame_clean {host path action : List Char} (hhost : ∀ c ∈ host, isWhitespace c = false)
    (hpath : ∀ c ∈ path, isWhitespace c = false) (haction : '\r' ∉ action) (args : List Char) :
    (soapFrame host path action args).Clean := by
  have hvalue : '\r' ∉ soapAction SERVICE action := by
    have hservice : '\r' ∉ SERVICE := by decide
    simp [soapAction, haction, hservice]
  have hquote : (asBytes (soapAction SERVICE action)).head? ≠ some HttpMessage.SPACE := by
    have hsplit : soapAction SERVICE action = ['"'] ++ (SERVICE ++ '#' :: action ++ ['"']) := rfl
    have hmark : asBytes ['"'] = [34] := by decide +kernel
    rw [hsplit, asBytes_append, hmark]
    exact nofun
  have hnumber : (textBytes (toString (asBytes (soapEnvelope action args)).length)).head? ≠
      some HttpMessage.SPACE :=
    head?_asBytes fun h => absurd (isAsciiDigit_of_mem_toString h) (by decide)
  have hpost : asBytes "POST ".toList ≠ [] := by decide +kernel
  have hnames : ∀ n ∈ ["Host", "Content-Type", "SOAPAction", "Content-Length", "Connection"],
      HttpMessage.CR ∉ textBytes n ∧ HttpMessage.COLON ∉ textBytes n := by
    decide +kernel
  refine ⟨⟨fun h => ?_, ?_⟩, fun f hf => ?_, fun f hf => ?_⟩
  · simp only [soapFrame, asBytes_append, List.append_eq_nil_iff] at h
    exact hpost h.1.1
  · refine cr_not_mem_asBytes ?_
    have hcr := (not_mem_of_plain hpath).1
    have hpost : '\r' ∉ "POST ".toList := by decide
    have hversion : '\r' ∉ " HTTP/1.1".toList := by decide
    simp only [List.mem_append, not_or]
    exact ⟨⟨hpost, hcr⟩, hversion⟩
  · simp only [soapFrame, List.mem_cons, List.not_mem_nil, or_false] at hf
    rcases hf with rfl | rfl | rfl | rfl | rfl <;> exact hnames _ (by simp)
  · simp only [soapFrame, List.mem_cons, List.not_mem_nil, or_false] at hf
    rcases hf with rfl | rfl | rfl | rfl | rfl
    · exact ⟨cr_not_mem_asBytes (not_mem_of_plain hhost).1, head?_asBytes (not_mem_of_plain hhost).2⟩
    · decide +kernel
    · exact ⟨cr_not_mem_asBytes hvalue, hquote⟩
    · exact ⟨cr_not_mem_textBytes (cr_not_mem_toString _), hnumber⟩
    · decide +kernel

/-- A POST is read as the one message it is. -/
theorem read_soapRequest {host path action : List Char}
    (hhost : ∀ c ∈ host, isWhitespace c = false) (hpath : ∀ c ∈ path, isWhitespace c = false)
    (haction : '\r' ∉ action) (args : List Char) :
    HttpMessage.read (textBytes "Content-Length") true
      (asBytes (soapRequest host path action args)) = some (soapFrame host path action args, []) := by
  have hlength : ((soapFrame host path action args).fields.lookup (textBytes "Content-Length")).bind
      HttpMessage.readNat = some (soapFrame host path action args).body.length := by
    have h1 : (textBytes "Content-Length" == textBytes "Host") = false := by decide +kernel
    have h2 : (textBytes "Content-Length" == textBytes "Content-Type") = false := by decide +kernel
    have h3 : (textBytes "Content-Length" == textBytes "SOAPAction") = false := by decide +kernel
    simp only [soapFrame, List.lookup_cons, h1, h2, h3, beq_self_eq_true, Option.bind_some]
    exact readNat_textBytes _
  have hread := HttpMessage.read_head (soapFrame_clean hhost hpath haction args) hlength true []
  rw [List.append_nil] at hread
  rw [soapRequest_eq]
  exact hread

/-! How numbers and addresses are read back. -/

theorem parseOctet_toString (b : UInt8) : parseOctet (toString b.toNat).toList = some b := by
  have h : ∀ n < 256, parseOctet (toString n).toList = some (UInt8.ofNat n) := by decide +kernel
  rw [h _ (UInt8.toNat_lt b), UInt8.ofNat_toNat]

theorem Ipv4Addr.parse_display (ip : Ipv4Addr) : Ipv4Addr.parse ip.display.toList = some ip := by
  have hdigits : ∀ l ∈ [ip.a, ip.b, ip.c, ip.d].map fun b => (toString b.toNat).toList, '.' ∉ l := by
    intro l hl hdot
    obtain ⟨b, -, rfl⟩ := List.mem_map.mp hl
    exact absurd (isAsciiDigit_of_mem_toString hdot) (by decide)
  have hsplit : ip.display.toList.splitOn '.' =
      [ip.a, ip.b, ip.c, ip.d].map fun b => (toString b.toNat).toList := by
    rw [display, String.toList_intercalate, List.map_map]
    exact List.splitOn_intercalate _ hdigits (by simp)
  rw [Ipv4Addr.parse, hsplit]
  simp only [List.map_cons, List.map_nil, parseOctet_toString]

/-- An address is displayed with digits and dots. -/
theorem mem_display {ip : Ipv4Addr} {c : Char} (h : c ∈ ip.display.toList) :
    c = '.' ∨ isAsciiDigit c = true := by
  rw [Ipv4Addr.display, String.toList_intercalate] at h
  have hdot : ".".toList = ['.'] := rfl
  simp only [List.map_cons, List.map_nil, List.intercalate_cons_cons, List.intercalate_singleton,
    List.mem_append, hdot, List.mem_singleton] at h
  have hdigit (b : UInt8) (hb : c ∈ (toString b.toNat).toList) : isAsciiDigit c = true :=
    isAsciiDigit_of_mem_toString hb
  grind

theorem bracket_not_mem_display (ip : Ipv4Addr) : '<' ∉ ip.display.toList := fun h =>
  (mem_display h).elim (by decide) (by decide)

theorem trim_display (ip : Ipv4Addr) : trim ip.display.toList = ip.display.toList :=
  trim_eq_self fun _ hc => (mem_display hc).elim (fun h => h ▸ by decide) isWhitespace_of_isAsciiDigit

end Qstream

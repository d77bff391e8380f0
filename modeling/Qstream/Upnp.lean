import Qstream.TextCase

/-! Discovery of the router: the locations that devices advertise, and the control URL in the
description of a device. What a device serves is a parameter. -/
namespace Qstream
open Text

def SERVICE : List Char := "urn:schemas-upnp-org:service:WANIPConnection:1".toList

def SERVICE_PPP : List Char := "urn:schemas-upnp-org:service:WANPPPConnection:1".toList

/-- Where a pattern first occurs. -/
def find (pattern s : List Char) : Option ℕ := s.tails.findIdx? (startsWith pattern)

/-- Split a URL into host and port, and path. -/
def splitUrl (url : List Char) : Option (List Char × List Char) :=
  (stripPrefix "http://".toList url).map fun rest => match find ['/'] rest with
    | some i => (rest.take i, rest.drop i)
    | none => (rest, ['/'])

/-- The text inside the first occurrence of a tag. -/
def tagText (xml tag : List Char) : Option (List Char) :=
  let start := ['<'] ++ tag ++ ['>']
  let close := ['<', '/'] ++ tag ++ ['>']
  (find start xml).bind fun i =>
    let rest := xml.drop (i + start.length)
    (find close rest).map fun j => trim (rest.take j)

/-- The body of an HTTP response. -/
def bodyOf (response : List Char) : Option (List Char) :=
  (find "\r\n\r\n".toList response).map fun i => response.drop (i + 4)

/-- The control URL that a description gives for the connection service. -/
def describedControl (body : List Char) : Option (List Char) :=
  ((find SERVICE body).or (find SERVICE_PPP body)).bind fun i =>
    tagText (body.drop i) "controlURL".toList

/-- Resolve a control URL against the description URL. -/
def resolveControl (location control : List Char) : Option (List Char) :=
  if startsWith "http://".toList control then some control
  else
    let base := location.rdropWhile (· = '/')
    if startsWith ['/'] control then
      (find "://".toList base).map fun schemeEnd =>
        match find ['/'] (base.drop (schemeEnd + 3)) with
        | some i => base.take (schemeEnd + 3 + i) ++ control
        | none => base ++ control
    else some (base ++ '/' :: control)

/-- The control URL of the device at a location; `httpGet` is what hosts answer for paths. -/
def deviceControlUrl (httpGet : List Char → List Char → Option (List Char))
    (location : List Char) : Option (List Char) :=
  (splitUrl location).bind fun (host, path) =>
    (httpGet host path).bind fun response =>
      (bodyOf response).bind fun body =>
        (describedControl body).bind fun control => resolveControl location control

/-- The locations in one response. -/
def responseLocations (wordFinal : List Char → List Char → Bool) (text : List Char) :
    List (List Char) :=
  (lines (toLowercase wordFinal text)).filterMap fun line =>
    (stripPrefix "location:".toList line).map trim

/-- The control URL found with the given responses to the search. -/
def discoverControlUrl (wordFinal : List Char → List Char → Bool)
    (httpGet : List Char → List Char → Option (List Char)) (responses : List Bytes) :
    Option (List Char) :=
  (responses.flatMap fun response => responseLocations wordFinal (fromUtf8Lossy response)).findSome?
    (deviceControlUrl httpGet)

/-! What the devices advertise. -/

/-- The values of the location headers, whatever case the header's name is in. -/
def advertisedLocations (text : List Char) : List (List Char) :=
  (lines text).filterMap fun line => (stripPrefixAnyCase "location:".toList line).map trim

/-- The locations taken are the advertised ones in lower case. -/
theorem responseLocations_lowers (wordFinal : List Char → List Char → Bool) (text : List Char) :
    List.Forall₂ Lowers (advertisedLocations text) (responseLocations wordFinal text) := by
  have hlines := (lowers_toLowercase wordFinal text).lines
  unfold advertisedLocations responseLocations
  generalize lines text = ls at hlines
  generalize lines (toLowercase wordFinal text) = ms at hlines
  have hpre : ∀ d ∈ "location:".toList, d.toNat < 0x80 ∧ d ≠ 'k' := by simp
  induction hlines with
  | nil => exact .nil
  | @cons l m ls ms hline _ ih =>
    have hvalue := hline.stripPrefix hpre (by simp)
    simp only [List.filterMap_cons]
    generalize stripPrefixAnyCase "location:".toList l = a at hvalue
    generalize stripPrefix "location:".toList m = b at hvalue
    cases hvalue with
    | none => exact ih
    | some h => exact .cons h.trim ih

/-- An advertised location is used as it is exactly when every character of it is its own lower
case. -/
theorem responseLocations_eq_iff (wordFinal : List Char → List Char → Bool) (text : List Char) :
    responseLocations wordFinal text = advertisedLocations text ↔
      ∀ location ∈ advertisedLocations text, ∀ c ∈ location, LowersTo c [c] := by
  have hlowers := responseLocations_lowers wordFinal text
  generalize responseLocations wordFinal text = ts at hlowers
  generalize advertisedLocations text = ss at hlowers
  induction hlowers with
  | nil => simp
  | cons h _ ih => simp only [List.cons.injEq, h.eq_iff, ih, List.forall_mem_cons]

/-- A path with a capital. -/
def capitalResponse : Bytes :=
  "HTTP/1.1 200 OK\r\nLocation: http://10.0.0.1:5000/rootDesc.xml\r\n\r\n".toUTF8.toList

theorem capitals_are_lost :
    advertisedLocations (fromUtf8Lossy capitalResponse) =
      ["http://10.0.0.1:5000/rootDesc.xml".toList] ∧
    responseLocations (fun _ _ => false) (fromUtf8Lossy capitalResponse) =
      ["http://10.0.0.1:5000/rootdesc.xml".toList] := by
  constructor <;> decide +kernel

/-! URL references. -/

def isSchemeChar (c : Char) : Bool := c.isAlphanum || c = '+' || c = '-' || c = '.'

/-- A scheme before a double slash. -/
def isAbsolute (url : List Char) : Bool :=
  (url.head?.any Char.isAlpha) && startsWith "://".toList (url.dropWhile isSchemeChar)

/-- A path that begins with a single slash. -/
def IsRooted (url : List Char) : Prop := ['/'] <+: url ∧ ¬ ['/', '/'] <+: url

/-- A path that begins with no slash, and with no colon in its first segment. -/
structure IsRelative (url : List Char) : Prop where
  unrooted : ¬ ['/'] <+: url
  segment : ':' ∉ url.takeWhile (· ≠ '/')
  plain : '?' ∉ url ∧ '#' ∉ url

/-- A path up to its last slash. -/
def directory (path : List Char) : List Char := path.rdropWhile (· ≠ '/')

/-- What a control URL means in a description at `http://authority` and `path`. -/
def resolveReference (authority path control : List Char) : List Char :=
  if isAbsolute control then control
  else if startsWith ['/'] control then "http://".toList ++ authority ++ control
  else "http://".toList ++ authority ++ directory path ++ control

/-- A path whose last segment is empty, and the one before is not. -/
def EndsInOneSlash (path : List Char) : Prop := ['/'] <:+ path ∧ ¬ ['/', '/'] <:+ path

theorem find_cons (pattern : List Char) (c : Char) (s : List Char) :
    find pattern (c :: s) =
      if startsWith pattern (c :: s) then some 0 else (find pattern s).map (· + 1) := by
  rw [find, List.tails_cons, List.findIdx?_cons]
  rfl

theorem find_char {c : Char} {a : List Char} (h : c ∉ a) (b : List Char) :
    find [c] (a ++ c :: b) = some a.length := by
  induction a with
  | nil => rw [List.nil_append, find_cons, if_pos (by simp [startsWith])]; rfl
  | cons d a ih =>
    obtain ⟨hd, ha⟩ := List.ne_and_not_mem_of_not_mem_cons h
    rw [List.cons_append, find_cons, if_neg (by simp [startsWith, hd]), ih ha]
    rfl

theorem find_char_eq_none {c : Char} {a : List Char} (h : c ∉ a) : find [c] a = none := by
  induction a with
  | nil => simp [find, startsWith]
  | cons d a ih =>
    obtain ⟨hd, ha⟩ := List.ne_and_not_mem_of_not_mem_cons h
    rw [find_cons, if_neg (by simp [startsWith, hd]), ih ha]
    rfl

theorem find_scheme (rest : List Char) :
    find "://".toList ("http://".toList ++ rest) = some 4 := rfl

theorem rdropWhile_append_of_last {α : Type*} {p : α → Bool} {a : List α}
    (h : ∀ hne : a ≠ [], p (a.getLast hne) = false) (b : List α) :
    (a ++ b).rdropWhile p = a ++ b.rdropWhile p := by
  induction b using List.reverseRecOn with
  | nil =>
    rw [List.append_nil, List.rdropWhile_nil, List.append_nil]
    exact List.rdropWhile_eq_self_iff.mpr fun hne => by simp [h hne]
  | append_singleton b x ih =>
    rw [← List.append_assoc]
    cases hx : p x with
    | true => rw [List.rdropWhile_concat_pos _ _ _ hx, List.rdropWhile_concat_pos _ _ _ hx, ih]
    | false =>
      rw [List.rdropWhile_concat_neg _ _ _ (by simp [hx]),
        List.rdropWhile_concat_neg _ _ _ (by simp [hx]), List.append_assoc]

/-- Cutting the slashes off and putting one back gives the directory just when there was one. -/
theorem slash_eq_directory_iff (path : List Char) :
    path.rdropWhile (· = '/') ++ ['/'] = directory path ↔ EndsInOneSlash path := by
  unfold directory EndsInOneSlash
  induction path using List.reverseRecOn with
  | nil => simp
  | append_singleton path c =>
    by_cases hc : c = '/'
    · subst hc
      have htwo : ['/', '/'] <:+ path ++ ['/'] ↔ ['/'] <:+ path := by
        constructor
        · rintro ⟨t, ht⟩
          exact ⟨t, (List.append_inj' (show (t ++ ['/']) ++ ['/'] = path ++ ['/'] by simpa using ht)
            rfl).1⟩
        · rintro ⟨t, rfl⟩
          exact ⟨t, by simp⟩
      rw [List.rdropWhile_concat_pos _ _ _ (by simp), List.rdropWhile_concat_neg _ _ _ (by simp),
        List.append_left_inj, htwo, List.rdropWhile_eq_self_iff]
      constructor
      · refine fun hlast => ⟨⟨path, rfl⟩, ?_⟩
        rintro ⟨q, rfl⟩
        exact hlast (by simp) (by simp)
      · rintro ⟨-, hone⟩ hne hlast
        refine hone ⟨path.dropLast, ?_⟩
        rw [← of_decide_eq_true hlast]
        exact List.dropLast_append_getLast hne
    · rw [List.rdropWhile_concat_neg _ _ _ (by simp [hc]),
        List.rdropWhile_concat_pos _ _ _ (by simp [hc])]
      refine iff_of_false (fun heq => ?_) ?_
      · have hshort := (List.rdropWhile_prefix (fun x => decide (x ≠ '/')) path).length_le
        have hlength := congrArg List.length heq
        simp only [List.length_append, List.length_cons, List.length_nil] at hlength
        omega
      · rintro ⟨⟨t, ht⟩, -⟩
        exact hc (List.cons.inj (List.append_inj' ht rfl).2).1.symm

theorem not_isAbsolute_of_isRelative {control : List Char} (h : IsRelative control) :
    isAbsolute control = false := by
  by_contra habsolute
  have habsolute : isAbsolute control = true := by simpa using habsolute
  simp only [isAbsolute, Bool.and_eq_true, startsWith, decide_eq_true_eq] at habsolute
  obtain ⟨rest, hrest⟩ := habsolute.2
  have hscheme : ∀ c ∈ control.takeWhile isSchemeChar, decide (c ≠ '/') = true := fun c hc => by
    have hchar := List.mem_takeWhile_imp hc
    refine decide_eq_true fun heq => ?_
    rw [heq] at hchar
    exact absurd hchar (by decide)
  refine h.segment ?_
  rw [← List.takeWhile_append_dropWhile (p := isSchemeChar) (l := control), ← hrest,
    List.takeWhile_append_of_pos hscheme]
  exact List.mem_append_right _ (by simp)

theorem isAbsolute_of_http {control : List Char} (h : "http://".toList <+: control) :
    isAbsolute control = true := by
  obtain ⟨rest, rfl⟩ := h
  rfl

theorem http_ne_rooted {control : List Char} (h : ['/'] <+: control) :
    ¬ "http://".toList <+: control := by
  obtain ⟨rest, rfl⟩ := h
  simp

/-- The slashes at the end of a description URL are those at the end of its path. -/
theorem base_eq {authority : List Char} (hauthority : authority ≠ [] ∧ '/' ∉ authority)
    (path : List Char) :
    ("http://".toList ++ authority ++ path).rdropWhile (· = '/') =
      "http://".toList ++ authority ++ path.rdropWhile (· = '/') := by
  have hlast (hne : "http://".toList ++ authority ≠ []) :
      decide (("http://".toList ++ authority).getLast hne = '/') = false := by
    rw [List.getLast_append_of_ne_nil _ hauthority.1]
    exact decide_eq_false fun heq => hauthority.2 (heq ▸ List.getLast_mem hauthority.1)
  exact rdropWhile_append_of_last hlast path

/-- A rooted control URL replaces the whole path. -/
theorem resolveControl_rooted {authority path control : List Char}
    (hauthority : authority ≠ [] ∧ '/' ∉ authority) (hpath : ['/'] <+: path)
    (hrooted : ['/'] <+: control) :
    resolveControl ("http://".toList ++ authority ++ path) control =
      some ("http://".toList ++ authority ++ control) := by
  have hdrop (rest : List Char) : ("http://".toList ++ authority ++ rest).drop 7 = authority ++ rest := by
    rw [List.append_assoc]
    rfl
  have htake (rest : List Char) : ("http://".toList ++ authority ++ rest).take (7 + authority.length) =
      "http://".toList ++ authority :=
    List.take_left' (by rw [List.length_append]; rfl)
  have hscheme (rest : List Char) :
      find "://".toList ("http://".toList ++ authority ++ rest) = some 4 := by
    rw [List.append_assoc]
    exact find_scheme _
  have hhttp : startsWith "http://".toList control = false :=
    decide_eq_false (http_ne_rooted hrooted)
  have hslash : startsWith ['/'] control = true := decide_eq_true hrooted
  simp only [resolveControl, hhttp, hslash, Bool.false_eq_true, if_false, if_true]
  rw [base_eq hauthority, hscheme, Option.map_some, hdrop]
  cases hrest : path.rdropWhile (· = '/') with
  | nil => rw [List.append_nil, find_char_eq_none hauthority.2, List.append_nil]
  | cons c rest =>
    have hc : c = '/' := by
      have hinitial := hrest ▸ List.rdropWhile_prefix (fun x => decide (x = '/')) path
      obtain ⟨tail, rfl⟩ := hpath
      exact (List.cons_prefix_cons.mp hinitial).1
    rw [hc, find_char hauthority.2]
    dsimp only
    rw [htake]

/-- The three kinds of control URLs, resolved at a description URL. -/
theorem resolveControl_eq_iff {authority path control : List Char}
    (hauthority : authority ≠ [] ∧ '/' ∉ authority) (hpath : ['/'] <+: path)
    (hkind : isAbsolute control = true ∨ IsRooted control ∨ IsRelative control) :
    resolveControl ("http://".toList ++ authority ++ path) control =
        some (resolveReference authority path control) ↔
      (isAbsolute control = true → "http://".toList <+: control) ∧
        (IsRelative control → EndsInOneSlash path) := by
  have hrooted_absolute (h : ['/'] <+: control) : isAbsolute control = false := by
    obtain ⟨rest, rfl⟩ := h
    rfl
  rcases hkind with habsolute | hrooted | hrelative
  · have hunrooted : ¬ ['/'] <+: control := fun h => by
      rw [hrooted_absolute h] at habsolute
      cases habsolute
    have hrelative : ¬ IsRelative control := fun h => by
      rw [not_isAbsolute_of_isRelative h] at habsolute
      cases habsolute
    simp only [habsolute, resolveReference, if_true, forall_const, hrelative, IsEmpty.forall_iff,
      and_true]
    by_cases hhttp : "http://".toList <+: control
    · simp only [resolveControl, startsWith, hhttp, decide_true, if_true]
    · refine iff_of_false (fun heq => ?_) hhttp
      simp only [resolveControl, startsWith, hhttp, hunrooted, decide_false, if_false,
        Bool.false_eq_true, Option.some.injEq] at heq
      have hlength := congrArg List.length heq
      simp only [List.length_append, List.length_cons] at hlength
      omega
  · have hrelative : ¬ IsRelative control := fun h => h.unrooted hrooted.1
    have hreference : resolveReference authority path control =
        "http://".toList ++ authority ++ control := by
      simp only [resolveReference, hrooted_absolute hrooted.1, startsWith, hrooted.1, decide_true,
        if_true, Bool.false_eq_true, if_false]
    refine iff_of_true ?_ ⟨fun h => ?_, fun h => absurd h hrelative⟩
    · rw [hreference, resolveControl_rooted hauthority hpath hrooted.1]
    · rw [hrooted_absolute hrooted.1] at h
      cases h
  · have habsolute := not_isAbsolute_of_isRelative hrelative
    have hhttp : ¬ "http://".toList <+: control := fun h => by
      rw [isAbsolute_of_http h] at habsolute
      cases habsolute
    have hunrooted := hrelative.unrooted
    simp only [habsolute, Bool.false_eq_true, IsEmpty.forall_iff, true_and, hrelative,
      forall_const, resolveControl, resolveReference, startsWith, hhttp, hunrooted, decide_false,
      if_false, Option.some.injEq, base_eq hauthority, ← slash_eq_directory_iff]
    rw [List.append_assoc _ _ ('/' :: control), List.append_cons, ← List.append_assoc _ (_ ++ ['/']),
      List.append_left_inj, List.append_right_inj]

/-- The control URL of a device is resolved as a reference exactly when it is rooted, absolute
with the scheme `http`, or relative in a description URL that ends in a single slash. -/
theorem deviceControlUrl_eq_iff {httpGet : List Char → List Char → Option (List Char)}
    {authority path control response body : List Char}
    (hauthority : authority ≠ [] ∧ '/' ∉ authority) (hpath : ['/'] <+: path)
    (hresponse : httpGet authority path = some response) (hbody : bodyOf response = some body)
    (hcontrol : describedControl body = some control)
    (hkind : isAbsolute control = true ∨ IsRooted control ∨ IsRelative control) :
    deviceControlUrl httpGet ("http://".toList ++ authority ++ path) =
        some (resolveReference authority path control) ↔
      (isAbsolute control = true → "http://".toList <+: control) ∧
        (IsRelative control → EndsInOneSlash path) := by
  obtain ⟨rest, rfl⟩ := hpath
  have hsplit : splitUrl ("http://".toList ++ authority ++ (['/'] ++ rest)) =
      some (authority, ['/'] ++ rest) := by
    have hstrip : stripPrefix "http://".toList ("http://".toList ++ authority ++ (['/'] ++ rest)) =
        some (authority ++ '/' :: rest) := by
      rw [stripPrefix, List.append_assoc, if_pos (List.prefix_append _ _), List.drop_left]
      rfl
    rw [splitUrl, hstrip, Option.map_some, find_char hauthority.2]
    simp only [List.take_left, List.drop_left, List.singleton_append]
  simp only [deviceControlUrl, hsplit, Option.bind_some, hresponse, hbody, hcontrol]
  exact resolveControl_eq_iff hauthority (List.prefix_append _ _) hkind

/-- What a device answers that has one connection service. -/
def describing (control : List Char) : List Char :=
  "HTTP/1.1 200 OK\r\n\r\n<service><serviceType>".toList ++ SERVICE ++
    "</serviceType><controlURL>".toList ++ control ++ "</controlURL></service>".toList

/-- The name of the description stays in the control URL, and another scheme is put behind it. -/
theorem document_name_is_kept :
    deviceControlUrl (fun _ _ => some (describing "ctl/IPConn".toList))
      "http://10.0.0.1:5000/desc.xml".toList =
      some "http://10.0.0.1:5000/desc.xml/ctl/IPConn".toList ∧
    resolveReference "10.0.0.1:5000".toList "/desc.xml".toList "ctl/IPConn".toList =
      "http://10.0.0.1:5000/ctl/IPConn".toList ∧
    deviceControlUrl (fun _ _ => some (describing "https://10.0.0.1/ctl".toList))
      "http://10.0.0.1:5000/desc.xml".toList =
      some "http://10.0.0.1:5000/desc.xml/https://10.0.0.1/ctl".toList := by
  refine ⟨by decide +kernel, by decide +kernel, by decide +kernel⟩

theorem relative_to_directory :
    deviceControlUrl (fun _ _ => some (describing "ctl/IPConn".toList))
      ("http://".toList ++ "10.0.0.1:5000".toList ++ "/igd/".toList) =
      some (resolveReference "10.0.0.1:5000".toList "/igd/".toList "ctl/IPConn".toList) := by
  have hrelative : IsRelative "ctl/IPConn".toList :=
    ⟨by decide +kernel, by decide +kernel, by decide +kernel⟩
  have hbody : bodyOf (describing "ctl/IPConn".toList) =
      some ((describing "ctl/IPConn".toList).drop 19) := by decide +kernel
  refine (deviceControlUrl_eq_iff (by decide +kernel) (by decide +kernel) rfl hbody
    (by decide +kernel) (.inr (.inr hrelative))).mpr ⟨fun h => absurd h (by decide +kernel), fun _ => ?_⟩
  exact ⟨by decide +kernel, by decide +kernel⟩

end Qstream

import Mathlib.Data.List.DropRight
import TarkovVoice.Client.SignalingClient
import TarkovVoice.Net.Integers

/-!
# The url of the coordinator

`parseWebSocketUrl` of `client/src/net/SignalingClient.cpp` and the first lines of `connect`, which
calls it. The port is what `std::stoi` makes of the text behind the last colon, cast to 16 bits:
`std::stoi` throws where there is no number, and neither `connect` nor its caller catches that. With
a closing bracket in it the whole text in front of the path is the host.

A url denotes something by `Denotes`, which does not follow the code. A host has no slash, and a
colon only within a pair of brackets that encloses all of it.

## Main definitions

* `parseWebSocketUrl`, `beginConnect`
* `Denotes` — what a url stands for
* `Regular` — the urls that are read for what they are

## Main results

* `hostAndPort_agrees_iff` — host and port
* `understood_iff`
-/

namespace TarkovVoice

namespace Client

open Net

/-! ### The functions of the source -/

structure ParsedUrl where
  secure : Bool := false
  host : Bytes
  path : Bytes := utf8 "/"
  port : UInt16 := 80
  deriving DecidableEq

/-- A scheme: its text, the secure flag and the default port, which counts where the url
names none. -/
structure Scheme where
  text : Bytes
  secure : Bool
  port : UInt16
  deriving DecidableEq

/-- The schemes, in the order in which they are tried. -/
def schemes : List Scheme :=
  [ ⟨utf8 "wss://", true, 443⟩, ⟨utf8 "ws://", false, 80⟩, ⟨utf8 "https://", true, 443⟩,
    ⟨utf8 "http://", false, 80⟩ ]

def slash : UInt8 := 47

/-- `host` and `port`, from the text in front of the path. A closing bracket stands for an address
with colons, whose port is not read. -/
def hostAndPort (port : UInt16) (hostPort : Bytes) : Except StoiError (Bytes × UInt16) :=
  if colon ∈ hostPort ∧ closeBracket ∉ hostPort then
    match stoi (hostPort.rtakeWhile (· ≠ colon)) with
    | .ok value => .ok ((hostPort.rdropWhile (· ≠ colon)).dropLast, UInt16.ofInt value)
    | .error e => .error e
  else .ok (hostPort, port)

/-- `parseWebSocketUrl`, which may throw: `std::stoi` does where a port is expected and none can be
read. -/
def parseWebSocketUrl (url : Bytes) : Except StoiError (Option ParsedUrl) :=
  match schemes.find? fun scheme => scheme.text.isPrefixOf url with
  | none => .ok none
  | some scheme =>
    let rest := url.drop scheme.text.length
    let path := rest.dropWhile (· ≠ slash)
    match hostAndPort scheme.port (rest.takeWhile (· ≠ slash)) with
    | .error e => .error e
    | .ok (host, port) =>
      if host = [] then .ok none
      else .ok (some
        { secure := scheme.secure, host, port, path := if path = [] then utf8 "/" else path })

/-- `connect` until it opens a connection, with the url it goes on with. `stableId` is what
`makeStableId` returns. -/
def beginConnect (now : ℕ) (stableId url : Bytes) :
    Except StoiError (SignalingClient × Option ParsedUrl) :=
  let c : SignalingClient := { peerId := stableId }
  match parseWebSocketUrl url with
  | .error e => .error e
  | .ok none =>
    .ok (c.queueEvent
      { type := utf8 "error", peer := { lastSeen := now }, error := utf8 "bad coordinator url" },
      none)
  | .ok (some parsed) => .ok (c, some parsed)

/-! ### What a url stands for -/

/-- A text in brackets, without another closing one. -/
def Bracketed (host : Bytes) : Prop :=
  ∃ u, host = openBracket :: (u ++ [closeBracket]) ∧ closeBracket ∉ u

/-- A host: a text without a slash that is not empty, and that has no colon in it unless it is in
brackets, as a numeric IPv6 address is. -/
structure IsHost (host : Bytes) : Prop where
  ne_nil : host ≠ []
  no_slash : slash ∉ host
  colons : colon ∉ host ∨ Bracketed host

/-- A decimal number from 1 to 65535. Leading zeros are allowed, signs and blanks are not. -/
structure IsPort (text : Bytes) (port : UInt16) : Prop where
  ne_nil : text ≠ []
  digits : ∀ c ∈ text, isdigit c = true
  value : digitsValue text = port.toNat
  ne_zero : port ≠ 0

/-- A host, and behind it a colon and a port. The port may be left out if it is the default port of
the scheme. -/
structure DenotesHost (default : UInt16) (text host : Bytes) (port : UInt16) : Prop where
  isHost : IsHost host
  rest : (text = host ∧ port = default) ∨
    ∃ portText, text = host ++ colon :: portText ∧ IsPort portText port

/-- What a url denotes, said without the parser: a scheme, a host and a port, and a path that is a
single slash unless it is written. -/
def Denotes (url : Bytes) (parsed : ParsedUrl) : Prop :=
  ∃ scheme ∈ schemes, ∃ text path, url = scheme.text ++ (text ++ path) ∧
    parsed.secure = scheme.secure ∧ DenotesHost scheme.port text parsed.host parsed.port ∧
    ((path = [] ∧ parsed.path = [slash]) ∨ (path.head? = some slash ∧ parsed.path = path))

/-- The url is read for what it is: nothing is thrown, the result is what the url denotes, and
`connect` reports a url that denotes nothing. -/
structure Understood (url : Bytes) : Prop where
  result : ∃ result, parseWebSocketUrl url = .ok result ∧
    ∀ parsed, result = some parsed ↔ Denotes url parsed
  reported : (∀ parsed, ¬ Denotes url parsed) → ∀ now stableId,
    ∃ c, beginConnect now stableId url = .ok (c, none) ∧
      c.events.map (fun event => (event.type, event.error)) =
        [(utf8 "error", utf8 "bad coordinator url")]

/-- In the text in front of the path there is no colon; or all of it is in brackets; or there are no
brackets and one colon, and behind it a port, or, if there is nothing in front of it, anything that
`std::stoi` does not reject. -/
def RegularHost (text : Bytes) : Prop :=
  colon ∉ text ∨ Bracketed text ∨ closeBracket ∉ text ∧ ∃ host portText,
    text = host ++ colon :: portText ∧ colon ∉ host ∧ colon ∉ portText ∧
      ((∃ port, IsPort portText port) ∨ host = [] ∧ ∃ value, stoi portText = .ok value)

/-- A url without one of the schemes, or with a regular text in front of its path. What the path is
does not matter. -/
def Regular (url : Bytes) : Prop :=
  ∀ scheme ∈ schemes, ∀ rest, url = scheme.text ++ rest →
    RegularHost (rest.takeWhile (· ≠ slash))

/-! ### Host and port -/

variable {default port : UInt16} {text host portText : Bytes}

/-- The last colon of a text. -/
theorem split_last (h : colon ∉ portText) :
    (host ++ colon :: portText).rtakeWhile (· ≠ colon) = portText ∧
      ((host ++ colon :: portText).rdropWhile (· ≠ colon)).dropLast = host := by
  have hall : ∀ c ∈ portText.reverse, decide (c ≠ colon) = true := by
    intro c hc
    exact decide_eq_true fun heq => h (heq ▸ List.mem_reverse.mp hc)
  have hreverse : (host ++ colon :: portText).reverse =
      portText.reverse ++ colon :: host.reverse := by simp
  rw [List.rtakeWhile, List.rdropWhile, hreverse, List.takeWhile_append_of_pos hall,
    List.dropWhile_append_of_pos hall]
  simp

theorem exists_last (h : colon ∈ text) : ∃ host portText,
    text = host ++ colon :: portText ∧ colon ∉ portText := by
  obtain ⟨u, v, hsplit, hnot⟩ := List.eq_append_cons_of_mem (List.mem_reverse.mpr h)
  refine ⟨v.reverse, u.reverse, ?_, mt List.mem_reverse.mp hnot⟩
  rw [← List.reverse_reverse text, hsplit]
  simp

/-- A text with a colon and no closing bracket. What is behind the last colon is read as a number,
whatever it is, and cast. -/
theorem hostAndPort_append (hbracket : closeBracket ∉ host ++ colon :: portText)
    (hport : colon ∉ portText) : hostAndPort default (host ++ colon :: portText) =
      match stoi portText with
      | .ok value => .ok (host, UInt16.ofInt value)
      | .error e => .error e := by
  have hcolon : colon ∈ host ++ colon :: portText :=
    List.mem_append_right host List.mem_cons_self
  obtain ⟨htake, hdrop⟩ := @split_last host portText hport
  rw [hostAndPort, if_pos ⟨hcolon, hbracket⟩, htake, hdrop]

theorem IsPort.colon_notMem (h : IsPort portText port) : colon ∉ portText := fun hmem =>
  absurd (h.digits colon hmem) (by decide)

/-- A port survives the cast. -/
theorem ofInt_toNat (port : UInt16) : UInt16.ofInt port.toNat = port := by
  have hlt := port.toNat_lt
  have hmod : ((port.toNat : ℤ) % 2 ^ 16).toNat = port.toNat := by omega
  rw [UInt16.ofInt, hmod, UInt16.ofNat_toNat]

theorem IsPort.stoi_eq (h : IsPort portText port) : stoi portText = .ok port.toNat := by
  have hread := stoi_digits h.ne_nil h.digits
  rw [h.value] at hread
  refine hread ?_
  have hlt := port.toNat_lt
  rw [IsInt]
  omega

theorem IsPort.unique {port' : UInt16} (h : IsPort portText port) (h' : IsPort portText port') :
    port = port' :=
  UInt16.toNat_inj.mp (h.value.symm.trans h'.value)

theorem Bracketed.mem (h : Bracketed text) : closeBracket ∈ text := by
  obtain ⟨u, rfl, -⟩ := h
  simp

/-- A bracketed text does not end with a port. -/
theorem Bracketed.ne_append (h : Bracketed text) (hport : IsPort portText port) :
    text ≠ host ++ colon :: portText := by
  obtain ⟨u, rfl, -⟩ := h
  intro heq
  have hlast := congrArg List.getLast? heq
  have hbracket : (openBracket :: (u ++ [closeBracket])).getLast? = some closeBracket := by
    rw [← List.cons_append, List.getLast?_concat]
  have hdigit : (host ++ colon :: portText).getLast? = portText.getLast? := by
    rw [List.getLast?_append, List.getLast?_cons_of_ne_nil hport.ne_nil]
    exact Option.or_of_isSome (List.getLast?_isSome.mpr hport.ne_nil)
  rw [hbracket, hdigit] at hlast
  have hc := hport.digits closeBracket (List.mem_of_getLast? hlast.symm)
  exact absurd hc (by decide)

/-- Without a closing bracket, a host has no colon. So the last colon of a text, if it has one, is
that of the port. -/
theorem IsHost.colon_notMem (h : IsHost host) (hbracket : closeBracket ∉ host) : colon ∉ host :=
  h.colons.resolve_right fun hb => hbracket hb.mem

/-- What the code makes of the text is what it denotes. It does not throw, and an empty host counts
as nothing. -/
def Agrees (default : UInt16) (text : Bytes) : Prop :=
  ∃ r, hostAndPort default text = .ok r ∧
    ∀ host port, (r = (host, port) ∧ host ≠ []) ↔ DenotesHost default text host port

theorem agrees_of_isHost (hslash : slash ∉ text)
    (heq : hostAndPort default text = .ok (text, default))
    (hcolons : colon ∉ text ∨ Bracketed text) : Agrees default text := by
  refine ⟨_, heq, fun host port => ⟨?_, fun h => ?_⟩⟩
  · rintro ⟨hr, hne⟩
    obtain ⟨rfl, rfl⟩ := Prod.mk.inj hr
    exact ⟨⟨hne, hslash, hcolons⟩, Or.inl ⟨rfl, rfl⟩⟩
  · have hwhole : text = host ∧ port = default := by
      refine h.rest.resolve_right ?_
      rintro ⟨portText, htext, hport⟩
      rcases hcolons with hcolon | hbracketed
      · rw [htext] at hcolon
        exact hcolon (List.mem_append_right host List.mem_cons_self)
      · exact hbracketed.ne_append hport htext
    obtain ⟨rfl, rfl⟩ := hwhole
    exact ⟨rfl, h.isHost.ne_nil⟩

/-- Behind the last colon is the port. What is in front of it is the host, which has no colon and is
not empty. -/
theorem DenotesHost.append_iff (hbracket : closeBracket ∉ host ++ colon :: portText)
    (hport : colon ∉ portText) {host' : Bytes} :
    DenotesHost default (host ++ colon :: portText) host' port ↔
      host' = host ∧ host ≠ [] ∧ slash ∉ host ∧ colon ∉ host ∧ IsPort portText port := by
  have hnot : closeBracket ∉ host := fun hmem => hbracket (List.mem_append_left _ hmem)
  constructor
  · rintro ⟨hhost, hwhole | ⟨portText', heq, hport'⟩⟩
    · obtain ⟨rfl, -⟩ := hwhole
      exact absurd (List.mem_append_right host List.mem_cons_self) (hhost.colon_notMem hbracket)
    · have hsplit := @split_last host portText hport
      rw [heq] at hsplit
      obtain ⟨htake, hdrop⟩ := @split_last host' portText' hport'.colon_notMem
      rw [htake, hdrop] at hsplit
      obtain ⟨rfl, rfl⟩ := hsplit
      exact ⟨rfl, hhost.ne_nil, hhost.no_slash, hhost.colon_notMem hnot, hport'⟩
  · rintro ⟨rfl, hne, hslash, hcolon, hport'⟩
    exact ⟨⟨hne, hslash, Or.inl hcolon⟩, Or.inr ⟨portText, rfl, hport'⟩⟩

theorem agrees_append_iff (hslash : slash ∉ host ++ colon :: portText)
    (hbracket : closeBracket ∉ host ++ colon :: portText) (hport : colon ∉ portText) :
    Agrees default (host ++ colon :: portText) ↔ RegularHost (host ++ colon :: portText) := by
  have heq := @hostAndPort_append default host portText hbracket hport
  have hcolon : colon ∈ host ++ colon :: portText :=
    List.mem_append_right host List.mem_cons_self
  have hnot : slash ∉ host := fun hmem => hslash (List.mem_append_left _ hmem)
  constructor
  · rintro ⟨r, hr, hagrees⟩
    rw [heq] at hr
    refine Or.inr (Or.inr ⟨hbracket, host, portText, rfl, ?_⟩)
    cases hstoi : stoi portText with
    | error e =>
      rw [hstoi] at hr
      exact absurd hr (by simp)
    | ok value =>
      rw [hstoi] at hr
      obtain rfl := Except.ok.inj hr
      by_cases hne : host = []
      · exact ⟨by rw [hne]; exact List.not_mem_nil, hport, Or.inr ⟨hne, value, rfl⟩⟩
      · have hdenotes := (hagrees host _).mp ⟨rfl, hne⟩
        obtain ⟨-, -, -, hhost, hport'⟩ := (DenotesHost.append_iff hbracket hport).mp hdenotes
        exact ⟨hhost, hport, Or.inl ⟨_, hport'⟩⟩
  · rintro (hnone | hbracketed | ⟨-, host', portText', hsplit, hhost, hport', hcases⟩)
    · exact absurd hcolon hnone
    · exact absurd hbracketed.mem hbracket
    · have hsame := @split_last host' portText' hport'
      obtain ⟨htake, hdrop⟩ := @split_last host portText hport
      rw [← hsplit, htake, hdrop] at hsame
      obtain ⟨rfl, rfl⟩ := hsame
      rcases hcases with ⟨port, hisPort⟩ | ⟨rfl, value, hvalue⟩
      · rw [hisPort.stoi_eq] at heq
        refine ⟨_, heq, fun host' port' => ?_⟩
        rw [DenotesHost.append_iff hbracket hport]
        constructor
        · rintro ⟨hr, hne⟩
          obtain ⟨rfl, rfl⟩ := Prod.mk.inj hr
          refine ⟨rfl, hne, hnot, hhost, ?_⟩
          rwa [ofInt_toNat]
        · rintro ⟨rfl, hne, -, -, hport''⟩
          rw [hisPort.unique hport'', ofInt_toNat]
          exact ⟨rfl, hne⟩
      · rw [hvalue] at heq
        refine ⟨_, heq, fun host' port' => ?_⟩
        rw [DenotesHost.append_iff hbracket hport]
        refine iff_of_false ?_ fun h => h.2.1 rfl
        rintro ⟨hr, hne⟩
        exact hne (Prod.mk.inj hr).1.symm

/-- **Host and port** are read for what they are exactly if the text is regular. The text has no
slash, since it ends where the path begins. -/
theorem hostAndPort_agrees_iff (hslash : slash ∉ text) :
    Agrees default text ↔ RegularHost text := by
  by_cases hcolon : colon ∈ text
  · by_cases hbracket : closeBracket ∈ text
    · -- the whole text is taken for the host
      have heq : hostAndPort default text = .ok (text, default) :=
        if_neg fun h => h.2 hbracket
      constructor
      · rintro ⟨r, hr, hagrees⟩
        obtain rfl := Except.ok.inj (heq.symm.trans hr)
        have hne : text ≠ [] := List.ne_nil_of_mem hcolon
        have hhost := ((hagrees text default).mp ⟨rfl, hne⟩).isHost
        exact Or.inr (Or.inl (hhost.colons.resolve_left fun hnot => hnot hcolon))
      · rintro (hnot | hbracketed | ⟨hnot, -⟩)
        · exact absurd hcolon hnot
        · exact agrees_of_isHost hslash heq (Or.inr hbracketed)
        · exact absurd hbracket hnot
    · obtain ⟨host, portText, rfl, hport⟩ := exists_last hcolon
      exact agrees_append_iff hslash hbracket hport
  · have heq : hostAndPort default text = .ok (text, default) := if_neg fun h => hcolon h.1
    exact iff_of_true (agrees_of_isHost hslash heq (Or.inl hcolon)) (Or.inl hcolon)

/-! ### The url -/

variable {url rest : Bytes} {parsed : ParsedUrl} {scheme : Scheme}

/-- No scheme begins another. -/
theorem scheme_of_begins : ∀ scheme ∈ schemes, ∀ scheme' ∈ schemes,
    scheme.text <+: scheme'.text → scheme = scheme' := by
  decide

theorem scheme_unique {scheme' : Scheme} {rest' : Bytes} (hscheme : scheme ∈ schemes)
    (hscheme' : scheme' ∈ schemes) (heq : scheme'.text ++ rest' = scheme.text ++ rest) :
    scheme' = scheme ∧ rest' = rest := by
  have hsame : scheme' = scheme := by
    rcases List.prefix_or_prefix_of_prefix (List.prefix_append scheme'.text rest')
      ⟨rest, heq.symm⟩ with hpre | hpre
    · exact scheme_of_begins scheme' hscheme' scheme hscheme hpre
    · exact (scheme_of_begins scheme hscheme scheme' hscheme' hpre).symm
  subst hsame
  exact ⟨rfl, List.append_cancel_left heq⟩

theorem find_scheme (hscheme : scheme ∈ schemes) :
    (schemes.find? fun s => s.text.isPrefixOf (scheme.text ++ rest)) = some scheme := by
  cases hfind : schemes.find? fun s => s.text.isPrefixOf (scheme.text ++ rest) with
  | none =>
    have hnone := List.find?_eq_none.mp hfind scheme hscheme
    exact absurd (List.isPrefixOf_iff_prefix.mpr (List.prefix_append scheme.text rest)) hnone
  | some found =>
    have hpre := List.find?_some hfind
    obtain ⟨rest', heq⟩ := List.isPrefixOf_iff_prefix.mp hpre
    rw [(scheme_unique hscheme (List.mem_of_find?_eq_some hfind) heq).1]

/-- The path, which is a single slash if there is none. -/
def pathOf (rest : Bytes) : Bytes :=
  if rest.dropWhile (· ≠ slash) = [] then utf8 "/" else rest.dropWhile (· ≠ slash)

theorem DenotesHost.slash_notMem (h : DenotesHost default text host port) : slash ∉ text := by
  rcases h.rest with ⟨rfl, -⟩ | ⟨portText, rfl, hport⟩
  · exact h.isHost.no_slash
  · rintro hmem
    rcases List.mem_append.mp hmem with hhost | hrest
    · exact h.isHost.no_slash hhost
    · rcases List.mem_cons.mp hrest with hcolon | hdigit
      · exact absurd hcolon (by decide)
      · exact absurd (hport.digits slash hdigit) (by decide)

/-- The first slash. -/
theorem split_slash {path : Bytes} (hslash : slash ∉ text)
    (hpath : path = [] ∨ path.head? = some slash) :
    (text ++ path).takeWhile (· ≠ slash) = text ∧ (text ++ path).dropWhile (· ≠ slash) = path := by
  have hall : ∀ c ∈ text, decide (c ≠ slash) = true := fun c hc =>
    decide_eq_true fun heq => hslash (heq ▸ hc)
  rw [List.takeWhile_append_of_pos hall, List.dropWhile_append_of_pos hall]
  rcases hpath with rfl | hhead
  · simp
  · obtain ⟨path, rfl⟩ := List.head?_eq_some_iff.mp hhead
    simp

/-- What a url with a scheme stands for: flag and path are what they say, and host and port are
those of the text in front of the path. -/
theorem denotes_append_iff (hscheme : scheme ∈ schemes) : Denotes (scheme.text ++ rest) parsed ↔
    parsed.secure = scheme.secure ∧ parsed.path = pathOf rest ∧
      DenotesHost scheme.port (rest.takeWhile (· ≠ slash)) parsed.host parsed.port := by
  constructor
  · rintro ⟨scheme', hscheme', text, path, heq, hsecure, hhost, hpath⟩
    obtain ⟨rfl, rfl⟩ := scheme_unique hscheme hscheme' heq.symm
    obtain ⟨htake, hdrop⟩ :=
      split_slash hhost.slash_notMem (hpath.imp And.left And.left)
    rw [pathOf, htake, hdrop]
    refine ⟨hsecure, ?_, hhost⟩
    rcases hpath with ⟨rfl, hroot⟩ | ⟨hhead, hsame⟩
    · exact hroot
    · rw [if_neg, hsame]
      rintro rfl
      cases hhead
  · rintro ⟨hsecure, hpath, hhost⟩
    refine ⟨scheme, hscheme, _, rest.dropWhile (· ≠ slash), ?_, hsecure, hhost, ?_⟩
    · rw [List.takeWhile_append_dropWhile]
    · by_cases hnil : rest.dropWhile (· ≠ slash) = []
      · rw [pathOf, if_pos hnil] at hpath
        exact Or.inl ⟨hnil, hpath⟩
      · rw [pathOf, if_neg hnil] at hpath
        refine Or.inr ⟨?_, hpath⟩
        obtain ⟨c, path, hcons⟩ := List.exists_cons_of_ne_nil hnil
        have hhead := List.head?_dropWhile_not (fun c => decide (c ≠ slash)) rest
        rw [hcons, List.head?_cons] at hhead
        rw [hcons, List.head?_cons, of_not_not (of_decide_eq_false hhead)]

/-- The result, once host and port are read. -/
def withHost (scheme : Scheme) (rest : Bytes) (r : Bytes × UInt16) : Option ParsedUrl :=
  if r.1 = [] then none
  else some { secure := scheme.secure, host := r.1, port := r.2, path := pathOf rest }

theorem withHost_eq_some_iff {r : Bytes × UInt16} : withHost scheme rest r = some parsed ↔
    parsed.secure = scheme.secure ∧ parsed.path = pathOf rest ∧
      (r = (parsed.host, parsed.port) ∧ parsed.host ≠ []) := by
  obtain ⟨host, port⟩ := r
  obtain ⟨secure, host', path, port'⟩ := parsed
  rw [withHost]
  constructor
  · intro h
    split at h
    · cases h
    · rename_i hne
      cases h
      exact ⟨rfl, rfl, rfl, hne⟩
  · rintro ⟨rfl, rfl, hr, hne⟩
    cases hr
    exact if_neg hne

theorem parseWebSocketUrl_append (hscheme : scheme ∈ schemes) :
    parseWebSocketUrl (scheme.text ++ rest) =
      (hostAndPort scheme.port (rest.takeWhile (· ≠ slash))).map (withHost scheme rest) := by
  rw [parseWebSocketUrl, find_scheme hscheme]
  dsimp only
  rw [List.drop_left]
  cases hostAndPort scheme.port (rest.takeWhile (· ≠ slash)) with
  | error e => rfl
  | ok r =>
    dsimp only [Except.map, withHost, pathOf]
    split <;> rfl

/-- A url without a result is reported: `connect` queues an error that says so, and opens
nothing. -/
theorem reported_of_none (h : parseWebSocketUrl url = .ok none) (now : ℕ) (stableId : Bytes) :
    ∃ c, beginConnect now stableId url = .ok (c, none) ∧
      c.events.map (fun event => (event.type, event.error)) =
        [(utf8 "error", utf8 "bad coordinator url")] := by
  rw [beginConnect, h]
  exact ⟨_, rfl, rfl⟩

/-- Whatever denotes nothing is reported, once the result is right. So it is enough to look at the
result. -/
theorem understood_iff_result : Understood url ↔ ∃ result, parseWebSocketUrl url = .ok result ∧
    ∀ parsed, result = some parsed ↔ Denotes url parsed := by
  refine ⟨fun h => h.result, fun h => ⟨h, fun hnone => ?_⟩⟩
  obtain ⟨result, hresult, hiff⟩ := h
  obtain rfl : result = none := by
    refine Option.eq_none_iff_forall_ne_some.mpr fun parsed hsome => ?_
    exact hnone parsed ((hiff parsed).mp hsome)
  exact reported_of_none hresult

/-- With a scheme, all that matters is what stands in front of the path. -/
theorem understood_append_iff (hscheme : scheme ∈ schemes) :
    Understood (scheme.text ++ rest) ↔ Agrees scheme.port (rest.takeWhile (· ≠ slash)) := by
  rw [understood_iff_result, parseWebSocketUrl_append hscheme, Agrees]
  constructor
  · rintro ⟨result, hresult, hiff⟩
    cases hr : hostAndPort scheme.port (rest.takeWhile (· ≠ slash)) with
    | error e =>
      rw [hr] at hresult
      cases hresult
    | ok r =>
      rw [hr] at hresult
      obtain rfl := Except.ok.inj hresult
      refine ⟨r, rfl, fun host port => ?_⟩
      have hparsed := hiff { secure := scheme.secure, host, port, path := pathOf rest }
      rw [withHost_eq_some_iff, denotes_append_iff hscheme] at hparsed
      simpa using hparsed
  · rintro ⟨r, hr, hagrees⟩
    refine ⟨withHost scheme rest r, by rw [hr]; rfl, fun parsed => ?_⟩
    rw [withHost_eq_some_iff, denotes_append_iff hscheme, hagrees]

/-- **A url is read for what it is** exactly if it is regular. For every text: `parseWebSocketUrl`
throws nothing, returns what the text denotes, and `connect` reports a text that denotes nothing,
exactly if the text has none of the schemes, or what stands between its scheme and its path is a
regular text. -/
theorem understood_iff : Understood url ↔ Regular url := by
  cases hfind : schemes.find? fun scheme => scheme.text.isPrefixOf url with
  | none =>
    have hnone : ∀ scheme ∈ schemes, ∀ rest, url ≠ scheme.text ++ rest := by
      rintro scheme hscheme rest rfl
      rw [find_scheme hscheme] at hfind
      cases hfind
    refine iff_of_true (understood_iff_result.mpr ⟨none, ?_, fun parsed => ?_⟩) ?_
    · rw [parseWebSocketUrl, hfind]
    · refine iff_of_false (Option.some_ne_none parsed).symm ?_
      rintro ⟨scheme, hscheme, text, path, heq, -⟩
      exact hnone scheme hscheme _ heq
    · exact fun scheme hscheme rest heq => absurd heq (hnone scheme hscheme rest)
  | some scheme =>
    have hscheme := List.mem_of_find?_eq_some hfind
    have hpre := List.find?_some hfind
    obtain ⟨rest, rfl⟩ := List.isPrefixOf_iff_prefix.mp hpre
    have hslash : slash ∉ rest.takeWhile (· ≠ slash) := by
      intro hmem
      have himp := List.mem_takeWhile_imp hmem
      exact of_decide_eq_true himp rfl
    rw [understood_append_iff hscheme, hostAndPort_agrees_iff hslash]
    constructor
    · intro h scheme' hscheme' rest' heq
      obtain ⟨rfl, rfl⟩ := scheme_unique hscheme hscheme' heq.symm
      exact h
    · exact fun h => h scheme hscheme rest rfl

/-- A port that is no number is thrown at the caller, who does not catch it. So not every url is
understood. -/
theorem no_number_thrown : ¬ ∀ url, Understood url := by
  intro h
  obtain ⟨result, hresult, -⟩ := (h (utf8 "ws://host:abc")).result
  have hthrown : parseWebSocketUrl (utf8 "ws://host:abc") = .error .invalidArgument := by
    decide +kernel
  rw [hthrown] at hresult
  cases hresult

end Client

end TarkovVoice

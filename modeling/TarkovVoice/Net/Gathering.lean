import TarkovVoice.Net.Integers
import TarkovVoice.Net.Stun
import TarkovVoice.Tokens
import TarkovVoice.Trim
import TarkovVoice.Unique

/-!
# Gathering candidates

What `start` of `client/src/net/DirectVoiceTransport.cpp` does between opening the socket and being
ready: it asks the host for its addresses, STUN servers for mapped ones, and web servers for a
public one, and collects candidates without repetition.

Everything that the system and the servers answer is in `Surroundings`. A web server's answer is the
text that was read of it. The first 512 bytes of a datagram are received into zeros.

## Main definitions

* `isPublicIPv4Address`, `extractPublicIPv4Token`, `queryPublicIPv4ViaHttps`
* `configuredStunServers`, `queryStunMappedEndpoint`, `localIPv4Addresses`
* `Surroundings`, with `discovered` — what `start` comes to

## Main results

* `isPublicIPv4Address_iff` — an address is public if it is in none of the reserved networks
* `public_token_found`
* `gatherCandidates_eq` — the candidates are all that was answered, without repetition
-/

namespace TarkovVoice

namespace Net

/-! ### The functions of the source -/

section Public

variable (inetPton : Bytes → Option UInt32)

/-- `isPublicIPv4Address`, with its comparisons of the first two bytes. `inetPton` is `InetPtonA`
with `ntohl` behind it. -/
def isPublicIPv4Address (text : Bytes) : Bool :=
  match inetPton text with
  | none => false
  | some ip =>
    let a := ((ip >>> 24) &&& 0xff).toUInt8
    let b := ((ip >>> 16) &&& 0xff).toUInt8
    if a = 0 ∨ a = 10 ∨ a = 127 ∨ a ≥ 224 then false
    else if a = 100 ∧ b ≥ 64 ∧ b ≤ 127 then false
    else if a = 169 ∧ b = 254 then false
    else if a = 172 ∧ b ≥ 16 ∧ b ≤ 31 then false
    else if a = 192 ∧ b = 168 then false
    else true

/-- A digit or a dot. -/
def addressByte (c : UInt8) : Bool := isdigit c || c == 46

/-- A token that `extractPublicIPv4Token` returns. -/
def acceptsToken (token : Bytes) : Bool :=
  token.count 46 == 3 && isPublicIPv4Address inetPton token

/-- `extractPublicIPv4Token`. The index runs over the rest of the text: `i = end` and the `++i` of
the loop pass over a token and what ended it. -/
def extractPublicIPv4Token (body : Bytes) : Option Bytes :=
  Tokens.first isdigit addressByte (acceptsToken inetPton) body

end Public

/-- A character that `addServer` trims. -/
def serverBlank (c : UInt8) : Bool := c == 32 || c == 9 || c == 13 || c == 10

/-- `addServer`: a server without the blanks around it, unless nothing is left of it or it is there
already. -/
def addServer (servers : List Bytes) (server : Bytes) : List Bytes :=
  let server := Trim.trim serverBlank server
  if server = [] then servers
  else if servers.contains server then servers
  else servers ++ [server]

/-- What ends a server in `TVO_STUN_SERVERS`. -/
def serverEnd (c : UInt8) : Bool := c == 44 || c == 59

/-- The loop over `TVO_STUN_SERVERS`, from a position on. `current` is what has been read of the
next server. -/
def readServers : Bytes → Bytes → List Bytes → List Bytes
  | [], current, servers => addServer servers current
  | c :: value, current, servers =>
    if serverEnd c then readServers value [] (addServer servers current)
    else readServers value (current ++ [c]) servers

/-- The servers that are always there. The first is `kDefaultGoogleStun`. -/
def defaultStunServers : List Bytes :=
  [utf8 "stun:stun.l.google.com:19302", utf8 "stun:stun1.l.google.com:19302",
    utf8 "stun:stun2.l.google.com:19302", utf8 "stun:stun3.l.google.com:19302",
    utf8 "stun:stun4.l.google.com:19302", utf8 "stun:stun.cloudflare.com:3478",
    utf8 "stun:global.stun.twilio.com:3478", utf8 "stun:stun.relay.metered.ca:80",
    utf8 "stun:stun.relay.metered.ca:443"]

/-- Host and port of a STUN server: the port is behind the last colon. -/
def stunHostPort (stun : Bytes) : Bytes × Bytes :=
  let stun := if (utf8 "stun:").isPrefixOf stun then stun.drop 5 else stun
  if 58 ∈ stun then ((stun.rdropWhile (· != 58)).dropLast, stun.rtakeWhile (· != 58))
  else (stun, utf8 "19302")

/-- The web servers that are asked, and for which path. -/
def httpsEndpoints : List (Bytes × Bytes) :=
  [(utf8 "api.ipify.org", utf8 "/"), (utf8 "checkip.amazonaws.com", utf8 "/"),
    (utf8 "ifconfig.me", utf8 "/ip")]

/-- What an attempt to ask a STUN server gives: the request that was sent, and the buffer and the
number of bytes received. The number is what `recvfrom` returns, so nothing is known of it here. -/
structure StunReply where
  request : Bytes
  response : Bytes
  received : ℤ
  length_request : request.length = 20
  length_response : response.length = 512

/-- What `start` is answered by the environment, the system, the STUN servers and the web servers.
All of it is arbitrary, but for what `Documented` says. -/
structure Surroundings where
  getenv : Bytes → Option Bytes
  wsaStartup : Bool
  socket : Bool
  bind : UInt16 → Bool
  /-- The port that `getsockname` tells. -/
  getsockname : Option UInt16
  /-- The IPv4 addresses of the host's name, in the order of `getaddrinfo`. -/
  hostAddresses : Option (List UInt32)
  /-- Whether `getaddrinfo` knows host and port of a STUN server. -/
  resolves : Bytes → Bytes → Bool
  /-- What the attempts to ask it give, where something is received in time. -/
  stunReply : Bytes → Bytes → ℕ → Option StunReply
  /-- What is read from a host, for a path. -/
  httpsBody : Bytes → Bytes → Option Bytes
  inetNtop : UInt32 → Option Bytes
  inetPton : Bytes → Option UInt32
  isNumericHost : Bytes → Bool

namespace Surroundings

variable (s : Surroundings)

/-- `preferredDirectVoicePort`: the port that the environment asks for, if it can be one, and the
usual one otherwise. -/
def preferredDirectVoicePort : UInt16 :=
  match s.getenv (utf8 "TVO_DIRECT_UDP_PORT") with
  | none => 40771
  | some value =>
    match stoi value with
    | .ok parsed => if 0 < parsed ∧ parsed ≤ 65535 then UInt16.ofNat parsed.toNat else 40771
    | .error _ => 40771

/-- `configuredStunServers`: those of the environment come first, then those that are always there,
none twice. -/
def configuredStunServers : List Bytes :=
  let servers :=
    match s.getenv (utf8 "TVO_STUN_SERVERS") with
    | some value => readServers value [] []
    | none => []
  defaultStunServers.foldl addServer servers

/-- The loop of `queryStunMappedEndpoint` over the attempts. An attempt that nothing usable comes of
is followed by the next. -/
def stunAttempts (localPort : UInt16) (host port : Bytes) :
    List ℕ → Except Stop (Option SocketEndpoint)
  | [] => return none
  | attempt :: attempts =>
    match s.stunReply host port attempt with
    | none => stunAttempts localPort host port attempts
    | some reply => do
      match ← parseStunResponse s.inetNtop s.isNumericHost reply.response localPort reply.request
          reply.received with
      | some result => return result
      | none => stunAttempts localPort host port attempts

/-- `queryStunMappedEndpoint`. -/
def queryStunMappedEndpoint (localPort : UInt16) (stun : Bytes) :
    Except Stop (Option SocketEndpoint) :=
  let (host, port) := stunHostPort stun
  if s.resolves host port then s.stunAttempts localPort host port [0, 1] else return none

/-- `addUnique`. -/
def addUnique (addresses : List Bytes) (address : Bytes) : List Bytes :=
  if address ≠ [] ∧ addresses.contains address = false then addresses ++ [address] else addresses

/-- `localIPv4Addresses`. -/
def localIPv4Addresses : List Bytes :=
  ((s.hostAddresses.getD []).filterMap s.inetNtop).foldl addUnique
    (addUnique [] (utf8 "127.0.0.1"))

/-- `queryPublicIPv4ViaHttps`. -/
def queryPublicIPv4ViaHttps : Option Bytes :=
  httpsEndpoints.findSome? fun endpoint =>
    (s.httpsBody endpoint.1 endpoint.2).bind (extractPublicIPv4Token s.inetPton)

/-- `addLocalCandidate`. -/
def addLocalCandidate (localCandidates : List Candidate) (candidate : Candidate) :
    List Candidate :=
  if candidate ∈ localCandidates then localCandidates else localCandidates ++ [candidate]

/-- The loop of `start` over the STUN servers, with `mappedCandidateFound`. -/
def addMapped (localPort : UInt16) :
    List Bytes → List Candidate × Bool → Except Stop (List Candidate × Bool)
  | [], found => return found
  | stun :: servers, (localCandidates, mappedCandidateFound) => do
    match ← s.queryStunMappedEndpoint localPort stun with
    | some mapped =>
      addMapped localPort servers
        (addLocalCandidate localCandidates
          { type := utf8 "srflx", address := mapped.address, port := mapped.port }, true)
    | none => addMapped localPort servers (localCandidates, mappedCandidateFound)

/-- `start` from the first candidate on: the host's addresses, then the mapped ones, then the one
that a web server tells. -/
def gatherCandidates (localPort : UInt16) : Except Stop (List Candidate) := do
  let hosts := s.localIPv4Addresses.foldl (fun localCandidates address =>
    addLocalCandidate localCandidates { type := utf8 "host", address, port := localPort }) []
  let (localCandidates, mappedCandidateFound) ←
    s.addMapped localPort s.configuredStunServers (hosts, false)
  match s.queryPublicIPv4ViaHttps with
  | some publicAddress =>
    return addLocalCandidate localCandidates
      { type := if mappedCandidateFound then utf8 "public" else utf8 "srflx"
        address := publicAddress
        port := localPort }
  | none => return localCandidates

/-- What `start` comes to, if it does not fail: nothing if direct UDP is disabled or the socket
cannot be had, and its candidates otherwise. -/
def discovered : Except Stop (Option (List Candidate)) :=
  if s.getenv (utf8 "TVO_DISABLE_DIRECT_UDP") = some (utf8 "1") then return none
  else if s.wsaStartup = false ∨ s.socket = false then return none
  else if s.bind s.preferredDirectVoicePort = false ∧ s.bind 0 = false then return none
  else
    match s.getsockname with
    | none => return none
    | some localPort => some <$> s.gatherCandidates localPort

end Surroundings

/-! ### Public addresses -/

/-- The addresses whose first `length` bits are those of `base`, as in `base/length`. -/
structure Network where
  base : UInt32
  length : ℕ

/-- The address belongs to the network: it is the same number as the base when only the first bits
are kept. -/
def Network.Has (n : Network) (ip : UInt32) : Prop :=
  ip.toNat / 2 ^ (32 - n.length) = n.base.toNat / 2 ^ (32 - n.length)

instance (n : Network) (ip : UInt32) : Decidable (n.Has ip) :=
  inferInstanceAs (Decidable (_ = _))

/-- The networks that are not public: 0.0.0.0/8, 10.0.0.0/8, 127.0.0.0/8, 224.0.0.0/3,
100.64.0.0/10, 169.254.0.0/16, 172.16.0.0/12 and 192.168.0.0/16. -/
def reservedNetworks : List Network :=
  [⟨0x00000000, 8⟩, ⟨0x0a000000, 8⟩, ⟨0x7f000000, 8⟩, ⟨0xe0000000, 3⟩, ⟨0x64400000, 10⟩,
    ⟨0xa9fe0000, 16⟩, ⟨0xac100000, 12⟩, ⟨0xc0a80000, 16⟩]

section Public

variable {inetPton : Bytes → Option UInt32}

/-- A byte of an address. -/
theorem toNat_addressByte (ip shift : UInt32) :
    ((ip >>> shift) &&& 0xff).toUInt8.toNat = ip.toNat / 2 ^ (shift.toNat % 32) % 256 := by
  rw [UInt32.toNat_toUInt8, UInt32.toNat_and, UInt32.toNat_shiftRight, Nat.shiftRight_eq_div_pow,
    show (0xff : UInt32).toNat = 2 ^ 8 - 1 from rfl, Nat.and_two_pow_sub_one_eq_mod]
  exact Nat.mod_mod _ _

/-- **Public addresses** are those that are in none of the reserved networks. -/
theorem isPublicIPv4Address_iff (text : Bytes) : isPublicIPv4Address inetPton text = true ↔
    ∃ ip, inetPton text = some ip ∧ ∀ n ∈ reservedNetworks, ¬ n.Has ip := by
  rw [isPublicIPv4Address]
  cases inetPton text with
  | none =>
    refine iff_of_false Bool.false_ne_true ?_
    rintro ⟨ip, h, -⟩
    exact Option.some_ne_none ip h.symm
  | some ip =>
    have ha : ((ip >>> 24) &&& 0xff).toUInt8.toNat = ip.toNat / 2 ^ 24 % 256 :=
      toNat_addressByte ip 24
    have hb : ((ip >>> 16) &&& 0xff).toUInt8.toNat = ip.toNat / 2 ^ 16 % 256 :=
      toNat_addressByte ip 16
    have hlt := ip.toNat_lt
    simp only [Option.some_inj, exists_eq_left', reservedNetworks, List.forall_mem_cons,
      Network.Has, ge_iff_le, UInt8.le_iff_toNat_le, ← UInt8.toNat_inj, ha, hb, UInt8.reduceToNat,
      UInt32.reduceToNat]
    split_ifs <;> simp <;> omega

theorem addressByte_of_isdigit (c : UInt8) (h : isdigit c = true) : addressByte c = true := by
  rw [addressByte, h]
  rfl

theorem acceptsToken_iff (token : Bytes) : acceptsToken inetPton token = true ↔
    token.count 46 = 3 ∧ isPublicIPv4Address inetPton token = true := by
  rw [acceptsToken, Bool.and_eq_true, beq_iff_eq]

/-- **The public address in a text.** Cut the text at everything that is neither a digit nor a dot,
and drop the dots in front of each part: what is found is the first part with three dots that is an
address in none of the reserved networks. The text is any, and so is the reading of addresses,
`InetPtonA`. -/
theorem public_token_found (inetPton : Bytes → Option UInt32) (body : Bytes) :
    extractPublicIPv4Token inetPton body =
      ((body.splitOnP fun c => !addressByte c).map (List.dropWhile fun c => !isdigit c)).find?
        (acceptsToken inetPton) ∧
    ∀ token, acceptsToken inetPton token = true ↔ token.count 46 = 3 ∧
      ∃ ip, inetPton token = some ip ∧ ∀ n ∈ reservedNetworks, ¬ n.Has ip :=
  ⟨Tokens.first_eq addressByte_of_isdigit rfl body,
    fun token => (acceptsToken_iff token).trans (and_congr_right' (isPublicIPv4Address_iff token))⟩

end Public

/-! ### Servers and addresses -/

/-- A server without the blanks around it, if anything is left. -/
def trimmedServer (server : Bytes) : Option Bytes :=
  if Trim.trim serverBlank server = [] then none else some (Trim.trim serverBlank server)

theorem addServer_eq (servers : List Bytes) (server : Bytes) :
    addServer servers server = (trimmedServer server).elim servers (Unique.add servers) := by
  rw [addServer, trimmedServer]
  by_cases hnil : Trim.trim serverBlank server = []
  · rw [if_pos hnil, if_pos hnil]
    rfl
  · rw [if_neg hnil, if_neg hnil]
    rfl

theorem readServers_eq (value : Bytes) : ∀ (current : Bytes) (servers : List Bytes),
    readServers value current servers =
      (List.splitOnPPrepend serverEnd value current.reverse).foldl addServer servers := by
  induction value with
  | nil =>
    intro current servers
    rw [readServers, List.splitOnPPrepend_nil, List.reverse_reverse]
    rfl
  | cons c value ih =>
    intro current servers
    rw [readServers, List.splitOnPPrepend_cons_eq_if]
    by_cases hend : serverEnd c = true
    · rw [if_pos hend, if_pos hend, ih, List.foldl_cons, List.reverse_reverse, List.reverse_nil,
        List.splitOnPPrepend_nil_right]
    · rw [if_neg hend, if_neg hend, ih, List.reverse_append]
      rfl

namespace Surroundings

variable {s : Surroundings}

/-- **The STUN servers**: those of the environment, between commas and semicolons, and then the
others; each without the blanks around it, and once. -/
theorem configuredStunServers_eq (s : Surroundings) : s.configuredStunServers =
    (((((s.getenv (utf8 "TVO_STUN_SERVERS")).map (List.splitOnP serverEnd)).getD []) ++
      defaultStunServers).filterMap trimmedServer).eraseDups := by
  rw [← Unique.foldl_eq addServer_eq, List.foldl_append, configuredStunServers]
  cases s.getenv (utf8 "TVO_STUN_SERVERS") with
  | none => rfl
  | some value =>
    dsimp only
    rw [readServers_eq]
    rfl

theorem addUnique_eq (addresses : List Bytes) (address : Bytes) : addUnique addresses address =
    (if address = [] then none else some address).elim addresses (Unique.add addresses) := by
  rw [addUnique]
  by_cases hnil : address = []
  · rw [if_pos hnil, if_neg fun h => h.1 hnil]
    rfl
  · rw [if_neg hnil, Option.elim_some, Unique.add]
    cases addresses.contains address with
    | true => rw [if_neg fun h => Bool.noConfusion h.2, if_pos rfl]
    | false => rw [if_pos ⟨hnil, rfl⟩, if_neg Bool.false_ne_true]

theorem localIPv4Addresses_eq (s : Surroundings) : s.localIPv4Addresses =
    ((utf8 "127.0.0.1" :: (s.hostAddresses.getD []).filterMap s.inetNtop).filterMap fun address =>
      if address = [] then none else some address).eraseDups :=
  Unique.foldl_eq addUnique_eq (utf8 "127.0.0.1" :: (s.hostAddresses.getD []).filterMap s.inetNtop)

theorem addLocalCandidate_eq (localCandidates : List Candidate) (candidate : Candidate) :
    addLocalCandidate localCandidates candidate = Unique.add localCandidates candidate := by
  rw [addLocalCandidate]
  by_cases h : candidate ∈ localCandidates
  · rw [if_pos h, Unique.add_of_mem h]
  · rw [if_neg h, Unique.add_of_notMem h]

/-! ### Mapped endpoints -/

/-- What the documentation says of the system: of addresses and their texts, and that a bound socket
has a port. Nothing is said of what servers answer. -/
structure Documented (s : Surroundings) : Prop where
  inet : IsInet s.inetNtop s.isNumericHost
  pton : ∀ text, s.inetPton text ≠ none → s.isNumericHost text = true
  port : s.getsockname ≠ some 0

/-- An endpoint that a STUN server tells: an address in dots, and a port other than 0. -/
def Tellable (e : SocketEndpoint) : Prop := (∃ ip, e.address = dotted ip) ∧ e.port ≠ 0

theorem tellable_endpointOf {localPort : UInt16} (hport : localPort ≠ 0) (a : Tlv.Attribute) :
    Tellable (endpointOf localPort a) := by
  refine ⟨⟨_, rfl⟩, ?_⟩
  rw [endpointOf]
  split
  · exact hport
  · assumption

/-- An attempt reads nothing outside the buffer, and what it returns from the loop is an
endpoint. -/
theorem parseStunResponse_reply (h : IsInet s.inetNtop s.isNumericHost) {localPort : UInt16}
    (hport : localPort ≠ 0) (reply : StunReply) :
    ∃ result, parseStunResponse s.inetNtop s.isNumericHost reply.response localPort reply.request
      reply.received = .ok result ∧
      ∀ r, result = some r → ∃ e, r = some e ∧ Tellable e := by
  have hlength := reply.length_response
  have hdrop : (reply.request.drop 8).length = 12 := by
    rw [List.length_drop, reply.length_request]
  have h0 := @byteAt_of_lt reply.response 0 (by omega)
  have h1 := @byteAt_of_lt reply.response 1 (by omega)
  have hsame := @equalAt_of_le reply.response (reply.request.drop 8) 8 (by omega)
  have hlen := @u16At_of_le reply.response 2 (by omega)
  have hnone : ∀ r, (none : Option (Option SocketEndpoint)) = some r →
      ∃ e, r = some e ∧ Tellable e := fun r hr => absurd hr (Option.some_ne_none r).symm
  rw [parseStunResponse, h0, h1, hsame, hlen]
  simp only [ok_bind]
  split_ifs
  · exact ⟨none, rfl, hnone⟩
  · exact ⟨none, rfl, hnone⟩
  · exact ⟨none, rfl, hnone⟩
  · refine ⟨_, attributeLoop_eq (Nat.min_le_left _ _), fun r hr => ?_⟩
    obtain ⟨a, ha⟩ := Tlv.exists_of_walk hr
    rw [mappedOf_eq h, Function.comp_apply, Option.map_eq_some_iff] at ha
    obtain ⟨a', -, rfl⟩ := ha
    exact ⟨_, rfl, tellable_endpointOf hport a'⟩
  · exact ⟨none, rfl, hnone⟩

theorem stunAttempts_eq (h : IsInet s.inetNtop s.isNumericHost) {localPort : UInt16}
    (hport : localPort ≠ 0) (host port : Bytes) (attempts : List ℕ) :
    ∃ answer, s.stunAttempts localPort host port attempts = .ok answer ∧
      ∀ e ∈ answer, Tellable e := by
  have hnone : ∀ e ∈ (none : Option SocketEndpoint), Tellable e :=
    fun e he => absurd he (Option.not_mem_none e)
  induction attempts with
  | nil => exact ⟨none, rfl, hnone⟩
  | cons attempt attempts ih =>
    rw [stunAttempts]
    cases s.stunReply host port attempt with
    | none => exact ih
    | some reply =>
      obtain ⟨result, hparse, hresult⟩ := parseStunResponse_reply h hport reply
      dsimp only
      rw [hparse, ok_bind]
      cases result with
      | none => exact ih
      | some r =>
        obtain ⟨e, rfl, he⟩ := hresult r rfl
        refine ⟨some e, rfl, fun e' he' => ?_⟩
        rw [← Option.some.inj he']
        exact he

/-- **Asking a STUN server** never fails, whatever it answers, and what it tells is an endpoint with
an address in dots. -/
theorem queryStunMappedEndpoint_eq (h : IsInet s.inetNtop s.isNumericHost) {localPort : UInt16}
    (hport : localPort ≠ 0) (stun : Bytes) :
    ∃ answer, s.queryStunMappedEndpoint localPort stun = .ok answer ∧
      ∀ e ∈ answer, Tellable e := by
  rw [queryStunMappedEndpoint]
  split
  split
  · exact stunAttempts_eq h hport _ _ _
  · exact ⟨none, rfl, fun e he => absurd he (Option.not_mem_none e)⟩

/-! ### All candidates -/

/-- The candidate that a mapped endpoint makes. -/
def mappedCandidate (mapped : SocketEndpoint) : Candidate where
  type := utf8 "srflx"
  address := mapped.address
  port := mapped.port

theorem addMapped_eq {localPort : UInt16} {answer : Bytes → Option SocketEndpoint}
    (hanswer : ∀ stun, s.queryStunMappedEndpoint localPort stun = .ok (answer stun))
    (servers : List Bytes) : ∀ (localCandidates : List Candidate) (found : Bool),
    s.addMapped localPort servers (localCandidates, found) =
      .ok (((servers.filterMap answer).map mappedCandidate).foldl addLocalCandidate localCandidates,
        found || !(servers.filterMap answer).isEmpty) := by
  induction servers with
  | nil =>
    intro localCandidates found
    exact congrArg (fun b => Except.ok (localCandidates, b)) (Bool.or_false found).symm
  | cons stun servers ih =>
    intro localCandidates found
    rw [addMapped, hanswer, ok_bind]
    cases hstun : answer stun with
    | none =>
      rw [List.filterMap_cons_none hstun]
      exact ih localCandidates found
    | some mapped =>
      rw [List.filterMap_cons_some hstun, List.map_cons, List.foldl_cons, List.isEmpty_cons,
        Bool.not_false, Bool.or_true, ← Bool.true_or]
      show addMapped _ _ _ (addLocalCandidate localCandidates (mappedCandidate mapped), true) = _
      rw [ih]

/-- The candidate of an address of the host. -/
def hostCandidate (localPort : UInt16) (address : Bytes) : Candidate where
  type := utf8 "host"
  address := address
  port := localPort

/-- The candidate of the address that a web server tells. -/
def publicCandidate (localPort : UInt16) (mappedCandidateFound : Bool) (address : Bytes) :
    Candidate where
  type := if mappedCandidateFound then utf8 "public" else utf8 "srflx"
  address := address
  port := localPort

/-- **The candidates** are those of the host's addresses, of the mapped endpoints, and of the public
address, without repetition. -/
theorem gatherCandidates_eq {localPort : UInt16} {answer : Bytes → Option SocketEndpoint}
    (hanswer : ∀ stun, s.queryStunMappedEndpoint localPort stun = .ok (answer stun)) :
    s.gatherCandidates localPort =
      .ok (s.localIPv4Addresses.map (hostCandidate localPort) ++
        (s.configuredStunServers.filterMap answer).map mappedCandidate ++
        (s.queryPublicIPv4ViaHttps.map (publicCandidate localPort
          (!(s.configuredStunServers.filterMap answer).isEmpty))).toList).eraseDups := by
  have hadd : ∀ l : List Candidate, l.foldl addLocalCandidate [] = l.eraseDups := by
    intro l
    rw [Unique.foldl_eq (f := some) fun l c => addLocalCandidate_eq l c, List.filterMap_some]
  have hhosts : s.localIPv4Addresses.foldl (fun localCandidates address =>
      addLocalCandidate localCandidates { type := utf8 "host", address, port := localPort }) [] =
      (s.localIPv4Addresses.map (hostCandidate localPort)).foldl addLocalCandidate [] :=
    List.foldl_map.symm
  rw [gatherCandidates, hhosts]
  dsimp only
  rw [addMapped_eq hanswer, ok_bind, ← List.foldl_append]
  cases s.queryPublicIPv4ViaHttps with
  | none =>
    rw [Option.map_none, Option.toList_none, List.append_nil, ← hadd]
    dsimp only
    rfl
  | some publicAddress =>
    rw [Option.map_some, Option.toList_some, Unique.eraseDups_concat, ← addLocalCandidate_eq,
      ← hadd, Bool.false_or, publicCandidate]
    simp only [pure, Except.pure]

end Surroundings

end Net

end TarkovVoice

import TarkovVoice.Audio.VoiceEngine
import TarkovVoice.FMap
import TarkovVoice.Net.Json
import TarkovVoice.Net.Packet

/-!
# The direct transport

`DirectVoiceTransport::Impl` of `client/src/net/DirectVoiceTransport.cpp`: a route for each peer,
the signals that exchange candidates, and the datagrams that carry voice.

A call returns the new state and what it does to the outside: datagrams it sends, signals and
frames it passes to its callbacks, in order. The clock is read once for each call, and time is
counted in milliseconds; as in the source the value 0 of a time point means that it has not been
set. The socket is open exactly while the transport runs. Fields that only the log reads are left
out.

`std::map` keeps its keys in order, so a loop over `peers` visits them in the order of
`peersInOrder`.

## Main definitions

* `DirectVoiceTransport`, with `ensurePeer`, `removePeer`, `handleSignal`, `sendVoiceFrame`,
  `hasPeerConnection`, `pump`
-/

namespace TarkovVoice

namespace Net

open Audio (EncodedVoiceFrame)

/-- `SocketEndpoint`: an address as text, and a port. -/
structure SocketEndpoint where
  address : Bytes
  port : UInt16
  deriving DecidableEq

/-- `Candidate`: a place where a peer may be reached, and how it came to be known. -/
structure Candidate where
  type : Bytes
  address : Bytes
  port : UInt16
  deriving DecidableEq

/-- The types of signal. -/
inductive SignalType
  | iceOffer
  | iceAnswer
  | iceCandidate
  deriving DecidableEq

/-- `PeerRoute`: all that the transport remembers of a peer. Points of time are 0 as long as there
is none. -/
structure PeerRoute where
  candidates : List Candidate := []
  endpoints : List SocketEndpoint := []
  learnedEndpoint : Option SocketEndpoint := none
  offerSent : Bool := false
  answerSent : Bool := false
  candidateSignalsSent : ℕ := 0
  lastVoiceSequenceReceived : UInt32 := 0
  createdAt : ℕ
  lastPingSent : ℕ := 0
  lastHeard : ℕ := 0
  lastCandidateSignalSent : ℕ := 0
  hasLastVoiceSequenceReceived : Bool := false
  deriving DecidableEq

/-- `DirectVoiceTransport::Impl`, without the socket and the lock: what arrives at the socket is an
argument of `pump`, and what a call sends is part of its result. -/
structure DirectVoiceTransport where
  /-- Whether the callbacks are set. -/
  signalCallback : Bool := false
  frameCallback : Bool := false
  roomId : Bytes := []
  localPeerId : Bytes := []
  localCandidates : List Candidate := []
  peers : FMap Bytes PeerRoute := ∅
  running : Bool := false

/-- What a call does to the outside. Each call comes with the list of these, in the order they
happen. -/
inductive Output
  /-- `sendto` the endpoint. -/
  | datagram (endpoint : SocketEndpoint) (data : Bytes)
  /-- A call of `signalCallback`. -/
  | signal (targetPeerId : Bytes) (type : SignalType) (payloadJson : Bytes)
  /-- A call of `frameCallback`. -/
  | frame (frame : EncodedVoiceFrame)
  deriving DecidableEq

/-- A datagram that `recvfrom` returns, and where it came from, if `endpointFromSockaddr`
can tell. -/
structure Arrival where
  source : Option SocketEndpoint
  data : Bytes
  deriving DecidableEq

/-- `operator<` of `std::string`: the first byte that differs decides, and a proper beginning comes
first. -/
def bytesLt : Bytes → Bytes → Bool
  | _, [] => false
  | [], _ :: _ => true
  | a :: s, b :: t => a < b || (a == b && bytesLt s t)

namespace DirectVoiceTransport

variable (d : DirectVoiceTransport)

/-! ### Candidates as text -/

/-- One element of `makeLocalPayloadJson`. -/
def candidateJson (c : Candidate) : Bytes :=
  utf8 "\x7b\"type\":\"" ++ escapeJson c.type ++ utf8 "\",\"address\":\"" ++ escapeJson c.address ++
    utf8 "\",\"port\":" ++ decimal c.port.toNat ++ utf8 "\x7d"

/-- `makeLocalPayloadJson`. -/
def makeLocalPayloadJson : Bytes :=
  utf8 "\x7b\"version\":1,\"transport\":\"udp\",\"candidates\":[" ++
    ((d.localCandidates.map candidateJson).intersperse [comma]).flatten ++ utf8 "]\x7d"

/-- The port of a candidate: the number, clamped between 0 and 65535, converted to 16 bits. -/
def candidatePort : Number → UInt16
  | .finite q => if q < 0 then 0 else if 65535 < q then 65535 else UInt16.ofNat ⌊q⌋.toNat
  | .infinite negative => if negative then 0 else 65535
  | .nan => 0

/-- The body of `parseCandidates`'s loop. A candidate without an address or a port is left out; one
without a type is a host. -/
def parseCandidate (object : Bytes) : Option Candidate :=
  let candidate : Candidate :=
    { type := (extractJsonString object (utf8 "type")).getD (utf8 "host")
      address := (extractJsonString object (utf8 "address")).getD []
      port := candidatePort ((extractJsonNumber object (utf8 "port")).getD (.finite 0)) }
  if candidate.address ≠ [] ∧ candidate.port ≠ 0 then some candidate else none

/-- `parseCandidates`: what can be read of the list, in its order, and nothing where there is no
list. -/
def parseCandidates (payloadJson : Bytes) : List Candidate :=
  match extractBalancedValue payloadJson (utf8 "candidates") openBracket closeBracket with
  | some candidatesJson => (splitObjectArray candidatesJson).filterMap parseCandidate
  | none => []

/-- The endpoints `rebuildEndpoints` computes. `makeEndpoint` fails for an address that is not a
numeric one, which is what `isNumericHost` says. -/
def rebuildEndpoints (isNumericHost : Bytes → Bool) (candidates : List Candidate) :
    List SocketEndpoint :=
  candidates.foldl (fun endpoints c =>
    let endpoint : SocketEndpoint := { address := c.address, port := c.port }
    if isNumericHost c.address ∧ endpoint ∉ endpoints then endpoints ++ [endpoint]
    else endpoints) []

/-! ### Sending -/

/-- The endpoints that `sendPacket` sends to: the one that was learned, or else all that the peer
named. -/
def targets (route : PeerRoute) : List SocketEndpoint :=
  match route.learnedEndpoint with
  | some endpoint => [endpoint]
  | none => route.endpoints

/-- `sendPacket`. -/
def sendPacket (route : PeerRoute) (packet : Bytes) : List Output :=
  if packet = [] then [] else (targets route).map fun endpoint => .datagram endpoint packet

/-- The datagram of a ping. -/
def pingPacket : Bytes := encodePacket kPacketPing d.roomId d.localPeerId 0 0 []

/-- `sendPing`. -/
def sendPing (now : ℕ) (route : PeerRoute) : PeerRoute × List Output :=
  ({ route with lastPingSent := now }, sendPacket route d.pingPacket)

/-- The keys of `peers` in the order of the map. -/
def peersInOrder : List Bytes := d.peers.keys.mergeSort fun k k' => !bytesLt k' k

/-- The datagram of a frame. -/
def voicePacket (roomId localPeerId : Bytes) (frame : EncodedVoiceFrame) : Bytes :=
  encodePacket kPacketVoice roomId localPeerId frame.sequence frame.captureUnixMs frame.payload

/-- `sendVoiceFrame`: a datagram to each endpoint of each peer that has a route, in the order of the
peers' ids. -/
def sendVoiceFrame (frame : EncodedVoiceFrame) : List Output :=
  if d.running = false ∨ frame.payload = [] ∨ frame.payload.length > kMaxUdpPayloadBytes then []
  else
    d.peersInOrder.flatMap fun peerId =>
      match d.peers.get peerId with
      | some route => sendPacket route (voicePacket d.roomId d.localPeerId frame)
      | none => []

/-- `hasPeerConnection`: a packet of the peer has been read since its route was made. No such packet
is too old. -/
def hasPeerConnection (peerId : Bytes) : Bool :=
  match d.peers.get peerId with
  | some route => route.lastHeard ≠ 0
  | none => false

/-! ### Peers and signals -/

/-- The route `peers[peerId]`, created if there is none. -/
def route (now : ℕ) (peerId : Bytes) : PeerRoute :=
  (d.peers.get peerId).getD { createdAt := now }

/-- The state with a route replaced. -/
def setRoute (peerId : Bytes) (route : PeerRoute) : DirectVoiceTransport :=
  { d with peers := d.peers.put peerId route }

/-- `stop`. -/
def stop : DirectVoiceTransport :=
  { d with localCandidates := [], peers := ∅, running := false }

/-- `start`. What opening the socket and asking for addresses gives is `discovered`: nothing if
the transport is disabled or the socket fails. -/
def start (roomId localPeerId : Bytes) (discovered : Option (List Candidate)) :
    DirectVoiceTransport :=
  let d := { d.stop with roomId, localPeerId }
  if roomId = [] ∨ localPeerId = [] then d
  else
    match discovered with
    | some localCandidates => { d with localCandidates, running := true }
    | none => d

/-- `ensurePeer`. The route is made if there is none, its time is set anew, and an offer is sent if
this side is to make it and has not yet. -/
def ensurePeer (now : ℕ) (peerId : Bytes) (initiateOffer : Bool) :
    DirectVoiceTransport × List Output :=
  if d.running = false ∨ peerId = [] ∨ peerId = d.localPeerId then (d, [])
  else
    let route := { d.route now peerId with createdAt := now }
    if initiateOffer ∧ route.offerSent = false ∧ d.signalCallback = true then
      (d.setRoute peerId { route with offerSent := true },
        [.signal peerId .iceOffer d.makeLocalPayloadJson])
    else (d.setRoute peerId route, [])

/-- `removePeer`. -/
def removePeer (peerId : Bytes) : DirectVoiceTransport :=
  { d with peers := d.peers.delete peerId }

/-- `handleSignal`. The candidates that the peer names replace those it named before, an offer is
answered once, and the peer is pinged. -/
def handleSignal (isNumericHost : Bytes → Bool) (now : ℕ) (sourcePeerId : Bytes)
    (signalType : SignalType) (payloadJson : Bytes) : DirectVoiceTransport × List Output :=
  if d.running = false ∨ sourcePeerId = [] ∨ sourcePeerId = d.localPeerId then (d, [])
  else
    let route := d.route now sourcePeerId
    let route := if route.createdAt = 0 then { route with createdAt := now } else route
    let candidates := parseCandidates payloadJson
    let route :=
      { route with candidates, endpoints := rebuildEndpoints isNumericHost candidates }
    let answers := signalType = .iceOffer ∧ route.answerSent = false ∧ d.signalCallback = true
    let route := if answers then { route with answerSent := true } else route
    let (route, ping) := d.sendPing now route
    (d.setRoute sourcePeerId route,
      (if answers then [.signal sourcePeerId .iceAnswer d.makeLocalPayloadJson] else []) ++ ping)

/-! ### Receiving -/

/-- What a decoded packet of type `kPacketVoice` does to the route of its source. A sequence
number that does not exceed the last one is dropped. -/
def receiveVoice (route : PeerRoute) (packet : DecodedPacket) : PeerRoute × List Output :=
  if route.hasLastVoiceSequenceReceived = true ∧
      packet.sequence ≤ route.lastVoiceSequenceReceived then (route, [])
  else
    ({ route with
        hasLastVoiceSequenceReceived := true
        lastVoiceSequenceReceived := packet.sequence },
      [.frame
        { sourcePeerId := packet.sourcePeerId
          sequence := packet.sequence
          captureUnixMs := packet.captureUnixMs
          payload := packet.payload }])

/-- A packet of another peer in the same room: its route is heard, and learns where from. -/
def receivePacket (now : ℕ) (source : Option SocketEndpoint) (packet : DecodedPacket) :
    DirectVoiceTransport × List Output :=
  let route := d.route now packet.sourcePeerId
  let route :=
    { route with
      learnedEndpoint := source.orElse fun _ => route.learnedEndpoint
      lastHeard := now }
  let (route, out) :=
    if packet.type = kPacketVoice ∧ d.frameCallback = true then receiveVoice route packet
    else (route, [])
  (d.setRoute packet.sourcePeerId route, out)

/-- The body of `drainSocket`'s loop, for a datagram that was read. Packets of other rooms, of
nobody and of oneself are ignored. -/
def receive (now : ℕ) (a : Arrival) : DirectVoiceTransport × List Output :=
  match decodePacket a.data a.data.length with
  | .ok packet =>
    if packet.roomId ≠ d.roomId ∨ packet.sourcePeerId = [] ∨
        packet.sourcePeerId = d.localPeerId then
      (d, [])
    else d.receivePacket now a.source packet
  | .error _ => (d, [])

/-- `drainSocket`, on the datagrams that have arrived. A datagram that is larger than the buffer
is an error, which ends the loop: the third component is what stays in the socket. -/
def drainSocket (now : ℕ) :
    DirectVoiceTransport → List Arrival → DirectVoiceTransport × List Output × List Arrival
  | d, [] => (d, [], [])
  | d, a :: arrivals =>
    if a.data.length > 1500 then (d, [], arrivals)
    else
      let (d, out) := d.receive now a
      let (d, rest, left) := drainSocket now d arrivals
      (d, out ++ rest, left)

/-! ### `pump` -/

/-- The body of `pump`'s loop over the peers: a ping if the last one is too long ago, and the
candidates again if the peer has not been heard. -/
def pumpRoute (now : ℕ) (peerId : Bytes) (route : PeerRoute) : PeerRoute × List Output :=
  let (route, ping) :=
    if now - route.lastPingSent > 750 then d.sendPing now route else (route, [])
  if d.signalCallback = true ∧ route.lastHeard = 0 ∧ route.candidateSignalsSent < 8 ∧
      now - route.createdAt > 2000 ∧
      (route.lastCandidateSignalSent = 0 ∨ now - route.lastCandidateSignalSent > 3000) then
    ({ route with
        lastCandidateSignalSent := now
        candidateSignalsSent := route.candidateSignalsSent + 1 },
      ping ++ [.signal peerId .iceCandidate d.makeLocalPayloadJson])
  else (route, ping)

/-- The loop over the peers. No turn of it adds or removes a route, so it can run over their ids. -/
def pumpRoutes (now : ℕ) : DirectVoiceTransport → List Bytes → DirectVoiceTransport × List Output
  | d, [] => (d, [])
  | d, peerId :: peerIds =>
    match d.peers.get peerId with
    | some route =>
      let (route, out) := d.pumpRoute now peerId route
      let (d, rest) := pumpRoutes now (d.setRoute peerId route) peerIds
      (d, out ++ rest)
    | none => pumpRoutes now d peerIds

/-- `pump`, on the datagrams that have arrived, with those that stay in the socket. First all of
them are read, then all routes are looked after. -/
def pump (now : ℕ) (arrivals : List Arrival) :
    DirectVoiceTransport × List Output × List Arrival :=
  if d.running = false then (d, [], arrivals)
  else
    let (d, out, left) := drainSocket now d arrivals
    let (d, rest) := pumpRoutes now d d.peersInOrder
    (d, out ++ rest, left)

end DirectVoiceTransport

end Net

end TarkovVoice

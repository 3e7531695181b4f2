import TarkovVoice.Client.Application
import TarkovVoice.Net.Base64

/-!
# The signaling client

`SignalingClient` of `client/src/net/SignalingClient.cpp`: the texts it sends to the coordinator,
what it makes of the texts it receives, and the calls that wait for an answer.

Such a call is two steps here: what it does before it sends its request, and what it does when its
wait ends. The receiving thread may handle messages before, between and after the two. The
connection itself is left out: `connect` and `disconnect`, and the sockets below them.

A level that is not a number counts as 0. The spectrum of a status is left out.

## Main definitions

* `SignalingClient`, with `handleServerMessage` and the two halves of `joinRoom` and `createRoom`
* `sendIce`, `sendVoiceFrame`, `joinRoomText`, `createRoomText` — what is sent
* `Event.toSignalingEvent` — the branch of `handleSignalingEvent` that an event takes
-/

namespace TarkovVoice

namespace Client

open Net
open Audio (EncodedVoiceFrame)

/-! ### Messages and events -/

/-- `IceMessage`. -/
structure IceMessage where
  roomId : Bytes := []
  sourcePeerId : Bytes := []
  targetPeerId : Bytes := []
  type : Bytes := []
  payloadJson : Bytes := []
  deriving DecidableEq

/-- `JoinRoomRequest`. -/
structure JoinRoomRequest where
  roomId : Bytes
  nick : Bytes
  publicKey : Bytes := []
  passwordProof : Bytes := []
  deriving DecidableEq

/-- `CreateRoomRequest`. -/
structure CreateRoomRequest where
  roomName : Bytes
  hostNick : Bytes
  locked : Bool := false
  deriving DecidableEq

/-- `SignalingEvent`, as it is queued: one record for all types, of which each type fills its own
part. -/
structure Event where
  type : Bytes
  room : RoomInfo := .empty
  peer : PeerStatus
  ice : IceMessage := {}
  voiceFrame : EncodedVoiceFrame := { payload := [] }
  error : Bytes := []
  deriving DecidableEq

/-- The type of a signal, as text. -/
def signalTypeText : SignalType → Bytes
  | .iceOffer => utf8 "ice_offer"
  | .iceAnswer => utf8 "ice_answer"
  | .iceCandidate => utf8 "ice_candidate"

/-- The branch of `handleSignalingEvent` that an event takes, if there is one. Events of other types
change nothing. -/
def Event.toSignalingEvent (event : Event) : Option SignalingEvent :=
  if event.type = utf8 "joined_room" then some (.joinedRoom event.room)
  else if event.type = utf8 "peer_status" then some (.peerStatus event.peer)
  else if event.type = utf8 "peer_joined" then some (.peerJoined event.peer)
  else if event.type = utf8 "ice_offer" then
    some (.ice event.ice.sourcePeerId .iceOffer event.ice.payloadJson)
  else if event.type = utf8 "ice_answer" then
    some (.ice event.ice.sourcePeerId .iceAnswer event.ice.payloadJson)
  else if event.type = utf8 "ice_candidate" then
    some (.ice event.ice.sourcePeerId .iceCandidate event.ice.payloadJson)
  else if event.type = utf8 "voice_frame" then some (.voiceFrame event.voiceFrame)
  else if event.type = utf8 "peer_left" then some (.peerLeft event.peer.id)
  else if event.type = utf8 "room_closed" then some .roomClosed
  else none

/-- `SignalingClient`, as far as messages and the waiting calls go. The handles of WinHTTP and the
mutexes are left out; each function here is what one thread does under the lock. -/
structure SignalingClient where
  connected : Bool := false
  peerId : Bytes := []
  events : List Event := []
  rooms : List RoomInfo := []
  currentRoomId : Option Bytes := none
  pendingCreatedRoom : Option RoomInfo := none
  pendingJoinedRoom : Option RoomInfo := none
  pendingError : Option Bytes := none
  receivedHello : Bool := false
  receivedRooms : Bool := false
  deriving DecidableEq

/-! ### What is sent -/

/-- An integer, as a stream writes it. -/
def integer : ℤ → Bytes
  | .ofNat n => decimal n
  | .negSucc n => 45 :: decimal (n + 1)

/-- `makeRoomPayload`. The coordinator takes the name and the lock of it and makes all else
itself. -/
def makeRoomPayload (nowUnixMs : ℤ) (request : CreateRoomRequest) : Bytes :=
  utf8 "\x7b\"id\":\"\",\"name\":\"" ++ escapeJson request.roomName ++
    utf8 "\",\"hostPeerId\":\"\",\"hostNick\":\"" ++ escapeJson request.hostNick ++
    utf8 "\",\"peerCount\":1,\"maxPeers\":" ++ decimal kMaxPeersPerRoom ++
    utf8 ",\"locked\":" ++ (if request.locked then utf8 "true" else utf8 "false") ++
    utf8 ",\"lanOnly\":false,\"createdAtUnixMs\":" ++ integer nowUnixMs ++ utf8 "\x7d"

/-- The text `connect` sends. -/
def helloText (nick : Bytes) : Bytes :=
  utf8 "\x7b\"type\":\"hello\",\"nick\":\"" ++ escapeJson nick ++ utf8 "\"\x7d"

/-- The text `createRoom` sends. -/
def createRoomText (nowUnixMs : ℤ) (request : CreateRoomRequest) : Bytes :=
  utf8 "\x7b\"type\":\"create_room\",\"nick\":\"" ++ escapeJson request.hostNick ++
    utf8 "\",\"room\":" ++ makeRoomPayload nowUnixMs request ++ utf8 "\x7d"

/-- The text `joinRoom` sends. -/
def joinRoomText (request : JoinRoomRequest) : Bytes :=
  utf8 "\x7b\"type\":\"join_room\",\"roomId\":\"" ++ escapeJson request.roomId ++
    utf8 "\",\"nick\":\"" ++ escapeJson request.nick ++
    utf8 "\",\"payload\":\x7b\"passwordProof\":\"" ++ escapeJson request.passwordProof ++
    utf8 "\",\"publicKey\":\"" ++ escapeJson request.publicKey ++ utf8 "\"\x7d\x7d"

/-- The text of an `IceMessage`. -/
def iceText (message : IceMessage) : Bytes :=
  utf8 "\x7b\"type\":\"" ++ escapeJson message.type ++
    utf8 "\",\"roomId\":\"" ++ escapeJson message.roomId ++
    utf8 "\",\"targetPeerId\":\"" ++ escapeJson message.targetPeerId ++
    utf8 "\",\"payload\":" ++
    (if message.payloadJson = [] then utf8 "\x7b\x7d" else message.payloadJson) ++ utf8 "\x7d"

/-- The payload of a frame that is relayed. -/
def voicePayload (frame : EncodedVoiceFrame) : Bytes :=
  utf8 "\x7b\"sequence\":" ++ decimal frame.sequence.toNat ++
    utf8 ",\"captureUnixMs\":" ++ integer frame.captureUnixMs.toInt ++
    utf8 ",\"audio\":\"" ++ base64Encode frame.payload ++ utf8 "\"\x7d"

/-- The text of a frame that is relayed. -/
def voiceText (roomId : Bytes) (frame : EncodedVoiceFrame) : Bytes :=
  utf8 "\x7b\"type\":\"voice_frame\",\"roomId\":\"" ++ escapeJson roomId ++
    utf8 "\",\"payload\":" ++ voicePayload frame ++ utf8 "\x7d"

/-! ### What is received -/

/-- A level, clamped between 0 and 1. -/
def clampLevel : Number → ℚ
  | .finite q => max 0 (min q 1)
  | .infinite negative => if negative then 0 else 1
  | .nan => 0

/-- `parsePeerStatus`. What is missing has a default, and without a payload the members are looked
for in the whole message. -/
def parsePeerStatus (now : ℕ) (envelope : Bytes) : PeerStatus :=
  let data :=
    (extractBalancedValue envelope (utf8 "payload") openBrace closeBrace).getD envelope
  let iconIndex := ((extractJsonNumber data (utf8 "iconIndex")).getD (.finite 0)).truncate
  let muted := (extractJsonBool data (utf8 "muted")).getD false
  let micLevel := clampLevel ((extractJsonNumber data (utf8 "micLevel")).getD (.finite 0))
  let speaking := (extractJsonBool data (utf8 "speaking")).getD (decide (micLevel > 4 / 100))
  { id := (extractJsonString envelope (utf8 "peerId")).getD []
    nick := (extractJsonString envelope (utf8 "nick")).getD (utf8 "Player")
    iconIndex := max 0 (min iconIndex 4)
    mediaState := VoiceSession.mediaStateOf muted speaking
    muted
    speaking
    micLevel
    lastSeen := now }

/-- The frame `handleServerMessage` reads in a `voice_frame` message. The peer id is the message's,
the rest is in the payload. -/
def voiceFrameOfMessage (text : Bytes) : EncodedVoiceFrame :=
  let payloadJson :=
    (extractBalancedValue text (utf8 "payload") openBrace closeBrace).getD (utf8 "\x7b\x7d")
  let sequence := ((extractJsonNumber payloadJson (utf8 "sequence")).getD (.finite 0)).max 0
  let captureUnixMs :=
    ((extractJsonNumber payloadJson (utf8 "captureUnixMs")).getD (.finite 0)).max 0
  { sourcePeerId := (extractJsonString text (utf8 "peerId")).getD []
    sequence := UInt32.ofNat sequence.truncate.toNat
    captureUnixMs := Int64.ofInt captureUnixMs.truncate
    payload := ((extractJsonString payloadJson (utf8 "audio")).bind base64Decode).getD [] }

/-- The message `handleServerMessage` reads in an `ice_*` message. Its payload stays the text
it is. -/
def iceOfMessage (type text : Bytes) : IceMessage where
  roomId := (extractJsonString text (utf8 "roomId")).getD []
  sourcePeerId := (extractJsonString text (utf8 "peerId")).getD []
  targetPeerId := (extractJsonString text (utf8 "targetPeerId")).getD []
  type := type
  payloadJson :=
    (extractBalancedValue text (utf8 "payload") openBrace closeBrace).getD (utf8 "\x7b\x7d")

namespace SignalingClient

variable (c : SignalingClient)

/-- `queueEvent`. -/
def queueEvent (event : Event) : SignalingClient := { c with events := c.events ++ [event] }

/-- `handleServerMessage`: one text of the server, by its type, which is looked for in the whole
text. Of types that are not known nothing comes. -/
def handleServerMessage (now : ℕ) (text : Bytes) : SignalingClient :=
  let type := (extractJsonString text (utf8 "type")).getD []
  let event : Event := { type, peer := { lastSeen := now } }
  if type = [] then c
  else if type = utf8 "hello" then
    let serverPeerId := (extractJsonString text (utf8 "peerId")).getD []
    { c with
      peerId := if serverPeerId = [] then c.peerId else serverPeerId
      receivedHello := true }.queueEvent { event with type := utf8 "connected" }
  else if type = utf8 "rooms" then { c with rooms := parseRooms text, receivedRooms := true }
  else if type = utf8 "room_created" ∨ type = utf8 "joined_room" then
    match roomOfMessage text with
    | some room =>
      let c := { c with currentRoomId := some room.id }
      let c :=
        if type = utf8 "room_created" then { c with pendingCreatedRoom := some room }
        else { c with pendingJoinedRoom := some room }
      c.queueEvent { event with room }
    | none => c
  else if type = utf8 "peer_status" ∨ type = utf8 "peer_joined" ∨ type = utf8 "peer_left" then
    let peer := parsePeerStatus now text
    let peer :=
      if peer.id = [] then { peer with id := (extractJsonString text (utf8 "peerId")).getD [] }
      else peer
    c.queueEvent { event with peer }
  else if type = utf8 "ice_offer" ∨ type = utf8 "ice_answer" ∨ type = utf8 "ice_candidate" then
    c.queueEvent { event with ice := iceOfMessage type text }
  else if type = utf8 "voice_frame" then
    let voiceFrame := voiceFrameOfMessage text
    if voiceFrame.sourcePeerId ≠ [] ∧ voiceFrame.payload ≠ [] then
      c.queueEvent { event with voiceFrame }
    else c
  else if type = utf8 "room_closed" then
    c.queueEvent
      { event with
        room := { RoomInfo.empty with id := (extractJsonString text (utf8 "roomId")).getD [] } }
  else if type = utf8 "error" then
    let error := (extractJsonString text (utf8 "error")).getD (utf8 "signaling error")
    { c with pendingError := some error }.queueEvent { event with error }
  else c

/-! ### Calls -/

/-- `sendText`, with what it returns. The socket takes the text or does not; if not, an error is
queued, and the client stays connected. -/
def sendText (now : ℕ) (taken : Bool) : SignalingClient × Bool :=
  if c.connected = false then (c, false)
  else if taken then (c, true)
  else
    (c.queueEvent
      { type := utf8 "error", peer := { lastSeen := now }
        error := utf8 "websocket send failed" }, false)

/-- The text `sendIce` sends, if it sends one. -/
def sendIce (message : IceMessage) : Option Bytes :=
  if c.connected then some (iceText message) else none

/-- The text `sendVoiceFrame` sends, if it sends one. -/
def sendVoiceFrame (roomId : Bytes) (frame : EncodedVoiceFrame) : Option Bytes :=
  if c.connected = false ∨ roomId = [] ∨ frame.payload = [] then none
  else some (voiceText roomId frame)

/-- `joinRoom` before it sends its request. -/
def beginJoin : SignalingClient := { c with pendingJoinedRoom := none, pendingError := none }

/-- `joinRoom` after its wait, with what it returns. It has succeeded if an answer is there,
whichever room that is about. -/
def finishJoin : SignalingClient × Bool :=
  match c.pendingJoinedRoom with
  | none => (c, false)
  | some room => ({ c with currentRoomId := some room.id, pendingJoinedRoom := none }, true)

/-- `createRoom` before it sends its request. -/
def beginCreate : SignalingClient := { c with pendingCreatedRoom := none, pendingError := none }

/-- `createRoom` after its wait, with what it returns: the room of the answer, if there is one. -/
def finishCreate : SignalingClient × Option RoomInfo :=
  match c.pendingCreatedRoom with
  | none => (c, none)
  | some room =>
    ({ c with currentRoomId := some room.id, pendingCreatedRoom := none }, some room)

/-- `leaveRoom`. -/
def leaveRoom : SignalingClient := { c with currentRoomId := none }

/-- `pump`: the events that are passed to the callback, in order. -/
def pump : SignalingClient × List Event := ({ c with events := [] }, c.events)

end SignalingClient

end Client

end TarkovVoice

import TarkovVoice.Net.Json

/-!
# Rooms as the client reads them

`parseRoom` and `parseRooms` of `client/src/net/SignalingClient.cpp`, and the branches of
`handleServerMessage` that call them.

## Main definitions

* `RoomInfo`, `parseRoom`, `parseRooms`
* `roomOfMessage` — the room of a `room_created` or `joined_room` message
-/

namespace TarkovVoice

namespace Net

/-- `kMaxPeersPerRoom`. -/
def kMaxPeersPerRoom : ℕ := 5

structure RoomInfo where
  id : Bytes
  name : Bytes
  hostPeerId : Bytes
  hostNick : Bytes
  peerCount : ℕ
  maxPeers : ℕ
  locked : Bool
  lanOnly : Bool
  createdAtUnixMs : ℤ
  peerIds : List Bytes
  deriving DecidableEq

/-- A `RoomInfo` without values. -/
def RoomInfo.empty : RoomInfo where
  id := []
  name := []
  hostPeerId := []
  hostNick := []
  peerCount := 0
  maxPeers := kMaxPeersPerRoom
  locked := false
  lanOnly := false
  createdAtUnixMs := 0
  peerIds := []

/-- `parseRoom`: each member is looked for by itself, and one that is missing has a default. Where a
key leads may be inside of another value, a name for instance. -/
def parseRoom (json : Bytes) : RoomInfo where
  id := (extractJsonString json (utf8 "id")).getD []
  name := (extractJsonString json (utf8 "name")).getD (utf8 "Squad room")
  hostPeerId := (extractJsonString json (utf8 "hostPeerId")).getD []
  hostNick := (extractJsonString json (utf8 "hostNick")).getD []
  peerCount :=
    (((extractJsonNumber json (utf8 "peerCount")).getD (.finite 0)).max 0).truncate.toNat
  maxPeers :=
    let maxPeers := (((extractJsonNumber json (utf8 "maxPeers")).getD
      (.finite kMaxPeersPerRoom)).max 1).truncate.toNat
    if maxPeers = 0 ∨ maxPeers > kMaxPeersPerRoom then kMaxPeersPerRoom else maxPeers
  locked := (extractJsonBool json (utf8 "locked")).getD false
  lanOnly := (extractJsonBool json (utf8 "lanOnly")).getD false
  createdAtUnixMs :=
    ((extractJsonNumber json (utf8 "createdAtUnixMs")).getD (.finite 0)).truncate
  peerIds := parseStringArray json (utf8 "peers")

/-- `parseRooms`: the objects of the list, in order, but for those without an id. A text without a
list, or with one that is never closed, has no rooms. -/
def parseRooms (json : Bytes) : List RoomInfo :=
  match extractBalancedValue json (utf8 "rooms") openBracket closeBracket with
  | some roomsJson =>
    ((splitObjectArray roomsJson).map parseRoom).filter fun room => !room.id.isEmpty
  | none => []

/-- What `handleServerMessage` takes from a `room_created` or `joined_room` message. Without a
closed object there is no room, and the message is ignored. -/
def roomOfMessage (text : Bytes) : Option RoomInfo :=
  (extractBalancedValue text (utf8 "room") openBrace closeBrace).map parseRoom

end Net

end TarkovVoice

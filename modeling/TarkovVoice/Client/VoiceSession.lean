import Mathlib.Algebra.Order.Field.Rat
import TarkovVoice.FMap
import TarkovVoice.Net.Rooms

/-!
# The voice session

`VoiceSession` of `client/src/core/VoiceSession.cpp`: the room a client is in and the participants
it shows. Levels are rationals where the code has a `float`, times are milliseconds, and the
spectrum, which only the overlay draws, is left out.

## Main definitions

* `PeerStatus`, `VoiceSession`
* `VoiceSession.addOrUpdatePeer`, `setLocalMuted`, `tick` and the other operations
-/

namespace TarkovVoice

namespace Client

open Net (Bytes RoomInfo kMaxPeersPerRoom)

/-- `PeerMediaState`. -/
inductive PeerMediaState
  | silent
  | speaking
  | muted
  | disconnected
  deriving DecidableEq

/-- `PeerStatus`. -/
structure PeerStatus where
  id : Bytes := []
  nick : Bytes := []
  iconIndex : ℤ := 0
  mediaState : PeerMediaState := .disconnected
  muted : Bool := false
  speaking : Bool := false
  micLevel : ℚ := 0
  latencyMs : ℤ := 0
  lastSeen : ℕ
  deriving DecidableEq

/-- `VoiceSession`. -/
structure VoiceSession where
  room : Option RoomInfo := none
  localPeer : PeerStatus
  peers : FMap Bytes PeerStatus := ∅

namespace VoiceSession

variable (s : VoiceSession) (now : ℕ)

/-- The local participant of a room just entered. -/
def newLocalPeer (localPeerId localNick : Bytes) : PeerStatus :=
  { id := localPeerId, nick := localNick, mediaState := .silent, lastSeen := now }

/-- `createRoom`. A room without a limit, or with a greater one than the program's, gets the
program's. -/
def createRoom (room : RoomInfo) (localPeerId localNick : Bytes) : VoiceSession :=
  { room := some
      { room with
        maxPeers :=
          if room.maxPeers = 0 ∨ room.maxPeers > kMaxPeersPerRoom then kMaxPeersPerRoom
          else room.maxPeers
        peerCount := 1
        hostPeerId := localPeerId
        hostNick := localNick }
    peers := ∅
    localPeer := newLocalPeer now localPeerId localNick }

/-- `joinRoom`, which fails when the room is full. It starts with oneself alone, whatever members
the room has, but counts one more. -/
def joinRoom (room : RoomInfo) (localPeerId localNick : Bytes) : Option VoiceSession :=
  if room.peerCount ≥ room.maxPeers then none
  else some
    { room := some { room with peerCount := room.peerCount + 1 }
      peers := ∅
      localPeer := newLocalPeer now localPeerId localNick }

/-- `leaveRoom`. The session starts anew: no room, nobody in it, and oneself unmuted and without an
id. -/
def leaveRoom : VoiceSession := { room := none, peers := ∅, localPeer := { lastSeen := now } }

/-- `peers`, in no particular order but for the local participant, who comes first. -/
def participants : List PeerStatus :=
  (if s.localPeer.id = [] then [] else [s.localPeer]) ++ s.peers.entries.map Prod.snd

/-- The media state of a participant that is connected. Being muted is shown in preference to
speaking. -/
def mediaStateOf (muted speaking : Bool) : PeerMediaState :=
  if muted then .muted else if speaking then .speaking else .silent

/-- `addOrUpdatePeer`, for anybody but oneself. The room's count follows the participants, but not
above its limit. -/
def addOrUpdatePeer (peer : PeerStatus) : VoiceSession :=
  if peer.id = [] ∨ peer.id = s.localPeer.id then s
  else
    let peers := s.peers.put peer.id
      { peer with lastSeen := now, mediaState := mediaStateOf peer.muted peer.speaking }
    { s with
      peers
      room := s.room.map fun room =>
        { room with peerCount := min room.maxPeers (peers.len + 1) } }

/-- `removePeer`. The room's count becomes that of the participants, whatever the capacity. -/
def removePeer (peerId : Bytes) : VoiceSession :=
  let peers := s.peers.delete peerId
  { s with peers, room := s.room.map fun room => { room with peerCount := peers.len + 1 } }

/-- What `setLocalMuted` and `markPeerMuted` do to a participant. Being unmuted leaves the level
that was shown. -/
def withMuted (peer : PeerStatus) (muted : Bool) : PeerStatus :=
  { peer with
    muted
    speaking := false
    micLevel := if muted then 0 else peer.micLevel
    mediaState := if muted then .muted else .silent
    lastSeen := now }

/-- `setLocalMuted`. -/
def setLocalMuted (muted : Bool) : VoiceSession :=
  { s with localPeer := withMuted now s.localPeer muted }

/-- `toggleLocalMute`. -/
def toggleLocalMute : VoiceSession := s.setLocalMuted now !s.localPeer.muted

/-- `setLocalIcon`. -/
def setLocalIcon (iconIndex : ℤ) : VoiceSession :=
  { s with localPeer :=
      { s.localPeer with iconIndex := max 0 (min iconIndex 4), lastSeen := now } }

/-- `setLocalMicLevel`. While muted there is no level and no speaking, whatever the
microphone says. -/
def setLocalMicLevel (level : ℚ) : VoiceSession :=
  let level := max 0 (min level 1)
  let speaking := !s.localPeer.muted && decide (level > 4 / 100)
  { s with localPeer :=
      { s.localPeer with
        micLevel := if s.localPeer.muted then 0 else level
        speaking
        mediaState := mediaStateOf s.localPeer.muted speaking
        lastSeen := now } }

/-- `setLocalSpectrum`, without the spectrum. -/
def setLocalSpectrum : VoiceSession :=
  { s with localPeer := { s.localPeer with lastSeen := now } }

/-- The session with the status of a participant changed, if there is one of that id, and as it is
otherwise. -/
def updatePeer (peerId : Bytes) (f : PeerStatus → PeerStatus) : VoiceSession :=
  match s.peers.get peerId with
  | some peer => { s with peers := s.peers.put peerId (f peer) }
  | none => s

/-- `markPeerSpeaking`. The level is clamped and shown even for a participant that is muted; only
the flag is not. -/
def markPeerSpeaking (peerId : Bytes) (level : ℚ) (latencyMs : ℤ) : VoiceSession :=
  s.updatePeer peerId fun peer =>
    let micLevel := max 0 (min level 1)
    let speaking := !peer.muted && decide (micLevel > 4 / 100)
    { peer with
      micLevel
      speaking
      mediaState := mediaStateOf peer.muted speaking
      latencyMs
      lastSeen := now }

/-- `markPeerMuted`. -/
def markPeerMuted (peerId : Bytes) (muted : Bool) : VoiceSession :=
  s.updatePeer peerId fun peer => withMuted now peer muted

/-- What `tick` does to a participant: after eight seconds without a word it counts as disconnected,
and a level fades while nothing is said. -/
def tickPeer (peer : PeerStatus) : PeerStatus :=
  if now - peer.lastSeen > 8000 then
    { peer with mediaState := .disconnected, speaking := false, micLevel := 0 }
  else if !peer.muted && !peer.speaking then
    { peer with micLevel := max 0 (peer.micLevel * (85 / 100)) }
  else peer

/-- `tick`: one participant after the other. Oneself is left as it is. -/
def tick : VoiceSession :=
  s.peers.keys.foldl (fun s peerId => s.updatePeer peerId (tickPeer now)) s

/-! ### The room -/

variable {s now}

/-- Changing the status of a participant leaves the room as it is. -/
theorem room_updatePeer (peerId : Bytes) (f : PeerStatus → PeerStatus) :
    (s.updatePeer peerId f).room = s.room := by
  rw [updatePeer]
  split <;> rfl

variable (s now)

theorem room_markPeerSpeaking (peerId : Bytes) (level : ℚ) (latencyMs : ℤ) :
    (s.markPeerSpeaking now peerId level latencyMs).room.map RoomInfo.id =
      s.room.map RoomInfo.id :=
  congrArg (Option.map RoomInfo.id) (room_updatePeer peerId _)

/-- A participant more or less changes only the count of the room. -/
theorem room_addOrUpdatePeer (peer : PeerStatus) :
    (s.addOrUpdatePeer now peer).room.map RoomInfo.id = s.room.map RoomInfo.id := by
  rw [addOrUpdatePeer]
  split
  · rfl
  · dsimp only
    rw [Option.map_map]
    rfl

theorem room_removePeer (peerId : Bytes) :
    (s.removePeer peerId).room.map RoomInfo.id = s.room.map RoomInfo.id := by
  rw [removePeer, Option.map_map]
  rfl

end VoiceSession

end Client

end TarkovVoice

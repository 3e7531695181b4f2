import TarkovVoice.Audio.Gate
import TarkovVoice.Client.Effects
import TarkovVoice.Client.SessionRuns
import TarkovVoice.Client.SignalingClient

/-!
# The two copies of the mute flag

Whether the microphone is muted is kept twice: by the voice engine, which acts on it, and by the
session, which shows it. The main loop of `Application::run` keeps the two together where it
toggles the flag and where it restarts the engine. When the room is closed, `leaveRoom` resets the
session's copy and nothing resets the other.

## Main definitions

* `MainLoop.machine` — runs of the main loop after start-up
* `MainLoop.InStep` — both copies say the same

## Main results

* `MainLoop.inStep_next_iff` — one step
* `MainLoop.inStep_iff` — runs
* `MainLoop.muted_and_shown_unmuted`
-/

namespace TarkovVoice

namespace Client

namespace MainLoop

open Net (Arrival Bytes RoomInfo)
open Audio (AudioSettings Platform VoiceEngine)

/-- What the main loop does, and what the device does meanwhile. The events of the signaling client
are of any type and may say anything. -/
inductive Action (α : Type*)
  | record (i : Fin 4) (samples : List α)
  | complete (i : Fin 4)
  /-- The mute hotkey. -/
  | muteHotkey (now : ℕ)
  | applyAudioSettings (now : ℕ) (audioSettings : AudioSettings)
  /-- An event of the signaling client, of any type. -/
  | signalingEvent (now : ℕ) (event : Event)
  | pumpDirectVoice (now : ℕ) (arrivals : List Arrival)
  | setPushToTalkActive (active : Bool)
  /-- `voice_.pump`, with the push-to-talk key up or down when the metrics are reported. -/
  | pumpVoice (now : ℕ) (isKeyDown : Bool)
  | tick (now : ℕ)

section Machine

variable {α β : Type*} (env : Platform α β) (isNumericHost : Bytes → Bool)

/-- The metrics callback: the session shows the engine's level, but 0 while push-to-talk is on and
its key is up. -/
def showMetrics (now : ℕ) (isKeyDown : Bool) (app : Application α β) : Application α β :=
  let pushToTalkHeld := !app.voice.settings.pushToTalk || isKeyDown
  let level := if pushToTalkHeld then app.voice.metrics.micLevel else 0
  { app with session := (app.session.setLocalMicLevel now level).setLocalSpectrum now }

/-- What an action does. -/
def next (app : Application α β) : Action α → Application α β
  | .record i samples => { app with voice := app.voice.record i samples }
  | .complete i => { app with voice := app.voice.complete i }
  | .muteHotkey now => app.toggleMute now
  | .applyAudioSettings now audioSettings => app.applyAudioSettings env now audioSettings
  | .signalingEvent now event =>
    match event.toSignalingEvent with
    | some event => (app.handleSignalingEvent isNumericHost now event).1
    | none => app
  | .pumpDirectVoice now arrivals => (app.pumpDirectVoice now arrivals).1
  | .setPushToTalkActive active => { app with voice := app.voice.setPushToTalkActive active }
  | .pumpVoice now isKeyDown =>
    let app := (app.pumpVoice env now).1
    if app.voice.running then showMetrics now isKeyDown app else app
  | .tick now => { app with session := app.session.tick now }

/-- The engine has just been started, and the session has entered a room, which it created or
joined. Both show the microphone as unmuted then. -/
structure StartedUp (app : Application α β) : Prop where
  voice : ∃ (engine : VoiceEngine α β) (now : ℕ), app.voice = engine.start env now
  session : ∃ (now now' : ℕ) (room : RoomInfo) (localPeerId localNick : Bytes) (iconIndex : ℤ)
    (s : VoiceSession), app.session = s.setLocalIcon now' iconIndex ∧
      (s = VoiceSession.createRoom now room localPeerId localNick ∨
        VoiceSession.joinRoom now room localPeerId localNick = some s)

/-- The runs of the main loop. -/
def machine : Machine (Application α β) (Action α) :=
  .ofNext (StartedUp env) (fun _ _ => True) (next env isNumericHost)

end Machine

variable {α β : Type*} {env : Platform α β} {isNumericHost : Bytes → Bool}
  {app app' app'' : Application α β}

/-- The engine is muted exactly if the session shows it. The flag is kept twice, and `toggleMute`
copies it from the session to the engine. -/
def InStep (app : Application α β) : Prop :=
  app.voice.metrics.muted = app.session.localPeer.muted

/-- The room is closed only while the microphone is not muted. When it is closed, the session starts
anew, unmuted, and the engine is not told. -/
def ClosedUnmuted (app : Application α β) : Action α → Prop
  | .signalingEvent _ event =>
    event.toSignalingEvent = some .roomClosed → app.session.localPeer.muted = false
  | _ => True

/-! ### What leaves both copies alone -/

/-- Neither copy of the flag changes. -/
structure SameFlags (app app' : Application α β) : Prop where
  voice : app'.voice.metrics.muted = app.voice.metrics.muted
  session : app'.session.localPeer.muted = app.session.localPeer.muted

theorem SameFlags.trans (h : SameFlags app app') (h' : SameFlags app' app'') :
    SameFlags app app'' :=
  ⟨h'.voice.trans h.voice, h'.session.trans h.session⟩

theorem SameFlags.inStep_congr (h : SameFlags app app') : InStep app' ↔ InStep app := by
  rw [InStep, InStep, h.voice, h.session]

theorem sameFlags_of_voice (hvoice : app'.voice = app.voice)
    (hlocal : app'.session.localPeer = app.session.localPeer) : SameFlags app app' :=
  ⟨congrArg (fun v => v.metrics.muted) hvoice, congrArg PeerStatus.muted hlocal⟩

theorem sameFlags_callback (now : ℕ) (o : Net.Output) :
    SameFlags app (app.callback now o).1 := by
  cases o with
  | datagram endpoint data => exact ⟨rfl, rfl⟩
  | signal targetPeerId type payloadJson =>
    rw [Application.callback]
    split <;> exact ⟨rfl, rfl⟩
  | frame frame =>
    exact sameFlags_of_voice rfl (VoiceSession.localPeer_updatePeer frame.sourcePeerId _)

theorem sameFlags_callbacks (now : ℕ) (out : List Net.Output) :
    ∀ app : Application α β, SameFlags app (Application.callbacks now app out).1 := by
  induction out with
  | nil => exact fun _ => ⟨rfl, rfl⟩
  | cons o out ih => exact fun app => (sameFlags_callback now o).trans (ih (app.callback now o).1)

/-- A call of the direct transport and its callbacks. -/
theorem sameFlags_directVoice (now : ℕ) (directVoice : Net.DirectVoiceTransport)
    (out : List Net.Output) :
    SameFlags app (Application.callbacks now { app with directVoice } out).1 := by
  have hcall : SameFlags app { app with directVoice } := ⟨rfl, rfl⟩
  exact hcall.trans (sameFlags_callbacks now out _)

theorem sameFlags_addOrUpdatePeer (now : ℕ) (peer : PeerStatus) :
    SameFlags app { app with session := app.session.addOrUpdatePeer now peer } := by
  refine sameFlags_of_voice rfl ?_
  dsimp only
  rw [VoiceSession.addOrUpdatePeer]
  split <;> rfl

theorem sameFlags_ensurePeer (now : ℕ) (peerId : Bytes) :
    SameFlags app (app.ensurePeer now peerId).1 := by
  rw [Application.ensurePeer]
  exact sameFlags_directVoice now _ _

theorem sameFlags_meetPeers (now : ℕ) (peerIds : List Bytes) :
    ∀ app : Application α β, SameFlags app (Application.meetPeers now app peerIds).1 := by
  induction peerIds with
  | nil => exact fun _ => ⟨rfl, rfl⟩
  | cons peerId peerIds ih =>
    intro app
    rw [Application.meetPeers]
    split
    · exact ih app
    · exact (sameFlags_addOrUpdatePeer now _).trans
        ((sameFlags_ensurePeer now peerId).trans (ih _))

/-- **Events** other than the closing of the room leave both flags as they are, whatever they say of
others. -/
theorem sameFlags_handleSignalingEvent (now : ℕ) {event : SignalingEvent}
    (h : event ≠ .roomClosed) :
    SameFlags app (app.handleSignalingEvent isNumericHost now event).1 := by
  cases event with
  | joinedRoom room => exact sameFlags_meetPeers now room.peerIds app
  | peerStatus peer =>
    rw [Application.handleSignalingEvent]
    split
    · exact ⟨rfl, rfl⟩
    · exact sameFlags_addOrUpdatePeer now peer
  | peerJoined peer =>
    rw [Application.handleSignalingEvent]
    split
    · exact ⟨rfl, rfl⟩
    · exact (sameFlags_addOrUpdatePeer now peer).trans (sameFlags_ensurePeer now peer.id)
  | ice sourcePeerId type payloadJson =>
    rw [Application.handleSignalingEvent]
    exact sameFlags_directVoice now _ _
  | voiceFrame frame =>
    rw [Application.handleSignalingEvent]
    split
    · exact ⟨rfl, rfl⟩
    · split
      · exact sameFlags_of_voice rfl (VoiceSession.localPeer_updatePeer frame.sourcePeerId _)
      · exact ⟨rfl, rfl⟩
  | peerLeft peerId =>
    rw [Application.handleSignalingEvent]
    split <;> exact ⟨rfl, rfl⟩
  | roomClosed => exact absurd rfl h

theorem sameFlags_pumpVoice (now : ℕ) (isKeyDown : Bool) :
    SameFlags app (next env isNumericHost app (.pumpVoice now isKeyDown)) := by
  have hpump : SameFlags app (app.pumpVoice env now).1 := by
    rw [(app.pumpVoice_eq env now).1]
    exact ⟨VoiceEngine.muted_pump now, rfl⟩
  rw [next]
  split
  · exact hpump.trans ⟨rfl, rfl⟩
  · exact hpump

/-! ### Steps and runs -/

/-- New audio settings bring the copies together, or leave them alone. -/
theorem inStep_applyAudioSettings (h : InStep app) (now : ℕ) (audioSettings : AudioSettings) :
    InStep (app.applyAudioSettings env now audioSettings) := by
  rw [Application.applyAudioSettings]
  split
  · exact VoiceEngine.muted_setMuted _ _
  · exact h

/-- **One step** keeps the two flags in step if and only if it does not close the room during a
mute. -/
theorem inStep_next_iff (h : InStep app) (a : Action α) :
    InStep (next env isNumericHost app a) ↔ ClosedUnmuted app a := by
  have hsame : ∀ {app' : Application α β}, SameFlags app app' → InStep app' :=
    fun hflags => hflags.inStep_congr.mpr h
  cases a with
  | record i samples => exact iff_of_true h trivial
  | complete i => exact iff_of_true h trivial
  | muteHotkey now => exact iff_of_true (VoiceEngine.muted_setMuted _ _) trivial
  | applyAudioSettings now audioSettings =>
    exact iff_of_true (inStep_applyAudioSettings h now audioSettings) trivial
  | signalingEvent now event =>
    rw [next, ClosedUnmuted]
    cases hevent : event.toSignalingEvent with
    | none => exact iff_of_true h fun hclosed => absurd hclosed.symm (Option.some_ne_none _)
    | some e =>
      by_cases hclosed : e = .roomClosed
      · rw [hclosed]
        -- the session now shows an unmuted microphone, the engine is as it was
        show app.voice.metrics.muted = false ↔ _
        rw [show app.voice.metrics.muted = app.session.localPeer.muted from h]
        exact ⟨fun hmuted _ => hmuted, fun hgood => hgood rfl⟩
      · refine iff_of_true (hsame (sameFlags_handleSignalingEvent now hclosed)) fun hsome => ?_
        exact absurd (Option.some.inj hsome) hclosed
  | pumpDirectVoice now arrivals =>
    exact iff_of_true (hsame (sameFlags_directVoice now _ _)) trivial
  | setPushToTalkActive active => exact iff_of_true h trivial
  | pumpVoice now isKeyDown => exact iff_of_true (hsame (sameFlags_pumpVoice now isKeyDown)) trivial
  | tick now =>
    refine iff_of_true (hsame (sameFlags_of_voice rfl ?_)) trivial
    exact (VoiceSession.tick_same now).2

theorem StartedUp.inStep (h : StartedUp env app) : InStep app := by
  obtain ⟨engine, now, hvoice⟩ := h.voice
  obtain ⟨_, _, room, localPeerId, localNick, _, s, hsession, hentered⟩ := h.session
  have hlocal : s.localPeer.muted = false := by
    rcases hentered with rfl | hjoined
    · rfl
    · rw [VoiceSession.joinRoom] at hjoined
      split at hjoined
      · exact absurd hjoined.symm (Option.some_ne_none s)
      · rw [← Option.some.inj hjoined]
        rfl
  rw [InStep, hvoice, hsession]
  exact hlocal.symm

/-- **The copies of the flag.** In every run of the main loop from the entrance into a room on,
whatever the signaling client hands over: the engine is muted exactly when the session shows it, in
every state, exactly if the room is never closed while the microphone is muted. Closing the room
makes a new local participant, and leaves the engine as it is. -/
theorem inStep_iff {t : List (Application α β × Action α)}
    (h : (machine env isNumericHost).Run t app) :
    ((∀ x ∈ t, InStep x.1) ∧ InStep app) ↔ ∀ x ∈ t, ClosedUnmuted x.1 x.2 := by
  refine h.visited_iff (fun app hs => StartedUp.inStep hs) ?_
  rintro app a app' - hs ⟨-, rfl⟩
  exact inStep_next_iff hs a

/-- A client without a microphone. -/
def deaf : Platform Int16 Int16 where
  openWaveIn := fun _ _ => none
  encodeFrame := fun _ _ => []

/-- A client that has created a room. -/
def started : Application Int16 Int16 where
  voice := VoiceEngine.start deaf {} 0
  session := (VoiceSession.createRoom 0 VoiceSession.smallRoom [2] [2]).setLocalIcon 0 0
  directVoice := {}

theorem started_startedUp : StartedUp deaf started :=
  ⟨⟨{}, 0, rfl⟩, 0, 0, VoiceSession.smallRoom, [2], [2], 0, _, rfl, Or.inl rfl⟩

/-- The room is closed. -/
def closed : Event := { type := Net.utf8 "room_closed", peer := { lastSeen := 0 } }

/-- The state after some actions. -/
def play (actions : List (Action Int16)) : Application Int16 Int16 :=
  actions.foldl (next deaf fun _ => true) started

/-- Muted, with new settings, and unmuted again before the room is closed. -/
def unmutedInTime : List (Action Int16) :=
  [.muteHotkey 1, .applyAudioSettings 2 {}, .pumpVoice 3 false, .muteHotkey 4,
    .signalingEvent 5 closed, .tick 6]

theorem inStep_iff_unmutedInTime :
    (∀ x ∈ Machine.trace (next deaf fun _ => true) started unmutedInTime, InStep x.1) ∧
      InStep (play unmutedInTime) := by
  refine (inStep_iff (Machine.run_trace started_startedUp fun _ _ => trivial)).mpr ?_
  simp only [unmutedInTime, Machine.forall_trace_cons, Machine.forall_trace_nil, ClosedUnmuted,
    true_and, and_true]
  exact fun _ => rfl

/-- **Muted, and shown as unmuted.** The room is closed while the microphone is muted. -/
theorem muted_and_shown_unmuted : ∃ t app,
    (machine deaf fun _ => true).Run t app ∧ ¬ InStep app ∧
      app.voice.metrics.muted = true ∧ app.session.localPeer.muted = false := by
  refine ⟨_, play [.muteHotkey 1, .signalingEvent 2 closed],
    Machine.run_trace started_startedUp fun _ _ => trivial, ?_⟩
  have hflags : (play [.muteHotkey 1, .signalingEvent 2 closed]).voice.metrics.muted = true ∧
      (play [.muteHotkey 1, .signalingEvent 2 closed]).session.localPeer.muted = false := by
    decide
  refine ⟨fun h => ?_, hflags⟩
  rw [InStep, hflags.1, hflags.2] at h
  exact Bool.noConfusion h

end MainLoop

end Client

end TarkovVoice

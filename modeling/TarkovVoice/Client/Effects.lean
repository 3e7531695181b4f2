import TarkovVoice.Client.Application
import TarkovVoice.Net.VoiceDelivery

/-!
# What the application does to the outside

The callbacks of the direct transport turn its outputs into effects of the application, and change
nothing of it but the session. So what a client sends, relays and plays can be read off the outputs
of its transport.

## Main definitions

* `Effect.carried`, `Effect.played`, `Effect.relayed` — the effects that matter for voice

## Main results

* `Application.callbacks_effects` — the effects of a call of the direct transport
* `Application.sendVoiceFrame_effects`, `pumpVoice_effects` — what sending amounts to
-/

namespace TarkovVoice

namespace Client

open Net (Bytes Arrival DirectVoiceTransport RoomInfo)
open Net.DirectVoiceTransport (Path framesOf)
open Audio (EncodedVoiceFrame Platform SentFrame)

namespace Effect

/-- The datagrams that arrive, of those that are sent: where the path lets them through, and from
where they then seem to come. -/
def carried (p : Path) (effects : List Effect) : List Arrival :=
  effects.filterMap fun
    | .datagram endpoint data =>
      if p.reaches endpoint then some { source := some (p.source endpoint), data } else none
    | _ => none

/-- The frames handed to the voice engine, in order. They are all that the playback side
learns of. -/
def played (effects : List Effect) : List EncodedVoiceFrame :=
  effects.filterMap fun
    | .playRemoteFrame frame => some frame
    | _ => none

/-- The frames sent through the coordinator, in order, in whichever room. -/
def relayed (effects : List Effect) : List EncodedVoiceFrame :=
  effects.filterMap fun
    | .sendVoiceFrame _ frame => some frame
    | _ => none

theorem carried_append (p : Path) (l l' : List Effect) :
    carried p (l ++ l') = carried p l ++ carried p l' := List.filterMap_append

theorem played_append (l l' : List Effect) : played (l ++ l') = played l ++ played l' :=
  List.filterMap_append

theorem relayed_append (l l' : List Effect) : relayed (l ++ l') = relayed l ++ relayed l' :=
  List.filterMap_append

end Effect

/-- The peer whose voice an event is about: the event carries it, or ends it. -/
def SignalingEvent.about : SignalingEvent → Option Bytes
  | .voiceFrame frame => some frame.sourcePeerId
  | .peerLeft peerId => some peerId
  | _ => none

namespace Application

open Effect

variable {α β : Type*} {app : Application α β}

/-- The frames of the peer `k` among the frames played. -/
def playedOf (k : Bytes) (effects : List Effect) : List EncodedVoiceFrame :=
  (played effects).filter fun f => f.sourcePeerId = k

/-- The application relays as before, and is in the same room. Who else is in the room may have
changed. -/
def SameRoom (app app' : Application α β) : Prop :=
  app'.relayEnabled = app.relayEnabled ∧
    app'.session.room.map RoomInfo.id = app.session.room.map RoomInfo.id

theorem SameRoom.trans {app' app'' : Application α β} (h : SameRoom app app')
    (h' : SameRoom app' app'') : SameRoom app app'' :=
  ⟨h'.1.trans h.1, h'.2.trans h.2⟩

theorem callback_effects (now : ℕ) (o : Net.Output) (p : Path) (k : Bytes) :
    ((∃ session, (app.callback now o).1 = { app with session }) ∧
        SameRoom app (app.callback now o).1) ∧
      carried p (app.callback now o).2 = p.carry [o] ∧
      playedOf k (app.callback now o).2 = framesOf k [o] ∧
      relayed (app.callback now o).2 = [] := by
  cases o with
  | datagram endpoint data => exact ⟨⟨⟨_, rfl⟩, rfl, rfl⟩, rfl, rfl, rfl⟩
  | signal targetPeerId type payloadJson =>
    rw [callback]
    split <;> exact ⟨⟨⟨_, rfl⟩, rfl, rfl⟩, rfl, rfl, rfl⟩
  | frame frame =>
    refine ⟨⟨⟨_, rfl⟩, rfl, app.session.room_markPeerSpeaking now _ _ _⟩, rfl, ?_, rfl⟩
    rw [DirectVoiceTransport.framesOf_frame]
    by_cases h : frame.sourcePeerId = k
    · rw [if_pos h]
      exact List.filter_cons_of_pos (by simpa using h)
    · rw [if_neg h]
      exact List.filter_cons_of_neg (by simpa using h)

/-- **Callbacks.** They change only the session, which stays in its room, and what they do is what
the transport asked for. -/
theorem callbacks_effects (now : ℕ) (p : Path) (k : Bytes) (out : List Net.Output) :
    ∀ app : Application α β,
      ((∃ session, (callbacks now app out).1 = { app with session }) ∧
          SameRoom app (callbacks now app out).1) ∧
        carried p (callbacks now app out).2 = p.carry out ∧
        playedOf k (callbacks now app out).2 = framesOf k out ∧
        relayed (callbacks now app out).2 = [] := by
  induction out with
  | nil => exact fun app => ⟨⟨⟨_, rfl⟩, rfl, rfl⟩, rfl, rfl, rfl⟩
  | cons o out ih =>
    intro app
    obtain ⟨⟨⟨session, hsame⟩, hroom⟩, hcarried, hplayed, hrelayed⟩ :=
      @callback_effects _ _ app now o p k
    obtain ⟨⟨⟨session', hsame'⟩, hroom'⟩, hcarried', hplayed', hrelayed'⟩ :=
      ih (app.callback now o).1
    rw [callbacks]
    refine ⟨⟨⟨session', ?_⟩, hroom.trans hroom'⟩, ?_, ?_, ?_⟩
    · rw [hsame', hsame]
    · rw [carried_append, hcarried, hcarried']
      exact (List.filterMap_append (l := [o])).symm
    · rw [playedOf, played_append, List.filter_append, ← playedOf, ← playedOf, hplayed, hplayed']
      exact (DirectVoiceTransport.framesOf_append k [o] out).symm
    · rw [relayed_append, hrelayed, hrelayed']
      rfl

/-! ### Calls that pass on no voice -/

/-- A call that sends nothing but pings and signals, and that takes and passes on no voice but
possibly that of the peer `about`. -/
structure Calm (app app' : Application α β) (effects : List Effect) (about : Option Bytes) :
    Prop where
  voice : app'.voice = app.voice
  room : SameRoom app app'
  setup : DirectVoiceTransport.SameSetup app.directVoice app'.directVoice
  pings : ∀ p, app.directVoice.Pings (carried p effects)
  relayed : relayed effects = []
  lastVoice : ∀ k, some k ≠ about → app'.directVoice.lastVoice k = app.directVoice.lastVoice k
  played : ∀ k, some k ≠ about → playedOf k effects = []

/-- A call that changes only the session. -/
theorem calm_session {session : VoiceSession}
    (h : session.room.map RoomInfo.id = app.session.room.map RoomInfo.id) (about : Option Bytes) :
    Calm app { app with session } [] about :=
  ⟨rfl, ⟨rfl, h⟩, .refl _, fun _ => .nil, rfl, fun _ _ => rfl, fun _ _ => rfl⟩

theorem Calm.trans {app' app'' : Application α β} {effects effects' : List Effect}
    {about : Option Bytes} (h : Calm app app' effects about) (h' : Calm app' app'' effects' about) :
    Calm app app'' (effects ++ effects') about := by
  refine ⟨h'.voice.trans h.voice, h.room.trans h'.room, h.setup.trans h'.setup, fun p => ?_, ?_,
    fun k hk => ?_, fun k hk => ?_⟩
  · rw [carried_append]
    exact (h.pings p).append (h.setup.pings (h'.pings p))
  · rw [relayed_append, h.relayed, h'.relayed]
    rfl
  · exact (h'.lastVoice k hk).trans (h.lastVoice k hk)
  · rw [playedOf, played_append, List.filter_append, ← playedOf, ← playedOf, h.played k hk,
      h'.played k hk]
    rfl

/-- A call of the direct transport that receives nothing. -/
theorem callbacks_calm (now : ℕ) {directVoice : DirectVoiceTransport} {out : List Net.Output}
    (hkeeps : ∀ k, DirectVoiceTransport.Keeps app.directVoice directVoice k)
    (hpings : ∀ p : Path, app.directVoice.Pings (p.carry out))
    (hframes : ∀ k, framesOf k out = []) (about : Option Bytes) :
    Calm app (callbacks now { app with directVoice } out).1
      (callbacks now { app with directVoice } out).2 about := by
  have heffects := fun p k => callbacks_effects now p k out { app with directVoice }
  obtain ⟨⟨⟨_, hsame⟩, hroom⟩, -, -, hrelayed⟩ := heffects ⟨fun _ => false, id⟩ []
  rw [hsame] at hroom ⊢
  refine ⟨rfl, hroom, (hkeeps []).setup, fun p => ?_, hrelayed, fun k _ => (hkeeps k).voice,
    fun k _ => ?_⟩
  · rw [(heffects p []).2.1]
    exact hpings p
  · rw [(heffects ⟨fun _ => false, id⟩ k).2.2.1]
    exact hframes k

theorem ensurePeer_calm (now : ℕ) (peerId : Bytes) (about : Option Bytes) :
    Calm app (app.ensurePeer now peerId).1 (app.ensurePeer now peerId).2 about :=
  callbacks_calm now (DirectVoiceTransport.ensurePeer_keeps now peerId _)
    (fun p => DirectVoiceTransport.pings_ensurePeer p now peerId _)
    (fun _ => DirectVoiceTransport.filterMap_ensurePeer (fun _ _ _ => rfl) now peerId _) about

theorem meetPeers_calm (now : ℕ) (about : Option Bytes) (peerIds : List Bytes) :
    ∀ app : Application α β,
      Calm app (meetPeers now app peerIds).1 (meetPeers now app peerIds).2 about := by
  induction peerIds with
  | nil => exact fun app => calm_session rfl about
  | cons peerId peerIds ih =>
    intro app
    rw [meetPeers]
    split
    · exact ih app
    · exact ((calm_session (app.session.room_addOrUpdatePeer now _) about).trans
        (ensurePeer_calm now peerId about)).trans (ih _)

/-- **Events.** In a room, an event of the signaling client matters at most for the voice of the
peer it is about. -/
theorem handleSignalingEvent_calm (isNumericHost : Bytes → Bool) (now : ℕ) {event : SignalingEvent}
    (h : event ≠ .roomClosed) :
    Calm app (app.handleSignalingEvent isNumericHost now event).1
      (app.handleSignalingEvent isNumericHost now event).2 event.about := by
  cases event with
  | joinedRoom room => exact meetPeers_calm now none room.peerIds app
  | peerStatus peer =>
    rw [handleSignalingEvent]
    split
    · exact calm_session rfl none
    · exact calm_session (app.session.room_addOrUpdatePeer now peer) none
  | peerJoined peer =>
    rw [handleSignalingEvent]
    split
    · exact calm_session rfl none
    · have hmet := calm_session (app.session.room_addOrUpdatePeer now peer) none
      exact hmet.trans (ensurePeer_calm now peer.id none)
  | ice sourcePeerId type payloadJson =>
    exact callbacks_calm now
      (DirectVoiceTransport.handleSignal_keeps isNumericHost now sourcePeerId type payloadJson)
      (fun p => DirectVoiceTransport.pings_handleSignal p isNumericHost now _ type payloadJson)
      (fun _ => DirectVoiceTransport.filterMap_handleSignal (fun _ _ => rfl) (fun _ _ _ => rfl)
        isNumericHost now _ type payloadJson)
      none
  | voiceFrame frame =>
    rw [handleSignalingEvent]
    split
    · exact calm_session rfl _
    split
    · refine ⟨rfl, ⟨rfl, app.session.room_markPeerSpeaking now _ _ _⟩, .refl _, fun _ => .nil, rfl,
        fun _ _ => rfl, fun k hk => ?_⟩
      have hne : frame.sourcePeerId ≠ k := fun h => hk (congrArg some h.symm)
      exact List.filter_cons_of_neg (by simpa using hne)
    · exact calm_session rfl _
  | peerLeft peerId =>
    rw [handleSignalingEvent]
    split
    · exact calm_session rfl _
    · refine ⟨rfl, ⟨rfl, app.session.room_removePeer peerId⟩, ⟨_, rfl⟩, fun _ => .nil, rfl,
        fun k hk => ?_, fun _ _ => rfl⟩
      exact (DirectVoiceTransport.removePeer_keeps fun h => hk (congrArg some h)).voice
  | roomClosed => exact absurd rfl h

/-! ### Receiving and sending -/

/-- **A pump of the transport** passes on the frames that are new, to the voice engine, as the
transport alone would to its callback. -/
theorem pumpDirectVoice_takes {k : Bytes} (hk : k ≠ []) (hlocal : k ≠ app.directVoice.localPeerId)
    (hframe : app.directVoice.frameCallback = true) (hrun : app.directVoice.running = true)
    (now : ℕ) (arrivals : List Arrival) :
    let frames := (DirectVoiceTransport.readable arrivals).filterMap
      (DirectVoiceTransport.voiceOf app.directVoice.roomId k)
    let r := app.pumpDirectVoice now arrivals
    playedOf k r.2.1 = newest DirectVoiceTransport.frameKey (app.directVoice.lastVoice k) frames ∧
      r.1.directVoice.lastVoice k =
        lastKey DirectVoiceTransport.frameKey (app.directVoice.lastVoice k) frames ∧
      r.2.2 = DirectVoiceTransport.unread arrivals := by
  obtain ⟨htakes, hleft⟩ := DirectVoiceTransport.pump_takes hk hlocal hframe hrun now arrivals
  obtain ⟨⟨⟨_, hsame⟩, -⟩, -, hplayed, -⟩ := callbacks_effects now ⟨fun _ => false, id⟩ k
    (app.directVoice.pump now arrivals).2.1
    { app with directVoice := (app.directVoice.pump now arrivals).1 }
  refine ⟨hplayed.trans htakes.delivers, ?_, hleft⟩
  rw [← htakes.voice, pumpDirectVoice]
  dsimp only
  rw [hsame]

/-- What a pump of the transport leaves had arrived. -/
theorem mem_left_pumpDirectVoice {now : ℕ} {arrivals : List Arrival} {a : Arrival}
    (h : a ∈ (app.pumpDirectVoice now arrivals).2.2) : a ∈ arrivals :=
  DirectVoiceTransport.mem_left_pump h

/-- The rest of the application is the same after a pump of the transport, which sends pings. -/
theorem pumpDirectVoice_same (now : ℕ) (arrivals : List Arrival) :
    (app.pumpDirectVoice now arrivals).1.voice = app.voice ∧
      SameRoom app (app.pumpDirectVoice now arrivals).1 ∧
      DirectVoiceTransport.SameSetup app.directVoice
        (app.pumpDirectVoice now arrivals).1.directVoice ∧
      (∀ p, app.directVoice.Pings (carried p (app.pumpDirectVoice now arrivals).2.1)) ∧
      relayed (app.pumpDirectVoice now arrivals).2.1 = [] := by
  have heffects := fun p => callbacks_effects now p [] (app.directVoice.pump now arrivals).2.1
    { app with directVoice := (app.directVoice.pump now arrivals).1 }
  obtain ⟨⟨⟨_, hsame⟩, hroom⟩, -, -, hrelayed⟩ := heffects ⟨fun _ => false, id⟩
  rw [pumpDirectVoice]
  dsimp only
  refine ⟨?_, hroom, ?_, fun p => ?_, hrelayed⟩
  · rw [hsame]
  · rw [hsame]
    exact DirectVoiceTransport.sameSetup_pump now arrivals
  · rw [(heffects p).2.1]
    exact DirectVoiceTransport.pings_pump p now arrivals

theorem callbacks_datagrams (now : ℕ) {out : List Net.Output}
    (h : ∀ o ∈ out, ∃ endpoint data, o = .datagram endpoint data) :
    (callbacks now app out).1 = app := by
  induction out with
  | nil => rfl
  | cons o out ih =>
    obtain ⟨endpoint, data, rfl⟩ := h o List.mem_cons_self
    exact ih fun o ho => h o (List.mem_cons_of_mem _ ho)

/-- A frame is relayed once or not at all. -/
theorem relayed_relay (f : EncodedVoiceFrame) :
    relayed (app.relay f) = if app.relay f = [] then [] else [f] := by
  have hcases : app.relay f = [] ∨ ∃ roomId, app.relay f = [.sendVoiceFrame roomId f] := by
    rw [relay]
    split
    · exact Or.inl rfl
    split
    · split
      · rw [signalVoiceFrame]
        split
        · exact Or.inl rfl
        · exact Or.inr ⟨_, rfl⟩
      · exact Or.inl rfl
    · exact Or.inl rfl
  rcases hcases with h | ⟨roomId, h⟩
  · rw [h, if_pos rfl]
    rfl
  · rw [h, if_neg (List.cons_ne_nil _ _)]
    rfl

/-- The relay alone sends no datagrams and plays nothing. -/
theorem relay_quiet (f : EncodedVoiceFrame) :
    (∀ p : Path, carried p (app.relay f) = []) ∧ played (app.relay f) = [] := by
  rw [relay]
  split
  · exact ⟨fun _ => rfl, rfl⟩
  split
  · split
    · rw [signalVoiceFrame]
      split <;> exact ⟨fun _ => rfl, rfl⟩
    · exact ⟨fun _ => rfl, rfl⟩
  · exact ⟨fun _ => rfl, rfl⟩

/-- **Sending a frame** changes nothing of the application. What goes to the socket is what the
direct transport sends, and the rest is the relay. -/
theorem sendVoiceFrame_eq (now : ℕ) (f : EncodedVoiceFrame) :
    (app.sendVoiceFrame now f).1 = app ∧
      (∀ p : Path, carried p (app.sendVoiceFrame now f).2 =
        p.carry (app.directVoice.sendVoiceFrame f)) ∧
      (∀ k, playedOf k (app.sendVoiceFrame now f).2 = []) ∧
      relayed (app.sendVoiceFrame now f).2 = if app.relay f = [] then [] else [f] := by
  have hout := app.directVoice.datagrams_sendVoiceFrame f
  have hsame := @callbacks_datagrams _ _ app now _ hout
  have heffects := fun p k => callbacks_effects now p k (app.directVoice.sendVoiceFrame f) app
  obtain ⟨hcarried, hplayed⟩ := app.relay_quiet f
  rw [sendVoiceFrame]
  dsimp only
  rw [hsame]
  refine ⟨rfl, fun p => ?_, fun k => ?_, ?_⟩
  · rw [carried_append, hcarried, List.append_nil]
    exact (heffects p []).2.1
  · rw [playedOf, played_append, List.filter_append, hplayed, ← playedOf]
    rw [(heffects ⟨fun _ => false, id⟩ k).2.2.1, List.filter_nil, List.append_nil]
    exact DirectVoiceTransport.filterMap_sendVoiceFrame (fun _ _ => rfl) f
  · rw [relayed_append, (heffects ⟨fun _ => false, id⟩ []).2.2.2, relayed_relay]
    rfl

/-- **A pump of the engine** changes nothing else, and what arrives over a path are the datagrams of
its frames, one frame after the other. -/
theorem pumpVoice_eq (env : Platform α β) (now : ℕ) :
    (app.pumpVoice env now).1 = { app with voice := (app.voice.pump env now).1 } ∧
      ∀ p : Path, carried p (app.pumpVoice env now).2 =
        ((app.voice.pump env now).2.map SentFrame.frame).flatMap fun f =>
          p.carry (app.directVoice.sendVoiceFrame f) := by
  have hall : ∀ (l : List EncodedVoiceFrame) (app : Application α β),
      (sendVoiceFrames now app l).1 = app ∧
        ∀ p : Path, carried p (sendVoiceFrames now app l).2 =
          l.flatMap fun f => p.carry (app.directVoice.sendVoiceFrame f) := by
    intro l
    induction l with
    | nil => exact fun app => ⟨rfl, fun _ => rfl⟩
    | cons f l ih =>
      intro app
      obtain ⟨hsame, hcarried, -, -⟩ := app.sendVoiceFrame_eq now f
      obtain ⟨hsame', hcarried'⟩ := ih app
      rw [sendVoiceFrames]
      dsimp only
      rw [hsame]
      refine ⟨hsame', fun p => ?_⟩
      rw [carried_append, hcarried, hcarried', List.flatMap_cons]
  exact hall _ { app with voice := (app.voice.pump env now).1 }

end Application

end Client

end TarkovVoice

import TarkovVoice.Client.Effects
import TarkovVoice.Machine

/-!
# Voice numbers when the engine restarts

The engine of the sender numbers its frames from 0 when it starts, and the transport of the
receiver drops every frame whose number does not exceed the last. New audio settings restart the
engine and leave the transports as they are. This file follows one sender and one receiver over a
channel that loses, duplicates and reorders nothing, and finds that a restart between two frames
is the only thing that costs frames.

The channel holds the datagrams that have been sent and not read. The sender may have several
endpoints for the receiver, so that a frame becomes several datagrams. What the sender receives and
what the coordinator tells it may change its routes, as long as the receiver stays reachable.

## Main definitions

* `Numbering.machine` — runs of the two clients
* `Numbering.Faithful` — every frame that was sent is delivered exactly once and in order
* `Numbering.Restarted` — a pump that sends with an engine that has been restarted since it sent

## Main results

* `Numbering.faithful_next_iff` — one step
* `Numbering.faithful_iff_not_restarted` — runs
* `Numbering.restart_loses` — a run that loses a frame
-/

namespace TarkovVoice

namespace Client

namespace Numbering

open Net (Bytes Arrival DirectVoiceTransport SignalType)
open Net.DirectVoiceTransport (Path arrived framesOf frameKey voiceOf)
open Audio (AudioSettings CodecEnv EncodedVoiceFrame Platform SentFrame WaveIn)
open Audio.NativeAudioCapture (firstBuffer)

/-- The sender, the receiver's transport, and the datagrams between them. The frames that the
sender passed to `sendVoiceFrame` and those handed to the receiver's `frameCallback` are kept. -/
structure State (α β : Type*) where
  app : Application α β
  receiver : DirectVoiceTransport
  channel : List Arrival := []
  sent : List EncodedVoiceFrame := []
  delivered : List EncodedVoiceFrame := []

/-- What happens. The sender may be muted and may change its settings, which starts its engine anew;
events, signals and datagrams of others come in between. -/
inductive Action (α : Type*)
  /-- The sender's device records samples into a buffer. -/
  | record (i : Fin 4) (samples : List α)
  /-- The sender's device completes a buffer. -/
  | complete (i : Fin 4)
  | pumpVoice (now : ℕ)
  | toggleMute (now : ℕ)
  | setPushToTalkActive (active : Bool)
  | applyAudioSettings (now : ℕ) (settings : AudioSettings)
  /-- The sender's transport is pumped. -/
  | pumpDirectVoice (now : ℕ) (arrivals : List Arrival)
  /-- The sender handles an event. -/
  | event (now : ℕ) (event : SignalingEvent)
  /-- The receiver's transport handles a signal. -/
  | signal (now : ℕ) (sourcePeerId : Bytes) (type : SignalType) (payloadJson : Bytes)
  /-- The receiver's transport is pumped, and finds the first `count` datagrams. -/
  | receive (now count : ℕ)

section Machine

variable {α β : Type*} (env : Platform α β) (isNumericHost : Bytes → Bool) (p : Path)
  (roomId me : Bytes)

/-- What the action does. -/
def next (s : State α β) : Action α → State α β
  | .record i samples => { s with app := { s.app with voice := s.app.voice.record i samples } }
  | .complete i => { s with app := { s.app with voice := s.app.voice.complete i } }
  | .pumpVoice now =>
    let (app, effects) := s.app.pumpVoice env now
    { s with
      app
      channel := s.channel ++ Effect.carried p effects
      sent := s.sent ++ (s.app.voice.pump env now).2.map SentFrame.frame }
  | .toggleMute now => { s with app := s.app.toggleMute now }
  | .setPushToTalkActive active =>
    { s with app := { s.app with voice := s.app.voice.setPushToTalkActive active } }
  | .applyAudioSettings now settings => { s with app := s.app.applyAudioSettings env now settings }
  | .pumpDirectVoice now arrivals =>
    let (app, effects, _) := s.app.pumpDirectVoice now arrivals
    { s with app, channel := s.channel ++ Effect.carried p effects }
  | .event now event =>
    let (app, effects) := s.app.handleSignalingEvent isNumericHost now event
    { s with app, channel := s.channel ++ Effect.carried p effects }
  | .signal now sourcePeerId type payloadJson =>
    { s with receiver :=
        (s.receiver.handleSignal isNumericHost now sourcePeerId type payloadJson).1 }
  | .receive now count =>
    let (receiver, out, left) := s.receiver.pump now (s.channel.take count)
    { s with
      receiver
      channel := left ++ s.channel.drop count
      delivered := s.delivered ++ framesOf me out }

/-- The receiver stays reachable, the room stays open, and there are fewer than `2 ^ 32` frames. So
each frame is sent to the receiver under a number of its own, if nobody starts the numbers again. -/
def Enabled (s : State α β) : Action α → Prop
  | .record i samples => s.app.voice.CanRecord i samples.length
  | .complete i => s.app.voice.CanComplete i
  | .pumpVoice _ => s.sent.length + s.app.voice.outgoing.length < 2 ^ 32
  | .pumpDirectVoice now arrivals =>
    (s.app.pumpDirectVoice now arrivals).1.directVoice.reached p ≠ []
  | .event now event =>
    event ≠ .roomClosed ∧
      (s.app.handleSignalingEvent isNumericHost now event).1.directVoice.reached p ≠ []
  | _ => True

/-- Both transports run in the room `roomId`, and the receiver is reachable: at least one endpoint
that the sender knows leads to it, on a way that loses nothing. -/
structure Connected (s : State α β) : Prop where
  running : s.app.directVoice.running = true
  room : s.app.directVoice.roomId = roomId
  localPeer : s.app.directVoice.localPeerId = me
  fits : s.app.directVoice.IdsFit
  reached : s.app.directVoice.reached p ≠ []
  receiverRunning : s.receiver.running = true
  receiverCallback : s.receiver.frameCallback = true
  receiverRoom : s.receiver.roomId = roomId
  receiverPeer : me ≠ s.receiver.localPeerId
  named : me ≠ []

/-- The engine has just been started, and the receiver has taken no frame of the sender, so that
every number is new to it. -/
structure Init (s : State α β) : Prop where
  connected : Connected p roomId me s
  engine : ∃ (engine : Audio.VoiceEngine α β) (now : ℕ), s.app.voice = engine.start env now
  fresh : s.receiver.lastVoice me = ⊥
  channel : s.channel = []
  sent : s.sent = []
  delivered : s.delivered = []

/-- The runs of the sender `me` and a receiver in the room. -/
def machine : Machine (State α β) (Action α) :=
  .ofNext (Init env p roomId me) (Enabled isNumericHost p) (next env isNumericHost p me)

end Machine

variable {α β : Type*}

/-- What has been delivered, and what is when the receiver reads all that is in the channel, are
the frames that were sent: each exactly once, and in order. -/
def Faithful (me : Bytes) (s : State α β) : Prop :=
  ∀ now, s.delivered ++ framesOf me (s.receiver.pump now s.channel).2.1 = s.sent.map (arrived me)

/-- A pump that sends, with an engine that has been restarted since it sent something. -/
def Restarted (s : State α β) : Action α → Prop
  | .pumpVoice _ => s.app.voice.outgoing ≠ [] ∧ s.sent ≠ [] ∧ s.app.voice.sequence = 0
  | _ => False

/-! ### The invariant -/

/-- The frames of the sender in the channel, with repetitions. -/
def State.inFlight (s : State α β) (roomId me : Bytes) : List EncodedVoiceFrame :=
  s.channel.filterMap (voiceOf roomId me)

/-- The number of the last frame of the sender, as the receiver will know it, is the largest that
was sent, and the engine is past it unless it has been restarted. -/
structure Inv (p : Path) (roomId me : Bytes) (s : State α β) : Prop where
  connected : Connected p roomId me s
  readable : ∀ a ∈ s.channel, a.data.length ≤ 1500
  last : lastKey frameKey (s.receiver.lastVoice me) (s.inFlight roomId me) =
    lastKey frameKey ⊥ (s.sent.map (arrived me))
  count : s.app.voice.sequence.toNat ≤ s.sent.length
  numbered : s.app.voice.sequence = 0 ∨
    lastKey frameKey ⊥ (s.sent.map (arrived me)) < WithBot.some s.app.voice.sequence.toNat

variable {env : Platform α β} {isNumericHost : Bytes → Bool} {p : Path} {roomId me : Bytes}
  {s : State α β}

theorem Init.inv (h : Init env p roomId me s) : Inv p roomId me s := by
  obtain ⟨engine, now, hengine⟩ := h.engine
  have hseq : s.app.voice.sequence = 0 := by rw [hengine]; rfl
  refine ⟨h.connected, fun a ha => ?_, ?_, ?_, Or.inl hseq⟩
  · rw [h.channel] at ha
    exact absurd ha List.not_mem_nil
  · rw [State.inFlight, h.channel, h.sent, h.fresh]
    rfl
  · rw [hseq]
    exact Nat.zero_le _

/-- What reading the whole channel delivers. -/
theorem Connected.faithful_iff (hc : Connected p roomId me s)
    (hread : ∀ a ∈ s.channel, a.data.length ≤ 1500) :
    Faithful me s ↔ s.delivered ++
      newest frameKey (s.receiver.lastVoice me) (s.inFlight roomId me) =
        s.sent.map (arrived me) := by
  have hpump : ∀ now, framesOf me (s.receiver.pump now s.channel).2.1 =
      newest frameKey (s.receiver.lastVoice me) (s.inFlight roomId me) := by
    intro now
    obtain ⟨htakes, -⟩ := DirectVoiceTransport.pump_takes hc.named hc.receiverPeer
      hc.receiverCallback hc.receiverRunning now s.channel
    rw [htakes.delivers, DirectVoiceTransport.readable_eq_self hread, hc.receiverRoom]
    rfl
  refine ⟨fun hf => ?_, fun hf now => ?_⟩
  · rw [← hpump 0]
    exact hf 0
  · rw [hpump now]
    exact hf

theorem Inv.faithful_iff (h : Inv p roomId me s) :
    Faithful me s ↔ s.delivered ++
      newest frameKey (s.receiver.lastVoice me) (s.inFlight roomId me) =
        s.sent.map (arrived me) := h.connected.faithful_iff h.readable

theorem Init.faithful (h : Init env p roomId me s) : Faithful me s := by
  rw [h.inv.faithful_iff, State.inFlight, h.channel, h.sent, h.delivered]
  rfl

/-- A step of the sender that sends no voice, and at most restarts the numbering. -/
theorem Inv.quiet (h : Inv p roomId me s) {app : Application α β} {l : List Arrival}
    (hvoice : app.voice.sequence = s.app.voice.sequence ∨ app.voice.sequence = 0)
    (hsetup : DirectVoiceTransport.SameSetup s.app.directVoice app.directVoice)
    (hreached : app.directVoice.reached p ≠ []) (hpings : s.app.directVoice.Pings l) :
    Inv p roomId me { s with app, channel := s.channel ++ l } ∧
      (Faithful me { s with app, channel := s.channel ++ l } ↔ Faithful me s) := by
  have hc := h.connected
  obtain ⟨hnone, hfit⟩ := hpings.noVoice hc.fits roomId me
  have hflight : (s.channel ++ l).filterMap (voiceOf roomId me) = s.inFlight roomId me := by
    rw [List.filterMap_append, hnone, List.append_nil]
    rfl
  have hinv : Inv p roomId me { s with app, channel := s.channel ++ l } := by
    refine ⟨⟨hsetup.running.trans hc.running, hsetup.roomId.trans hc.room,
      hsetup.localPeerId.trans hc.localPeer, hsetup.idsFit hc.fits, hreached, hc.receiverRunning,
      hc.receiverCallback, hc.receiverRoom, hc.receiverPeer, hc.named⟩, fun a ha => ?_, ?_, ?_, ?_⟩
    · exact (List.mem_append.mp ha).elim (h.readable a) (hfit a)
    · rw [State.inFlight, hflight]
      exact h.last
    · rcases hvoice with hsame | hzero
      · rw [hsame]
        exact h.count
      · rw [hzero]
        exact Nat.zero_le _
    · rcases hvoice with hsame | hzero
      · rw [hsame]
        exact h.numbered
      · exact Or.inl hzero
  refine ⟨hinv, ?_⟩
  rw [hinv.faithful_iff, h.faithful_iff, State.inFlight, hflight]

/-- The same without datagrams. -/
theorem Inv.voice (h : Inv p roomId me s) {app : Application α β}
    (hvoice : app.voice.sequence = s.app.voice.sequence ∨ app.voice.sequence = 0)
    (hsame : app.directVoice = s.app.directVoice) :
    Inv p roomId me { s with app } ∧ (Faithful me { s with app } ↔ Faithful me s) := by
  have hquiet := h.quiet (l := []) hvoice (hsame ▸ .refl _)
    (by rw [hsame]; exact h.connected.reached)
    .nil
  rwa [List.append_nil] at hquiet

/-- A signal that the receiver handles. It may change the route of the sender, but not the number of
the last frame taken. -/
theorem Inv.signal (h : Inv p roomId me s) {receiver : DirectVoiceTransport}
    (hkeeps : DirectVoiceTransport.Keeps s.receiver receiver me) :
    Inv p roomId me { s with receiver } ∧ (Faithful me { s with receiver } ↔ Faithful me s) := by
  have hc := h.connected
  obtain ⟨hsetup, hlast⟩ := hkeeps
  have hinv : Inv p roomId me { s with receiver } := by
    refine ⟨⟨hc.running, hc.room, hc.localPeer, hc.fits, hc.reached,
      hsetup.running.trans hc.receiverRunning, hsetup.frameCallback.trans hc.receiverCallback,
      hsetup.roomId.trans hc.receiverRoom, hsetup.localPeerId ▸ hc.receiverPeer, hc.named⟩,
      h.readable, ?_, h.count, h.numbered⟩
    show lastKey frameKey (receiver.lastVoice me) _ = _
    rw [hlast]
    exact h.last
  refine ⟨hinv, ?_⟩
  rw [hinv.faithful_iff, h.faithful_iff]
  dsimp only
  rw [hlast]
  rfl

/-- The receiver reads some of the channel, in order, as far as it likes. That loses nothing, and
delivers nothing twice. -/
theorem Inv.receive (h : Inv p roomId me s) (now count : ℕ) :
    Inv p roomId me (next env isNumericHost p me s (.receive now count)) ∧
      (Faithful me (next env isNumericHost p me s (.receive now count)) ↔ Faithful me s) := by
  have hc := h.connected
  have hread : ∀ a ∈ s.channel.take count, a.data.length ≤ 1500 :=
    fun a ha => h.readable a (List.mem_of_mem_take ha)
  obtain ⟨htakes, hleft⟩ := DirectVoiceTransport.pump_takes hc.named hc.receiverPeer
    hc.receiverCallback hc.receiverRunning now (s.channel.take count)
  rw [DirectVoiceTransport.readable_eq_self hread, hc.receiverRoom] at htakes
  rw [DirectVoiceTransport.unread_eq_nil hread] at hleft
  obtain ⟨hsetup, hdelivers, hvoice⟩ := htakes
  have hsplit : s.inFlight roomId me = (s.channel.take count).filterMap (voiceOf roomId me) ++
      (s.channel.drop count).filterMap (voiceOf roomId me) := by
    rw [← List.filterMap_append, List.take_append_drop]
    rfl
  have hrest : (next env isNumericHost p me s (.receive now count)).inFlight roomId me =
      (s.channel.drop count).filterMap (voiceOf roomId me) := by
    rw [State.inFlight, next]
    dsimp only
    rw [hleft]
    rfl
  have hinv : Inv p roomId me (next env isNumericHost p me s (.receive now count)) := by
    refine ⟨⟨hc.running, hc.room, hc.localPeer, hc.fits, hc.reached,
      hsetup.running.trans hc.receiverRunning, hsetup.frameCallback.trans hc.receiverCallback,
      hsetup.roomId.trans hc.receiverRoom, hsetup.localPeerId ▸ hc.receiverPeer, hc.named⟩,
      fun a ha => ?_, ?_, h.count, h.numbered⟩
    · change a ∈ (s.receiver.pump now _).2.2 ++ _ at ha
      rw [hleft] at ha
      exact h.readable a (List.mem_of_mem_drop ha)
    · rw [hrest]
      show lastKey frameKey ((s.receiver.pump now _).1.lastVoice me) _ = _
      rw [hvoice, ← lastKey_append, ← hsplit]
      exact h.last
  refine ⟨hinv, ?_⟩
  rw [hinv.faithful_iff, h.faithful_iff, hrest, hsplit, newest_append, next]
  dsimp only
  rw [hdelivers, hvoice, List.append_assoc]

/-! ### A pump of the engine -/

theorem length_sent (henv : env.Codes) (hlt : s.app.voice.sequence.toNat +
    s.app.voice.outgoing.length < 2 ^ 32) (now : ℕ) :
    (s.app.voice.pump env now).2.length = s.app.voice.outgoing.length := by
  rw [← (Audio.VoiceEngine.sent_pump henv now hlt).pcm, List.length_map]

/-- The frames that a pump of the engine sends. -/
def transmitted (env : Platform α β) (me : Bytes) (s : State α β) (now : ℕ) :
    List EncodedVoiceFrame :=
  ((s.app.voice.pump env now).2.map SentFrame.frame).map (arrived me)

/-- Their numbers are consecutive, from `sequence` on, as long as they do not run out. -/
theorem keys_transmitted (henv : env.Codes) (hlt : s.app.voice.sequence.toNat +
    s.app.voice.outgoing.length < 2 ^ 32) (now : ℕ) :
    (transmitted env me s now).map frameKey =
      List.range' s.app.voice.sequence.toNat s.app.voice.outgoing.length := by
  rw [← (Audio.VoiceEngine.sent_pump henv now hlt).numbers, transmitted, List.map_map, List.map_map]
  rfl

/-- **On the channel** each of them is repeated for every endpoint that reaches the receiver, one or
more, and each datagram fits. -/
theorem inFlight_pumpVoice (h : Inv p roomId me s) (henv : env.Codes)
    (hlt : s.app.voice.sequence.toNat + s.app.voice.outgoing.length < 2 ^ 32) (now : ℕ) :
    (∃ copies, (next env isNumericHost p me s (.pumpVoice now)).inFlight roomId me =
        s.inFlight roomId me ++
          (transmitted env me s now).flatMap fun f => List.replicate (copies + 1) f) ∧
      ∀ a ∈ (next env isNumericHost p me s (.pumpVoice now)).channel, a.data.length ≤ 1500 := by
  have hc := h.connected
  obtain ⟨-, hcarried⟩ := s.app.pumpVoice_eq env now
  have hsends := Audio.VoiceEngine.sent_pump henv now hlt
  have hsendable : ∀ f ∈ (s.app.voice.pump env now).2.map SentFrame.frame,
      DirectVoiceTransport.Sendable f := by
    intro f hf
    obtain ⟨x, hx, rfl⟩ := List.mem_map.mp hf
    exact (hsends.coded x hx).2
  have hcopies : (s.app.directVoice.reached p).length =
      (s.app.directVoice.reached p).length - 1 + 1 := by
    have hpos := List.length_pos_iff.mpr hc.reached
    omega
  have hchannel : (next env isNumericHost p me s (.pumpVoice now)).channel =
      s.channel ++ ((s.app.voice.pump env now).2.map SentFrame.frame).flatMap fun f =>
        p.carry (s.app.directVoice.sendVoiceFrame f) := by
    rw [← hcarried]
    rfl
  rw [State.inFlight, transmitted]
  generalize (s.app.voice.pump env now).2.map SentFrame.frame = frames at hsendable hchannel
  refine ⟨⟨(s.app.directVoice.reached p).length - 1, ?_⟩, fun a ha => ?_⟩
  · rw [hchannel, List.filterMap_append, List.filterMap_flatMap, List.flatMap_map, ← hcopies]
    refine congrArg (s.inFlight roomId me ++ ·) (List.flatMap_congr fun f hf => ?_)
    rw [← hc.room, ← hc.localPeer]
    exact DirectVoiceTransport.voiceOf_carry_sendVoiceFrame hc.fits (hsendable f hf) hc.running p
  · rw [hchannel] at ha
    rcases List.mem_append.mp ha with ha | ha
    · exact h.readable a ha
    · obtain ⟨f, hf, ha⟩ := List.mem_flatMap.mp ha
      exact DirectVoiceTransport.readable_carry_sendVoiceFrame hc.fits (hsendable f hf) hc.running p
        a ha

theorem connected_pumpVoice (h : Connected p roomId me s) (now : ℕ) :
    Connected p roomId me (next env isNumericHost p me s (.pumpVoice now)) := by
  have hsame : (next env isNumericHost p me s (.pumpVoice now)).app.directVoice =
      s.app.directVoice := by
    rw [next]
    dsimp only
    rw [(s.app.pumpVoice_eq env now).1]
  refine ⟨?_, ?_, ?_, ?_, ?_, h.receiverRunning, h.receiverCallback, h.receiverRoom, h.receiverPeer,
    h.named⟩
  · rw [hsame]
    exact h.running
  · rw [hsame]
    exact h.room
  · rw [hsame]
    exact h.localPeer
  · rw [hsame]
    exact h.fits
  · rw [hsame]
    exact h.reached

/-- **What a pump of the engine does.** It keeps the invariant and loses nothing, unless it numbers
frames again that have been numbered before; then it does lose one. -/
theorem Inv.pumpVoice (h : Inv p roomId me s) (henv : env.Codes) (now : ℕ)
    (hen : s.sent.length + s.app.voice.outgoing.length < 2 ^ 32) :
    (¬ Restarted s (.pumpVoice now) →
        Inv p roomId me (next env isNumericHost p me s (.pumpVoice now))) ∧
      (Faithful me s → (Faithful me (next env isNumericHost p me s (.pumpVoice now)) ↔
        ¬ Restarted s (.pumpVoice now))) := by
  have hcount := h.count
  have hlt : s.app.voice.sequence.toNat + s.app.voice.outgoing.length < 2 ^ 32 := by omega
  obtain ⟨⟨copies, hflight⟩, hread⟩ :=
    @inFlight_pumpVoice _ _ env isNumericHost p roomId me s h henv hlt now
  obtain ⟨hcopies, hlastCopies⟩ := @newest_copies _ _ _ frameKey
    (lastKey frameKey ⊥ (s.sent.map (arrived me))) (fun _ => copies) (transmitted env me s now)
  have hkeys := @keys_transmitted _ _ env me s henv hlt now
  have hc := @connected_pumpVoice _ _ env isNumericHost p roomId me s h.connected now
  have hsent : (next env isNumericHost p me s (.pumpVoice now)).sent.map (arrived me) =
      s.sent.map (arrived me) ++ transmitted env me s now := List.map_append
  have hsequence : (next env isNumericHost p me s (.pumpVoice now)).app.voice.sequence.toNat =
      s.app.voice.sequence.toNat + s.app.voice.outgoing.length := by
    rw [← (Audio.VoiceEngine.sent_pump henv now hlt).next, next]
    dsimp only
    rw [(s.app.pumpVoice_eq env now).1]
  have hpass : ¬ Restarted s (.pumpVoice now) ↔ s.app.voice.outgoing.length = 0 ∨
      lastKey frameKey ⊥ (s.sent.map (arrived me)) <
        WithBot.some s.app.voice.sequence.toNat := by
    constructor
    · intro hgood
      by_cases hout : s.app.voice.outgoing = []
      · exact Or.inl (by rw [hout]; rfl)
      by_cases hnone : s.sent = []
      · rw [hnone]
        exact Or.inr (WithBot.bot_lt_coe _)
      · exact Or.inr (h.numbered.resolve_left fun h0 => hgood ⟨hout, hnone, h0⟩)
    · rintro hor ⟨hout, hnone, h0⟩
      obtain ⟨f, l, hf⟩ := List.exists_cons_of_ne_nil hnone
      rcases hor with hzero | hpast
      · exact hout (List.length_eq_zero_iff.mp hzero)
      · have hfirst : frameKey (arrived me f) < s.app.voice.sequence.toNat :=
          WithBot.coe_lt_coe.mp ((key_le_lastKey (by rw [hf]; exact List.mem_cons_self)).trans_lt
            hpast)
        rw [h0] at hfirst
        exact absurd hfirst (Nat.not_lt_zero _)
  constructor
  · intro hgood
    refine ⟨hc, hread, ?_, ?_, ?_⟩
    · rw [hflight, hsent, lastKey_append, lastKey_append]
      show lastKey frameKey (lastKey frameKey (s.receiver.lastVoice me) _) _ = _
      rw [h.last, hlastCopies]
    · rw [hsequence]
      show _ ≤ (s.sent ++ _).length
      rw [List.length_append, List.length_map, length_sent henv hlt now]
      omega
    · rw [hsent, hsequence]
      rcases hpass.mp hgood with hzero | hpast
      · have hnone : transmitted env me s now = [] := by
          rw [hzero] at hkeys
          exact List.map_eq_nil_iff.mp hkeys
        rw [hzero, Nat.add_zero] at hsequence ⊢
        rw [hnone, List.append_nil, UInt32.toNat_inj.mp hsequence]
        exact h.numbered
      · right
        rcases @lastKey_eq_or _ _ _ frameKey ⊥
          (s.sent.map (arrived me) ++ transmitted env me s now) with hbot | ⟨x, hx, hlast⟩
        · rw [hbot]
          exact WithBot.bot_lt_coe _
        · rw [hlast, WithBot.coe_lt_coe]
          rcases List.mem_append.mp hx with hx | hx
          · have hle := WithBot.coe_lt_coe.mp ((key_le_lastKey hx).trans_lt hpast)
            omega
          · have hx' := List.mem_map_of_mem (f := frameKey) hx
            rw [hkeys, List.mem_range'_1] at hx'
            exact hx'.2
  · intro hf
    rw [hc.faithful_iff hread, hpass, ← newest_eq_iff hkeys, hflight, hsent, newest_append]
    show _ ++ (_ ++ newest frameKey (lastKey frameKey (s.receiver.lastVoice me) _) _) = _ ↔ _
    rw [h.last, hcopies, ← List.append_assoc]
    show s.delivered ++ newest frameKey (s.receiver.lastVoice me) _ ++ _ = _ ↔ _
    rw [h.faithful_iff.mp hf, List.append_cancel_left_eq]

/-! ### Steps and runs -/

/-- The engine's numbering when new audio settings are applied. -/
theorem applyAudioSettings_same (app : Application α β) (now : ℕ) (settings : AudioSettings) :
    ((app.applyAudioSettings env now settings).voice.sequence = app.voice.sequence ∨
        (app.applyAudioSettings env now settings).voice.sequence = 0) ∧
      (app.applyAudioSettings env now settings).directVoice = app.directVoice := by
  rw [Application.applyAudioSettings]
  split
  · exact ⟨Or.inr rfl, rfl⟩
  · exact ⟨Or.inl rfl, rfl⟩

/-- A step that is no pump of the engine. It keeps the invariant, and what the receiver has been
handed or can still be handed stays the same. -/
theorem Inv.step (h : Inv p roomId me s) {a : Action α} (hen : Enabled isNumericHost p s a)
    (hpump : ∀ now, a ≠ .pumpVoice now) :
    Inv p roomId me (next env isNumericHost p me s a) ∧
      (Faithful me (next env isNumericHost p me s a) ↔ Faithful me s) := by
  cases a with
  | record i samples => exact h.voice (Or.inl rfl) rfl
  | complete i => exact h.voice (Or.inl rfl) rfl
  | pumpVoice now => exact absurd rfl (hpump now)
  | toggleMute now => exact h.voice (Or.inl rfl) rfl
  | setPushToTalkActive active => exact h.voice (Or.inl rfl) rfl
  | applyAudioSettings now settings =>
    obtain ⟨hvoice, hsame⟩ := @applyAudioSettings_same _ _ env s.app now settings
    exact h.voice hvoice hsame
  | pumpDirectVoice now arrivals =>
    obtain ⟨hvoice, -, hsetup, hpings, -⟩ := s.app.pumpDirectVoice_same now arrivals
    exact h.quiet (Or.inl (congrArg Audio.VoiceEngine.sequence hvoice)) hsetup hen (hpings p)
  | event now event =>
    obtain ⟨hopen, hreached⟩ := hen
    have hcalm := @Application.handleSignalingEvent_calm _ _ s.app isNumericHost now event hopen
    exact h.quiet (Or.inl (congrArg Audio.VoiceEngine.sequence hcalm.voice)) hcalm.setup hreached
      (hcalm.pings p)
  | signal now sourcePeerId type payloadJson =>
    exact h.signal (DirectVoiceTransport.handleSignal_keeps isNumericHost now sourcePeerId type
      payloadJson me)
  | receive now count => exact h.receive now count

/-- **One step.** Where nothing has been lost, a step loses something exactly when it sends with an
engine that has been restarted. -/
theorem faithful_next_iff (henv : env.Codes) (h : Inv p roomId me s) (hf : Faithful me s)
    {a : Action α} (hen : Enabled isNumericHost p s a) :
    Faithful me (next env isNumericHost p me s a) ↔ ¬ Restarted s a := by
  by_cases hpump : ∃ now, a = .pumpVoice now
  · obtain ⟨now, rfl⟩ := hpump
    exact (h.pumpVoice henv now hen).2 hf
  · have hother : ∀ now, a ≠ .pumpVoice now := fun now heq => hpump ⟨now, heq⟩
    have hgood : ¬ Restarted s a := by
      cases a with
      | pumpVoice now => exact absurd rfl (hother now)
      | _ => exact id
    exact ⟨fun _ => hgood, fun _ => (h.step hen hother).2.mpr hf⟩

theorem Inv.next (henv : env.Codes) (h : Inv p roomId me s) {a : Action α}
    (hgood : ¬ Restarted s a) (hen : Enabled isNumericHost p s a) :
    Inv p roomId me (next env isNumericHost p me s a) := by
  by_cases hpump : ∃ now, a = .pumpVoice now
  · obtain ⟨now, rfl⟩ := hpump
    exact (h.pumpVoice henv now hen).1 hgood
  · exact (h.step hen fun now heq => hpump ⟨now, heq⟩).1

/-- A run without such pumps keeps the invariant, and loses nothing. Restarts are allowed in it, as
long as no frame is sent under a number that was given before. -/
theorem inv_of_run (henv : env.Codes) {t : List (State α β × Action α)}
    (h : (machine env isNumericHost p roomId me).Run t s)
    (hgood : ∀ x ∈ t, ¬ Restarted x.1 x.2) : Inv p roomId me s ∧ Faithful me s := by
  refine @Machine.Run.invariant_of_good _ _ _ (fun s => Inv p roomId me s ∧ Faithful me s)
    (fun s a => ¬ Restarted s a) (fun s hs => ⟨Init.inv hs, Init.faithful hs⟩)
    (fun s a s' hs hgood hstep => ?_) t s h hgood
  obtain ⟨hen, rfl⟩ := hstep
  exact ⟨hs.1.next henv hgood hen, (faithful_next_iff henv hs.1 hs.2 hen).mpr hgood⟩

/-- **Frames are lost by a restart and by nothing else.** In every run of the sender and the
receiver, over a way that loses and overtakes nothing: all frames sent are delivered, each once and
in order, in every state it visits exactly when no pump sends with an engine that has been restarted
since it sent. The sender's counter stays below `2 ^ 32`. -/
theorem faithful_iff_not_restarted {openWaveIn : ℚ → Bytes → Option (WaveIn Int16 Int16)}
    {codec : CodecEnv} {t : List (State Int16 Int16 × Action Int16)} {s : State Int16 Int16}
    (h : (machine (.ofCodec openWaveIn codec) isNumericHost p roomId me).Run t s) :
    ((∀ x ∈ t, Faithful me x.1) ∧ Faithful me s) ↔ ∀ x ∈ t, ¬ Restarted x.1 x.2 := by
  have henv := Platform.codes_ofCodec openWaveIn codec
  refine @Machine.Run.visited_iff_of_inv _ _ _ (Inv p roomId me) (Faithful me)
    (fun s a => ¬ Restarted s a) (fun s hs => ⟨Init.inv hs, Init.faithful hs⟩)
    (fun s a s' hs hgood hstep => ?_) (fun s a s' hs hf hstep => ?_) t s h
  · obtain ⟨hen, rfl⟩ := hstep
    exact hs.next henv hgood hen
  · obtain ⟨hen, rfl⟩ := hstep
    exact faithful_next_iff henv hs hf hen

/-! ### A restart between two frames -/

/-- Every datagram arrives. -/
def path : Path := ⟨fun _ => true, id⟩

/-- Two clients in the room `[1]`: the sender `[2]` knows an endpoint of the receiver `[3]`. -/
def joined : State Int16 Int16 where
  app :=
    { voice := Audio.VoiceEngine.start Platform.loud { transport := true } 0
      session := { localPeer := { id := [2], lastSeen := 0 } }
      directVoice :=
        { roomId := [1]
          localPeerId := [2]
          peers := FMap.put ∅ [3] { createdAt := 1, learnedEndpoint := some ⟨[4], 5⟩ }
          running := true } }
  receiver := { frameCallback := true, roomId := [1], localPeerId := [3], running := true }

theorem joined_init : Init .loud path [1] [2] joined where
  connected :=
    { running := rfl
      room := rfl
      localPeer := rfl
      fits := by show 1 + 1 ≤ 272; decide
      reached := by decide +kernel
      receiverRunning := rfl
      receiverCallback := rfl
      receiverRoom := rfl
      receiverPeer := by decide
      named := by decide }
  engine := ⟨_, _, rfl⟩
  fresh := rfl
  channel := rfl
  sent := rfl
  delivered := rfl

instance (s : State Int16 Int16) (a : Action Int16) :
    Decidable (Enabled (fun _ => true) path s a) :=
  match a with
  | .record i samples => inferInstanceAs (Decidable (s.app.voice.CanRecord i samples.length))
  | .complete i => inferInstanceAs (Decidable (s.app.voice.CanComplete i))
  | .pumpVoice _ =>
    inferInstanceAs (Decidable (s.sent.length + s.app.voice.outgoing.length < 2 ^ 32))
  | .toggleMute _ => isTrue trivial
  | .setPushToTalkActive _ => isTrue trivial
  | .applyAudioSettings _ _ => isTrue trivial
  | .pumpDirectVoice now arrivals => inferInstanceAs (Decidable
      ((s.app.pumpDirectVoice now arrivals).1.directVoice.reached path ≠ []))
  | .event now event => inferInstanceAs (Decidable (event ≠ .roomClosed ∧
      (s.app.handleSignalingEvent (fun _ => true) now event).1.directVoice.reached path ≠ []))
  | .signal _ _ _ _ => isTrue trivial
  | .receive _ _ => isTrue trivial

instance (s : State Int16 Int16) (a : Action Int16) : Decidable (Restarted s a) :=
  match a with
  | .pumpVoice _ => inferInstanceAs (Decidable
      (s.app.voice.outgoing ≠ [] ∧ s.sent ≠ [] ∧ s.app.voice.sequence = 0))
  | .record _ _ => isFalse id
  | .complete _ => isFalse id
  | .toggleMute _ => isFalse id
  | .setPushToTalkActive _ => isFalse id
  | .applyAudioSettings _ _ => isFalse id
  | .pumpDirectVoice _ _ => isFalse id
  | .event _ _ => isFalse id
  | .signal _ _ _ _ => isFalse id
  | .receive _ _ => isFalse id

/-- A frame is recorded. -/
def recorded (sample : Int16) : List (Action Int16) :=
  [.record firstBuffer (List.replicate 320 sample), .complete firstBuffer]

/-- New settings before the first frame, a mute between the second and the third, and the receiver
is pumped twice. -/
def talk : List (Action Int16) :=
  .applyAudioSettings 10 {} :: recorded 5000 ++ [.pumpVoice 20, .receive 30 1] ++ recorded 6000 ++
    [.pumpVoice 40, .toggleMute 50, .toggleMute 60] ++ recorded 7000 ++
    [.pumpVoice 70, .receive 80 2]

/-- New settings between two frames, up to the second pump. -/
def restart : List (Action Int16) :=
  recorded 5000 ++ [.pumpVoice 20, .applyAudioSettings 30 {}] ++ recorded 5000

/-- The state after some actions. -/
def play (actions : List (Action Int16)) : State Int16 Int16 :=
  actions.foldl (next .loud (fun _ => true) path [2]) joined

theorem talk_run : (machine .loud (fun _ => true) path [1] [2]).Run
    (Machine.trace (next .loud (fun _ => true) path [2]) joined talk) (play talk) :=
  Machine.run_trace joined_init (by decide +kernel)

/-- All three frames arrive, and the restart before the first costs none. -/
theorem faithful_iff_not_restarted_talk :
    Faithful [2] (play talk) ∧ (play talk).delivered.length = 3 :=
  ⟨((faithful_iff_not_restarted talk_run).mpr (by decide +kernel)).2, by decide +kernel⟩

theorem restart_run : (machine .loud (fun _ => true) path [1] [2]).Run
    (Machine.trace (next .loud (fun _ => true) path [2]) joined restart) (play restart) :=
  Machine.run_trace joined_init (by decide +kernel)

/-- **A restart that loses a frame.** The second frame has the number 0 again. -/
theorem restart_loses : ∃ t s, (machine .loud (fun _ => true) path [1] [2]).Run t s ∧
    ¬ Faithful [2] s := by
  have henv : Platform.loud.Codes := Platform.codes_ofCodec _ _
  obtain ⟨hinv, hf⟩ := inv_of_run henv restart_run (by decide +kernel)
  have hen : Enabled (fun _ => true) path (play restart) (.pumpVoice 50) := by decide +kernel
  refine ⟨_, _, restart_run.snoc ⟨hen, rfl⟩, fun hfaithful => ?_⟩
  exact (faithful_next_iff henv hinv hf hen).mp hfaithful (by decide +kernel)

end Numbering

end Client

end TarkovVoice

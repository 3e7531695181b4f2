import TarkovVoice.Audio.Provenance
import TarkovVoice.Client.Effects

/-!
# From the microphone to the mix

One client speaks and another listens. The network between them may lose, repeat, reorder and delay
the datagrams of the speaker, and the relay its frames; neither makes up any in the name of the
speaker. Everybody else may send the listener whatever they like, and the coordinator may tell it
anything.

What the listener mixes as the voice of the speaker is then a part of what the speaker sent, in the
order it was spoken and without repetition, as long as the queue of the speaker is not erased in
between. Without Opus it is, sample by sample, what was captured, or what the ADPCM coder predicted.

## Main definitions

* `Heard.machine` — the speaker, the listener and its playback side
* `Heard.Genuine` — what comes in the name of the speaker is its own
* `Heard.mixed` — the frames of the speaker that are mixed in a run

## Main results

* `Heard.genuine_of_run` — the three parts of the system, each in a run of its own
* `Heard.heard_was_said`
-/

namespace TarkovVoice

namespace Net

namespace DirectVoiceTransport

open Audio (EncodedVoiceFrame)

variable {d : DirectVoiceTransport} {k : Bytes} {f : EncodedVoiceFrame}

theorem eq_of_mem_receiveVoice {r : PeerRoute} {packet : DecodedPacket}
    (h : f ∈ framesOf k (receiveVoice r packet).2) :
    packet.sourcePeerId = k ∧ f = voiceFrame packet := by
  rw [receiveVoice] at h
  split at h
  · exact absurd h List.not_mem_nil
  · dsimp only at h
    rw [framesOf_frame] at h
    split at h
    · next hk => exact ⟨hk, List.mem_singleton.mp h⟩
    · exact absurd h List.not_mem_nil

/-- A datagram that passes on a frame carries it. -/
theorem voiceOf_of_mem_receive {now : ℕ} {a : Arrival}
    (h : f ∈ framesOf k (d.receive now a).2) : k ≠ [] ∧ voiceOf d.roomId k a = some f := by
  rw [receive] at h
  rw [voiceOf]
  cases hdecode : decodePacket a.data a.data.length with
  | error _ =>
    rw [hdecode] at h
    exact absurd h List.not_mem_nil
  | ok packet =>
    rw [hdecode] at h
    dsimp only at h ⊢
    by_cases hskip : packet.roomId ≠ d.roomId ∨ packet.sourcePeerId = [] ∨
        packet.sourcePeerId = d.localPeerId
    · rw [if_pos hskip] at h
      exact absurd h List.not_mem_nil
    · rw [if_neg hskip, receivePacket] at h
      by_cases hvoice : packet.type = kPacketVoice ∧ d.frameCallback = true
      · rw [if_pos hvoice] at h
        obtain ⟨hk, hf⟩ := eq_of_mem_receiveVoice h
        have hnil : packet.sourcePeerId ≠ [] := fun hnil => hskip (Or.inr (Or.inl hnil))
        have hroom : packet.roomId = d.roomId := not_not.mp fun hne => hskip (Or.inl hne)
        rw [if_pos ⟨hroom, hk, hvoice.1⟩, hf]
        exact ⟨hk ▸ hnil, rfl⟩
      · rw [if_neg hvoice] at h
        exact absurd h List.not_mem_nil

/-- What a pump passes on was carried by a datagram it read. -/
theorem voiceOf_of_mem_pump {now : ℕ} {arrivals : List Arrival}
    (h : f ∈ framesOf k (d.pump now arrivals).2.1) :
    k ≠ [] ∧ ∃ a ∈ arrivals, voiceOf d.roomId k a = some f := by
  have hdrain : f ∈ framesOf k (drainSocket now d arrivals).2.1 →
      k ≠ [] ∧ ∃ a ∈ readable arrivals, voiceOf d.roomId k a = some f := by
    refine drainSocket_rule now (P := fun d l _ out => f ∈ framesOf k out →
      k ≠ [] ∧ ∃ a ∈ l, voiceOf d.roomId k a = some f) ?_ ?_ arrivals d
    · exact fun _ hf => absurd hf List.not_mem_nil
    · intro d a l d' out hrest hf
      rw [framesOf_append] at hf
      rcases List.mem_append.mp hf with hf | hf
      · obtain ⟨hk, hvoice⟩ := voiceOf_of_mem_receive hf
        exact ⟨hk, a, List.mem_cons_self, hvoice⟩
      · obtain ⟨hk, b, hb, hvoice⟩ := hrest hf
        rw [(sameSetup_receive now a).roomId] at hvoice
        exact ⟨hk, b, List.mem_cons_of_mem a hb, hvoice⟩
  rw [pump] at h
  split at h
  · exact absurd h List.not_mem_nil
  · dsimp only at h
    have hsilent : framesOf k (pumpRoutes now (drainSocket now d arrivals).1
        (drainSocket now d arrivals).1.peersInOrder).2 = [] :=
      filterMap_pumpRoutes (fun _ _ => rfl) (fun _ _ _ => rfl) now _ _
    rw [framesOf_append, hsilent, List.append_nil] at h
    obtain ⟨hk, a, ha, hvoice⟩ := hdrain h
    exact ⟨hk, a, (List.takeWhile_sublist _).subset ha, hvoice⟩

/-- What is read from the datagram of a frame is that frame. -/
theorem eq_arrived_of_voicePacket {roomId : Bytes} {g : EncodedVoiceFrame} {a : Arrival}
    (hdata : a.data = voicePacket roomId k g) (h : voiceOf roomId k a = some f) :
    f = arrived k g := by
  rw [voiceOf, hdata, voicePacket] at h
  by_cases hlong : g.payload.length > kMaxUdpPayloadBytes ∨ roomId.length > 0xffff ∨
      k.length > 0xffff
  · have hempty : decodePacket [] (List.length ([] : Bytes)) = .error .nullopt := rfl
    rw [encodePacket, if_pos hlong, hempty] at h
    exact absurd h (Option.some_ne_none f).symm
  · simp only [not_or, not_lt] at hlong
    have hdecode := @decodePacket_encode_append kPacketVoice roomId k g.sequence g.captureUnixMs
      g.payload hlong.2.1 hlong.2.2 hlong.1 []
    rw [List.append_nil] at hdecode
    rw [hdecode] at h
    dsimp only at h
    rw [if_pos ⟨rfl, rfl, rfl⟩] at h
    exact (Option.some.inj h).symm

end DirectVoiceTransport

end Net

namespace Client

open Net (Arrival Bytes DirectVoiceTransport)
open Net.DirectVoiceTransport (arrived voiceOf voicePacket)
open Audio (CodecEnv DecoderEnv EncodedVoiceFrame Platform RemotePlayback SentFrame WaveIn
  carriedOver)
open Audio.NativeAudioCapture (firstBuffer)
open Audio.RemotePlayback (sourceOf takenFrom)

namespace Application

open Effect

variable {α β : Type*} {app : Application α β} {f : EncodedVoiceFrame}

/-- A frame that an event passes on is the frame of the event. -/
theorem eq_of_played_handleSignalingEvent {isNumericHost : Bytes → Bool} {now : ℕ}
    {event : SignalingEvent}
    (h : f ∈ played (app.handleSignalingEvent isNumericHost now event).2) :
    event = .voiceFrame f := by
  have hquiet : event ≠ .roomClosed → event.about = none → event = .voiceFrame f := by
    intro hclosed habout
    have hcalm := @handleSignalingEvent_calm _ _ app isNumericHost now event hclosed
    have hnone := hcalm.played f.sourcePeerId (habout ▸ Option.some_ne_none _)
    exact absurd (List.mem_filter.mpr ⟨h, decide_eq_true rfl⟩) (hnone ▸ List.not_mem_nil)
  cases event with
  | voiceFrame frame =>
    rw [handleSignalingEvent] at h
    split at h
    · exact absurd h List.not_mem_nil
    · split at h
      · rw [List.mem_singleton.mp h]
      · exact absurd h List.not_mem_nil
  | roomClosed => exact absurd h List.not_mem_nil
  | peerLeft peerId =>
    rw [handleSignalingEvent] at h
    split at h <;> exact absurd h List.not_mem_nil
  | joinedRoom room => exact hquiet SignalingEvent.noConfusion rfl
  | peerStatus peer => exact hquiet SignalingEvent.noConfusion rfl
  | peerJoined peer => exact hquiet SignalingEvent.noConfusion rfl
  | ice sourcePeerId type payloadJson => exact hquiet SignalingEvent.noConfusion rfl

/-- A frame that a pump of the transport passes on was carried by a datagram it read. -/
theorem voiceOf_of_played_pumpDirectVoice {now : ℕ} {arrivals : List Arrival}
    (h : f ∈ played (app.pumpDirectVoice now arrivals).2.1) :
    f.sourcePeerId ≠ [] ∧
      ∃ a ∈ arrivals, voiceOf app.directVoice.roomId f.sourcePeerId a = some f := by
  obtain ⟨-, -, hplayed, -⟩ := callbacks_effects now ⟨fun _ => false, id⟩ f.sourcePeerId
    (app.directVoice.pump now arrivals).2.1
    { app with directVoice := (app.directVoice.pump now arrivals).1 }
  refine @DirectVoiceTransport.voiceOf_of_mem_pump _ _ _ now arrivals ?_
  rw [← hplayed]
  exact List.mem_filter.mpr ⟨h, decide_eq_true rfl⟩

end Application

namespace Heard

/-- What is fixed: the speaker's devices and encoders, the decoders of the listener, which addresses
are numeric, and the id of the speaker. -/
structure Setting where
  openWaveIn : ℚ → Bytes → Option (WaveIn Int16 Int16)
  codec : CodecEnv
  decoder : DecoderEnv
  isNumericHost : Bytes → Bool
  speaker : Bytes

/-- The speaker's engine with what it has sent, and the listener with its playback side. The network
between them is in the labels: what arrives is any selection of what was sent. -/
structure State where
  sender : Audio.Muting.State Int16 Int16
  app : Application Int16 Int16
  playback : RemotePlayback

/-- What happens. The two sides of the listener read the clock for themselves, so that the two
readings of one call need not agree, nor increase. -/
inductive Action
  | speak (event : Audio.PreSpeech.Event Int16)
  /-- The direct transport of the listener is pumped. -/
  | pump (now clock : ℕ) (arrivals : List Arrival)
  /-- The listener handles an event of the coordinator. -/
  | handle (now clock : ℕ) (event : SignalingEvent)
  | mix (clock : ℕ)

variable (g : Setting)

/-- The speaker's build. -/
def Setting.platform : Platform Int16 Int16 := .ofCodec g.openWaveIn g.codec

/-- What an action does to the listener but for its playback side, which has a state of its own
here. -/
def listen (app : Application Int16 Int16) : Action → Application Int16 Int16 × List Effect
  | .pump now _ arrivals =>
    ((app.pumpDirectVoice now arrivals).1, (app.pumpDirectVoice now arrivals).2.1)
  | .handle now _ event => app.handleSignalingEvent g.isNumericHost now event
  | _ => (app, [])

/-- The calls of the playback side in an action: one for each frame handed over, or one for
a mix. -/
def calls (app : Application Int16 Int16) (action : Action) : List Audio.Jitter.Call :=
  match action with
  | .pump _ clock _ | .handle _ clock _ =>
    (Effect.played (listen g app action).2).map (.playRemoteFrame clock)
  | .mix clock => [.pumpRemotePlayback clock]
  | .speak _ => []

/-- What a call does to the playback side. -/
def play (p : RemotePlayback) (c : Audio.Jitter.Call) : RemotePlayback :=
  (Audio.Jitter.call g.decoder p c).1

/-- What an action does: to the speaker if it speaks, and otherwise to the listener and to its
playback side. -/
def next (s : State) (action : Action) : State where
  sender :=
    match action with
    | .speak event => Audio.PreSpeech.next g.platform s.sender event
    | _ => s.sender
  app := (listen g s.app action).1
  playback := (calls g s.app action).foldl (play g) s.playback

/-- A datagram that reads as a voice packet of the speaker is that of a frame it has sent, and so is
a relayed frame of the speaker. -/
def Enabled (s : State) : Action → Prop
  | .pump _ _ arrivals => ∀ a ∈ arrivals,
    (voiceOf s.app.directVoice.roomId g.speaker a).isSome →
      ∃ x ∈ s.sender.sent, a.data = voicePacket s.app.directVoice.roomId g.speaker x.frame
  | .handle _ _ (.voiceFrame frame) => sourceOf frame = g.speaker →
    ∃ x ∈ s.sender.sent, frame = arrived g.speaker x.frame
  | _ => True

/-- The runs of a speaker whose engine has been started, and a listener whose playback side has,
with an output device. The speaker's engine is not started again, so that its frames are numbered
from 0 on once. -/
def machine : Machine State Action :=
  .ofNext
    (fun s => (Audio.PreSpeech.machine g.platform).init s.sender ∧ s.playback = .start true)
    (Enabled g) (next g)

/-- What the speaker does in a run. -/
def speaking (t : List (State × Action)) :
    List (Audio.Muting.State Int16 Int16 × Audio.PreSpeech.Event Int16) :=
  t.filterMap fun x =>
    match x.2 with
    | .speak event => some (x.1.sender, event)
    | _ => none

/-- What the playback side does in a run. -/
def playing (t : List (State × Action)) : List (RemotePlayback × Audio.Jitter.Call) :=
  t.flatMap fun x => Machine.trace (play g) x.1.playback (calls g x.1.app x.2)

/-- The frames of the speaker that are mixed in a run. -/
def mixed (t : List (State × Action)) : List Audio.QueuedFrame :=
  takenFrom g.speaker (Audio.Jitter.taken g.decoder (playing g t))

/-- The frames that the speaker captured in a run. -/
def captured (t : List (State × Action)) : List (List Int16) :=
  (Audio.PreSpeech.ticks (speaking t)).flatMap LookBack.Tick.items

variable {g} {s : State} {t : List (State × Action)}

theorem playing_append (t t' : List (State × Action)) :
    playing g (t ++ t') = playing g t ++ playing g t' := List.flatMap_append

theorem speaking_append (t t' : List (State × Action)) :
    speaking (t ++ t') = speaking t ++ speaking t' := List.filterMap_append

/-- A frame has the number and the payload of one that was sent. The time and the peer's id are
those of the packet or the message it came in. -/
def Copies (frame : EncodedVoiceFrame) (x : SentFrame Int16) : Prop :=
  frame.sequence = x.frame.sequence ∧ frame.payload = x.frame.payload

theorem copies_arrived (k : Bytes) (x : SentFrame Int16) : Copies (arrived k x.frame) x :=
  ⟨rfl, rfl⟩

/-- The encoders have a payload for every frame. -/
theorem codes (coded : List (List Int16)) (pcm : List Int16) (hpcm : pcm ≠ []) :
    g.platform.encodeFrame coded pcm ≠ [] :=
  List.length_pos_iff.mp (Platform.codes_ofCodec g.openWaveIn g.codec coded pcm hpcm).1

/-- **One action.** What comes to the playback side in the name of the speaker was sent by it. -/
theorem copies_of_brings {action : Action} (hen : Enabled g s action) {c : Audio.Jitter.Call}
    (hc : c ∈ calls g s.app action) {frame : EncodedVoiceFrame}
    (hbrings : Audio.Jitter.brings g.speaker c = some frame) :
    ∃ x ∈ s.sender.sent, Copies frame x := by
  have hplayed : ∀ {clock : ℕ} {effects : List Effect},
      c ∈ (Effect.played effects).map (Audio.Jitter.Call.playRemoteFrame clock) →
        sourceOf frame = g.speaker ∧ frame ∈ Effect.played effects := by
    intro clock effects hmem
    obtain ⟨frame', hframe, rfl⟩ := List.mem_map.mp hmem
    rw [Audio.Jitter.brings] at hbrings
    split at hbrings
    · next hsource =>
      obtain rfl := Option.some.inj hbrings
      exact ⟨hsource, hframe⟩
    · exact absurd hbrings (Option.some_ne_none frame).symm
  cases action with
  | speak event => exact absurd hc List.not_mem_nil
  | mix clock =>
    rw [List.mem_singleton.mp hc] at hbrings
    exact absurd hbrings (Option.some_ne_none frame).symm
  | handle now clock event =>
    obtain ⟨hsource, hmem⟩ := hplayed hc
    obtain rfl := Application.eq_of_played_handleSignalingEvent hmem
    obtain ⟨x, hx, rfl⟩ := hen hsource
    exact ⟨x, hx, copies_arrived g.speaker x⟩
  | pump now clock arrivals =>
    obtain ⟨hsource, hmem⟩ := hplayed hc
    obtain ⟨hnil, a, ha, hvoice⟩ := Application.voiceOf_of_played_pumpDirectVoice hmem
    rw [sourceOf, if_neg hnil] at hsource
    rw [hsource] at hvoice
    obtain ⟨x, hx, hdata⟩ := hen a ha (Option.isSome_of_eq_some hvoice)
    rw [DirectVoiceTransport.eq_arrived_of_voicePacket hdata hvoice]
    exact ⟨x, hx, copies_arrived g.speaker x⟩

/-- An action appends to what has been sent. -/
theorem sent_next (s : State) (action : Action) :
    ∃ sent, (next g s action).sender.sent = s.sender.sent ++ sent := by
  cases action with
  | speak event =>
    cases event with
    | setSettings settings => exact ⟨[], (List.append_nil _).symm⟩
    | act a =>
      cases a with
      | pump now => exact ⟨_, rfl⟩
      | _ => exact ⟨[], (List.append_nil _).symm⟩
  | _ => exact ⟨[], (List.append_nil _).symm⟩

/-- The parts of the system, each in a run of its own; and everything that has come to the playback
side in the name of the speaker was sent by it. -/
structure Genuine (g : Setting) (t : List (State × Action)) (s : State) : Prop where
  speaking : (Audio.PreSpeech.machine g.platform).Run (speaking t) s.sender
  playing : (Audio.Jitter.machine g.decoder).Run (playing g t) s.playback
  copies : ∀ frame ∈ Audio.Jitter.came g.speaker (Heard.playing g t),
    ∃ x ∈ s.sender.sent, Copies frame x

/-- **What the network may do does not matter.** Speaker, transport and playback side are each in a
run of their own, and what is played as the speaker's was sent by it. -/
theorem genuine_of_run (h : (machine g).Run t s) : Genuine g t s := by
  induction h with
  | start hinit =>
    obtain ⟨hsender, hplayback⟩ := hinit
    exact ⟨.start hsender, .start hplayback, fun _ hframe => absurd hframe List.not_mem_nil⟩
  | @snoc t s s' action _ hstep ih =>
    obtain ⟨hen, rfl⟩ := hstep
    refine ⟨?_, ?_, fun frame hframe => ?_⟩
    · rw [speaking_append]
      cases action with
      | speak event => exact ih.speaking.snoc ⟨trivial, rfl⟩
      | pump _ _ _ | handle _ _ _ | mix _ =>
        rw [show speaking [(s, _)] = [] from rfl, List.append_nil]
        exact ih.speaking
    · rw [playing_append]
      have htrace : playing g [(s, action)] =
          Machine.trace (play g) s.playback (calls g s.app action) := List.flatMap_singleton ..
      rw [htrace]
      exact Machine.Run.append_trace _ ih.playing fun _ _ => trivial
    · obtain ⟨sent, hsent⟩ := @sent_next g s action
      rw [hsent]
      rw [playing_append, Audio.Jitter.came_append] at hframe
      have hold : (∃ x ∈ s.sender.sent, Copies frame x) →
          ∃ x ∈ s.sender.sent ++ sent, Copies frame x := fun ⟨x, hx, hcopies⟩ =>
        ⟨x, List.mem_append_left _ hx, hcopies⟩
      rcases List.mem_append.mp hframe with hframe | hframe
      · exact hold (ih.copies frame hframe)
      · obtain ⟨x, hx, hbrings⟩ := List.mem_filterMap.mp hframe
        have hc : x.2 ∈ calls g s.app action := by
          rw [playing, List.flatMap_singleton] at hx
          exact Machine.snd_mem_of_mem_trace hx
        exact hold (copies_of_brings hen hc hbrings)

/-- The numbers of the frames that were sent increase, if there are not too many. -/
theorem Genuine.increasing (h : Genuine g t s) (hcount : s.sender.sent.length ≤ 2 ^ 32) :
    s.sender.sent.Pairwise fun x y => x.frame.sequence.toNat < y.frame.sequence.toNat := by
  have hnumbers := (Audio.PreSpeech.follows_of_run codes h.speaking).numbers
  have hincreasing : ((List.range s.sender.sent.length).map UInt32.ofNat).Pairwise
      fun n m => n.toNat < m.toNat := by
    refine List.pairwise_map.mpr (List.pairwise_lt_range.imp_of_mem ?_)
    intro i j hi hj hij
    have hj' := List.mem_range.mp hj
    rw [UInt32.toNat_ofNat', UInt32.toNat_ofNat', Nat.mod_eq_of_lt (by omega),
      Nat.mod_eq_of_lt (by omega)]
    exact hij
  rw [← hnumbers, List.pairwise_map] at hincreasing
  exact hincreasing

/-- **What is heard was said.** In every run in which the speaker, whose engine is started once,
sends at most `2 ^ 32` frames, and from any point on until the queue of the speaker is erased: the
frames of the speaker that are mixed are, in this order and each once, some of the frames it sent,
encoded and decoded. What it sent are, in this order and each once, some of the frames it captured.
Without Opus, what is mixed are thus captured frames, up to the coder's predictions, whatever is
lost, repeated, delayed or overtaken, and whoever else sends what. Only in the speaker's own name
nobody else may send. -/
theorem heard_was_said (h : (machine g).Run t s) (hcount : s.sender.sent.length ≤ 2 ^ 32)
    {before lives : List (State × Action)} (ht : t = before ++ lives)
    (hkept : ∀ x ∈ playing g lives, ¬ Audio.Jitter.Erases g.decoder g.speaker x) :
    (∃ said : List (SentFrame Int16), said.Sublist s.sender.sent ∧
      List.Forall₂ (fun f x => f.sequence = x.frame.sequence ∧ ∃ coded opusDecoder,
        f.pcm = (Audio.decodeVoicePayload g.decoder (Audio.encodeFrame g.codec coded x.pcm)
          opusDecoder).1) (mixed g lives) said) ∧
    (s.sender.sent.map SentFrame.pcm).Sublist (captured t) ∧
    (g.codec.lowBandwidthCodecEnabled = true ∨ g.codec.opusCodecDisabled = true →
      ((mixed g lives).map Audio.QueuedFrame.pcm).Sublist
        ((captured t).map (carriedOver g.codec))) := by
  have hgenuine := genuine_of_run h
  have hcoded := Audio.PreSpeech.coded_of_run hgenuine.speaking
  have hcaptured : (s.sender.sent.map SentFrame.pcm).Sublist (captured t) := by
    rw [(Audio.PreSpeech.follows_of_run codes hgenuine.speaking).passed]
    exact LookBack.passed_stream_sublist _ _
  have hsplit : playing g t = playing g before ++ playing g lives := by rw [ht, playing_append]
  -- what is mixed has increasing numbers, and is decoded from what came, which was sent
  have horder : (mixed g lives).Pairwise fun f f' => f.sequence.toNat < f'.sequence.toNat :=
    (Audio.Jitter.follows_of_run hgenuine.playing _ _ hsplit hkept).increasing
  have hsource : ∀ f ∈ mixed g lives, ∃ x ∈ s.sender.sent,
      x.frame.sequence.toNat = f.sequence.toNat ∧ x.pcm ≠ [] ∧ f.sequence = x.frame.sequence ∧
        ∃ coded opusDecoder, f.pcm = (Audio.decodeVoicePayload g.decoder
          (Audio.encodeFrame g.codec coded x.pcm) opusDecoder).1 := by
    intro f hf
    have htaken : f ∈ takenFrom g.speaker (Audio.Jitter.taken g.decoder (playing g t)) := by
      rw [hsplit, Audio.Jitter.taken, List.flatMap_append, Audio.RemotePlayback.takenFrom_append]
      exact List.mem_append_right _ hf
    obtain ⟨frame, hframe, hsequence, opusDecoder, hpcm⟩ :=
      Audio.Jitter.decoded_of_run hgenuine.playing f (Or.inl htaken)
    obtain ⟨x, hx, hcopies, hpayload⟩ := hgenuine.copies frame hframe
    obtain ⟨hne, coded, hencoded⟩ := hcoded x hx
    refine ⟨x, hx, ?_, hne, hsequence.trans hcopies, coded, opusDecoder, ?_⟩
    · rw [hsequence, hcopies]
    · rw [hpcm, hpayload, hencoded]
      rfl
  obtain ⟨said, hsaid, hall⟩ := exists_sublist_forall₂ horder (hgenuine.increasing hcount) hsource
  refine ⟨⟨said, hsaid, hall.imp fun f x hfx => hfx.2⟩, hcaptured, fun hcodec => ?_⟩
  have hmixed : (mixed g lives).map Audio.QueuedFrame.pcm =
      (said.map SentFrame.pcm).map (carriedOver g.codec) := by
    rw [List.map_map]
    generalize mixed g lives = l at hall
    clear hsaid
    induction hall with
    | nil => rfl
    | @cons f x _ _ hfx _ ih =>
      obtain ⟨hne, -, coded, opusDecoder, hpcm⟩ := hfx
      rw [List.map_cons, List.map_cons, ih, hpcm, Audio.decode_encodeFrame hcodec _ _ hne]
      rfl
  rw [hmixed]
  exact ((hsaid.map SentFrame.pcm).trans hcaptured).map (carriedOver g.codec)

/-- A speaker without Opus, whose microphone is never loud enough by itself. -/
def quiet : Setting where
  openWaveIn := fun _ _ => some (Audio.microphone .wire 0)
  codec := .withoutOpus
  decoder := Audio.withoutOpus
  isNumericHost := fun _ => true
  speaker := [1]

/-- Speaker and listener, just started. -/
def introduced : State where
  sender :=
    { engine := Audio.VoiceEngine.start quiet.platform
        { transport := true, settings := { pushToTalk := true } } 0 }
  app :=
    { voice := {}
      session := { localPeer := { id := [2], lastSeen := 0 } }
      directVoice :=
        { frameCallback := true, roomId := [7], localPeerId := [2], running := true } }
  playback := .start true

/-- A frame fills up and is pumped. -/
def spoken (sample : Int16) (now : ℕ) : List (Audio.PreSpeech.Event Int16) :=
  [.act (.record firstBuffer (List.replicate 320 sample)), .act (.complete firstBuffer),
    .act (.pump now)]

/-- Four frames, the first of them before the key is pressed. -/
def speech : List (Audio.PreSpeech.Event Int16) :=
  Audio.PreSpeech.utterance ++ spoken 9 60 ++ spoken 11 80

/-- The frames that the speaker sends. -/
def said : List (SentFrame Int16) :=
  (speech.foldl (Audio.PreSpeech.next quiet.platform) introduced.sender).sent

/-- The first frame is lost, the second comes twice and the last overtakes the third; from another
room, all four come in the name of the speaker. The listener mixes three times. -/
def gossip : List Action :=
  speech.map .speak ++
    [.pump 90 1 (([1, 1, 3, 2].filterMap fun n => said[n]?).map (fun x =>
        ⟨none, voicePacket [7] [1] x.frame⟩) ++
      said.map fun x => ⟨none, voicePacket [8] [1] x.frame⟩),
      .mix 20000001, .mix 40000001, .mix 60000001]

instance (env : DecoderEnv) (k : Bytes) (x : RemotePlayback × Audio.Jitter.Call) :
    Decidable (Audio.Jitter.Erases env k x) := inferInstanceAs (Decidable (_ ∧ _ = none))

theorem gossip_run : (machine quiet).Run (Machine.trace (next quiet) introduced gossip)
    (gossip.foldl (next quiet) introduced) := by
  refine Machine.run_trace ⟨⟨_, _, rfl, rfl⟩, rfl⟩ ?_
  simp only [gossip, speech, spoken, Audio.PreSpeech.utterance, List.map_cons, List.map_nil,
    List.cons_append, List.nil_append, Machine.forall_trace_cons, Machine.forall_trace_nil, Enabled,
    true_and, and_true]
  rintro a ha hvoice
  rcases List.mem_append.mp ha with hown | hother
  · obtain ⟨x, hx, rfl⟩ := List.mem_map.mp hown
    obtain ⟨n, -, hn⟩ := List.mem_filterMap.mp hx
    have hsaid : x ∈ said := List.mem_of_getElem? hn
    refine ⟨x, ?_, rfl⟩
    simpa only [said, speech, spoken, Audio.PreSpeech.utterance, List.cons_append, List.nil_append,
      List.foldl_cons, List.foldl_nil, next] using hsaid
  · have hforeign : ∀ x ∈ said, voiceOf [7] [1] ⟨none, voicePacket [8] [1] x.frame⟩ = none := by
      decide +kernel
    obtain ⟨x, hx, rfl⟩ := List.mem_map.mp hother
    have hvoice : (voiceOf [7] [1] ⟨none, voicePacket [8] [1] x.frame⟩).isSome := hvoice
    rw [hforeign x hx] at hvoice
    exact absurd hvoice Bool.false_ne_true

/-- Of the four frames, the second and the fourth are heard. -/
theorem heard_was_said_gossip :
    ((mixed quiet (Machine.trace (next quiet) introduced gossip)).map Audio.QueuedFrame.pcm).Sublist
      ((captured (Machine.trace (next quiet) introduced gossip)).map (carriedOver quiet.codec)) ∧
    (mixed quiet (Machine.trace (next quiet) introduced gossip)).map Audio.QueuedFrame.pcm =
      [List.replicate 320 7, List.replicate 320 11] :=
  ⟨(heard_was_said gossip_run (by decide +kernel) (List.nil_append _).symm
    (by decide +kernel)).2.2 (Or.inr rfl), by decide +kernel⟩

end Heard

end Client

end TarkovVoice

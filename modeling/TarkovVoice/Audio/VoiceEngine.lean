import TarkovVoice.Audio.Capture

/-!
# The voice engine: capture side

`VoiceEngine` of `client/src/audio/VoiceEngine.cpp`, from the microphone to the transport: the
gate that decides when to transmit, the frames kept from before speech starts, and the numbering of
what is sent. Playback of remote frames shares no data with it but a counter of dropped frames, and
has its own module. The log files and the spectrum that the overlay draws are left out.

`pump` returns what the code hands to `transport_->sendVoiceFrame`, each frame together with the
samples it was made of. What opening a device and coding a frame amount to is given by a
`Platform`, so that the engine is generic in the samples, as `NativeAudioCapture` is.

## Main definitions

* `VoiceEngine`, with `start`, `stop`, `setMuted`, `setPushToTalkActive`, `pump`
* `VoiceEngine.outgoing` — the frames that the next `pump` codes and sends
* `VoiceEngine.Holds` — every sample the engine keeps satisfies a predicate

## Main results

* `VoiceEngine.sent_pump` — `pump` sends the outgoing frames, numbered from `sequence` on
* `VoiceEngine.Holds.pump` — what `pump` sends was recorded into the buffers it reads
-/

namespace TarkovVoice

namespace Audio

open Net (Bytes)

/-- `kPreSpeechFrameCount`. -/
def kPreSpeechFrameCount : ℕ := 6

/-- `kVadHangoverPumpFrames`. -/
def kVadHangoverPumpFrames : ℕ := 28

/-- `kPushToTalkTailPumpFrames`. -/
def kPushToTalkTailPumpFrames : ℕ := 8

/-- `EncodedVoiceFrame`. A frame that the engine sends names no source; the receiver's transport
fills it in. -/
structure EncodedVoiceFrame where
  sourcePeerId : Bytes := []
  sequence : UInt32 := 0
  captureUnixMs : Int64 := 0
  payload : Bytes
  deriving DecidableEq

/-- The fields of `AudioSettings` that capture and gate read. -/
structure AudioSettings where
  inputDeviceName : Bytes := []
  vadThreshold : ℚ := 3 / 100
  inputGain : ℚ := 1
  pushToTalk : Bool := false

/-- `VoiceMetrics`. -/
structure VoiceMetrics where
  micLevel : ℚ := 0
  vadActive : Bool := false
  muted : Bool := false
  encodedFrames : ℕ := 0
  droppedFrames : ℕ := 0

/-- What the engine runs on, with the samples as parameters. The source records 16-bit samples and
codes them with one of three codecs (`Platform.ofCodec`). -/
structure Platform (α β : Type*) where
  /-- `NativeAudioCapture::start`, given the gain and the device name. -/
  openWaveIn : ℚ → Bytes → Option (WaveIn α β)
  /-- The payload for a frame, after the frames coded since the Opus encoder was created. -/
  encodeFrame : List (List β) → List β → Bytes

/-- Every frame can be coded, and its payload fits a datagram. The three encoders of the source do
so, whatever Opus writes (`Platform.codes_ofCodec`). -/
def Platform.Codes {α β : Type*} (env : Platform α β) : Prop :=
  ∀ coded pcm, pcm ≠ [] →
    0 < (env.encodeFrame coded pcm).length ∧ (env.encodeFrame coded pcm).length ≤ 1200

/-- The platform of the source: 16-bit samples and the three encoders. -/
def Platform.ofCodec (openWaveIn : ℚ → Bytes → Option (WaveIn Int16 Int16)) (codec : CodecEnv) :
    Platform Int16 Int16 where
  openWaveIn := openWaveIn
  encodeFrame := Audio.encodeFrame codec

theorem Platform.codes_ofCodec (openWaveIn : ℚ → Bytes → Option (WaveIn Int16 Int16))
    (codec : CodecEnv) : (Platform.ofCodec openWaveIn codec).Codes :=
  fun coded _ hpcm => encodeFrame_length codec coded hpcm

/-- A platform without Opus, with a microphone at the wire rate. -/
def Platform.withMicrophone (level : ℚ) : Platform Int16 Int16 :=
  .ofCodec (fun _ _ => some (microphone .wire level)) .withoutOpus

/-- Here the microphone is always above the threshold. -/
def Platform.loud : Platform Int16 Int16 := .withMicrophone 1

/-- Here it never is, and only push to talk transmits. -/
def Platform.quiet : Platform Int16 Int16 := .withMicrophone 0

/-- A frame that was handed to the transport, and the samples it was made of, which the source
forgets. -/
structure SentFrame (β : Type*) where
  pcm : List β
  frame : EncodedVoiceFrame

/-- `VoiceEngine`, as far as capture, gate and sending go. The playback side has its own state,
`RemotePlayback`; no function reads both. -/
structure VoiceEngine (α β : Type*) where
  settings : AudioSettings := {}
  /-- Whether `transport_` is set. -/
  transport : Bool := false
  metrics : VoiceMetrics := {}
  nativeCapture : Option (NativeAudioCapture α β) := none
  /-- The frames coded since the Opus encoder was last destroyed, which determine its state. -/
  opusEncoder : List (List β) := []
  running : Bool := false
  sequence : UInt32 := 0
  transmitHangoverFrames : ℕ := 0
  pushToTalkTailFrames : ℕ := 0
  pushToTalkActive : Bool := false
  transmitting : Bool := false
  preSpeechFrames : List (List β) := []
  startedAt : ℕ := 0

namespace VoiceEngine

variable {α β : Type*} (env : Platform α β) (e : VoiceEngine α β)

/-! ### The functions of the class -/

/-- `setSettings`. A capture that is open keeps what it was opened with. -/
def setSettings (settings : AudioSettings) : VoiceEngine α β := { e with settings := settings }

/-- `start`. Frames are numbered from 0, nothing is kept from before, and the microphone is opened
if the platform has one. -/
def start (now : ℕ) : VoiceEngine α β :=
  { e with
    running := true
    startedAt := now
    sequence := 0
    transmitHangoverFrames := 0
    pushToTalkTailFrames := 0
    pushToTalkActive := false
    transmitting := false
    preSpeechFrames := []
    opusEncoder := []
    metrics := {}
    nativeCapture :=
      (env.openWaveIn e.settings.inputGain e.settings.inputDeviceName).map
        fun device => { device } }

/-- `stop`. The microphone is closed and what it has captured is forgotten; the mute stays as
it is. -/
def stop : VoiceEngine α β :=
  { e with
    running := false
    nativeCapture := none
    opusEncoder := []
    metrics := { e.metrics with micLevel := 0, vadActive := false }
    transmitHangoverFrames := 0
    pushToTalkTailFrames := 0
    transmitting := false
    preSpeechFrames := [] }

/-- `setMuted`. The level is cleared at once, but what has been captured stays where it is. -/
def setMuted (muted : Bool) : VoiceEngine α β :=
  { e with metrics :=
      if muted then { e.metrics with muted, micLevel := 0, vadActive := false }
      else { e.metrics with muted } }

/-- `setPushToTalkActive`. It only notes the key; the gate looks at it in the next `pump`. -/
def setPushToTalkActive (active : Bool) : VoiceEngine α β := { e with pushToTalkActive := active }

/-- What `pump` does while muted: the gate is closed and forgets the frames kept from before it. The
capture is left alone, with all that waits in it. -/
def pumpMuted : VoiceEngine α β :=
  { e with
    metrics := { e.metrics with micLevel := 0, vadActive := false }
    transmitHangoverFrames := 0
    pushToTalkTailFrames := 0
    transmitting := false
    preSpeechFrames := [] }

/-- The first part of `pump`: the buffers are read and the level updated. Without a microphone it is
0. -/
def pumpLevel : VoiceEngine α β :=
  match e.nativeCapture with
  | some c =>
    let (c, level) := c.pumpLevel
    { e with nativeCapture := some c, metrics := { e.metrics with micLevel := level } }
  | none => { e with metrics := { e.metrics with micLevel := 0 } }

/-- The gate of `pump`, and `shouldTransmit`. It stays open for some pumps after the key was
released, or after the level has fallen below the threshold. -/
def gate : VoiceEngine α β × Bool :=
  let aboveThreshold := decide (e.settings.vadThreshold ≤ e.metrics.micLevel)
  if e.settings.pushToTalk then
    let tail :=
      if e.pushToTalkActive then kPushToTalkTailPumpFrames
      else if 0 < e.pushToTalkTailFrames then e.pushToTalkTailFrames - 1
      else e.pushToTalkTailFrames
    let shouldTransmit := e.pushToTalkActive || decide (0 < tail)
    ({ e with
        pushToTalkTailFrames := tail
        transmitHangoverFrames := 0
        metrics := { e.metrics with vadActive := shouldTransmit } }, shouldTransmit)
  else
    let hangover :=
      if aboveThreshold then kVadHangoverPumpFrames
      else if 0 < e.transmitHangoverFrames then e.transmitHangoverFrames - 1
      else e.transmitHangoverFrames
    let shouldTransmit := aboveThreshold || decide (0 < hangover)
    ({ e with
        transmitHangoverFrames := hangover
        pushToTalkTailFrames := 0
        metrics := { e.metrics with vadActive := shouldTransmit } }, shouldTransmit)

/-- The frames captured since the last `pump`, and the engine without them. Without a capture there
are none. -/
def drainVoiceFrames : VoiceEngine α β × List (List β) :=
  match e.nativeCapture with
  | some c =>
    let (c, frames) := c.drainVoiceFrames
    ({ e with nativeCapture := some c }, frames)
  | none => (e, [])

/-- `sendPcmFrame`. Each frame takes a number, also one that cannot be coded, and only those with a
payload are handed to the transport. -/
def sendPcmFrame (elapsed : Int64) (pcmFrame : List β) : VoiceEngine α β × List (SentFrame β) :=
  if e.transport = false ∨ pcmFrame = [] then (e, [])
  else
    let sequence := e.sequence
    let payload := env.encodeFrame e.opusEncoder pcmFrame
    let e := { e with sequence := e.sequence + 1, opusEncoder := e.opusEncoder ++ [pcmFrame] }
    if payload = [] then
      ({ e with metrics := { e.metrics with droppedFrames := e.metrics.droppedFrames + 1 } }, [])
    else
      ({ e with metrics := { e.metrics with encodedFrames := e.metrics.encodedFrames + 1 } },
        [{ pcm := pcmFrame, frame := { sequence, captureUnixMs := elapsed, payload } }])

/-- A loop of `sendPcmFrame` over frames, with all that is sent, in order. -/
def sendPcmFrames (elapsed : Int64) :
    VoiceEngine α β → List (List β) → VoiceEngine α β × List (SentFrame β)
  | e, [] => (e, [])
  | e, pcmFrame :: pcmFrames =>
    let (e, sent) := e.sendPcmFrame env elapsed pcmFrame
    let (e, rest) := sendPcmFrames elapsed e pcmFrames
    (e, sent ++ rest)

/-- The loop that keeps captured frames until speech starts. It keeps the newest six. -/
def keepPreSpeech (frames : List (List β)) : List (List β) :=
  frames.foldl (fun kept f => keepLast kPreSpeechFrameCount (kept ++ [f])) e.preSpeechFrames

/-- At the start of speech, the frames kept from before it are sent, and none are kept any more.
While the engine is transmitting, this does nothing. -/
def sendPreSpeech (elapsed : Int64) : VoiceEngine α β × List (SentFrame β) :=
  if e.transmitting then (e, [])
  else
    let (e, sent) := sendPcmFrames env elapsed e e.preSpeechFrames
    ({ e with preSpeechFrames := [] }, sent)

/-- The last part of `pump`: the captured frames are sent, or kept in case speech starts. At its
start, the frames kept are sent first. -/
def transmit (elapsed : Int64) (shouldTransmit : Bool) (capturedFrames : List (List β)) :
    VoiceEngine α β × List (SentFrame β) :=
  if shouldTransmit && e.transport then
    let (e, early) := e.sendPreSpeech env elapsed
    let (e, sent) := sendPcmFrames env elapsed e capturedFrames
    ({ e with transmitting := true }, early ++ sent)
  else if e.nativeCapture.isSome then
    ({ e with transmitting := false, preSpeechFrames := e.keepPreSpeech capturedFrames }, [])
  else (e, [])

/-- `pump`, with the frames that it sends. A muted engine, and one that is not running, sends
nothing. -/
def pump (now : ℕ) : VoiceEngine α β × List (SentFrame β) :=
  if e.running = false then (e, [])
  else if e.metrics.muted then (e.pumpMuted, [])
  else
    let elapsed := Int64.ofNat (now - e.startedAt)
    let (e, shouldTransmit) := e.pumpLevel.gate
    let (e, capturedFrames) := e.drainVoiceFrames
    e.transmit env elapsed shouldTransmit capturedFrames

/-! ### The device -/

/-- The device writes samples into a buffer. -/
def record (i : Fin 4) (samples : List α) : VoiceEngine α β :=
  { e with nativeCapture := e.nativeCapture.map fun c => c.record i samples }

/-- The device completes a buffer. -/
def complete (i : Fin 4) : VoiceEngine α β :=
  { e with nativeCapture := e.nativeCapture.map fun c => c.complete i }

/-- The device only completes a buffer that it has been given, that is, one that is not done yet. -/
def CanComplete (i : Fin 4) : Prop :=
  ∀ c, e.nativeCapture = some c → (c.buffers i).done = false

/-- The device only writes to a buffer that it has been given, and no more than fits. So
`waveInAddBuffer` is documented. -/
def CanRecord (i : Fin 4) (count : ℕ) : Prop :=
  ∀ c, e.nativeCapture = some c → (c.buffers i).done = false ∧
    (c.buffers i).recorded.length + count ≤ c.samplesPerBuffer

instance (i : Fin 4) : Decidable (e.CanComplete i) :=
  inferInstanceAs (Decidable (∀ c ∈ e.nativeCapture, (c.buffers i).done = false))

instance (i : Fin 4) (count : ℕ) : Decidable (e.CanRecord i count) :=
  inferInstanceAs (Decidable (∀ c ∈ e.nativeCapture, (c.buffers i).done = false ∧
    (c.buffers i).recorded.length + count ≤ c.samplesPerBuffer))

/-! ### What sending changes -/

/-- Sending changes the number of the next frame, the Opus encoder and the two counters, and nothing
else of the engine. -/
def SameButSent (e e' : VoiceEngine α β) : Prop :=
  ∃ sequence opusEncoder encodedFrames droppedFrames,
    e' = { e with
      sequence, opusEncoder, metrics := { e.metrics with encodedFrames, droppedFrames } }

theorem SameButSent.refl : SameButSent e e := ⟨_, _, _, _, rfl⟩

variable {e}

theorem SameButSent.trans {e' e'' : VoiceEngine α β} (h : SameButSent e e')
    (h' : SameButSent e' e'') : SameButSent e e'' := by
  obtain ⟨_, _, _, _, rfl⟩ := h
  obtain ⟨_, _, _, _, rfl⟩ := h'
  exact ⟨_, _, _, _, rfl⟩

theorem sendPcmFrame_same (elapsed : Int64) (pcmFrame : List β) :
    SameButSent e (e.sendPcmFrame env elapsed pcmFrame).1 := by
  rw [sendPcmFrame]
  split
  · exact .refl e
  · dsimp only
    split <;> exact ⟨_, _, _, _, rfl⟩

theorem pcm_sendPcmFrame {elapsed : Int64} {pcmFrame : List β} {s : SentFrame β}
    (h : s ∈ (e.sendPcmFrame env elapsed pcmFrame).2) : s.pcm = pcmFrame := by
  rw [sendPcmFrame] at h
  split at h
  · exact absurd h List.not_mem_nil
  · dsimp only at h
    split at h
    · exact absurd h List.not_mem_nil
    · rw [List.mem_singleton.mp h]

theorem sendPcmFrames_same (elapsed : Int64) (frames : List (List β)) :
    ∀ e : VoiceEngine α β, SameButSent e (sendPcmFrames env elapsed e frames).1 := by
  induction frames with
  | nil => exact fun e => .refl e
  | cons f frames ih => exact fun e => (sendPcmFrame_same env elapsed f).trans (ih _)

theorem pcm_sendPcmFrames {elapsed : Int64} {frames : List (List β)} {s : SentFrame β} :
    ∀ {e : VoiceEngine α β}, s ∈ (sendPcmFrames env elapsed e frames).2 → s.pcm ∈ frames := by
  induction frames with
  | nil => exact fun h => absurd h List.not_mem_nil
  | cons f frames ih =>
    intro e h
    rcases List.mem_append.mp h with h | h
    · rw [pcm_sendPcmFrame env h]
      exact List.mem_cons_self
    · exact List.mem_cons_of_mem _ (ih h)

/-! ### The numbering -/

/-- The frames that `sendPcmFrame` does not ignore. -/
def sendable (frames : List (List β)) : List (List β) := frames.filter fun f => !f.isEmpty

/-- Between `e` and `e'` the frames `frames` were coded and sent, in this order, with the next
numbers and the time `elapsed`. Here the numbers have not yet gone round. -/
structure Sends (e e' : VoiceEngine α β) (elapsed : Int64) (frames : List (List β))
    (sent : List (SentFrame β)) : Prop where
  pcm : sent.map SentFrame.pcm = frames
  numbers : sent.map (fun s => s.frame.sequence.toNat) = List.range' e.sequence.toNat frames.length
  next : e'.sequence.toNat = e.sequence.toNat + frames.length
  coded : ∀ s ∈ sent, s.frame.captureUnixMs = elapsed ∧
    0 < s.frame.payload.length ∧ s.frame.payload.length ≤ 1200

theorem Sends.nil (elapsed : Int64) : Sends e e elapsed [] [] :=
  ⟨rfl, rfl, rfl, fun _ hs => absurd hs List.not_mem_nil⟩

theorem Sends.append {e' e'' : VoiceEngine α β} {elapsed : Int64} {frames frames' : List (List β)}
    {sent sent' : List (SentFrame β)} (h : Sends e e' elapsed frames sent)
    (h' : Sends e' e'' elapsed frames' sent') :
    Sends e e'' elapsed (frames ++ frames') (sent ++ sent') := by
  refine ⟨?_, ?_, ?_, fun s hs => ?_⟩
  · rw [List.map_append, h.pcm, h'.pcm]
  · rw [List.map_append, h.numbers, h'.numbers, h.next, List.range'_append_1, List.length_append]
  · rw [h'.next, h.next, List.length_append, Nat.add_assoc]
  · exact (List.mem_append.mp hs).elim (h.coded s) (h'.coded s)

variable {env}

theorem sendPcmFrame_sends (henv : env.Codes) (ht : e.transport = true) {elapsed : Int64}
    {f : List β} (hlt : e.sequence.toNat + 1 < 2 ^ 32) (hf : f ≠ []) :
    Sends e (e.sendPcmFrame env elapsed f).1 elapsed [f] (e.sendPcmFrame env elapsed f).2 := by
  obtain ⟨hpos, hle⟩ := henv e.opusEncoder f hf
  have hne : env.encodeFrame e.opusEncoder f ≠ [] := List.length_pos_iff.mp hpos
  rw [sendPcmFrame, if_neg (by simp [ht, hf])]
  dsimp only
  rw [if_neg hne]
  refine ⟨rfl, rfl, ?_, fun s hs => ?_⟩
  · show (e.sequence + 1).toNat = _
    rw [UInt32.toNat_add, UInt32.toNat_one, List.length_singleton, Nat.mod_eq_of_lt hlt]
  · rw [List.mem_singleton.mp hs]
    exact ⟨rfl, hpos, hle⟩

/-- A loop of `sendPcmFrame` sends every frame that is not empty, in order. It is assumed that every
frame can be coded, and that the numbers do not run out. -/
theorem sendPcmFrames_sends (henv : env.Codes) {elapsed : Int64} (frames : List (List β)) :
    ∀ e : VoiceEngine α β, e.transport = true →
      e.sequence.toNat + (sendable frames).length < 2 ^ 32 →
      Sends e (sendPcmFrames env elapsed e frames).1 elapsed (sendable frames)
        (sendPcmFrames env elapsed e frames).2 := by
  induction frames with
  | nil => exact fun e _ _ => .nil elapsed
  | cons f frames ih =>
    intro e ht hlt
    have htransport : (e.sendPcmFrame env elapsed f).1.transport = true := by
      obtain ⟨_, _, _, _, heq⟩ := sendPcmFrame_same (e := e) env elapsed f
      rw [heq]
      exact ht
    by_cases hf : f = []
    · -- nothing is sent for an empty frame
      have hskip : e.sendPcmFrame env elapsed f = (e, []) := by
        rw [sendPcmFrame, if_pos (Or.inr hf)]
      have hrest : sendable (f :: frames) = sendable frames := by
        rw [hf]
        rfl
      rw [hrest] at hlt ⊢
      rw [sendPcmFrames, hskip]
      exact ih e ht hlt
    · have hrest : sendable (f :: frames) = [f] ++ sendable frames := by
        rw [sendable, List.filter_cons_of_pos (by simpa using hf)]
        rfl
      rw [hrest] at hlt ⊢
      rw [List.length_append, List.length_singleton] at hlt
      have hone := @sendPcmFrame_sends _ _ _ e henv ht elapsed f (by omega) hf
      have hnext := hone.next
      rw [List.length_singleton] at hnext
      exact hone.append (ih _ htransport (by omega))

/-! ### What `pump` sends -/

variable (e)

/-- The engine after `pump` has read the buffers, moved the gate and drained the frames. -/
def listened : VoiceEngine α β := e.pumpLevel.gate.1.drainVoiceFrames.1

/-- `shouldTransmit`, as the next `pump` computes it. -/
def shouldTransmit : Bool := e.pumpLevel.gate.2

/-- `capturedFrames` of the next `pump`. -/
def capturedFrames : List (List β) := e.pumpLevel.gate.1.drainVoiceFrames.2

/-- The frames that the next `pump` codes and sends. Those from before speech come first, if the
engine has not been transmitting. -/
def outgoing : List (List β) :=
  if e.running = false ∨ e.metrics.muted = true ∨ (e.shouldTransmit && e.transport) = false then []
  else sendable ((if e.transmitting then [] else e.preSpeechFrames) ++ e.capturedFrames)

theorem pumpLevel_eq :
    e.pumpLevel = { e with
      nativeCapture := e.nativeCapture.map fun c => c.pumpLevel.1
      metrics := { e.metrics with
        micLevel := (e.nativeCapture.map fun c => c.pumpLevel.2).getD 0 } } := by
  rw [pumpLevel]
  cases hc : e.nativeCapture with
  | none => rfl
  | some c => rfl

/-- The gate only moves its counters and reports its decision. It looks at the level, the settings
and the key. -/
theorem gate_same : ∃ pushToTalkTailFrames transmitHangoverFrames vadActive,
    e.gate.1 = { e with
      pushToTalkTailFrames, transmitHangoverFrames
      metrics := { e.metrics with vadActive } } := by
  rw [gate]
  dsimp only
  split <;> exact ⟨_, _, _, rfl⟩

theorem drainVoiceFrames_eq :
    e.drainVoiceFrames =
      ({ e with nativeCapture := e.nativeCapture.map fun c => c.drainVoiceFrames.1 },
        (e.nativeCapture.map fun c => c.pendingVoiceFrames).getD []) := by
  rw [drainVoiceFrames]
  cases hc : e.nativeCapture with
  | none =>
    show (e, []) = ({ e with nativeCapture := none }, [])
    rw [← hc]
  | some c => rfl

/-- Listening changes the capture, the gate's counters and what the metrics report of them. -/
theorem listened_same :
    ∃ pushToTalkTailFrames transmitHangoverFrames micLevel vadActive,
      e.listened = { e with
        nativeCapture := e.nativeCapture.map fun c => c.pumpLevel.1.drainVoiceFrames.1
        pushToTalkTailFrames, transmitHangoverFrames
        metrics := { e.metrics with micLevel, vadActive } } := by
  obtain ⟨tail, hangover, vad, hgate⟩ := e.pumpLevel.gate_same
  rw [listened, drainVoiceFrames_eq, hgate, pumpLevel_eq]
  refine ⟨tail, hangover, (e.nativeCapture.map fun c => c.pumpLevel.2).getD 0, vad, ?_⟩
  simp only [Option.map_map]
  rfl

theorem capturedFrames_eq :
    e.capturedFrames =
      (e.nativeCapture.map fun c => c.pumpLevel.1.pendingVoiceFrames).getD [] := by
  obtain ⟨tail, hangover, vad, hgate⟩ := e.pumpLevel.gate_same
  rw [capturedFrames, drainVoiceFrames_eq, hgate, pumpLevel_eq]
  simp only [Option.map_map]
  rfl

/-- `pump` of a running engine that is not muted: it listens, and then sends or keeps what was
captured, as the gate decides. -/
theorem pump_eq (hrun : e.running = true) (hmuted : e.metrics.muted = false) (now : ℕ) :
    e.pump env now = e.listened.transmit env (Int64.ofNat (now - e.startedAt)) e.shouldTransmit
      e.capturedFrames := by
  rw [pump, hrun, hmuted, if_neg Bool.noConfusion, if_neg Bool.noConfusion]
  rfl

/-- `pump` of a running engine that is muted. The buffers are not looked at, so what is recorded
meanwhile waits in them. -/
theorem pump_of_muted (hrun : e.running = true) (hmuted : e.metrics.muted = true) (now : ℕ) :
    e.pump env now = (e.pumpMuted, []) := by
  rw [pump, hrun, if_neg Bool.noConfusion, if_pos hmuted]

variable {e}

theorem sendable_append (frames frames' : List (List β)) :
    sendable (frames ++ frames') = sendable frames ++ sendable frames' :=
  List.filter_append _ _

theorem sendPreSpeech_sends (henv : env.Codes) (elapsed : Int64) (ht : e.transport = true)
    (hlt : e.sequence.toNat +
      (sendable (if e.transmitting then [] else e.preSpeechFrames)).length < 2 ^ 32) :
    Sends e (e.sendPreSpeech env elapsed).1 elapsed
        (sendable (if e.transmitting then [] else e.preSpeechFrames))
        (e.sendPreSpeech env elapsed).2 ∧
      (e.sendPreSpeech env elapsed).1.transport = true := by
  rw [sendPreSpeech]
  by_cases htr : e.transmitting = true
  · rw [if_pos htr, if_pos htr]
    exact ⟨.nil elapsed, ht⟩
  · rw [if_neg htr] at hlt
    rw [if_neg htr, if_neg htr]
    obtain ⟨hpcm, hnumbers, hnext, hcoded⟩ :=
      @sendPcmFrames_sends _ _ _ henv elapsed e.preSpeechFrames e ht hlt
    obtain ⟨_, _, _, _, heq⟩ := sendPcmFrames_same env elapsed e.preSpeechFrames e
    refine ⟨⟨hpcm, hnumbers, hnext, hcoded⟩, ?_⟩
    show (sendPcmFrames env elapsed e e.preSpeechFrames).1.transport = true
    rw [heq]
    exact ht

theorem transmit_sends (henv : env.Codes) (elapsed : Int64) {capturedFrames : List (List β)}
    (ht : e.transport = true)
    (hlt : e.sequence.toNat + (sendable
      ((if e.transmitting then [] else e.preSpeechFrames) ++ capturedFrames)).length < 2 ^ 32) :
    Sends e (e.transmit env elapsed true capturedFrames).1 elapsed
      (sendable ((if e.transmitting then [] else e.preSpeechFrames) ++ capturedFrames))
      (e.transmit env elapsed true capturedFrames).2 := by
  rw [sendable_append] at hlt ⊢
  rw [List.length_append] at hlt
  rw [transmit, if_pos (by rw [ht]; rfl)]
  obtain ⟨hearly, htransport⟩ := sendPreSpeech_sends henv elapsed ht (by omega)
  have hnext := hearly.next
  obtain ⟨hpcm, hnumbers, hseq, hcoded⟩ := hearly.append
    (sendPcmFrames_sends henv capturedFrames _ htransport (by omega))
  exact ⟨hpcm, hnumbers, hseq, hcoded⟩

/-- A pump without outgoing frames because the engine is stopped or muted, or the gate closed. -/
theorem pump_idle (now : ℕ) (h : e.running = false ∨ e.metrics.muted = true ∨
    (e.shouldTransmit && e.transport) = false) :
    (e.pump env now).2 = [] ∧ (e.pump env now).1.sequence = e.sequence := by
  by_cases hrun : e.running = false
  · rw [pump, if_pos hrun]
    exact ⟨rfl, rfl⟩
  by_cases hmuted : e.metrics.muted = true
  · rw [pump, if_neg hrun, if_pos hmuted]
    exact ⟨rfl, rfl⟩
  have hclosed := (h.resolve_left hrun).resolve_left hmuted
  obtain ⟨_, _, _, _, heq⟩ := e.listened_same
  have htransport : e.listened.transport = e.transport := by rw [heq]
  have hsequence : e.listened.sequence = e.sequence := by rw [heq]
  rw [pump_eq e (Bool.of_not_eq_false hrun) (Bool.of_not_eq_true hmuted), transmit,
    htransport, hclosed, if_neg Bool.noConfusion, ← hsequence]
  split <;> exact ⟨rfl, rfl⟩

/-- **What a pump sends.** The outgoing frames, numbered from `sequence` on, as long as the numbers
do not run out. -/
theorem sent_pump (henv : env.Codes) (now : ℕ)
    (hlt : e.sequence.toNat + e.outgoing.length < 2 ^ 32) :
    Sends e (e.pump env now).1 (Int64.ofNat (now - e.startedAt)) e.outgoing
      (e.pump env now).2 := by
  rw [outgoing] at hlt ⊢
  by_cases hidle : e.running = false ∨ e.metrics.muted = true ∨
      (e.shouldTransmit && e.transport) = false
  · obtain ⟨hsent, hsequence⟩ := @pump_idle _ _ env e now hidle
    rw [if_pos hidle, hsent]
    exact ⟨rfl, rfl, by rw [hsequence]; rfl, fun _ hs => absurd hs List.not_mem_nil⟩
  · rw [if_neg hidle] at hlt ⊢
    obtain ⟨hrun, hmuted, hopen⟩ : e.running = true ∧ e.metrics.muted = false ∧
        (e.shouldTransmit && e.transport) = true := by
      simpa [not_or] using hidle
    obtain ⟨hshould, ht⟩ := Bool.and_eq_true _ _ ▸ hopen
    obtain ⟨_, _, _, _, heq⟩ := e.listened_same
    have htransport : e.listened.transport = true := by rw [heq]; exact ht
    have hsequence : e.listened.sequence = e.sequence := by rw [heq]
    have htransmitting : e.listened.transmitting = e.transmitting := by rw [heq]
    have hpre : e.listened.preSpeechFrames = e.preSpeechFrames := by rw [heq]
    have hsends := @transmit_sends _ _ _ e.listened henv (Int64.ofNat (now - e.startedAt))
      e.capturedFrames htransport
    rw [htransmitting, hpre, hsequence] at hsends
    rw [pump_eq e hrun hmuted, hshould]
    obtain ⟨hpcm, hnumbers, hnext, hcoded⟩ := hsends hlt
    exact ⟨hpcm, hsequence ▸ hnumbers, hsequence ▸ hnext, hcoded⟩

/-! ### Where samples come from -/

/-- The recorded samples that the next `pump` reads, unless the engine is muted. -/
def Readable (e : VoiceEngine α β) (x : α) : Prop :=
  ∃ c, e.nativeCapture = some c ∧ c.Readable x

/-- Every recorded sample the engine keeps outside the buffers satisfies `p`, and every converted
one `q`. -/
structure Holds (p : α → Prop) (q : β → Prop) (e : VoiceEngine α β) : Prop where
  capture : ∀ c, e.nativeCapture = some c → c.Holds p q
  preSpeech : ∀ f ∈ e.preSpeechFrames, ∀ y ∈ f, q y

variable {p : α → Prop} {q : β → Prop}

theorem Holds.of_sameButSent {e' : VoiceEngine α β} (h : e.Holds p q) (hs : SameButSent e e') :
    e'.Holds p q := by
  obtain ⟨_, _, _, _, rfl⟩ := hs
  exact ⟨h.capture, h.preSpeech⟩

theorem mem_keepPreSpeech {frames : List (List β)} {f : List β} (h : f ∈ e.keepPreSpeech frames) :
    f ∈ e.preSpeechFrames ∨ f ∈ frames := by
  have hfold : ∀ (l kept : List (List β)),
      f ∈ l.foldl (fun kept f => keepLast kPreSpeechFrameCount (kept ++ [f])) kept →
      f ∈ kept ∨ f ∈ l := by
    intro l
    induction l with
    | nil => exact fun kept hf => Or.inl hf
    | cons g l ih =>
      intro kept hf
      rcases ih _ hf with hf | hf
      · rcases List.mem_append.mp (mem_of_mem_keepLast hf) with hf | hf
        · exact Or.inl hf
        · exact Or.inr (List.mem_singleton.mp hf ▸ List.mem_cons_self)
      · exact Or.inr (List.mem_cons_of_mem g hf)
  exact hfold frames e.preSpeechFrames h

theorem Holds.listened (h : e.Holds p q) (hread : ∀ x, e.Readable x → p x) :
    e.listened.Holds p q ∧ ∀ f ∈ e.capturedFrames, ∀ y ∈ f, q y := by
  obtain ⟨_, _, _, _, heq⟩ := e.listened_same
  have hpump : ∀ c, e.nativeCapture = some c → c.pumpLevel.1.Holds p q := fun c hc =>
    (h.capture c hc).pumpLevel fun x hx => hread x ⟨c, hc, hx⟩
  rw [heq, capturedFrames_eq]
  refine ⟨⟨fun c' hc' => ?_, h.preSpeech⟩, fun f hf => ?_⟩
  · obtain ⟨c, hc, rfl⟩ := Option.map_eq_some_iff.mp hc'
    exact (hpump c hc).drainVoiceFrames
  · cases hc : e.nativeCapture with
    | none =>
      rw [hc] at hf
      exact absurd hf List.not_mem_nil
    | some c =>
      rw [hc] at hf
      exact (hpump c hc).pending f hf

theorem Holds.sendPreSpeech (h : e.Holds p q) (elapsed : Int64) :
    (e.sendPreSpeech env elapsed).1.Holds p q ∧
      ∀ s ∈ (e.sendPreSpeech env elapsed).2, ∀ y ∈ s.pcm, q y := by
  rw [VoiceEngine.sendPreSpeech]
  split
  · exact ⟨h, fun _ hs => absurd hs List.not_mem_nil⟩
  · have hsent := h.of_sameButSent (sendPcmFrames_same env elapsed e.preSpeechFrames e)
    exact ⟨⟨hsent.capture, fun _ hf => absurd hf List.not_mem_nil⟩,
      fun s hs => h.preSpeech s.pcm (pcm_sendPcmFrames env hs)⟩

theorem Holds.transmit (h : e.Holds p q) (elapsed : Int64) (shouldTransmit : Bool)
    {capturedFrames : List (List β)} (hframes : ∀ f ∈ capturedFrames, ∀ y ∈ f, q y) :
    (e.transmit env elapsed shouldTransmit capturedFrames).1.Holds p q ∧
      ∀ s ∈ (e.transmit env elapsed shouldTransmit capturedFrames).2, ∀ y ∈ s.pcm, q y := by
  rw [VoiceEngine.transmit]
  split
  · obtain ⟨hearly, hsent⟩ := @Holds.sendPreSpeech _ _ env e p q h elapsed
    have hrest := hearly.of_sameButSent (sendPcmFrames_same env elapsed capturedFrames _)
    refine ⟨⟨hrest.capture, hrest.preSpeech⟩, fun s hs => ?_⟩
    rcases List.mem_append.mp hs with hs | hs
    · exact hsent s hs
    · exact hframes s.pcm (pcm_sendPcmFrames env hs)
  · split
    · refine ⟨⟨h.capture, fun f hf => ?_⟩, fun _ hs => absurd hs List.not_mem_nil⟩
      exact (mem_keepPreSpeech hf).elim (h.preSpeech f) (hframes f)
    · exact ⟨h, fun _ hs => absurd hs List.not_mem_nil⟩

/-- **What is sent was recorded.** If every sample in the buffers a pump reads satisfies `p`, then
it sends, and keeps, only samples that satisfy `q`. A muted pump reads nothing. -/
theorem Holds.pump (h : e.Holds p q)
    (hread : e.metrics.muted = false → ∀ x, e.Readable x → p x) (now : ℕ) :
    (e.pump env now).1.Holds p q ∧ ∀ s ∈ (e.pump env now).2, ∀ y ∈ s.pcm, q y := by
  cases hrun : e.running with
  | false =>
    rw [VoiceEngine.pump, if_pos hrun]
    exact ⟨h, fun _ hs => absurd hs List.not_mem_nil⟩
  | true =>
    cases hmuted : e.metrics.muted with
    | true =>
      rw [VoiceEngine.pump, if_neg (by rw [hrun]; exact Bool.noConfusion), if_pos hmuted]
      exact ⟨⟨h.capture, fun _ hf => absurd hf List.not_mem_nil⟩,
        fun _ hs => absurd hs List.not_mem_nil⟩
    | false =>
      rw [pump_eq e hrun hmuted]
      obtain ⟨hlistened, hframes⟩ := h.listened (hread hmuted)
      exact hlistened.transmit _ _ hframes

end VoiceEngine

end Audio

end TarkovVoice

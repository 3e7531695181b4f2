import TarkovVoice.Audio.VoiceEngine

/-!
# Tagged samples

To say which recording a sample that is sent comes from, each sample carries a tag: whether the
engine was muted when it was recorded. The engine is generic in its samples, so it runs on tagged
ones as it is; only the device and the encoders have to say what they make of tags. They work on
the values alone, and a converted sample is tagged when one of the samples it was made from is.

So the tags change nothing. `erase_pump` says it: without its tags, the tagged engine does step by
step what the engine does on the values.

## Main definitions

* `Tagged`, `WaveIn.tagged`, `Platform.tagged`
* `VoiceEngine.erase` — the engine without the tags

## Main results

* `VoiceEngine.erase_pump` — a pump of the tagged engine is a pump of the engine
-/

namespace TarkovVoice

namespace Audio

open Net (Bytes)

/-- A sample, and whether one recorded while muted went into it: a resampled sample is tagged if one
of the two that it lies between is. -/
structure Tagged (γ : Type*) where
  value : γ
  muted : Bool
  deriving DecidableEq

variable {α β : Type*}

/-- A device on tagged samples. The arithmetic sees the values, the tags follow: a wire sample is
tagged if one of those it is made of is. -/
def WaveIn.tagged (d : WaveIn α β) : WaveIn (Tagged α) (Tagged β) where
  waveInSampleRate := d.waveInSampleRate
  wireSample := fun x => ⟨d.wireSample x.value, x.muted⟩
  wireSampleBetween := fun x y t => ⟨d.wireSampleBetween x.value y.value t, x.muted || y.muted⟩
  rmsToDisplayLevel := fun samples => d.rmsToDisplayLevel (samples.map Tagged.value)

/-- The device under a tagged one. -/
def WaveIn.erase (d : WaveIn (Tagged α) (Tagged β)) : WaveIn α β where
  waveInSampleRate := d.waveInSampleRate
  wireSample := fun x => (d.wireSample ⟨x, false⟩).value
  wireSampleBetween := fun x y t => (d.wireSampleBetween ⟨x, false⟩ ⟨y, false⟩ t).value
  rmsToDisplayLevel := fun samples => d.rmsToDisplayLevel (samples.map fun x => ⟨x, false⟩)

theorem WaveIn.erase_tagged (d : WaveIn α β) : d.tagged.erase = d := by
  have hlevel : (fun samples : List α =>
      d.rmsToDisplayLevel ((samples.map fun x => (⟨x, false⟩ : Tagged α)).map Tagged.value)) =
      d.rmsToDisplayLevel := by
    funext samples
    rw [List.map_map]
    exact congrArg d.rmsToDisplayLevel (List.map_id samples)
  rw [erase, tagged]
  dsimp only
  rw [hlevel]

/-- A platform on tagged samples. -/
def Platform.tagged (env : Platform α β) : Platform (Tagged α) (Tagged β) where
  openWaveIn := fun gain name => (env.openWaveIn gain name).map WaveIn.tagged
  encodeFrame := fun coded pcmFrame =>
    env.encodeFrame (coded.map (List.map Tagged.value)) (pcmFrame.map Tagged.value)

/-! ### Loops over samples commute with a map -/

section Map

variable {α' β' : Type*} {f : α → α'} {g : β → β'}

theorem resample_map {between : α → α → ℚ → β} {between' : α' → α' → ℚ → β'}
    (h : ∀ x y t, between' (f x) (f y) t = g (between x y t)) (step : ℚ) (source : List α) :
    ∀ (n : ℕ) (position : ℚ) (out : List β),
      resample between' step (source.map f) n position (out.map g) =
        ((resample between step source n position out).1,
          (resample between step source n position out).2.map g) := by
  intro n
  induction n with
  | zero => exact fun _ _ => rfl
  | succ n ih =>
    intro position out
    rw [resample, resample, List.length_map]
    split
    · dsimp only
      rw [List.getElem?_map, List.getElem?_map]
      cases source[position.floor.toNat]? with
      | none => rfl
      | some x =>
        cases source[min (position.floor.toNat + 1) (source.length - 1)]? with
        | none => rfl
        | some y =>
          dsimp only [Option.map_some]
          rw [← ih, h, List.map_append]
          rfl
    · rfl

theorem cutFrames_map (n : ℕ) : ∀ accumulator : List β,
    cutFrames n (accumulator.map g) =
      ((cutFrames n accumulator).1.map (List.map g), (cutFrames n accumulator).2.map g) := by
  induction n with
  | zero => exact fun _ => rfl
  | succ n ih =>
    intro accumulator
    rw [cutFrames, cutFrames, List.length_map]
    split
    · rw [← List.map_drop, ih, ← List.map_take]
      rfl
    · rfl

theorem keepLast_map {γ γ' : Type*} (k : γ → γ') (n : ℕ) (l : List γ) :
    keepLast n (l.map k) = (keepLast n l).map k := by
  rw [keepLast, keepLast, List.length_map]
  split
  · rw [List.map_drop]
  · rfl

end Map

/-! ### The capture -/

/-- A buffer without the tags. -/
def Buffer.erase (b : Buffer (Tagged α)) : Buffer α where
  recorded := b.recorded.map Tagged.value
  done := b.done

namespace NativeAudioCapture

/-- The capture without the tags. -/
def erase (c : NativeAudioCapture (Tagged α) (Tagged β)) : NativeAudioCapture α β where
  device := c.device.erase
  buffers := fun i => (c.buffers i).erase
  pcmAccumulator := c.pcmAccumulator.map Tagged.value
  resampleSource := c.resampleSource.map Tagged.value
  pendingVoiceFrames := c.pendingVoiceFrames.map (List.map Tagged.value)
  resamplePosition := c.resamplePosition
  currentLevel := c.currentLevel

variable {c : NativeAudioCapture (Tagged α) (Tagged β)} {d : WaveIn α β}

theorem device_appendWireSamples (samples : List (Tagged α)) :
    (c.appendWireSamples samples).device = c.device := by
  rw [appendWireSamples]
  split <;> rfl

theorem device_enqueueVoiceFrames (samples : List (Tagged α)) :
    (c.enqueueVoiceFrames samples).device = c.device := by
  rw [enqueueVoiceFrames]
  split
  · rfl
  · exact device_appendWireSamples samples

/-- The device of a capture on tagged samples, without the tags. -/
theorem device_erase (hd : c.device = d.tagged) : c.erase.device = d := by
  rw [erase, hd, d.erase_tagged]

theorem erase_appendWireSamples (hd : c.device = d.tagged) (samples : List (Tagged α)) :
    (c.appendWireSamples samples).erase =
      c.erase.appendWireSamples (samples.map Tagged.value) := by
  have hdev := device_erase hd
  rw [appendWireSamples, appendWireSamples, hdev, hd]
  by_cases hrate : d.waveInSampleRate.hz = kWireVoiceSampleRate
  · rw [if_pos hrate, if_pos (show d.tagged.waveInSampleRate.hz = kWireVoiceSampleRate from hrate)]
    rw [erase, erase, hd, d.erase_tagged, List.map_append, List.map_map, List.map_map]
    rfl
  · rw [if_neg hrate,
      if_neg (show ¬ d.tagged.waveInSampleRate.hz = kWireVoiceSampleRate from hrate)]
    have hsource : c.erase.resampleSource ++ samples.map Tagged.value =
        (c.resampleSource ++ samples).map Tagged.value := by
      rw [List.map_append]
      rfl
    have hbetween : ∀ x y t, d.wireSampleBetween x.value y.value t =
        (d.tagged.wireSampleBetween x y t).value := fun _ _ _ => rfl
    have hloop := resample_map hbetween (d.waveInSampleRate.hz / kWireVoiceSampleRate)
      (c.resampleSource ++ samples) (c.resampleSource ++ samples).length c.resamplePosition
      c.pcmAccumulator
    rw [hsource]
    dsimp only [erase] at hloop ⊢
    rw [List.length_map, hloop, d.erase_tagged, ← List.map_drop]
    rfl

theorem erase_cutVoiceFrames : c.cutVoiceFrames.erase = c.erase.cutVoiceFrames := by
  have hcut := cutFrames_map (g := Tagged.value) c.pcmAccumulator.length c.pcmAccumulator
  rw [cutVoiceFrames, cutVoiceFrames]
  dsimp only [erase]
  rw [List.length_map, hcut]
  dsimp only
  rw [keepLast_map, ← List.map_append, keepLast_map]

theorem erase_enqueueVoiceFrames (hd : c.device = d.tagged) (samples : List (Tagged α)) :
    (c.enqueueVoiceFrames samples).erase =
      c.erase.enqueueVoiceFrames (samples.map Tagged.value) := by
  rw [enqueueVoiceFrames, enqueueVoiceFrames]
  cases samples with
  | nil => rfl
  | cons x samples =>
    rw [if_neg (List.cons_ne_nil _ _), List.map_cons, if_neg (List.cons_ne_nil _ _),
      erase_cutVoiceFrames, erase_appendWireSamples hd]
    rfl

theorem erase_update (buffers : Fin 4 → Buffer (Tagged α)) (i : Fin 4) (b : Buffer (Tagged α)) :
    (fun j => (Function.update buffers i b j).erase) =
      Function.update (fun j => (buffers j).erase) i b.erase := by
  funext j
  by_cases hj : j = i
  · rw [hj, Function.update_self, Function.update_self]
  · rw [Function.update_of_ne hj, Function.update_of_ne hj]

/-- The state of `pumpLevel`'s loop without the tags. -/
def eraseLoop (s : NativeAudioCapture (Tagged α) (Tagged β) × Bool × ℚ) :
    NativeAudioCapture α β × Bool × ℚ := (s.1.erase, s.2)

theorem erase_readBuffer {s : NativeAudioCapture (Tagged α) (Tagged β) × Bool × ℚ}
    (hd : s.1.device = d.tagged) (i : Fin 4) :
    eraseLoop (readBuffer s i) = readBuffer (eraseLoop s) i ∧
      (readBuffer s i).1.device = d.tagged := by
  obtain ⟨c, sawBuffer, level⟩ := s
  dsimp only at hd
  change eraseLoop (readBuffer (c, sawBuffer, level) i) =
    readBuffer (c.erase, sawBuffer, level) i ∧ _
  rw [readBuffer, readBuffer]
  have hempty : ((c.erase.buffers i).done = false ∨ (c.erase.buffers i).recorded = []) ↔
      ((c.buffers i).done = false ∨ (c.buffers i).recorded = []) :=
    or_congr Iff.rfl List.map_eq_nil_iff
  dsimp only
  by_cases hb : (c.buffers i).done = false ∨ (c.buffers i).recorded = []
  · rw [if_pos hb, if_pos (hempty.mpr hb)]
    exact ⟨rfl, hd⟩
  · rw [if_neg hb, if_neg (hempty.not.mpr hb)]
    refine ⟨?_, (device_enqueueVoiceFrames _).trans hd⟩
    have henq := erase_enqueueVoiceFrames hd (c.buffers i).recorded
    have hbuffers := erase_update c.buffers i {}
    have hlevel : c.device.rmsToDisplayLevel (c.buffers i).recorded =
        d.rmsToDisplayLevel ((c.buffers i).recorded.map Tagged.value) := by
      rw [hd]
      rfl
    rw [eraseLoop]
    dsimp only
    rw [hlevel, device_erase hd]
    refine congrArg₂ Prod.mk ?_ rfl
    show ({ (c.enqueueVoiceFrames (c.buffers i).recorded).erase with
      buffers := fun j => (Function.update c.buffers i {} j).erase } : NativeAudioCapture α β) = _
    rw [hbuffers, henq]
    rfl

theorem erase_pumpLevel (hd : c.device = d.tagged) :
    c.pumpLevel.1.erase = c.erase.pumpLevel.1 ∧ c.pumpLevel.2 = c.erase.pumpLevel.2 ∧
      c.pumpLevel.1.device = d.tagged := by
  have hloop : ∀ (l : List (Fin 4)) (s : NativeAudioCapture (Tagged α) (Tagged β) × Bool × ℚ),
      s.1.device = d.tagged →
      eraseLoop (l.foldl readBuffer s) = l.foldl readBuffer (eraseLoop s) ∧
        (l.foldl readBuffer s).1.device = d.tagged := by
    intro l
    induction l with
    | nil => exact fun s hs => ⟨rfl, hs⟩
    | cons i l ih =>
      intro s hs
      obtain ⟨hone, hdev⟩ := erase_readBuffer hs i
      obtain ⟨hrest, hdev⟩ := ih _ hdev
      exact ⟨by rw [List.foldl_cons, List.foldl_cons, hrest, hone], hdev⟩
  obtain ⟨hread, hdev⟩ := hloop (List.finRange 4) (c, false, 0) hd
  change eraseLoop _ = (List.finRange 4).foldl readBuffer (c.erase, false, 0) at hread
  rw [pumpLevel, pumpLevel, ← hread]
  exact ⟨rfl, rfl, hdev⟩

theorem erase_record (i : Fin 4) (samples : List (Tagged α)) :
    (c.record i samples).erase = c.erase.record i (samples.map Tagged.value) := by
  have hbuffers := erase_update c.buffers i ((c.buffers i).record samples)
  rw [erase, record]
  dsimp only
  rw [hbuffers, Buffer.erase, Buffer.record, List.map_append]
  rfl

theorem erase_complete (i : Fin 4) : (c.complete i).erase = c.erase.complete i := by
  have hbuffers := erase_update c.buffers i (c.buffers i).complete
  rw [erase, complete]
  dsimp only
  rw [hbuffers]
  rfl

end NativeAudioCapture

/-! ### The engine -/

/-- A frame that was sent, its samples without the tags. -/
def SentFrame.erase (s : SentFrame (Tagged β)) : SentFrame β :=
  { pcm := s.pcm.map Tagged.value, frame := s.frame }

namespace VoiceEngine

/-- The engine without the tags. -/
def erase (e : VoiceEngine (Tagged α) (Tagged β)) : VoiceEngine α β where
  settings := e.settings
  transport := e.transport
  metrics := e.metrics
  nativeCapture := e.nativeCapture.map NativeAudioCapture.erase
  opusEncoder := e.opusEncoder.map (List.map Tagged.value)
  running := e.running
  sequence := e.sequence
  transmitHangoverFrames := e.transmitHangoverFrames
  pushToTalkTailFrames := e.pushToTalkTailFrames
  pushToTalkActive := e.pushToTalkActive
  transmitting := e.transmitting
  preSpeechFrames := e.preSpeechFrames.map (List.map Tagged.value)
  startedAt := e.startedAt

/-- The engine records through a device that hands the tags on. -/
def OnTagged (e : VoiceEngine (Tagged α) (Tagged β)) : Prop :=
  ∀ c, e.nativeCapture = some c → ∃ d : WaveIn α β, c.device = d.tagged

variable {e : VoiceEngine (Tagged α) (Tagged β)} (env : Platform α β)

theorem onTagged_start (now : ℕ) : (e.start env.tagged now).OnTagged := by
  intro c hc
  obtain ⟨d, hd, rfl⟩ := Option.map_eq_some_iff.mp hc
  obtain ⟨d, -, rfl⟩ := Option.map_eq_some_iff.mp hd
  exact ⟨d, rfl⟩

theorem erase_start (now : ℕ) : (e.start env.tagged now).erase = e.erase.start env now := by
  rw [start, start, erase]
  dsimp only
  have hopen : ((env.tagged.openWaveIn e.settings.inputGain e.settings.inputDeviceName).map
        fun device => ({ device } : NativeAudioCapture (Tagged α) (Tagged β))).map
          NativeAudioCapture.erase =
      (env.openWaveIn e.settings.inputGain e.settings.inputDeviceName).map
        fun device => ({ device } : NativeAudioCapture α β) := by
    rw [Platform.tagged, Option.map_map, Option.map_map]
    refine congrArg (Option.map · _) (funext fun d => ?_)
    show NativeAudioCapture.erase { device := d.tagged } = { device := d }
    rw [NativeAudioCapture.erase, d.erase_tagged]
    rfl
  rw [hopen]
  rfl

theorem erase_gate : e.gate.1.erase = e.erase.gate.1 ∧ e.gate.2 = e.erase.gate.2 := by
  rw [gate, gate]
  dsimp only
  by_cases hmode : e.settings.pushToTalk = true
  · rw [if_pos hmode, if_pos (show e.erase.settings.pushToTalk = true from hmode)]
    exact ⟨rfl, rfl⟩
  · rw [if_neg hmode, if_neg (show ¬ e.erase.settings.pushToTalk = true from hmode)]
    exact ⟨rfl, rfl⟩

theorem erase_pumpLevel (h : e.OnTagged) :
    e.pumpLevel.erase = e.erase.pumpLevel ∧ e.pumpLevel.OnTagged := by
  rw [pumpLevel_eq, pumpLevel_eq]
  cases hc : e.nativeCapture with
  | none =>
    rw [show e.erase.nativeCapture = none by rw [erase, hc]; rfl]
    exact ⟨rfl, fun c hc => absurd hc (by simp)⟩
  | some c =>
    rw [show e.erase.nativeCapture = some c.erase by rw [erase, hc]; rfl]
    obtain ⟨d, hd⟩ := h c hc
    obtain ⟨hcapture, hlevel, hdev⟩ := NativeAudioCapture.erase_pumpLevel hd
    refine ⟨?_, fun c' hc' => ⟨d, ?_⟩⟩
    · rw [erase]
      dsimp only [Option.map_some, Option.getD_some]
      rw [hcapture, hlevel]
      rfl
    · rw [← Option.some.inj hc']
      exact hdev

theorem onTagged_gate (h : e.OnTagged) : e.gate.1.OnTagged := by
  obtain ⟨_, _, _, heq⟩ := e.gate_same
  rw [heq]
  exact h

theorem erase_drainVoiceFrames :
    e.drainVoiceFrames.1.erase = e.erase.drainVoiceFrames.1 ∧
      e.drainVoiceFrames.2.map (List.map Tagged.value) = e.erase.drainVoiceFrames.2 := by
  rw [drainVoiceFrames_eq, drainVoiceFrames_eq]
  cases hc : e.nativeCapture with
  | none =>
    rw [show e.erase.nativeCapture = none by rw [erase, hc]; rfl]
    exact ⟨rfl, rfl⟩
  | some c =>
    rw [show e.erase.nativeCapture = some c.erase by rw [erase, hc]; rfl]
    exact ⟨rfl, rfl⟩

theorem onTagged_drainVoiceFrames (h : e.OnTagged) : e.drainVoiceFrames.1.OnTagged := by
  rw [drainVoiceFrames_eq]
  intro c' hc'
  obtain ⟨c, hc, rfl⟩ := Option.map_eq_some_iff.mp hc'
  exact h c hc

theorem erase_listened (h : e.OnTagged) :
    e.listened.erase = e.erase.listened ∧ e.shouldTransmit = e.erase.shouldTransmit ∧
      e.capturedFrames.map (List.map Tagged.value) = e.erase.capturedFrames ∧
      e.listened.OnTagged := by
  obtain ⟨hlevel, hon⟩ := erase_pumpLevel h
  obtain ⟨hgate, hshould⟩ := @erase_gate _ _ e.pumpLevel
  obtain ⟨hdrain, hframes⟩ := @erase_drainVoiceFrames _ _ e.pumpLevel.gate.1
  rw [hgate, hlevel] at hdrain hframes
  rw [hlevel] at hshould
  exact ⟨hdrain, hshould, hframes, onTagged_drainVoiceFrames (onTagged_gate hon)⟩

theorem nativeCapture_sendPreSpeech (elapsed : Int64) :
    (e.sendPreSpeech env.tagged elapsed).1.nativeCapture = e.nativeCapture := by
  rw [sendPreSpeech]
  split
  · rfl
  · obtain ⟨_, _, _, _, heq⟩ := sendPcmFrames_same env.tagged elapsed e.preSpeechFrames e
    dsimp only
    rw [heq]

theorem nativeCapture_transmit (elapsed : Int64) (shouldTransmit : Bool)
    (frames : List (List (Tagged β))) :
    (e.transmit env.tagged elapsed shouldTransmit frames).1.nativeCapture = e.nativeCapture := by
  rw [transmit]
  split
  · obtain ⟨_, _, _, _, heq⟩ := sendPcmFrames_same env.tagged elapsed frames
      (e.sendPreSpeech env.tagged elapsed).1
    dsimp only
    rw [heq]
    exact nativeCapture_sendPreSpeech env elapsed
  · split <;> rfl

theorem onTagged_pump (h : e.OnTagged) (now : ℕ) : (e.pump env.tagged now).1.OnTagged := by
  cases hrun : e.running with
  | false =>
    rw [pump, if_pos hrun]
    exact h
  | true =>
    cases hmuted : e.metrics.muted with
    | true =>
      rw [pump, if_neg (by rw [hrun]; exact Bool.noConfusion), if_pos hmuted]
      exact h
    | false =>
      rw [pump_eq e hrun hmuted]
      obtain ⟨-, -, -, hon⟩ := erase_listened h
      intro c hc
      rw [nativeCapture_transmit] at hc
      exact hon c hc

theorem erase_sendPcmFrame (elapsed : Int64) (f : List (Tagged β)) :
    (e.sendPcmFrame env.tagged elapsed f).1.erase =
        (e.erase.sendPcmFrame env elapsed (f.map Tagged.value)).1 ∧
      (e.sendPcmFrame env.tagged elapsed f).2.map SentFrame.erase =
        (e.erase.sendPcmFrame env elapsed (f.map Tagged.value)).2 := by
  rw [sendPcmFrame, sendPcmFrame]
  have hskip : (e.erase.transport = false ∨ f.map Tagged.value = []) ↔
      (e.transport = false ∨ f = []) := or_congr Iff.rfl List.map_eq_nil_iff
  have hencoder : (e.opusEncoder ++ [f]).map (List.map Tagged.value) =
      e.erase.opusEncoder ++ [f.map Tagged.value] := List.map_append
  by_cases h : e.transport = false ∨ f = []
  · rw [if_pos h, if_pos (hskip.mpr h)]
    exact ⟨rfl, rfl⟩
  · rw [if_neg h, if_neg (hskip.not.mpr h)]
    dsimp only
    by_cases hempty : env.tagged.encodeFrame e.opusEncoder f = []
    · rw [if_pos hempty, if_pos (show env.encodeFrame e.erase.opusEncoder _ = [] from hempty)]
      refine ⟨?_, rfl⟩
      rw [erase, ← hencoder]
      rfl
    · rw [if_neg hempty, if_neg (show ¬ env.encodeFrame e.erase.opusEncoder _ = [] from hempty)]
      refine ⟨?_, rfl⟩
      rw [erase, ← hencoder]
      rfl

theorem erase_sendPcmFrames (elapsed : Int64) (frames : List (List (Tagged β))) :
    ∀ e : VoiceEngine (Tagged α) (Tagged β),
      (sendPcmFrames env.tagged elapsed e frames).1.erase =
          (sendPcmFrames env elapsed e.erase (frames.map (List.map Tagged.value))).1 ∧
        (sendPcmFrames env.tagged elapsed e frames).2.map SentFrame.erase =
          (sendPcmFrames env elapsed e.erase (frames.map (List.map Tagged.value))).2 := by
  induction frames with
  | nil => exact fun e => ⟨rfl, rfl⟩
  | cons f frames ih =>
    intro e
    obtain ⟨hengine, hsent⟩ := @erase_sendPcmFrame _ _ e env elapsed f
    obtain ⟨hengine', hsent'⟩ := ih (e.sendPcmFrame env.tagged elapsed f).1
    rw [hengine] at hengine' hsent'
    rw [List.map_cons, sendPcmFrames, sendPcmFrames]
    refine ⟨hengine', ?_⟩
    dsimp only
    rw [List.map_append, hsent, hsent']

theorem erase_keepPreSpeech (frames : List (List (Tagged β))) :
    (e.keepPreSpeech frames).map (List.map Tagged.value) =
      e.erase.keepPreSpeech (frames.map (List.map Tagged.value)) := by
  have hfold : ∀ kept : List (List (Tagged β)),
      (frames.foldl (fun kept f => keepLast kPreSpeechFrameCount (kept ++ [f])) kept).map
          (List.map Tagged.value) =
        (frames.map (List.map Tagged.value)).foldl
          (fun kept f => keepLast kPreSpeechFrameCount (kept ++ [f]))
          (kept.map (List.map Tagged.value)) := by
    induction frames with
    | nil => exact fun _ => rfl
    | cons f frames ih =>
      intro kept
      rw [List.map_cons, List.foldl_cons, List.foldl_cons, ih, ← keepLast_map, List.map_append]
      rfl
  exact hfold e.preSpeechFrames

theorem erase_sendPreSpeech (elapsed : Int64) :
    (e.sendPreSpeech env.tagged elapsed).1.erase = (e.erase.sendPreSpeech env elapsed).1 ∧
      (e.sendPreSpeech env.tagged elapsed).2.map SentFrame.erase =
        (e.erase.sendPreSpeech env elapsed).2 := by
  obtain ⟨hengine, hsent⟩ := erase_sendPcmFrames env elapsed e.preSpeechFrames e
  rw [sendPreSpeech, sendPreSpeech]
  by_cases htr : e.transmitting = true
  · rw [if_pos htr, if_pos (show e.erase.transmitting = true from htr)]
    exact ⟨rfl, rfl⟩
  · rw [if_neg htr, if_neg (show ¬ e.erase.transmitting = true from htr)]
    refine ⟨?_, hsent⟩
    have hcleared := congrArg (fun e : VoiceEngine α β => { e with preSpeechFrames := [] }) hengine
    exact hcleared

theorem erase_transmit (elapsed : Int64) (shouldTransmit : Bool)
    (frames : List (List (Tagged β))) :
    (e.transmit env.tagged elapsed shouldTransmit frames).1.erase =
        (e.erase.transmit env elapsed shouldTransmit (frames.map (List.map Tagged.value))).1 ∧
      (e.transmit env.tagged elapsed shouldTransmit frames).2.map SentFrame.erase =
        (e.erase.transmit env elapsed shouldTransmit (frames.map (List.map Tagged.value))).2 := by
  obtain ⟨hearly, hsent⟩ := @erase_sendPreSpeech _ _ e env elapsed
  obtain ⟨hrest, hsent'⟩ := erase_sendPcmFrames env elapsed frames
    (e.sendPreSpeech env.tagged elapsed).1
  rw [hearly] at hrest hsent'
  rw [transmit, transmit]
  by_cases hopen : (shouldTransmit && e.transport) = true
  · rw [if_pos hopen, if_pos (show (shouldTransmit && e.erase.transport) = true from hopen)]
    refine ⟨congrArg (fun e : VoiceEngine α β => { e with transmitting := true }) hrest, ?_⟩
    dsimp only
    rw [List.map_append, hsent, hsent']
  · rw [if_neg hopen, if_neg (show ¬ (shouldTransmit && e.erase.transport) = true from hopen)]
    have hsome : e.erase.nativeCapture.isSome = e.nativeCapture.isSome := Option.isSome_map
    rw [hsome]
    split
    · refine ⟨?_, rfl⟩
      rw [erase, ← erase_keepPreSpeech]
      rfl
    · exact ⟨rfl, rfl⟩

/-- **Tags change nothing.** A pump of the tagged engine sends the values that the engine sends,
and leaves it in the same state. -/
theorem erase_pump (h : e.OnTagged) (now : ℕ) :
    (e.pump env.tagged now).1.erase = (e.erase.pump env now).1 ∧
      (e.pump env.tagged now).2.map SentFrame.erase = (e.erase.pump env now).2 := by
  cases hrun : e.running with
  | false =>
    rw [pump, pump, if_pos hrun, if_pos (show e.erase.running = false from hrun)]
    exact ⟨rfl, rfl⟩
  | true =>
    cases hmuted : e.metrics.muted with
    | true =>
      rw [pump, pump, if_neg (by rw [hrun]; exact Bool.noConfusion), if_pos hmuted,
        if_neg (show ¬ e.erase.running = false by rw [erase, hrun]; exact Bool.noConfusion),
        if_pos (show e.erase.metrics.muted = true from hmuted)]
      exact ⟨rfl, rfl⟩
    | false =>
      obtain ⟨hlistened, hshould, hframes, -⟩ := erase_listened h
      rw [pump_eq e hrun hmuted, pump_eq e.erase hrun hmuted, ← hlistened, ← hshould, ← hframes]
      exact erase_transmit env _ _ _

end VoiceEngine

end Audio

end TarkovVoice

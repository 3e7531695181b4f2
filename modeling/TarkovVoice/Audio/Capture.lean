import Mathlib.Data.List.DropRight
import Mathlib.Data.Rat.Floor
import Mathlib.Logic.Function.Basic
import TarkovVoice.Audio.Codec

/-!
# Audio capture

`VoiceEngine::NativeAudioCapture` of `client/src/audio/VoiceEngine.cpp`, where it records through
`waveIn`: four buffers that the device fills and the engine hands back, the conversion to 16 kHz,
and the cutting into frames of 320 samples.

The definitions are generic in the samples: `α` is what the device records and `β` what goes into
a frame. The code has 16-bit integers in both places. The floating-point arithmetic on samples
(gain and limiter, interpolation, level) is given by the `WaveIn`, and everything said here holds
whatever it computes. Positions in the resampled signal are rationals where the code has a
`double`.

The WASAPI fallback of the source only feeds the level meter and yields no frame. It is left out.

## Main definitions

* `NativeAudioCapture`, with `enqueueVoiceFrames`, `pumpLevel`, `drainVoiceFrames`
* `NativeAudioCapture.Holds` — what has been read from the buffers and not been drained

## Main results

* `resample_done` — the resampling loop ends where the source's loop ends
* `NativeAudioCapture.Holds.pumpLevel` — what comes out of the buffers was recorded into them
-/

namespace TarkovVoice

namespace Audio

/-- The sample rates `NativeAudioCapture::start` tries, in the order in which it tries them. At the
first one the samples are framed as they are, at the other two they are resampled. -/
inductive WaveInRate
  | wire
  | hz48000
  | hz44100
  deriving DecidableEq

/-- `waveInSampleRate_`. -/
def WaveInRate.hz : WaveInRate → ℕ
  | wire => kWireVoiceSampleRate
  | hz48000 => 48000
  | hz44100 => 44100

/-- An open recording device: its rate, and the arithmetic that the input gain is part of. The two
kinds of sample and this arithmetic are parameters, so that what is proved of the buffers, the
frames and the gate does not depend on floating point. -/
structure WaveIn (α β : Type*) where
  waveInSampleRate : WaveInRate
  /-- `softLimitSample` of a recorded sample times the gain. -/
  wireSample : α → β
  /-- The same between two neighbouring samples, at a fraction of the way. -/
  wireSampleBetween : α → α → ℚ → β
  /-- `rmsToDisplayLevel`. -/
  rmsToDisplayLevel : List α → ℚ

/-- A device whose samples go into the frames as they are, and which shows one level for them
all. -/
def microphone (rate : WaveInRate) (level : ℚ) : WaveIn Int16 Int16 where
  waveInSampleRate := rate
  wireSample := id
  wireSampleBetween := fun x _ _ => x
  rmsToDisplayLevel := fun _ => level

/-- One of `buffers_` with its header: the `dwBytesRecorded / 2` samples that the device has
written since it was given the buffer, and the flag `WHDR_DONE`. -/
structure Buffer (α : Type*) where
  recorded : List α := []
  done : Bool := false
  deriving DecidableEq

/-- A buffer into which the device has written more samples. -/
def Buffer.record {α : Type*} (b : Buffer α) (samples : List α) : Buffer α :=
  { b with recorded := b.recorded ++ samples }

/-- A buffer that the device has completed. -/
def Buffer.complete {α : Type*} (b : Buffer α) : Buffer α := { b with done := true }

/-- `VoiceEngine::NativeAudioCapture`, from the moment the device is open. What it was opened with
is in `device`; the handles and the memory of the headers are left out. -/
structure NativeAudioCapture (α β : Type*) where
  device : WaveIn α β
  buffers : Fin 4 → Buffer α := fun _ => {}
  pcmAccumulator : List β := []
  resampleSource : List α := []
  pendingVoiceFrames : List (List β) := []
  resamplePosition : ℚ := 0
  currentLevel : ℚ := 0

variable {α β : Type*}

/-! ### Conversion to the wire rate -/

/-- The resampling loop of `enqueueVoiceFrames`. The number of turns is bounded by the first
argument, see `resample_done`. -/
def resample (between : α → α → ℚ → β) (step : ℚ) (source : List α) :
    ℕ → ℚ → List β → ℚ × List β
  | 0, position, out => (position, out)
  | n + 1, position, out =>
    if position + 1 < source.length then
      let left := position.floor.toNat
      let right := min (left + 1) (source.length - 1)
      match source[left]?, source[right]? with
      | some x, some y =>
        resample between step source n (position + step) (out ++ [between x y (position - left)])
      | _, _ => (position, out)
    else (position, out)

/-- **The loop runs to its end.** With a step of at least one, a turn for each sample of the
source is enough for the loop's condition to fail. -/
theorem resample_done (between : α → α → ℚ → β) {step : ℚ} (hstep : 1 ≤ step) (source : List α) :
    ∀ (n : ℕ) (position : ℚ) (out : List β), 0 ≤ position → (source.length : ℚ) ≤ n + position →
      ¬ (resample between step source n position out).1 + 1 < source.length := by
  intro n
  induction n with
  | zero =>
    intro position out _ hn
    rw [resample, not_lt]
    push_cast at hn
    linarith
  | succ n ih =>
    intro position out hpos hn
    rw [resample]
    split
    · next hlt =>
      -- both indices are inside the source, because the next position is
      have hfloor : (position.floor.toNat : ℚ) ≤ position := by
        have hnn : 0 ≤ position.floor := Int.floor_nonneg.mpr hpos
        have hle : ((position.floor : ℤ) : ℚ) ≤ position := Int.floor_le position
        rwa [← Int.toNat_of_nonneg hnn, Int.cast_natCast] at hle
      have hleft : position.floor.toNat < source.length := by
        have : (position.floor.toNat : ℚ) < source.length := by linarith
        exact_mod_cast this
      have hright : min (position.floor.toNat + 1) (source.length - 1) < source.length := by omega
      dsimp only
      rw [List.getElem?_eq_getElem hleft, List.getElem?_eq_getElem hright]
      refine ih _ _ (by linarith) ?_
      push_cast at hn
      linarith
    · next hge => exact hge

theorem resample_forall {p : α → Prop} {q : β → Prop} {between : α → α → ℚ → β} {step : ℚ}
    (hbetween : ∀ x y t, p x → p y → q (between x y t)) {source : List α}
    (hsource : ∀ x ∈ source, p x) :
    ∀ (n : ℕ) (position : ℚ) (out : List β), (∀ y ∈ out, q y) →
      ∀ y ∈ (resample between step source n position out).2, q y := by
  intro n
  induction n with
  | zero => exact fun _ _ hout => hout
  | succ n ih =>
    intro position out hout
    rw [resample]
    split
    · dsimp only
      split
      · next x y hx hy =>
        refine ih _ _ fun z hz => ?_
        rcases List.mem_append.mp hz with hz | hz
        · exact hout z hz
        · rw [List.mem_singleton.mp hz]
          exact hbetween _ _ _ (hsource x (List.mem_of_getElem? hx))
            (hsource y (List.mem_of_getElem? hy))
      · exact hout
    · exact hout

/-! ### Cutting into frames -/

/-- The loop that cuts complete frames off the accumulator. Each turn shortens it, so its length
bounds the number of turns. -/
def cutFrames : ℕ → List β → List (List β) × List β
  | 0, accumulator => ([], accumulator)
  | n + 1, accumulator =>
    if kWireVoiceSamplesPerFrame ≤ accumulator.length then
      let (frames, rest) := cutFrames n (accumulator.drop kWireVoiceSamplesPerFrame)
      (accumulator.take kWireVoiceSamplesPerFrame :: frames, rest)
    else ([], accumulator)

/-- Cutting loses nothing. -/
theorem flatten_cutFrames (n : ℕ) :
    ∀ accumulator : List β,
      (cutFrames n accumulator).1.flatten ++ (cutFrames n accumulator).2 = accumulator := by
  induction n with
  | zero => exact fun _ => rfl
  | succ n ih =>
    intro accumulator
    rw [cutFrames]
    split
    · dsimp only
      rw [List.flatten_cons, List.append_assoc, ih, List.take_append_drop]
    · rfl

/-- No frame is empty. -/
theorem ne_nil_of_mem_cutFrames (n : ℕ) :
    ∀ accumulator : List β, ∀ f ∈ (cutFrames n accumulator).1, f ≠ [] := by
  induction n with
  | zero => exact fun _ _ hf => absurd hf List.not_mem_nil
  | succ n ih =>
    intro accumulator f hf
    rw [cutFrames] at hf
    split at hf
    · next hle =>
      rcases List.mem_cons.mp hf with rfl | hf
      · rw [← List.length_pos_iff, List.length_take, kWireVoiceSamplesPerFrame_eq] at *
        omega
      · exact ih _ f hf
    · exact absurd hf List.not_mem_nil

/-- Remove from the front what exceeds `n` entries. -/
def keepLast {γ : Type*} (n : ℕ) (l : List γ) : List γ :=
  if l.length > n then l.drop (l.length - n) else l

theorem keepLast_eq_rtake {γ : Type*} (n : ℕ) (l : List γ) : keepLast n l = l.rtake n := by
  rw [keepLast, List.rtake]
  split
  · rfl
  · next hle => rw [Nat.sub_eq_zero_of_le (not_lt.mp hle), List.drop_zero]

theorem keepLast_sublist {γ : Type*} (n : ℕ) (l : List γ) : (keepLast n l).Sublist l := by
  rw [keepLast_eq_rtake]
  exact List.drop_sublist _ l

theorem mem_of_mem_keepLast {γ : Type*} {n : ℕ} {l : List γ} {x : γ} (h : x ∈ keepLast n l) :
    x ∈ l := (keepLast_sublist n l).subset h

theorem length_keepLast {γ : Type*} (n : ℕ) (l : List γ) :
    (keepLast n l).length = min n l.length := by
  rw [keepLast_eq_rtake, List.rtake, List.length_drop]
  omega

namespace NativeAudioCapture

/-- The first half of `enqueueVoiceFrames`: the recorded samples, converted, enter the
accumulator. The count of samples to erase from the source is the whole part of the position. -/
def appendWireSamples (c : NativeAudioCapture α β) (samples : List α) : NativeAudioCapture α β :=
  if c.device.waveInSampleRate.hz = kWireVoiceSampleRate then
    { c with pcmAccumulator := c.pcmAccumulator ++ samples.map c.device.wireSample }
  else
    let source := c.resampleSource ++ samples
    let step : ℚ := c.device.waveInSampleRate.hz / kWireVoiceSampleRate
    let (position, out) := resample c.device.wireSampleBetween step source source.length
      c.resamplePosition c.pcmAccumulator
    let consumed := position.floor.toNat
    { c with
      pcmAccumulator := out
      resampleSource := source.drop consumed
      resamplePosition := position - consumed }

/-- The second half of `enqueueVoiceFrames`: complete frames leave the accumulator, and join those
that wait for `pump`, of which the newest 25 are kept. -/
def cutVoiceFrames (c : NativeAudioCapture α β) : NativeAudioCapture α β :=
  let (frames, rest) := cutFrames c.pcmAccumulator.length c.pcmAccumulator
  { c with
    pcmAccumulator := keepLast (kWireVoiceSamplesPerFrame * 10) rest
    pendingVoiceFrames := keepLast 25 (c.pendingVoiceFrames ++ frames) }

/-- `enqueueVoiceFrames`. -/
def enqueueVoiceFrames (c : NativeAudioCapture α β) (samples : List α) : NativeAudioCapture α β :=
  if samples = [] then c else (c.appendWireSamples samples).cutVoiceFrames

/-- The body of `pumpLevel`'s loop over the headers, with `sawBuffer` and `level`. A buffer that
has been read goes back to the device. -/
def readBuffer (s : NativeAudioCapture α β × Bool × ℚ) (i : Fin 4) :
    NativeAudioCapture α β × Bool × ℚ :=
  let (c, sawBuffer, level) := s
  let b := c.buffers i
  if b.done = false ∨ b.recorded = [] then (c, sawBuffer, level)
  else
    ({ c.enqueueVoiceFrames b.recorded with buffers := Function.update c.buffers i {} }, true,
      max level (c.device.rmsToDisplayLevel b.recorded))

/-- `pumpLevel`: the four buffers are looked at in order, and those that are done are read. Without
any the level fades. -/
def pumpLevel (c : NativeAudioCapture α β) : NativeAudioCapture α β × ℚ :=
  let (c, sawBuffer, level) := (List.finRange 4).foldl readBuffer (c, false, 0)
  let faded := c.currentLevel * (7 / 10)
  let level := if sawBuffer then level else if faded < 1 / 100 then 0 else faded
  ({ c with currentLevel := level }, level)

/-- `drainVoiceFrames`. -/
def drainVoiceFrames (c : NativeAudioCapture α β) : NativeAudioCapture α β × List (List β) :=
  ({ c with pendingVoiceFrames := [] }, c.pendingVoiceFrames)

/-! ### The device

What the device does to a buffer it has been given. -/

/-- The samples of a buffer: `sampleRate / 50`. -/
def samplesPerBuffer (c : NativeAudioCapture α β) : ℕ := c.device.waveInSampleRate.hz / 50

/-- The device writes samples into a buffer. -/
def record (c : NativeAudioCapture α β) (i : Fin 4) (samples : List α) : NativeAudioCapture α β :=
  { c with buffers := Function.update c.buffers i ((c.buffers i).record samples) }

/-- The buffer that is filled first. -/
def firstBuffer : Fin 4 := 0

/-- The device completes a buffer. -/
def complete (c : NativeAudioCapture α β) (i : Fin 4) : NativeAudioCapture α β :=
  { c with buffers := Function.update c.buffers i (c.buffers i).complete }

/-! ### Where samples come from -/

/-- The recorded samples that the next `pumpLevel` reads: those of the buffers that the device has
completed. What is in a buffer that is still being filled has to wait. -/
def Readable (c : NativeAudioCapture α β) (x : α) : Prop :=
  ∃ i, (c.buffers i).done = true ∧ x ∈ (c.buffers i).recorded

/-- Every recorded sample held between the buffers and the accumulator satisfies `p`, and every
converted one `q`. -/
structure Holds (p : α → Prop) (q : β → Prop) (c : NativeAudioCapture α β) : Prop where
  /-- Converting keeps the two apart. -/
  wireSample : ∀ x, p x → q (c.device.wireSample x)
  between : ∀ x y t, p x → p y → q (c.device.wireSampleBetween x y t)
  source : ∀ x ∈ c.resampleSource, p x
  accumulator : ∀ y ∈ c.pcmAccumulator, q y
  pending : ∀ f ∈ c.pendingVoiceFrames, ∀ y ∈ f, q y

variable {p : α → Prop} {q : β → Prop} {c : NativeAudioCapture α β}

theorem Holds.appendWireSamples (h : c.Holds p q) {samples : List α}
    (hs : ∀ x ∈ samples, p x) : (c.appendWireSamples samples).Holds p q := by
  rw [NativeAudioCapture.appendWireSamples]
  split
  · refine ⟨h.wireSample, h.between, h.source, fun y hy => ?_, h.pending⟩
    rcases List.mem_append.mp hy with hy | hy
    · exact h.accumulator y hy
    · obtain ⟨x, hx, rfl⟩ := List.mem_map.mp hy
      exact h.wireSample x (hs x hx)
  · have hsource : ∀ x ∈ c.resampleSource ++ samples, p x := fun x hx =>
      (List.mem_append.mp hx).elim (h.source x) (hs x)
    refine ⟨h.wireSample, h.between, fun x hx => ?_, fun y hy => ?_, h.pending⟩
    · exact hsource x (List.mem_of_mem_drop hx)
    · exact resample_forall h.between hsource _ _ _ h.accumulator y hy

theorem Holds.cutVoiceFrames (h : c.Holds p q) : c.cutVoiceFrames.Holds p q := by
  have hcut := flatten_cutFrames c.pcmAccumulator.length c.pcmAccumulator
  refine ⟨h.wireSample, h.between, h.source, fun y hy => ?_, fun f hf y hy => ?_⟩
  · refine h.accumulator y ?_
    rw [← hcut]
    exact List.mem_append_right _ (mem_of_mem_keepLast hy)
  · rcases List.mem_append.mp (mem_of_mem_keepLast hf) with hf | hf
    · exact h.pending f hf y hy
    · refine h.accumulator y ?_
      rw [← hcut]
      exact List.mem_append_left _ (List.mem_flatten.mpr ⟨f, hf, hy⟩)

theorem Holds.enqueueVoiceFrames (h : c.Holds p q) {samples : List α}
    (hs : ∀ x ∈ samples, p x) : (c.enqueueVoiceFrames samples).Holds p q := by
  rw [NativeAudioCapture.enqueueVoiceFrames]
  split
  · exact h
  · exact (h.appendWireSamples hs).cutVoiceFrames

theorem Holds.readBuffer {s : NativeAudioCapture α β × Bool × ℚ} (h : s.1.Holds p q)
    (hread : ∀ x, s.1.Readable x → p x) (i : Fin 4) :
    (NativeAudioCapture.readBuffer s i).1.Holds p q ∧
      ∀ x, (NativeAudioCapture.readBuffer s i).1.Readable x → p x := by
  obtain ⟨c, sawBuffer, level⟩ := s
  rw [NativeAudioCapture.readBuffer]
  dsimp only at h hread ⊢
  split
  · exact ⟨h, hread⟩
  · next hb =>
    obtain ⟨hdone, -⟩ := not_or.mp hb
    rw [Bool.not_eq_false] at hdone
    have henq := h.enqueueVoiceFrames fun x hx => hread x ⟨i, hdone, hx⟩
    refine ⟨⟨henq.wireSample, henq.between, henq.source, henq.accumulator, henq.pending⟩, ?_⟩
    rintro x ⟨j, hj, hx⟩
    dsimp only at hj hx
    by_cases hij : j = i
    · rw [hij, Function.update_self] at hx
      exact absurd hx List.not_mem_nil
    · rw [Function.update_of_ne hij] at hj hx
      exact hread x ⟨j, hj, hx⟩

/-- **What is read was recorded.** If every sample in a completed buffer satisfies `p`, then so do
all that the capture holds after the buffers have been read. -/
theorem Holds.pumpLevel (h : c.Holds p q) (hread : ∀ x, c.Readable x → p x) :
    c.pumpLevel.1.Holds p q := by
  have hloop : ∀ (l : List (Fin 4)) (s : NativeAudioCapture α β × Bool × ℚ), s.1.Holds p q →
      (∀ x, s.1.Readable x → p x) → (l.foldl NativeAudioCapture.readBuffer s).1.Holds p q := by
    intro l
    induction l with
    | nil => exact fun s hs _ => hs
    | cons i l ih =>
      intro s hs hr
      obtain ⟨hs', hr'⟩ := hs.readBuffer hr i
      exact ih _ hs' hr'
  have hread := hloop (List.finRange 4) (c, false, 0) h hread
  exact ⟨hread.wireSample, hread.between, hread.source, hread.accumulator, hread.pending⟩

/-- What the device does to its buffers is not seen before they are read. -/
theorem Holds.record (h : c.Holds p q) (i : Fin 4) (samples : List α) :
    (c.record i samples).Holds p q :=
  ⟨h.wireSample, h.between, h.source, h.accumulator, h.pending⟩

theorem Holds.complete (h : c.Holds p q) (i : Fin 4) : (c.complete i).Holds p q :=
  ⟨h.wireSample, h.between, h.source, h.accumulator, h.pending⟩

theorem Holds.drainVoiceFrames (h : c.Holds p q) : c.drainVoiceFrames.1.Holds p q :=
  ⟨h.wireSample, h.between, h.source, h.accumulator, fun _ hf => absurd hf List.not_mem_nil⟩

/-! ### Frames -/

/-- No frame that waits to be drained is empty. -/
def Framed (c : NativeAudioCapture α β) : Prop := ∀ f ∈ c.pendingVoiceFrames, f ≠ []

theorem Framed.enqueueVoiceFrames (h : c.Framed) (samples : List α) :
    (c.enqueueVoiceFrames samples).Framed := by
  have happend : (c.appendWireSamples samples).pendingVoiceFrames = c.pendingVoiceFrames := by
    rw [NativeAudioCapture.appendWireSamples]
    split <;> rfl
  rw [NativeAudioCapture.enqueueVoiceFrames]
  split
  · exact h
  · intro f hf
    rcases List.mem_append.mp (mem_of_mem_keepLast hf) with hf | hf
    · rw [happend] at hf
      exact h f hf
    · exact ne_nil_of_mem_cutFrames _ _ f hf

theorem Framed.pumpLevel (h : c.Framed) : c.pumpLevel.1.Framed := by
  have hloop : ∀ (l : List (Fin 4)) (s : NativeAudioCapture α β × Bool × ℚ), s.1.Framed →
      (l.foldl NativeAudioCapture.readBuffer s).1.Framed := by
    intro l
    induction l with
    | nil => exact fun s hs => hs
    | cons i l ih =>
      rintro ⟨c, sawBuffer, level⟩ hs
      refine ih _ ?_
      rw [NativeAudioCapture.readBuffer]
      dsimp only
      split
      · exact hs
      · exact Framed.enqueueVoiceFrames hs _
  exact hloop (List.finRange 4) (c, false, 0) h

end NativeAudioCapture

end Audio

end TarkovVoice

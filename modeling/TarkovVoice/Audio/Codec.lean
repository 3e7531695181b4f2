import Mathlib.Data.Int.Bitwise
import TarkovVoice.Net.Bytes

/-!
# The voice encoders

The three encoders of `client/src/audio/VoiceEngine.cpp` and the choice between them that
`VoiceEngine::pump` makes for each frame. Samples are 16-bit signed integers; an `int` of the
source is an `ℤ`, since every value it takes here is far from its bounds.

Three things are parameters, collected in `CodecEnv`: the two environment variables, the Opus
library, and the samples that `normalizeFrameSamples` interpolates when it brings a frame of another
length to 320 samples. The last the code does compute itself, in floating point; every value stands
for it here. The engine only ever codes frames of 320 samples, which are not interpolated, so that
nothing about what is sent depends on it.

## Main definitions

* `encodePcmPayload`, `encodeAdpcmPayload`, `encodeOpusPayload`
* `encodeFrame` — the choice between them

## Main results

* `length_encodeAdpcmPayload` — the ADPCM text of a frame has 169 bytes
* `encodeFrame_length` — a coded frame has at least one and at most 1200 bytes
-/

namespace TarkovVoice

namespace Audio

open Net (Bytes)

/-- `kWireVoiceSampleRate`. -/
def kWireVoiceSampleRate : ℕ := 16000

/-- `kWireVoiceFrameMs`. -/
def kWireVoiceFrameMs : ℕ := 20

/-- `kWireVoiceSamplesPerFrame`. -/
def kWireVoiceSamplesPerFrame : ℕ := kWireVoiceSampleRate * kWireVoiceFrameMs / 1000

@[simp] theorem kWireVoiceSamplesPerFrame_eq : kWireVoiceSamplesPerFrame = 320 := rfl

/-- `kOpusMagic`. -/
def kOpusMagic : Bytes := [84, 86, 79, 49]

/-- `kPcmMagic`. -/
def kPcmMagic : Bytes := [84, 86, 80, 49]

/-- `kAdpcmMagic`. -/
def kAdpcmMagic : Bytes := [84, 86, 65, 49]

/-- `kImaIndexTable`. -/
def kImaIndexTable : List ℤ := [-1, -1, -1, -1, 2, 4, 6, 8, -1, -1, -1, -1, 2, 4, 6, 8]

/-- `kImaStepTable`. -/
def kImaStepTable : List ℤ :=
  [7, 8, 9, 10, 11, 12, 13, 14, 16, 17,
    19, 21, 23, 25, 28, 31, 34, 37, 41, 45,
    50, 55, 60, 66, 73, 80, 88, 97, 107, 118,
    130, 143, 157, 173, 190, 209, 230, 253, 279, 307,
    337, 371, 408, 449, 494, 544, 598, 658, 724, 796,
    876, 963, 1060, 1166, 1282, 1411, 1552, 1707, 1878, 2066,
    2272, 2499, 2749, 3024, 3327, 3660, 4026, 4428, 4871, 5358,
    5894, 6484, 7132, 7845, 8630, 9493, 10442, 11487, 12635, 13899,
    15289, 16818, 18500, 20350, 22385, 24623, 27086, 29794, 32767]

/-- What the encoders take from outside: the environment variables read by
`lowBandwidthCodecEnabled` and `opusCodecDisabled`, the interpolation of `normalizeFrameSamples`,
and the Opus encoder. -/
structure CodecEnv where
  lowBandwidthCodecEnabled : Bool
  opusCodecDisabled : Bool
  /-- The sample `normalizeFrameSamples` computes for each output position. -/
  interpolated : List Int16 → ℕ → Int16
  /-- What `opus_encode` writes for a frame, after the frames the encoder has coded since it was
  created. Nothing stands for an error, and for a build without Opus. -/
  opusEncode : List (List Int16) → List Int16 → Bytes
  /-- `opus_encode` writes no more than the 512 bytes it is given. -/
  opusEncode_le : ∀ coded samples, (opusEncode coded samples).length ≤ 512

/-- A build without Opus writes nothing. -/
theorem length_noOpus_le (_ : List (List Int16)) (_ : List Int16) : ([] : Bytes).length ≤ 512 :=
  Nat.zero_le _

/-- A build without Opus, in which frames are coded as PCM. The interpolation makes no difference to
frames of the usual length. -/
def CodecEnv.withoutOpus : CodecEnv where
  lowBandwidthCodecEnabled := false
  opusCodecDisabled := true
  interpolated := fun samples _ => samples.headD 0
  opusEncode := fun _ _ => []
  opusEncode_le := length_noOpus_le

variable (env : CodecEnv)

/-- `normalizeFrameSamples`. Samples in the number of a frame stay as they are; a single one is
repeated, and others are interpolated, sample by sample. -/
def normalizeFrameSamples (samples : List Int16) : List Int16 :=
  if samples = [] ∨ samples.length = kWireVoiceSamplesPerFrame then samples
  else if samples.length = 1 then List.replicate kWireVoiceSamplesPerFrame (samples.headD 0)
  else (List.range kWireVoiceSamplesPerFrame).map (env.interpolated samples)

theorem length_normalizeFrameSamples {samples : List Int16} (h : samples ≠ []) :
    (normalizeFrameSamples env samples).length = 320 := by
  rw [normalizeFrameSamples]
  split
  · next hn => exact hn.resolve_left h
  · split
    · exact List.length_replicate
    · rw [List.length_map, List.length_range]
      rfl

/-- `appendLeU16`. -/
def appendLeU16 (out : Bytes) (value : UInt16) : Bytes :=
  out ++ [(value &&& 0xff).toUInt8, ((value >>> 8) &&& 0xff).toUInt8]

@[simp] theorem length_appendLeU16 (out : Bytes) (value : UInt16) :
    (appendLeU16 out value).length = out.length + 2 := by
  rw [appendLeU16, List.length_append]
  rfl

/-! ### PCM -/

/-- The bytes of a sample in memory, on a little-endian machine. The source copies them as
they are. -/
def sampleBytes (sample : Int16) : Bytes := appendLeU16 [] sample.toUInt16

/-- `encodePcmPayload`. The empty vector stands for a frame that cannot be coded. -/
def encodePcmPayload (input : List Int16) : Bytes :=
  let samples := normalizeFrameSamples env input
  if samples = [] ∨ samples.length > 0xffff then []
  else appendLeU16 kPcmMagic (UInt16.ofNat samples.length) ++ samples.flatMap sampleBytes

theorem length_flatMap_sampleBytes (samples : List Int16) :
    (samples.flatMap sampleBytes).length = 2 * samples.length := by
  induction samples with
  | nil => rfl
  | cons a samples ih =>
    rw [List.flatMap_cons, List.length_append, ih, sampleBytes, length_appendLeU16,
      List.length_cons]
    simp only [List.length_nil]
    omega

theorem length_encodePcmPayload {input : List Int16} (h : input ≠ []) :
    (encodePcmPayload env input).length = 646 := by
  have hlen := length_normalizeFrameSamples env h
  have hne : normalizeFrameSamples env input ≠ [] := by
    intro h0
    rw [h0] at hlen
    exact absurd hlen (by simp)
  rw [encodePcmPayload]
  simp only [hne, hlen, false_or]
  rw [if_neg (by omega), List.length_append, length_appendLeU16,
    length_flatMap_sampleBytes, hlen]
  rfl

/-! ### ADPCM -/

/-- `std::clamp`, for bounds that are in order. -/
def clamp (value low high : ℤ) : ℤ := max low (min value high)

/-- The state that coder and decoder share. Both step it with the same half bytes, the coder while
it chooses them and the decoder when it reads them. -/
structure Adpcm where
  predictor : ℤ
  index : ℤ
  deriving DecidableEq

/-- `kImaStepTable[index]`. Outside of the table there is nothing to read, and the index never gets
there. -/
def Adpcm.step (a : Adpcm) : ℤ := kImaStepTable.getD a.index.toNat 0

/-- The code chosen for a sample that differs from the predictor by `diff`: a sign bit, and three
bits for how many steps, half steps and quarter steps there are. -/
def adpcmCode (step diff : ℤ) : ℕ :=
  let (code, diff) := if diff < 0 then (8, -diff) else (0, diff)
  let tempStep := step
  let (code, diff) := if diff ≥ tempStep then (code ||| 4, diff - tempStep) else (code, diff)
  let tempStep := tempStep >>> 1
  let (code, diff) := if diff ≥ tempStep then (code ||| 2, diff - tempStep) else (code, diff)
  let tempStep := tempStep >>> 1
  if diff ≥ tempStep then code ||| 1 else code

/-- The change of the predictor that a code stands for, without its sign. The eighth of a step is
always in it. -/
def adpcmDelta (step : ℤ) (code : ℕ) : ℤ :=
  let delta := step >>> 3
  let delta := if code &&& 4 ≠ 0 then delta + step else delta
  let delta := if code &&& 2 ≠ 0 then delta + step >>> 1 else delta
  if code &&& 1 ≠ 0 then delta + step >>> 2 else delta

/-- What both sides do with a code: the predictor moves and the step changes, each within its range.
So they stay in step as long as they see the same codes. -/
def Adpcm.advance (a : Adpcm) (code : ℕ) : Adpcm :=
  let delta := adpcmDelta a.step code
  let predictor := a.predictor + if code &&& 8 ≠ 0 then -delta else delta
  { predictor := clamp predictor (-32768) 32767
    index := clamp (a.index + kImaIndexTable.getD (code &&& 0x0f) 0) 0 88 }

/-- The variables of the coding loop: the state that is stepped, the half byte that waits for the
other half, and what has been written. -/
structure AdpcmEncoder where
  coder : Adpcm
  lowNibble : Bool
  packed : UInt8
  out : Bytes

/-- The body of the coding loop. The first code of a byte waits in `packed` until the second one is
there. -/
def AdpcmEncoder.encodeSample (e : AdpcmEncoder) (sample : Int16) : AdpcmEncoder :=
  let code := adpcmCode e.coder.step (sample.toInt - e.coder.predictor)
  let e := { e with coder := e.coder.advance code }
  let nibble := UInt8.ofNat (code &&& 0x0f)
  if e.lowNibble then { e with packed := nibble, lowNibble := false }
  else { e with packed := 0, lowNibble := true, out := e.out ++ [e.packed ||| nibble <<< 4] }

/-- `encodeAdpcmPayload`. The empty vector stands for a frame that cannot be coded, as one without
samples. -/
def encodeAdpcmPayload (input : List Int16) : Bytes :=
  match normalizeFrameSamples env input with
  | [] => []
  | front :: rest =>
    if (front :: rest).length > 0xffff then []
    else
      let out := appendLeU16 kAdpcmMagic front.toUInt16
      let out := out ++ [0]
      let out := appendLeU16 out (UInt16.ofNat (front :: rest).length)
      let e := rest.foldl AdpcmEncoder.encodeSample
        { coder := { predictor := front.toInt, index := 0 }, lowNibble := true, packed := 0, out }
      if !e.lowNibble then e.out ++ [e.packed] else e.out

/-- Two samples make a byte. The half byte that may be left is counted with the loop's flag. -/
theorem AdpcmEncoder.length_foldl_encodeSample (rest : List Int16) :
    ∀ e : AdpcmEncoder, 2 * (rest.foldl encodeSample e).out.length +
        (if (rest.foldl encodeSample e).lowNibble then 0 else 1) =
      2 * e.out.length + (if e.lowNibble then 0 else 1) + rest.length := by
  induction rest with
  | nil => exact fun e => rfl
  | cons sample rest ih =>
    intro e
    rw [List.foldl_cons, ih, List.length_cons]
    cases hlow : e.lowNibble <;> simp [encodeSample, hlow] <;> omega

theorem length_encodeAdpcmPayload {input : List Int16} (h : input ≠ []) :
    (encodeAdpcmPayload env input).length = 169 := by
  have hlen := length_normalizeFrameSamples env h
  rw [encodeAdpcmPayload]
  split
  · next h0 =>
    rw [h0] at hlen
    exact absurd hlen (by simp)
  · next front rest heq =>
    rw [heq] at hlen
    rw [if_neg (by omega)]
    rw [List.length_cons] at hlen
    have hloop := AdpcmEncoder.length_foldl_encodeSample rest
      { coder := { predictor := front.toInt, index := 0 }, lowNibble := true, packed := 0
        out := appendLeU16 (appendLeU16 kAdpcmMagic front.toUInt16 ++ [0])
          (UInt16.ofNat (front :: rest).length) }
    simp only [length_appendLeU16, List.length_append, List.length_singleton, if_true] at hloop
    have hmagic : kAdpcmMagic.length = 4 := rfl
    dsimp only
    split
    · next hlow =>
      rw [Bool.not_eq_true'] at hlow
      rw [hlow, if_neg Bool.false_ne_true] at hloop
      rw [List.length_append, List.length_singleton]
      omega
    · next hlow =>
      -- an odd number of samples after the first leaves half a byte
      rw [Bool.not_eq_true', Bool.not_eq_false] at hlow
      rw [hlow, if_pos rfl] at hloop
      omega

/-! ### Opus -/

/-- `encodeOpusPayload`. The encoder is given by the frames it has coded since it was created. The
empty vector stands for a frame that it cannot code. -/
def encodeOpusPayload (input : List Int16) (encoder : List (List Int16)) : Bytes :=
  let samples := normalizeFrameSamples env input
  if samples = [] then []
  else
    let packet := env.opusEncode (encoder.map (normalizeFrameSamples env)) samples
    if packet = [] then []
    else appendLeU16 kOpusMagic (UInt16.ofNat kWireVoiceSamplesPerFrame) ++ packet

theorem length_encodeOpusPayload_le (input : List Int16) (encoder : List (List Int16)) :
    (encodeOpusPayload env input encoder).length ≤ 518 := by
  have hle := env.opusEncode_le (encoder.map (normalizeFrameSamples env))
    (normalizeFrameSamples env input)
  rw [encodeOpusPayload]
  dsimp only
  split
  · exact Nat.zero_le _
  · split
    · exact Nat.zero_le _
    · rw [List.length_append, length_appendLeU16]
      exact Nat.add_le_add (le_refl 6) hle

/-! ### The choice of `VoiceEngine::pump` -/

/-- The payload `pump` makes of a frame, after the Opus encoder has coded the frames `encoder`.
Where Opus gives nothing, the frame is coded as PCM. -/
def encodeFrame (encoder : List (List Int16)) (pcmFrame : List Int16) : Bytes :=
  if env.lowBandwidthCodecEnabled then encodeAdpcmPayload env pcmFrame
  else if !env.opusCodecDisabled then
    let payload := encodeOpusPayload env pcmFrame encoder
    if payload = [] then encodePcmPayload env pcmFrame else payload
  else encodePcmPayload env pcmFrame

/-- **Every frame is coded**, and fits a datagram, whichever codec is chosen and whatever
Opus does. -/
theorem encodeFrame_length (encoder : List (List Int16)) {pcmFrame : List Int16}
    (h : pcmFrame ≠ []) :
    0 < (encodeFrame env encoder pcmFrame).length ∧
      (encodeFrame env encoder pcmFrame).length ≤ 1200 := by
  have hpcm := length_encodePcmPayload env h
  have hopus := length_encodeOpusPayload_le env pcmFrame encoder
  rw [encodeFrame]
  split
  · rw [length_encodeAdpcmPayload env h]
    omega
  · split
    · dsimp only
      split
      · omega
      · next hne => exact ⟨List.length_pos_iff.mpr hne, by omega⟩
    · omega

end Audio

end TarkovVoice

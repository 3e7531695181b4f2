import TarkovVoice.Audio.Adpcm

/-!
# Decoding received payloads

`decodeVoicePayload` of `client/src/audio/VoiceEngine.cpp` and the decoders it tries: Opus, PCM and
ADPCM, each of which first looks for its own magic. What none of them accepts is taken for raw
16-bit samples, as an early version of the program sent them. That is also what becomes of a payload
that names its codec and that the codec's decoder rejects.

The Opus library is a parameter, in `DecoderEnv`. A decoder is given by the packets it has been
given since it was created, with the number of samples asked for.

## Main definitions

* `decodeOpusPayload`, `decodePcmPayload`, `decodeVoicePayload`
* `ownSamples` — what the decoder of the codec a payload names makes of it
* `WellFormed` — what a payload must be for that decoder to accept it

## Main results

* `isSome_decodeOpusPayload`, `isSome_decodePcmPayload`, `isSome_decodeAdpcmPayload`
* `decoded_or_dropped_iff` — a payload that names its codec is decoded by that codec or dropped
  exactly when it is well formed
-/

namespace TarkovVoice

namespace Audio

open Net (Bytes)

/-- A process with Opus in it, or without. What the library decodes is a parameter, of which only
the documented part is assumed: a call that is no error writes a sample. -/
structure DecoderEnv extends CodecEnv where
  /-- `TVO_HAVE_OPUS`. -/
  haveOpus : Bool
  /-- What `opus_decode` writes for a packet, asked for so many samples, after the calls that the
  decoder has served. Nothing stands for an error, also one of creating the decoder. -/
  opusDecode : List (Bytes × ℕ) → Bytes → ℕ → Option (List Int16)
  /-- A call that is no error writes at least one sample. -/
  opusDecode_ne : ∀ decoder packet sampleCount, opusDecode decoder packet sampleCount ≠ some []

variable (env : DecoderEnv)

/-! ### The decoders -/

/-- `decodeOpusPayload`, with the decoder afterwards, which is given by all it has been handed. It
gets nothing in a build without Opus, and no packet without the magic or with a number of samples
that is 0 or exceeds that of three frames. -/
def decodeOpusPayload (payload : Bytes) (decoder : List (Bytes × ℕ)) :
    Option (List Int16) × List (Bytes × ℕ) :=
  if env.haveOpus = false then (none, decoder)
  else if payload.length < 7 ∨ payload.take 4 ≠ kOpusMagic then (none, decoder)
  else
    let sampleCount := (readLeU16 payload 4).toNat
    if sampleCount = 0 ∨ sampleCount > kWireVoiceSamplesPerFrame * 3 then (none, decoder)
    else
      (env.opusDecode decoder (payload.drop 6) sampleCount,
        decoder ++ [(payload.drop 6, sampleCount)])

/-- The samples that bytes in memory are, on a little-endian machine. -/
def samplesOfBytes : Bytes → List Int16
  | low :: high :: bytes => (readLeU16 [low, high] 0).toInt16 :: samplesOfBytes bytes
  | _ => []

/-- `decodePcmPayload`: the payload must have exactly the bytes that its number of samples asks for,
and at least one sample. -/
def decodePcmPayload (payload : Bytes) : Option (List Int16) :=
  if payload.length < 6 ∨ payload.take 4 ≠ kPcmMagic then none
  else
    let sampleCount := (readLeU16 payload 4).toNat
    let expectedBytes := 6 + sampleCount * 2
    if sampleCount = 0 ∨ payload.length ≠ expectedBytes then none
    else some (samplesOfBytes (payload.drop 6))

/-- `decodeVoicePayload`, with the Opus decoder afterwards. The decoders are tried one after the
other, and what none of them takes is played as bare samples. -/
def decodeVoicePayload (payload : Bytes) (opusDecoder : List (Bytes × ℕ)) :
    List Int16 × List (Bytes × ℕ) :=
  let (samples, opusDecoder) := decodeOpusPayload env payload opusDecoder
  match samples with
  | some samples => (normalizeFrameSamples env.toCodecEnv samples, opusDecoder)
  | none =>
    match decodePcmPayload payload with
    | some samples => (normalizeFrameSamples env.toCodecEnv samples, opusDecoder)
    | none =>
      match decodeAdpcmPayload payload with
      | some samples => (normalizeFrameSamples env.toCodecEnv samples, opusDecoder)
      | none => (normalizeFrameSamples env.toCodecEnv (samplesOfBytes payload), opusDecoder)

/-! ### What the decoders accept -/

variable {env}

/-- What every decoder asks of a payload first. -/
theorem isSome_guarded {α : Type} {payload magic : Bytes} {n : ℕ} {decoded : Option α} :
    (if payload.length < n ∨ payload.take 4 ≠ magic then none else decoded).isSome ↔
      payload.take 4 = magic ∧ n ≤ payload.length ∧ decoded.isSome := by
  split
  · next hshort =>
    refine iff_of_false Bool.noConfusion ?_
    rintro ⟨hmagic, hlen, -⟩
    exact hshort.elim (not_lt.mpr hlen) fun hne => hne hmagic
  · next hlong =>
    obtain ⟨hlen, hmagic⟩ := not_or.mp hlong
    exact ⟨fun h => ⟨not_not.mp hmagic, not_lt.mp hlen, h⟩, fun h => h.2.2⟩

theorem isSome_decodeOpusPayload {payload : Bytes} {decoder : List (Bytes × ℕ)} :
    (decodeOpusPayload env payload decoder).1.isSome ↔
      env.haveOpus = true ∧ 7 ≤ payload.length ∧ payload.take 4 = kOpusMagic ∧
        (readLeU16 payload 4).toNat ≠ 0 ∧ (readLeU16 payload 4).toNat ≤ 960 ∧
        (env.opusDecode decoder (payload.drop 6) (readLeU16 payload 4).toNat).isSome := by
  have hmax : kWireVoiceSamplesPerFrame * 3 = 960 := rfl
  rw [decodeOpusPayload]
  split
  · next h => simp [h]
  · next h =>
    rw [Bool.not_eq_false] at h
    rw [apply_ite Prod.fst, isSome_guarded]
    simp only [h, true_and]
    rw [and_left_comm, hmax]
    refine and_congr_right fun _ => and_congr_right fun _ => ?_
    split
    · next hcount =>
      refine iff_of_false Bool.noConfusion ?_
      rintro ⟨hpos, hle, -⟩
      omega
    · next hcount =>
      exact ⟨fun hdecoded => ⟨by omega, by omega, hdecoded⟩, fun hdecoded => hdecoded.2.2⟩

theorem isSome_decodePcmPayload {payload : Bytes} :
    (decodePcmPayload payload).isSome ↔ payload.take 4 = kPcmMagic ∧
      (readLeU16 payload 4).toNat ≠ 0 ∧
      payload.length = 6 + (readLeU16 payload 4).toNat * 2 := by
  rw [decodePcmPayload, isSome_guarded]
  refine and_congr_right fun _ => ?_
  dsimp only
  split
  · next hcount =>
    refine iff_of_false (fun h => absurd h.2 Bool.false_ne_true) ?_
    rintro ⟨hpos, hlen⟩
    exact hcount.elim hpos fun hne => hne hlen
  · next hcount =>
    obtain ⟨hpos, hlen⟩ := not_or.mp hcount
    exact iff_of_true ⟨by omega, rfl⟩ ⟨hpos, not_not.mp hlen⟩

/-- Each half byte is a sample, until there are as many as there should be. -/
theorem AdpcmDecoder.length_decodeHalf {n : ℕ} {d : AdpcmDecoder} (hd : d.out.length ≤ n)
    (code : UInt8) : (d.decodeHalf n code).out.length = min n (d.out.length + 1) := by
  rw [decodeHalf]
  split
  · rw [List.length_append, List.length_singleton]
    omega
  · omega

theorem AdpcmDecoder.length_foldl {n : ℕ} (bytes : Bytes) : ∀ {d : AdpcmDecoder},
    d.out.length ≤ n →
      (bytes.foldl (decodeByte n) d).out.length = min n (d.out.length + 2 * bytes.length) := by
  induction bytes with
  | nil =>
    intro d hd
    rw [List.foldl_nil, List.length_nil]
    omega
  | cons byte bytes ih =>
    intro d hd
    have hlow := length_decodeHalf hd (Nibbles.low byte)
    have hhigh := @length_decodeHalf n (d.decodeHalf n (Nibbles.low byte)) (by omega)
      (Nibbles.high byte)
    rw [List.foldl_cons, decodeByte_eq, ih (by omega), List.length_cons]
    omega

theorem isSome_decodeAdpcmPayload {payload : Bytes} :
    (decodeAdpcmPayload payload).isSome ↔ payload.take 4 = kAdpcmMagic ∧ 9 ≤ payload.length ∧
      (readLeU16 payload 7).toNat ≠ 0 ∧
      (readLeU16 payload 7).toNat ≤ 1 + 2 * (payload.length - 9) := by
  rw [decodeAdpcmPayload, isSome_guarded]
  refine and_congr_right fun _ => and_congr_right fun _ => ?_
  dsimp only
  split
  · next hcount => simp [hcount]
  · next hcount =>
    have hloop := @AdpcmDecoder.length_foldl (readLeU16 payload 7).toNat (payload.drop 9)
      (.start payload) (Nat.one_le_iff_ne_zero.mpr hcount)
    have hone : (AdpcmDecoder.start payload).out.length = 1 := rfl
    rw [hone, List.length_drop] at hloop
    split
    · next hfull => exact iff_of_true rfl ⟨hcount, by omega⟩
    · next hpart => exact iff_of_false Bool.noConfusion fun h => hpart (by omega)

/-! ### Payloads that name their codec -/

/-- The payload starts with the magic of a codec. Any other payload is taken for raw samples, and
none of the three decoders has a say in it. -/
def NamesCodec (payload : Bytes) : Prop :=
  payload.take 4 = kOpusMagic ∨ payload.take 4 = kPcmMagic ∨ payload.take 4 = kAdpcmMagic

/-- What the decoder of the codec a payload names makes of it. A payload that names none has no
samples. -/
def ownSamples (env : DecoderEnv) (payload : Bytes) (opusDecoder : List (Bytes × ℕ)) :
    Option (List Int16) :=
  if payload.take 4 = kOpusMagic then (decodeOpusPayload env payload opusDecoder).1
  else if payload.take 4 = kPcmMagic then decodePcmPayload payload
  else if payload.take 4 = kAdpcmMagic then decodeAdpcmPayload payload
  else none

/-- What comes out are the samples of the payload's own codec, or nothing. -/
def DecodedOrDropped (env : DecoderEnv) (payload : Bytes) (opusDecoder : List (Bytes × ℕ)) :
    Prop :=
  (∃ samples, ownSamples env payload opusDecoder = some samples ∧
    (decodeVoicePayload env payload opusDecoder).1 =
      normalizeFrameSamples env.toCodecEnv samples) ∨
  (decodeVoicePayload env payload opusDecoder).1 = []

/-- An Opus payload has a packet, a count of at most three frames, and a library that decodes it;
a PCM payload as many samples as it says; an ADPCM payload at least as many half bytes as it needs
after the first sample. -/
def WellFormed (env : DecoderEnv) (payload : Bytes) (opusDecoder : List (Bytes × ℕ)) : Prop :=
  if payload.take 4 = kOpusMagic then
    env.haveOpus = true ∧ 7 ≤ payload.length ∧ (readLeU16 payload 4).toNat ≠ 0 ∧
      (readLeU16 payload 4).toNat ≤ 960 ∧
      (env.opusDecode opusDecoder (payload.drop 6) (readLeU16 payload 4).toNat).isSome
  else if payload.take 4 = kPcmMagic then
    (readLeU16 payload 4).toNat ≠ 0 ∧ payload.length = 6 + (readLeU16 payload 4).toNat * 2
  else
    9 ≤ payload.length ∧ (readLeU16 payload 7).toNat ≠ 0 ∧
      (readLeU16 payload 7).toNat ≤ 1 + 2 * (payload.length - 9)

variable {payload : Bytes} {opusDecoder : List (Bytes × ℕ)}

theorem isSome_ownSamples (h : NamesCodec payload) :
    (ownSamples env payload opusDecoder).isSome ↔ WellFormed env payload opusDecoder := by
  rw [ownSamples, WellFormed]
  by_cases hopus : payload.take 4 = kOpusMagic
  · rw [if_pos hopus, if_pos hopus, isSome_decodeOpusPayload]
    simp only [hopus, true_and]
  · rw [if_neg hopus, if_neg hopus]
    by_cases hpcm : payload.take 4 = kPcmMagic
    · rw [if_pos hpcm, if_pos hpcm, isSome_decodePcmPayload]
      simp only [hpcm, true_and]
    · have hadpcm := (h.resolve_left hopus).resolve_left hpcm
      rw [if_neg hpcm, if_neg hpcm, if_pos hadpcm, isSome_decodeAdpcmPayload]
      simp only [hadpcm, true_and]

/-- **What becomes of a payload that names its codec.** If the codec's decoder rejects it, it is
taken for raw samples. -/
theorem decodeVoicePayload_eq (h : NamesCodec payload) :
    (decodeVoicePayload env payload opusDecoder).1 = normalizeFrameSamples env.toCodecEnv
      ((ownSamples env payload opusDecoder).getD (samplesOfBytes payload)) := by
  have hopus : payload.take 4 ≠ kOpusMagic →
      decodeOpusPayload env payload opusDecoder = (none, opusDecoder) := by
    intro hne
    rw [decodeOpusPayload, if_pos (Or.inr hne), ite_self]
  have hpcm : payload.take 4 ≠ kPcmMagic → decodePcmPayload payload = none := fun hne =>
    if_pos (Or.inr hne)
  have hadpcm : payload.take 4 ≠ kAdpcmMagic → decodeAdpcmPayload payload = none := fun hne =>
    if_pos (Or.inr hne)
  rw [decodeVoicePayload, ownSamples]
  rcases h with h | h | h <;> rw [h] at hopus hpcm hadpcm ⊢
  · rw [hpcm (by decide), hadpcm (by decide), if_pos rfl]
    rcases decodeOpusPayload env payload opusDecoder with ⟨_ | samples, decoder⟩ <;> rfl
  · rw [hopus (by decide), hadpcm (by decide), if_neg (by decide), if_pos rfl]
    cases decodePcmPayload payload <;> rfl
  · rw [hopus (by decide), hpcm (by decide), if_neg (by decide), if_neg (by decide), if_pos rfl]
    cases decodeAdpcmPayload payload <;> rfl

/-- A payload that names its codec is long enough to be taken for samples. -/
theorem samplesOfBytes_ne_nil (h : NamesCodec payload) : samplesOfBytes payload ≠ [] := by
  rcases payload with _ | ⟨a, _ | ⟨b, payload⟩⟩
  · exact absurd h (by simp [NamesCodec, kOpusMagic, kPcmMagic, kAdpcmMagic])
  · exact absurd h (by simp [NamesCodec, kOpusMagic, kPcmMagic, kAdpcmMagic])
  · exact List.cons_ne_nil _ _

theorem decodedOrDropped_iff_isSome (h : NamesCodec payload) :
    DecodedOrDropped env payload opusDecoder ↔ (ownSamples env payload opusDecoder).isSome := by
  rw [DecodedOrDropped, decodeVoicePayload_eq h]
  cases hown : ownSamples env payload opusDecoder with
  | some samples => exact iff_of_true (Or.inl ⟨samples, rfl, rfl⟩) rfl
  | none =>
    refine iff_of_false ?_ Bool.noConfusion
    rintro (⟨samples, hsome, -⟩ | hdropped)
    · exact absurd hsome (Option.some_ne_none samples).symm
    · have hlen := length_normalizeFrameSamples env.toCodecEnv (samplesOfBytes_ne_nil h)
      rw [Option.getD_none] at hdropped
      rw [hdropped] at hlen
      exact absurd hlen (by decide)

/-- **Decoded or dropped, exactly if it is well formed.** For every payload that names its codec, in
every build and with a decoder in any state: what comes out is what the codec's own decoder makes of
it, or nothing, exactly if the payload is well formed for that codec. -/
theorem decoded_or_dropped_iff (h : NamesCodec payload) :
    DecodedOrDropped env payload opusDecoder ↔ WellFormed env payload opusDecoder :=
  (decodedOrDropped_iff_isSome h).trans (isSome_ownSamples h)

/-! ### A payload that was cut off -/

theorem noOpusDecode_ne (_ : List (Bytes × ℕ)) (_ : Bytes) (_ : ℕ) :
    (none : Option (List Int16)) ≠ some [] := Option.some_ne_none _ |>.symm

/-- A build without Opus. -/
def withoutOpus : DecoderEnv where
  toCodecEnv := .withoutOpus
  haveOpus := false
  opusDecode := fun _ _ _ => none
  opusDecode_ne := noOpusDecode_ne

/-- A PCM payload with the two samples it announces. -/
def twoSamples : Bytes := kPcmMagic ++ [2, 0, 1, 0, 7, 0]

theorem decoded_or_dropped_iff_twoSamples : DecodedOrDropped withoutOpus twoSamples [] := by
  refine (decoded_or_dropped_iff (Or.inr (Or.inl rfl))).mpr ?_
  rw [WellFormed, if_neg (by decide), if_pos (by decide)]
  decide

/-- **A payload that was cut off is played.** Of `twoSamples` without the last sample, the magic,
the count and the first sample are taken for four samples and stretched to a frame, whatever comes
of it in between. -/
theorem cut_off_played : ¬ DecodedOrDropped withoutOpus (twoSamples.take 8) [] ∧
    ∀ env : DecoderEnv, (decodeVoicePayload env (twoSamples.take 8) []).1 =
        normalizeFrameSamples env.toCodecEnv [22100, 12624, 2, 1] ∧
      (decodeVoicePayload env (twoSamples.take 8) []).1.length = 320 := by
  have hnames : NamesCodec (twoSamples.take 8) := Or.inr (Or.inl rfl)
  refine ⟨?_, fun env => ?_⟩
  · rw [decodedOrDropped_iff_isSome hnames]
    decide
  · have hown : ownSamples env (twoSamples.take 8) [] = none := by
      rw [ownSamples, if_neg (by decide), if_pos (by decide)]
      decide
    have hread : samplesOfBytes (twoSamples.take 8) = [22100, 12624, 2, 1] := by decide
    have hplayed := @decodeVoicePayload_eq env _ [] hnames
    rw [hown, hread, Option.getD_none] at hplayed
    refine ⟨hplayed, ?_⟩
    rw [hplayed]
    exact length_normalizeFrameSamples env.toCodecEnv (List.cons_ne_nil _ _)

end Audio

end TarkovVoice

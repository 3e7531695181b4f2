import TarkovVoice.Audio.Decoding
import TarkovVoice.BigEndian

/-!
# PCM payloads

A PCM payload is a magic, a count and the samples, all numbers of 16 bits with the low byte first.
`IsPcm` says so without a decoder. `decodePcmPayload` accepts these payloads and no others, so it is
one to one, and a whole frame goes through `encodePcmPayload` and `decodeVoicePayload` unchanged,
whether the build has Opus or not.

## Main definitions

* `leBytes` — two bytes, the low one first
* `IsPcm` — the payload of a list of samples

## Main results

* `decodePcmPayload_eq_some_iff` — what is accepted, and as what
* `pcm_lossless`
-/

namespace TarkovVoice

namespace Audio

open Net (Bytes)

/-! ### Little-endian numbers -/

/-- The two bytes of a number, the low one first. -/
def leBytes (v : ℕ) : Bytes := (BigEndian.bytes 2 v).reverse

@[simp] theorem length_leBytes (v : ℕ) : (leBytes v).length = 2 := by
  rw [leBytes, List.length_reverse, BigEndian.length_bytes]

theorem toNat_readLeU16 (data : Bytes) (offset : ℕ) : (readLeU16 data offset).toNat =
    (data.getD offset 0).toNat + 256 * (data.getD (offset + 1) 0).toNat :=
  toNat_low_high _ _

/-- Two bytes are those of the number that is read from them. -/
theorem leBytes_readLeU16 (low high : UInt8) :
    leBytes (readLeU16 [low, high] 0).toNat = [low, high] := by
  have hvalue : (readLeU16 [low, high] 0).toNat = BigEndian.value [high, low] := by
    rw [toNat_readLeU16]
    simp [BigEndian.value]
    omega
  rw [leBytes, hvalue, @BigEndian.bytes_value_of_length [high, low] 2 rfl]
  rfl

theorem appendLeU16_eq (out : Bytes) (v : UInt16) : appendLeU16 out v = out ++ leBytes v.toNat := by
  have hread : readLeU16 [(v &&& 0xff).toUInt8, ((v >>> 8) &&& 0xff).toUInt8] 0 = v := le_bytes v
  rw [appendLeU16, ← leBytes_readLeU16, hread]

theorem readLeU16_leBytes (v : UInt16) : readLeU16 (leBytes v.toNat) 0 = v := by
  rw [← List.nil_append (leBytes v.toNat), ← appendLeU16_eq]
  exact le_bytes v

/-- The number at an offset is that of the bytes there. -/
theorem readLeU16_append {before bytes : Bytes} {i : ℕ} (hi : before.length = i)
    (hbytes : 2 ≤ bytes.length) (after : Bytes) :
    readLeU16 (before ++ (bytes ++ after)) i = readLeU16 bytes 0 := by
  subst hi
  simp only [readLeU16, List.getD_eq_getElem?_getD]
  rw [List.getElem?_append_right le_rfl, List.getElem?_append_right (Nat.le_add_right _ 1),
    Nat.sub_self, Nat.add_sub_cancel_left, List.getElem?_append_left (by omega),
    List.getElem?_append_left (by omega)]

/-! ### Samples and bytes -/

theorem sampleBytes_eq (sample : Int16) : sampleBytes sample = leBytes sample.toUInt16.toNat :=
  appendLeU16_eq [] sample.toUInt16

theorem leBytes_sample : (fun sample : Int16 => leBytes sample.toUInt16.toNat) = sampleBytes :=
  funext fun sample => (sampleBytes_eq sample).symm

/-- The bytes of samples are those samples. -/
theorem samplesOfBytes_flatMap (samples : List Int16) :
    samplesOfBytes (samples.flatMap sampleBytes) = samples := by
  induction samples with
  | nil => rfl
  | cons sample samples ih =>
    have hread : readLeU16 (sampleBytes sample) 0 = sample.toUInt16 := by
      rw [sampleBytes_eq, readLeU16_leBytes]
    rw [List.flatMap_cons]
    change (readLeU16 (sampleBytes sample) 0).toInt16 ::
      samplesOfBytes (samples.flatMap sampleBytes) = _
    rw [hread, ih, Int16.toInt16_toUInt16]

/-- The samples of an even number of bytes are those bytes. -/
theorem flatMap_samplesOfBytes : ∀ {n : ℕ} {bytes : Bytes}, bytes.length = 2 * n →
    (samplesOfBytes bytes).flatMap sampleBytes = bytes ∧ (samplesOfBytes bytes).length = n
  | 0, [], _ => ⟨rfl, rfl⟩
  | n + 1, low :: high :: bytes, h => by
    have hrest : bytes.length = 2 * n := by
      simp only [List.length_cons] at h
      omega
    obtain ⟨hbytes, hlen⟩ := flatMap_samplesOfBytes hrest
    rw [samplesOfBytes, List.flatMap_cons, hbytes, List.length_cons, hlen, sampleBytes_eq,
      UInt16.toUInt16_toInt16, leBytes_readLeU16]
    exact ⟨rfl, rfl⟩

/-! ### What is a PCM payload -/

/-- The payload is the magic, the number of the samples and the samples, two bytes each. There is at
least one sample, and the number fits its two bytes. -/
structure IsPcm (payload : Bytes) (samples : List Int16) : Prop where
  pos : 1 ≤ samples.length
  lt : samples.length < 2 ^ 16
  eq : payload = kPcmMagic ++
    (leBytes samples.length ++ samples.flatMap fun sample => leBytes sample.toUInt16.toNat)

/-- The magic, a number and so many bytes, twice. -/
def IsPcmOf (n : ℕ) (body payload : Bytes) : Prop :=
  1 ≤ n ∧ n < 2 ^ 16 ∧ body.length = 2 * n ∧ payload = kPcmMagic ++ (leBytes n ++ body)

theorem IsPcmOf.decodePcmPayload_eq {n : ℕ} {body payload : Bytes} (h : IsPcmOf n body payload) :
    decodePcmPayload payload = some (samplesOfBytes body) := by
  obtain ⟨hpos, hlt, hlen, rfl⟩ := h
  have hcount : (readLeU16 (kPcmMagic ++ (leBytes n ++ body)) 4).toNat = n := by
    have htoNat : (UInt16.ofNat n).toNat = n := by
      rw [UInt16.toNat_ofNat', Nat.mod_eq_of_lt hlt]
    have hread := readLeU16_leBytes (UInt16.ofNat n)
    rw [htoNat] at hread
    rw [@readLeU16_append kPcmMagic (leBytes n) 4 rfl (length_leBytes n).ge, hread, htoNat]
  have hlength : (kPcmMagic ++ (leBytes n ++ body)).length = 6 + n * 2 := by
    rw [List.length_append, List.length_append, length_leBytes, hlen]
    change 4 + (2 + 2 * n) = _
    omega
  have hmagic : (kPcmMagic ++ (leBytes n ++ body)).take 4 = kPcmMagic := rfl
  have hbody : (kPcmMagic ++ (leBytes n ++ body)).drop 6 = body := by
    rw [← List.append_assoc]
    refine List.drop_left' ?_
    rw [List.length_append, length_leBytes]
    rfl
  rw [decodePcmPayload, if_neg (by rw [hlength, hmagic]; simp)]
  simp only [hcount, hlength, hbody]
  rw [if_neg (by omega)]

/-- What is accepted is the magic, a number and so many bytes, twice. -/
theorem exists_of_decodePcmPayload {payload : Bytes} {samples : List Int16}
    (h : decodePcmPayload payload = some samples) :
    ∃ n body, IsPcmOf n body payload ∧ samples = samplesOfBytes body := by
  obtain ⟨hmagic, hpos, hlen⟩ := isSome_decodePcmPayload.mp (Option.isSome_of_eq_some h)
  rcases payload with _ | ⟨a, _ | ⟨b, _ | ⟨c, _ | ⟨d, _ | ⟨low, _ | ⟨high, body⟩⟩⟩⟩⟩⟩
  case cons.cons.cons.cons.cons.cons =>
    have hread : readLeU16 (a :: b :: c :: d :: low :: high :: body) 4 =
        readLeU16 [low, high] 0 := rfl
    rw [hread] at hpos hlen
    have hof : IsPcmOf (readLeU16 [low, high] 0).toNat body
        (a :: b :: c :: d :: low :: high :: body) := by
      refine ⟨Nat.one_le_iff_ne_zero.mpr hpos, (readLeU16 [low, high] 0).toNat_lt, ?_, ?_⟩
      · simp only [List.length_cons] at hlen
        omega
      · rw [leBytes_readLeU16, ← hmagic]
        rfl
    refine ⟨_, body, hof, ?_⟩
    rw [hof.decodePcmPayload_eq] at h
    exact (Option.some.inj h).symm
  all_goals simp only [List.length_cons, List.length_nil] at hlen; omega

/-- **What is accepted, and as what**: the payload is the magic, the number of samples, and the
samples, with nothing behind them. -/
theorem decodePcmPayload_eq_some_iff {payload : Bytes} {samples : List Int16} :
    decodePcmPayload payload = some samples ↔ IsPcm payload samples := by
  constructor
  · intro h
    obtain ⟨n, body, ⟨hpos, hlt, hlen, rfl⟩, rfl⟩ := exists_of_decodePcmPayload h
    obtain ⟨hbody, hn⟩ := flatMap_samplesOfBytes hlen
    exact ⟨hn.symm ▸ hpos, hn.symm ▸ hlt, by rw [hn, leBytes_sample, hbody]⟩
  · rintro ⟨hpos, hlt, rfl⟩
    have hof : IsPcmOf samples.length (samples.flatMap sampleBytes)
        (kPcmMagic ++ (leBytes samples.length ++ samples.flatMap sampleBytes)) :=
      ⟨hpos, hlt, length_flatMap_sampleBytes samples, rfl⟩
    rw [leBytes_sample, hof.decodePcmPayload_eq, samplesOfBytes_flatMap]

/-! ### A whole frame -/

theorem isPcm_encodePcmPayload (env : CodecEnv) {frame : List Int16}
    (h : frame.length = 320) : IsPcm (encodePcmPayload env frame) frame := by
  have hnorm : normalizeFrameSamples env frame = frame := if_pos (.inr h)
  have hne : frame ≠ [] := List.ne_nil_of_length_pos (by omega)
  have hcount : (UInt16.ofNat frame.length).toNat = frame.length := by
    rw [UInt16.toNat_ofNat', Nat.mod_eq_of_lt (by omega)]
  refine ⟨by omega, by omega, ?_⟩
  rw [encodePcmPayload, hnorm]
  simp only [hne, false_or]
  rw [if_neg (by omega), appendLeU16_eq, hcount, List.append_assoc, leBytes_sample]

/-- **The lossless path.** A frame of 320 samples comes back as it was, whatever the builds and the
settings at both ends are, and no other decoder touches it. What `decodePcmPayload` accepts is the
magic, a number `n` and `2 * n` bytes, which it reads as `n` samples; so no two payloads are
accepted as the same samples. -/
theorem pcm_lossless :
    (∀ (env : DecoderEnv) (sender : CodecEnv) (frame : List Int16)
      (opusDecoder : List (Bytes × ℕ)), frame.length = 320 →
        decodeVoicePayload env (encodePcmPayload sender frame) opusDecoder =
          (frame, opusDecoder)) ∧
    (∀ payload, (decodePcmPayload payload).isSome ↔ ∃ n body, IsPcmOf n body payload) ∧
    (∀ payload samples, decodePcmPayload payload = some samples ↔ IsPcm payload samples) ∧
    ∀ payload payload' samples, decodePcmPayload payload = some samples →
      decodePcmPayload payload' = some samples → payload = payload' := by
  refine ⟨fun env sender frame opusDecoder hframe => ?_, fun payload => ⟨?_, ?_⟩,
    fun _ _ => decodePcmPayload_eq_some_iff, fun payload payload' samples h h' => ?_⟩
  · have hpcm := isPcm_encodePcmPayload sender hframe
    have hopus : decodeOpusPayload env (encodePcmPayload sender frame) opusDecoder =
        (none, opusDecoder) := by
      have hmagic : (encodePcmPayload sender frame).take 4 = kPcmMagic := by
        rw [hpcm.eq]
        rfl
      rw [decodeOpusPayload, hmagic, if_pos (.inr (by decide) : _ ∨ _), ite_self]
    rw [decodeVoicePayload, hopus, decodePcmPayload_eq_some_iff.mpr hpcm]
    exact congrArg (·, opusDecoder) (if_pos (.inr hframe))
  · intro h
    obtain ⟨samples, hsamples⟩ := Option.isSome_iff_exists.mp h
    obtain ⟨n, body, hof, -⟩ := exists_of_decodePcmPayload hsamples
    exact ⟨n, body, hof⟩
  · rintro ⟨n, body, hof⟩
    exact Option.isSome_of_eq_some hof.decodePcmPayload_eq
  · rw [(decodePcmPayload_eq_some_iff.mp h).eq, (decodePcmPayload_eq_some_iff.mp h').eq]

theorem pcm_lossless_silence :
    decodeVoicePayload withoutOpus
      (encodePcmPayload withoutOpus.toCodecEnv (List.replicate 320 0)) [] =
        (List.replicate 320 0, []) ∧
      twoSamples = kPcmMagic ++ (leBytes 2 ++ [1, 0, 7, 0]) :=
  ⟨pcm_lossless.1 withoutOpus withoutOpus.toCodecEnv (List.replicate 320 0) []
      List.length_replicate,
    pcm_lossless.2.2.2 _ _ [1, 7] (by decide) (by decide)⟩

end Audio

end TarkovVoice

import TarkovVoice.Audio.Codec
import TarkovVoice.Nibbles

/-!
# ADPCM

The coder of `Audio/Codec.lean` writes for each sample how far it is from a prediction, in four
bits, and predicts the next one from what it has written. The decoder sees only the four bits. It
ends up with the coder's own predictions as long as both go through the same states: same
predictor, same index into the step table.

The coder's loop packs half bytes and the decoder's loop takes them apart. Between the two are
`codes`, the codes of a list of samples. The coder writes `codes`, packed; the decoder, run over
`codes`, goes through the states the coder went through.

## Main definitions

* `decodeAdpcmPayload`
* `adpcmPayload` — what the coding loop writes for a list of samples
* `Adpcm.InRange` — the step table can be read and the predictor is a sample

## Main results

* `AdpcmEncoder.finish_foldl` — the coding loop writes `codes`
* `AdpcmDecoder.foldl_codes` — the decoder follows the coder
* `decode_adpcmPayload` — the two in lockstep
-/

namespace TarkovVoice

namespace Audio

open Net (Bytes)

/-! ### The decoder -/

/-- `readLeU16`: two bytes, the low one first. Where it is called both are there. -/
def readLeU16 (data : Bytes) (offset : ℕ) : UInt16 :=
  (data.getD offset 0).toUInt16 ||| (data.getD (offset + 1) 0).toUInt16 <<< 8

/-- The variables of the decoding loop: the state that is stepped, and the vector `out` that
`decodeAdpcmPayload` fills. -/
structure AdpcmDecoder where
  coder : Adpcm
  out : List Int16

/-- The body of the inner loop, with its condition `out.size() < sampleCount`. -/
def AdpcmDecoder.decodeHalf (sampleCount : ℕ) (d : AdpcmDecoder) (code : UInt8) : AdpcmDecoder :=
  if d.out.length < sampleCount then
    let coder := d.coder.advance code.toNat
    { coder, out := d.out ++ [Int16.ofInt coder.predictor] }
  else d

/-- The body of the outer loop, with its condition: a byte holds two codes, the first in its low
half. The second is not decoded when it is not wanted any more. -/
def AdpcmDecoder.decodeByte (sampleCount : ℕ) (d : AdpcmDecoder) (byte : UInt8) : AdpcmDecoder :=
  if d.out.length < sampleCount then
    (d.decodeHalf sampleCount (byte &&& 0x0f)).decodeHalf sampleCount ((byte >>> 4) &&& 0x0f)
  else d

/-- The decoder before its loop. The first sample is written as it is, and an index outside the
table is clamped. -/
def AdpcmDecoder.start (payload : Bytes) : AdpcmDecoder :=
  let predictor := (readLeU16 payload 4).toInt16.toInt
  { coder := { predictor, index := clamp (payload.getD 6 0).toNat 0 88 }
    out := [Int16.ofInt predictor] }

/-- `decodeAdpcmPayload`: the magic, the first sample, an index, the number of samples, and two
codes in each byte. The payload is refused if it has too few codes. -/
def decodeAdpcmPayload (payload : Bytes) : Option (List Int16) :=
  if payload.length < 9 ∨ payload.take 4 ≠ kAdpcmMagic then none
  else
    let sampleCount := (readLeU16 payload 7).toNat
    if sampleCount = 0 then none
    else
      let d := (payload.drop 9).foldl (AdpcmDecoder.decodeByte sampleCount) (.start payload)
      if d.out.length = sampleCount then some d.out else none

/-! ### The coding loop -/

/-- The state both loops start in. -/
def Adpcm.first (front : Int16) : Adpcm where
  predictor := front.toInt
  index := 0

/-- The coder before its loop, for a frame of `n` samples that starts with `front`. -/
def AdpcmEncoder.start (front : Int16) (n : ℕ) : AdpcmEncoder where
  coder := .first front
  lowNibble := true
  packed := 0
  out := appendLeU16 (appendLeU16 kAdpcmMagic front.toUInt16 ++ [0]) (UInt16.ofNat n)

/-- The coder after the first `i` of the samples after `front`. -/
def AdpcmEncoder.coded (front : Int16) (rest : List Int16) (i : ℕ) : AdpcmEncoder :=
  (rest.take i).foldl encodeSample (start front (rest.length + 1))

/-- The half byte that is left over gets a byte of its own. -/
def AdpcmEncoder.finish (e : AdpcmEncoder) : Bytes :=
  if !e.lowNibble then e.out ++ [e.packed] else e.out

/-- What the coding loop of `encodeAdpcmPayload` writes for the samples `front :: rest`. -/
def adpcmPayload (front : Int16) (rest : List Int16) : Bytes :=
  (AdpcmEncoder.coded front rest rest.length).finish

theorem encodeAdpcmPayload_eq (env : CodecEnv) {input rest : List Int16} {front : Int16}
    (hnorm : normalizeFrameSamples env input = front :: rest)
    (hlen : (front :: rest).length ≤ 0xffff) :
    encodeAdpcmPayload env input = adpcmPayload front rest := by
  rw [encodeAdpcmPayload, hnorm, adpcmPayload, AdpcmEncoder.coded, List.take_length]
  simp only [if_neg (Nat.not_lt.mpr hlen)]
  rfl

/-! ### Codes -/

/-- The code of a sample, as the coder writes it. -/
def Adpcm.code (a : Adpcm) (sample : Int16) : UInt8 :=
  UInt8.ofNat (adpcmCode a.step (sample.toInt - a.predictor) &&& 0x0f)

/-- The coder's state after a sample. -/
def Adpcm.codeSample (a : Adpcm) (sample : Int16) : Adpcm :=
  a.advance (adpcmCode a.step (sample.toInt - a.predictor))

/-- The codes of a list of samples. -/
def Adpcm.codes : Adpcm → List Int16 → List UInt8
  | _, [] => []
  | a, sample :: rest => a.code sample :: (a.codeSample sample).codes rest

theorem adpcmCode_lt (step diff : ℤ) : adpcmCode step diff < 16 := by
  unfold adpcmCode
  dsimp only
  split_ifs <;> simp

theorem Adpcm.toNat_code (a : Adpcm) (sample : Int16) :
    (a.code sample).toNat = adpcmCode a.step (sample.toInt - a.predictor) := by
  have hlt := adpcmCode_lt a.step (sample.toInt - a.predictor)
  rw [Adpcm.code, UInt8.toNat_ofNat', Nat.and_two_pow_sub_one_eq_mod _ 4]
  omega

theorem Adpcm.code_lt (a : Adpcm) (sample : Int16) : a.code sample < 16 := by
  rw [UInt8.lt_iff_toNat_lt, a.toNat_code]
  exact adpcmCode_lt _ _

theorem Adpcm.codes_lt (rest : List Int16) : ∀ a : Adpcm, ∀ code ∈ a.codes rest, code < 16 := by
  induction rest with
  | nil => exact fun _ _ hcode => absurd hcode List.not_mem_nil
  | cons sample rest ih =>
    intro a code hcode
    rcases List.mem_cons.mp hcode with rfl | hcode
    · exact a.code_lt sample
    · exact ih _ code hcode

@[simp] theorem Adpcm.length_codes (rest : List Int16) : ∀ a : Adpcm,
    (a.codes rest).length = rest.length := by
  induction rest with
  | nil => exact fun _ => rfl
  | cons sample rest ih =>
    intro a
    rw [Adpcm.codes, List.length_cons, ih, List.length_cons]

/-- **The coding loop writes the codes**, two in each byte. The half byte it still holds comes
first. -/
theorem AdpcmEncoder.finish_foldl (rest : List Int16) : ∀ e : AdpcmEncoder,
    (rest.foldl encodeSample e).finish =
      e.out ++ Nibbles.pack ((if e.lowNibble then [] else [e.packed]) ++ e.coder.codes rest) := by
  induction rest with
  | nil =>
    intro e
    cases hlow : e.lowNibble <;> simp [finish, hlow, Adpcm.codes, Nibbles.pack]
  | cons sample rest ih =>
    intro e
    rw [List.foldl_cons, ih]
    cases hlow : e.lowNibble <;>
      simp [encodeSample, hlow, Adpcm.codes, Adpcm.code, Adpcm.codeSample, Nibbles.pack]

theorem AdpcmEncoder.coder_encodeSample (e : AdpcmEncoder) (sample : Int16) :
    (e.encodeSample sample).coder = e.coder.codeSample sample := by
  unfold encodeSample
  dsimp only
  split <;> rfl

theorem AdpcmEncoder.coder_foldl (rest : List Int16) : ∀ e : AdpcmEncoder,
    (rest.foldl encodeSample e).coder = rest.foldl Adpcm.codeSample e.coder := by
  induction rest with
  | nil => exact fun _ => rfl
  | cons sample rest ih =>
    intro e
    rw [List.foldl_cons, ih, coder_encodeSample, List.foldl_cons]

/-! ### The decoder follows -/

/-- Each byte of the loop is two half bytes, whatever the condition of the outer loop says: once all
samples are there, a half byte changes nothing. -/
theorem AdpcmDecoder.decodeByte_eq (n : ℕ) (d : AdpcmDecoder) (byte : UInt8) :
    d.decodeByte n byte =
      (d.decodeHalf n (Nibbles.low byte)).decodeHalf n (Nibbles.high byte) := by
  by_cases hroom : d.out.length < n
  · rw [decodeByte, if_pos hroom]
    rfl
  · have hstop : ∀ code, d.decodeHalf n code = d := fun code => if_neg hroom
    rw [decodeByte, if_neg hroom, hstop, hstop]

/-- When all samples are there, what is left of the payload is not read. -/
theorem AdpcmDecoder.foldl_of_full {n : ℕ} (l : List UInt8) {d : AdpcmDecoder}
    (hfull : n ≤ d.out.length) : l.foldl (decodeHalf n) d = d :=
  List.foldl_fixed' (fun _ => if_neg (Nat.not_lt.mpr hfull)) l

/-- **The decoder follows the coder.** Run over the codes of some samples, it appends the coder's
predictors. -/
theorem AdpcmDecoder.foldl_codes {n : ℕ} (rest : List Int16) : ∀ d : AdpcmDecoder,
    d.out.length + rest.length ≤ n →
      ((d.coder.codes rest).foldl (decodeHalf n) d).out =
        d.out ++ ((rest.scanl Adpcm.codeSample d.coder).tail.map
          fun a => Int16.ofInt a.predictor) := by
  induction rest with
  | nil =>
    intro d _
    simp [Adpcm.codes]
  | cons sample rest ih =>
    intro d hroom
    rw [List.length_cons] at hroom
    have hstep : d.decodeHalf n (d.coder.code sample) =
        { coder := d.coder.codeSample sample
          out := d.out ++ [Int16.ofInt (d.coder.codeSample sample).predictor] } := by
      rw [decodeHalf, if_pos (by omega), Adpcm.toNat_code]
      rfl
    have hnext := ih (d.decodeHalf n (d.coder.code sample)) (by
      rw [hstep, List.length_append, List.length_singleton]
      omega)
    rw [Adpcm.codes, List.foldl_cons, hstep] at *
    rw [hnext, List.scanl_cons, List.tail_cons]
    cases rest <;> simp

/-! ### Ranges -/

/-- The index is one of the step table and the predictor is a 16-bit number. Both loops keep this,
whatever they read. -/
structure Adpcm.InRange (a : Adpcm) : Prop where
  index_nonneg : 0 ≤ a.index
  index_le : a.index ≤ 88
  le_predictor : -32768 ≤ a.predictor
  predictor_le : a.predictor ≤ 32767

theorem clamp_mem {low high : ℤ} (h : low ≤ high) (value : ℤ) :
    low ≤ clamp value low high ∧ clamp value low high ≤ high :=
  ⟨le_max_left _ _, max_le h (min_le_right _ _)⟩

theorem Adpcm.inRange_advance (a : Adpcm) (code : ℕ) : (a.advance code).InRange := by
  obtain ⟨hlow, hhigh⟩ := clamp_mem (by decide : (-32768 : ℤ) ≤ 32767)
    (a.predictor + if code &&& 8 ≠ 0 then -adpcmDelta a.step code else adpcmDelta a.step code)
  obtain ⟨hnonneg, hle⟩ := clamp_mem (by decide : (0 : ℤ) ≤ 88)
    (a.index + kImaIndexTable.getD (code &&& 0x0f) 0)
  exact ⟨hnonneg, hle, hlow, hhigh⟩

theorem Adpcm.inRange_first (sample : Int16) {index : ℤ} (h : 0 ≤ index) (h' : index ≤ 88) :
    Adpcm.InRange { predictor := sample.toInt, index } :=
  ⟨h, h', sample.le_toInt, Int.le_of_lt_add_one sample.toInt_lt⟩

theorem AdpcmEncoder.inRange_coded (front : Int16) (rest : List Int16) (i : ℕ) :
    (coded front rest i).coder.InRange := by
  rw [coded, coder_foldl]
  refine List.foldlRecOn _ _ (motive := Adpcm.InRange)
    (Adpcm.inRange_first front le_rfl (by decide : (0 : ℤ) ≤ 88)) ?_
  exact fun a _ sample _ => a.inRange_advance _

theorem AdpcmDecoder.inRange_start (payload : Bytes) : (start payload).coder.InRange := by
  obtain ⟨hnonneg, hle⟩ := clamp_mem (by decide : (0 : ℤ) ≤ 88) ((payload.getD 6 0).toNat : ℤ)
  exact Adpcm.inRange_first _ hnonneg hle

theorem AdpcmDecoder.inRange_decodeHalf (n : ℕ) {d : AdpcmDecoder} (hd : d.coder.InRange)
    (code : UInt8) : (d.decodeHalf n code).coder.InRange := by
  rw [decodeHalf]
  split
  · exact d.coder.inRange_advance code.toNat
  · exact hd

theorem AdpcmDecoder.inRange_foldl (n : ℕ) {d : AdpcmDecoder} (hd : d.coder.InRange)
    (bytes : Bytes) : (bytes.foldl (decodeByte n) d).coder.InRange := by
  refine List.foldlRecOn _ _ (motive := fun d : AdpcmDecoder => d.coder.InRange) hd ?_
  intro d hd byte _
  rw [decodeByte_eq]
  exact inRange_decodeHalf n (inRange_decodeHalf n hd _) _

/-! ### Both together -/

theorem toNat_low_high (low high : UInt8) :
    (low.toUInt16 ||| high.toUInt16 <<< 8).toNat = low.toNat + 256 * high.toNat := by
  have hlow := low.toNat_lt
  have hhigh := high.toNat_lt
  have hshift : (high.toUInt16 <<< 8).toNat = high.toNat <<< 8 := by
    simp [Nat.shiftLeft_eq]
    omega
  rw [UInt16.toNat_or, hshift, UInt8.toNat_toUInt16, Nat.or_comm,
    ← Nat.shiftLeft_add_eq_or_of_lt hlow, Nat.shiftLeft_eq]
  omega

/-- The two bytes of a number are read as that number. -/
theorem le_bytes (v : UInt16) : ((v &&& 0xff).toUInt8).toUInt16 |||
    (((v >>> 8) &&& 0xff).toUInt8).toUInt16 <<< 8 = v := by
  have hv : v.toNat < 65536 := v.toNat_lt
  have hmask : ∀ m, m &&& 255 = m % 256 := fun m => Nat.and_two_pow_sub_one_eq_mod m 8
  have hlow : ((v &&& 0xff).toUInt8).toNat = v.toNat % 256 := by
    simp [hmask]
  have hhigh : (((v >>> 8) &&& 0xff).toUInt8).toNat = v.toNat / 256 := by
    simp only [UInt16.toNat_toUInt8, UInt16.toNat_and, UInt16.toNat_shiftRight,
      Nat.shiftRight_eq_div_pow]
    simp [hmask]
    omega
  rw [← UInt16.toNat_inj, toNat_low_high, hlow, hhigh]
  omega

theorem adpcmPayload_eq (front : Int16) (rest : List Int16) :
    adpcmPayload front rest = (AdpcmEncoder.start front (rest.length + 1)).out ++
      Nibbles.pack ((Adpcm.first front).codes rest) := by
  rw [adpcmPayload, AdpcmEncoder.coded, List.take_length, AdpcmEncoder.finish_foldl]
  rfl

/-- The decoder reads what the coder put before its loop: the first sample, the index 0 and the
number of samples. The body may be any bytes. -/
theorem decodeAdpcmPayload_eq {front : Int16} {n : ℕ} (hpos : n ≠ 0) (hn : n ≤ 0xffff)
    (body : Bytes) {d : AdpcmDecoder} (hd : d = body.foldl (AdpcmDecoder.decodeByte n)
      { coder := .first front, out := [front] }) :
    decodeAdpcmPayload ((AdpcmEncoder.start front n).out ++ body) =
      if d.out.length = n then some d.out else none := by
  generalize hpayload : (AdpcmEncoder.start front n).out ++ body = payload
  have hlong : ¬ payload.length < 9 := by
    rw [← hpayload, List.length_append]
    exact Nat.not_lt.mpr (Nat.le_add_right 9 _)
  have hmagic : payload.take 4 = kAdpcmMagic := by
    rw [← hpayload]
    rfl
  have hfront : readLeU16 payload 4 = front.toUInt16 := by
    rw [← hpayload]
    exact le_bytes _
  have hcount : (readLeU16 payload 7).toNat = n := by
    have hread : readLeU16 payload 7 = UInt16.ofNat n := by
      rw [← hpayload]
      exact le_bytes _
    rw [hread, UInt16.toNat_ofNat', Nat.mod_eq_of_lt (by omega)]
  have hstart : AdpcmDecoder.start payload = { coder := .first front, out := [front] } := by
    rw [AdpcmDecoder.start, hfront, Int16.toInt16_toUInt16, Int16.ofInt_toInt, ← hpayload]
    rfl
  have hbody : payload.drop 9 = body := by
    rw [← hpayload]
    rfl
  rw [decodeAdpcmPayload, if_neg (not_or.mpr ⟨hlong, not_not.mpr hmagic⟩)]
  simp only [hcount, if_neg hpos, hstart, hbody, ← hd]

/-- The loop over the bytes is one over the codes, and stops before a padding half byte, which it
would take for one more code. -/
theorem AdpcmDecoder.foldl_pack_codes (front : Int16) (rest : List Int16) :
    ((Nibbles.pack ((Adpcm.first front).codes rest)).foldl (decodeByte (rest.length + 1))
      { coder := .first front, out := [front] }).out =
        (rest.scanl Adpcm.codeSample (.first front)).map fun a => Int16.ofInt a.predictor := by
  have hloop : decodeByte (rest.length + 1) = fun d byte =>
      (d.decodeHalf (rest.length + 1) (Nibbles.low byte)).decodeHalf (rest.length + 1)
        (Nibbles.high byte) := by
    funext d byte
    exact d.decodeByte_eq _ byte
  have hout := foldl_codes (n := rest.length + 1) rest
    { coder := .first front, out := [front] } (Nat.add_comm 1 _).le
  have hall : [front] ++ ((rest.scanl Adpcm.codeSample (.first front)).tail.map
      fun a => Int16.ofInt a.predictor) =
        (rest.scanl Adpcm.codeSample (.first front)).map fun a => Int16.ofInt a.predictor := by
    cases rest <;> simp [Adpcm.first]
  rw [hall] at hout
  have hfull : rest.length + 1 ≤ (((Adpcm.first front).codes rest).foldl
      (decodeHalf (rest.length + 1)) { coder := .first front, out := [front] }).out.length := by
    rw [hout, List.length_map, List.length_scanl]
  rw [hloop, Nibbles.foldl_pack _ _ (Adpcm.codes_lt rest _), List.foldl_append,
    foldl_of_full _ hfull]
  exact hout

/-- **What is decoded are the coder's predictors**, before the first code and after each: the
decoder takes the same steps as the coder. -/
theorem decode_adpcmPayload_eq {front : Int16} {rest : List Int16}
    (hlen : (front :: rest).length ≤ 0xffff) :
    decodeAdpcmPayload (adpcmPayload front rest) =
      some ((rest.scanl Adpcm.codeSample (.first front)).map
        fun a => Int16.ofInt a.predictor) := by
  have hout := AdpcmDecoder.foldl_pack_codes front rest
  rw [adpcmPayload_eq, decodeAdpcmPayload_eq (Nat.succ_ne_zero _) hlen _ rfl, hout,
    List.length_map, List.length_scanl, if_pos rfl]

/-- **Coder and decoder in lockstep.** For every normalized frame of 1 to 65535 samples,
`encodeAdpcmPayload` writes its coding loop's payload, and that decodes to as many samples: the
first is the first of the frame, and the `i`-th is the coder's predictor after the `i`-th. The
coder's state stays in range at every sample, and the decoder's, whatever the payload is, after
every half byte. -/
theorem decode_adpcmPayload (front : Int16) (rest : List Int16)
    (hlen : (front :: rest).length ≤ 0xffff) :
    (∀ env input, normalizeFrameSamples env input = front :: rest →
      encodeAdpcmPayload env input = adpcmPayload front rest) ∧
    (∃ out, decodeAdpcmPayload (adpcmPayload front rest) = some out ∧
      out.length = (front :: rest).length ∧ out[0]? = some front ∧
      ∀ i < out.length, (out.getD i 0).toInt =
        (AdpcmEncoder.coded front rest i).coder.predictor) ∧
    (∀ i, (AdpcmEncoder.coded front rest i).coder.InRange) ∧
    ∀ (payload bytes : Bytes) (n : ℕ) (byte : UInt8),
      (bytes.foldl (AdpcmDecoder.decodeByte n) (.start payload)).coder.InRange ∧
      ((bytes.foldl (AdpcmDecoder.decodeByte n) (.start payload)).decodeHalf n
        (byte &&& 0x0f)).coder.InRange := by
  refine ⟨fun env input hnorm => encodeAdpcmPayload_eq env hnorm hlen,
    ⟨_, decode_adpcmPayload_eq hlen, ?_, ?_, fun i hi => ?_⟩,
    AdpcmEncoder.inRange_coded front rest, fun payload bytes n byte => ?_⟩
  · rw [List.length_map, List.length_scanl, List.length_cons]
  · rw [List.getElem?_map, List.getElem?_scanl_zero, Option.map_some, Adpcm.first,
      Int16.ofInt_toInt]
  · have hcoder : (rest.take i).foldl Adpcm.codeSample (.first front) =
        (AdpcmEncoder.coded front rest i).coder :=
      (AdpcmEncoder.coder_foldl (rest.take i) (.start front (rest.length + 1))).symm
    have hrange := AdpcmEncoder.inRange_coded front rest i
    rw [List.length_map, List.length_scanl] at hi
    rw [List.getD_eq_getElem?_getD, List.getElem?_map, List.getElem?_scanl,
      if_pos (Nat.le_of_lt_succ hi), hcoder, Option.map_some, Option.getD_some]
    exact Int16.toInt_ofInt_of_le hrange.le_predictor
      (Int.lt_add_one_of_le hrange.predictor_le)
  · have hd := AdpcmDecoder.inRange_foldl n (AdpcmDecoder.inRange_start payload) bytes
    exact ⟨hd, AdpcmDecoder.inRange_decodeHalf n hd _⟩

/-- An odd number of half bytes: the decoder does not read the padding. -/
theorem decode_adpcmPayload_two :
    ∃ out, decodeAdpcmPayload (adpcmPayload 100 [107]) = some out ∧ out.length = 2 := by
  obtain ⟨out, hout, hlen, -⟩ := (decode_adpcmPayload 100 [107] (by decide)).2.1
  exact ⟨out, hout, hlen⟩

end Audio

end TarkovVoice

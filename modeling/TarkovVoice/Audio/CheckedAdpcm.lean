import TarkovVoice.Audio.Pcm

/-!
# The accesses of the ADPCM decoder

`decodeAdpcmPayload` of `client/src/audio/VoiceEngine.cpp` takes its payload from the network: the
count, the index it starts with and the length of the body are independent of each other. The source
uses `operator[]`, which checks nothing.

Here the function is written once more, with its loops as they stand in the source and with every
access checked: bytes of the payload, both tables, and the conversion of the predictor to 16 bits.
`Fault` is what cannot happen. The function keeps what the caller had in `out` when it returns
before it clears it.

## Main definitions

* `Checked.decodeAdpcmPayload`
* `declaredCount`, `AnnouncesAdpcm` — what the function reads before it decodes

## Main results

* `Checked.decodeAdpcmPayload_of_announces` — no access fails, and the loops are those of
  `Adpcm.lean`
* `decodeAdpcmPayload_safe`
-/

namespace TarkovVoice

namespace Audio

open Net (Bytes)

namespace Checked

/-! ### The function -/

/-- What may go wrong in the loop, and nowhere else: a read behind the end of the payload, an index
outside of one of the two tables, and a predictor that is no 16-bit number when it is stored as a
sample. -/
inductive Fault
  | payload
  | stepTable
  | indexTable
  | narrowing
  deriving DecidableEq

/-- `values[index]`. The source does not check the index; here it is checked, and a fault says that
there is nothing at it. -/
def entry {α : Type} (fault : Fault) (values : List α) (index : ℕ) : Except Fault α :=
  match values[index]? with
  | some value => .ok value
  | none => .error fault

/-- `static_cast<std::size_t>` of an `int`. -/
def sizeT (value : ℤ) : ℕ := (value % 2 ^ 64).toNat

/-- `static_cast<std::int16_t>` of an `int`, where that changes nothing. -/
def narrow (value : ℤ) : Except Fault Int16 :=
  if -32768 ≤ value ∧ value ≤ 32767 then .ok (Int16.ofInt value) else .error .narrowing

/-- `std::equal` of the magic with what starts at `pos`. -/
def equalAt (payload : Bytes) : ℕ → Bytes → Except Fault Bool
  | _, [] => .ok true
  | pos, b :: expected => do
    let b' ← entry .payload payload pos
    if b' = b then equalAt payload (pos + 1) expected else .ok false

/-- `readLeU16`. -/
def readLeU16 (data : Bytes) (offset : ℕ) : Except Fault UInt16 := do
  let low ← entry .payload data offset
  let high ← entry .payload data (offset + 1)
  return low.toUInt16 ||| high.toUInt16 <<< 8

/-- The body of the inner loop. -/
def codeStep (d : AdpcmDecoder) (code : UInt8) : Except Fault AdpcmDecoder := do
  let step ← entry .stepTable kImaStepTable (sizeT d.coder.index)
  let delta := adpcmDelta step code.toNat
  let predictor := d.coder.predictor + if code.toNat &&& 8 ≠ 0 then -delta else delta
  let predictor := clamp predictor (-32768) 32767
  let change ← entry .indexTable kImaIndexTable (sizeT (code.toNat &&& 0x0f : ℕ))
  let index := clamp (d.coder.index + change) 0 88
  let sample ← narrow predictor
  return { coder := { predictor, index }, out := d.out ++ [sample] }

/-- The inner loop, from a half on: it stops behind the second half, or when all samples are
there. -/
def halfLoop (sampleCount : UInt16) (byte : UInt8) (half : ℕ) (d : AdpcmDecoder) :
    Except Fault AdpcmDecoder :=
  if half < 2 ∧ d.out.length < sampleCount.toNat then do
    let code := if half = 0 then byte &&& 0x0f else (byte >>> 4) &&& 0x0f
    let d ← codeStep d code
    halfLoop sampleCount byte (half + 1) d
  else return d
termination_by 2 - half

/-- The outer loop, from a byte on: it stops at the end of the payload, or when all samples are
there. -/
def byteLoop (payload : Bytes) (sampleCount : UInt16) (byteIndex : ℕ) (d : AdpcmDecoder) :
    Except Fault AdpcmDecoder :=
  if byteIndex < payload.length ∧ d.out.length < sampleCount.toNat then do
    let byte ← entry .payload payload byteIndex
    let d ← halfLoop sampleCount byte 0 d
    byteLoop payload sampleCount (byteIndex + 1) d
  else return d
termination_by payload.length - byteIndex

/-- `decodeAdpcmPayload`, with what it returns and `out` afterwards. -/
def decodeAdpcmPayload (payload : Bytes) (out : List Int16) :
    Except Fault (Bool × List Int16) := do
  if payload.length < 9 then return (false, out)
  let same ← equalAt payload 0 kAdpcmMagic
  if ¬ same then return (false, out)
  let predictor := (← readLeU16 payload 4).toInt16.toInt
  let index := clamp (← entry .payload payload 6).toNat 0 88
  let sampleCount ← readLeU16 payload 7
  if sampleCount = 0 then return (false, out)
  let first ← narrow predictor
  let d ← byteLoop payload sampleCount 9 { coder := { predictor, index }, out := [first] }
  return (d.out.length = sampleCount.toNat, d.out)

/-! ### No access fails -/

section Accesses

variable {α : Type} {fault : Fault} {values : List α}

theorem entry_of_lt {index : ℕ} (h : index < values.length) (default : α) :
    entry fault values index = .ok (values.getD index default) := by
  rw [entry, List.getElem?_eq_getElem h, List.getD_eq_getElem _ _ h]

theorem sizeT_of_nonneg {value : ℤ} (h : 0 ≤ value) (h' : value < 2 ^ 64) :
    sizeT value = value.toNat := by
  rw [sizeT, Int.emod_eq_of_lt h h']

theorem narrow_toInt (sample : Int16) : narrow sample.toInt = .ok sample := by
  rw [narrow, if_pos ⟨sample.le_toInt, Int.le_of_lt_add_one sample.toInt_lt⟩, Int16.ofInt_toInt]

end Accesses

theorem readLeU16_of_lt {data : Bytes} {offset : ℕ} (h : offset + 1 < data.length) :
    readLeU16 data offset = .ok (Audio.readLeU16 data offset) := by
  rw [readLeU16, entry_of_lt (by omega) 0, entry_of_lt h 0]
  rfl

theorem equalAt_of_le (expected : Bytes) : ∀ {payload : Bytes} {pos : ℕ},
    pos + expected.length ≤ payload.length →
      equalAt payload pos expected =
        .ok (decide ((payload.drop pos).take expected.length = expected)) := by
  induction expected with
  | nil =>
    intro payload pos _
    simp [equalAt]
  | cons b expected ih =>
    intro payload pos h
    rw [List.length_cons] at h
    have hpos : pos < payload.length := by omega
    have hnext := @ih payload (pos + 1) (by omega)
    rw [equalAt, entry_of_lt hpos 0, List.getD_eq_getElem _ _ hpos]
    change (if payload[pos] = b then equalAt payload (pos + 1) expected else .ok false) = _
    rw [hnext, List.length_cons, List.drop_eq_getElem_cons hpos, List.take_succ_cons]
    split
    · next heq => simp [heq]
    · next hne => simp [hne]

/-- The step table is read between 0 and 88, and the predictor is clamped before it is
converted. -/
theorem codeStep_eq {d : AdpcmDecoder} (hd : d.coder.InRange) (code : UInt8) :
    codeStep d code = .ok
      { coder := d.coder.advance code.toNat
        out := d.out ++ [Int16.ofInt (d.coder.advance code.toNat).predictor] } := by
  have hstep : entry .stepTable kImaStepTable (sizeT d.coder.index) = .ok d.coder.step := by
    have hlength : kImaStepTable.length = 89 := rfl
    have hindex := hd.index_nonneg
    have hle := hd.index_le
    rw [sizeT_of_nonneg hindex (by omega), entry_of_lt (by omega) 0, Adpcm.step]
  have hchange : entry .indexTable kImaIndexTable (sizeT (code.toNat &&& 0x0f : ℕ)) =
      .ok (kImaIndexTable.getD (code.toNat &&& 0x0f) 0) := by
    have hlength : kImaIndexTable.length = 16 := rfl
    have hle : code.toNat &&& 0x0f ≤ 15 := Nat.and_le_right
    rw [sizeT_of_nonneg (Int.natCast_nonneg _) (by omega), Int.toNat_natCast,
      entry_of_lt (by omega) 0]
  have hnext := d.coder.inRange_advance code.toNat
  have hnarrow : narrow (d.coder.advance code.toNat).predictor =
      .ok (Int16.ofInt (d.coder.advance code.toNat).predictor) :=
    if_pos ⟨hnext.le_predictor, hnext.predictor_le⟩
  rw [codeStep, hstep]
  change (entry .indexTable kImaIndexTable (sizeT (code.toNat &&& 0x0f : ℕ)) >>= fun change =>
    narrow (d.coder.advance code.toNat).predictor >>= fun sample =>
      .ok (AdpcmDecoder.mk
        ⟨(d.coder.advance code.toNat).predictor, clamp (d.coder.index + change) 0 88⟩
        (d.out ++ [sample]))) = _
  rw [hchange, hnarrow]
  rfl

/-- One turn of the inner loop. It has no fault as long as the index and the predictor are in range,
and keeps them there. -/
theorem halfLoop_succ {sampleCount : UInt16} {byte : UInt8} {half : ℕ} (hhalf : half < 2)
    {d : AdpcmDecoder} (hd : d.coder.InRange) :
    halfLoop sampleCount byte half d = halfLoop sampleCount byte (half + 1)
      (d.decodeHalf sampleCount.toNat
        (if half = 0 then Nibbles.low byte else Nibbles.high byte)) := by
  by_cases hroom : d.out.length < sampleCount.toNat
  · rw [halfLoop, if_pos ⟨hhalf, hroom⟩]
    dsimp only
    rw [codeStep_eq hd, AdpcmDecoder.decodeHalf, if_pos hroom]
    rfl
  · have hstop : ∀ code, d.decodeHalf sampleCount.toNat code = d := fun code => if_neg hroom
    rw [hstop, halfLoop, if_neg fun h => hroom h.2, halfLoop, if_neg fun h => hroom h.2]

/-- The inner loop stops after the low half if that was the last sample. -/
theorem halfLoop_zero {sampleCount : UInt16} {byte : UInt8} {d : AdpcmDecoder}
    (hd : d.coder.InRange) :
    halfLoop sampleCount byte 0 d = .ok (d.decodeByte sampleCount.toNat byte) := by
  have hlow := AdpcmDecoder.inRange_decodeHalf sampleCount.toNat hd (Nibbles.low byte)
  rw [halfLoop_succ (by omega) hd, if_pos rfl, halfLoop_succ (by omega) hlow, if_neg (by omega),
    halfLoop, if_neg (by omega), AdpcmDecoder.decodeByte_eq]
  rfl

/-- When all samples are there, the rest of the payload changes nothing. -/
theorem foldl_decodeByte_of_full {n : ℕ} (bytes : Bytes) {d : AdpcmDecoder}
    (hfull : n ≤ d.out.length) : bytes.foldl (AdpcmDecoder.decodeByte n) d = d :=
  List.foldl_fixed' (fun _ => if_neg (Nat.not_lt.mpr hfull)) bytes

theorem byteLoop_eq (payload : Bytes) (sampleCount : UInt16) (byteIndex : ℕ) :
    ∀ {d : AdpcmDecoder}, d.coder.InRange → byteLoop payload sampleCount byteIndex d =
      .ok ((payload.drop byteIndex).foldl (AdpcmDecoder.decodeByte sampleCount.toNat) d) := by
  induction hn : payload.length - byteIndex generalizing byteIndex with
  | zero =>
    intro d _
    have hend : payload.length ≤ byteIndex := by omega
    rw [byteLoop, if_neg fun h => absurd h.1 (by omega), List.drop_eq_nil_of_le hend]
    rfl
  | succ n ih =>
    intro d hd
    have hlt : byteIndex < payload.length := by omega
    by_cases hroom : d.out.length < sampleCount.toNat
    · have hnext : (d.decodeByte sampleCount.toNat payload[byteIndex]).coder.InRange := by
        rw [AdpcmDecoder.decodeByte_eq]
        exact AdpcmDecoder.inRange_decodeHalf _ (AdpcmDecoder.inRange_decodeHalf _ hd _) _
      rw [byteLoop, if_pos ⟨hlt, hroom⟩, entry_of_lt hlt 0, List.getD_eq_getElem _ _ hlt]
      change (halfLoop sampleCount payload[byteIndex] 0 d >>= fun d =>
        byteLoop payload sampleCount (byteIndex + 1) d) = _
      rw [halfLoop_zero hd, List.drop_eq_getElem_cons hlt, List.foldl_cons]
      exact ih (byteIndex + 1) (by omega) hnext
    · rw [byteLoop, if_neg fun h => hroom h.2, foldl_decodeByte_of_full _ (not_lt.mp hroom)]
      rfl

end Checked

/-! ### What is accepted -/

/-- The number of samples a payload declares, whether or not it has that many. -/
def declaredCount (payload : Bytes) : ℕ :=
  (payload.getD 7 0).toNat + 256 * (payload.getD 8 0).toNat

/-- What is checked before anything is decoded: there are the nine bytes of the header, they begin
with the magic, and the number of samples they announce is not 0. -/
structure AnnouncesAdpcm (payload : Bytes) : Prop where
  length : 9 ≤ payload.length
  magic : payload.take 4 = kAdpcmMagic
  count : 1 ≤ declaredCount payload

/-- The decoder after its loops. -/
def AdpcmDecoder.final (payload : Bytes) : AdpcmDecoder :=
  (payload.drop 9).foldl (decodeByte (declaredCount payload)) (.start payload)

theorem toNat_declared (payload : Bytes) :
    (readLeU16 payload 7).toNat = declaredCount payload := toNat_readLeU16 payload 7

theorem AdpcmDecoder.length_final {payload : Bytes} (h : AnnouncesAdpcm payload) :
    (final payload).out.length =
      min (declaredCount payload) (1 + 2 * (payload.length - 9)) := by
  have hloop := @length_foldl (declaredCount payload) (payload.drop 9) (.start payload) h.count
  rw [List.length_drop] at hloop
  exact hloop

namespace Checked

variable {payload : Bytes} (out : List Int16)

theorem decodeAdpcmPayload_of_announces (h : AnnouncesAdpcm payload) :
    decodeAdpcmPayload payload out =
      .ok (decide ((AdpcmDecoder.final payload).out.length = declaredCount payload),
        (AdpcmDecoder.final payload).out) := by
  have hlen := h.length
  have hsame : equalAt payload 0 kAdpcmMagic = .ok true := by
    rw [equalAt_of_le kAdpcmMagic (Nat.le_trans (by decide) hlen)]
    exact congrArg Except.ok (decide_eq_true h.magic)
  have hcount : Audio.readLeU16 payload 7 ≠ 0 := by
    intro hzero
    have hpos := h.count
    rw [← toNat_declared, hzero] at hpos
    exact absurd hpos (by decide)
  have hloop := byteLoop_eq payload (Audio.readLeU16 payload 7) 9
    (AdpcmDecoder.inRange_start payload)
  rw [decodeAdpcmPayload, if_neg (not_lt.mpr hlen), hsame, readLeU16_of_lt (by omega),
    entry_of_lt (by omega) 0, readLeU16_of_lt (by omega)]
  change (if Audio.readLeU16 payload 7 = 0 then Except.ok (false, out) else
    narrow (Audio.readLeU16 payload 4).toInt16.toInt >>= fun first =>
      byteLoop payload (Audio.readLeU16 payload 7) 9
        ⟨(AdpcmDecoder.start payload).coder, [first]⟩ >>= fun d =>
          .ok (decide (d.out.length = (Audio.readLeU16 payload 7).toNat), d.out)) = _
  have hstart : AdpcmDecoder.mk (AdpcmDecoder.start payload).coder
      [(Audio.readLeU16 payload 4).toInt16] = .start payload := by
    rw [AdpcmDecoder.start, Int16.ofInt_toInt]
  rw [if_neg hcount, narrow_toInt, toNat_declared]
  change (byteLoop payload (Audio.readLeU16 payload 7) 9
    ⟨(AdpcmDecoder.start payload).coder, [(Audio.readLeU16 payload 4).toInt16]⟩ >>= fun d =>
      .ok (decide (d.out.length = declaredCount payload), d.out)) = _
  rw [hstart, hloop, toNat_declared]
  rfl

theorem decodeAdpcmPayload_of_not_announces (h : ¬ AnnouncesAdpcm payload) :
    decodeAdpcmPayload payload out = .ok (false, out) := by
  by_cases hlen : payload.length < 9
  · rw [decodeAdpcmPayload, if_pos hlen]
    rfl
  have hsame : equalAt payload 0 kAdpcmMagic = .ok (decide (payload.take 4 = kAdpcmMagic)) :=
    equalAt_of_le kAdpcmMagic (Nat.le_trans (by decide) (not_lt.mp hlen))
  rw [decodeAdpcmPayload, if_neg hlen, hsame]
  by_cases hmagic : payload.take 4 = kAdpcmMagic
  · have hcount : Audio.readLeU16 payload 7 = 0 := by
      by_contra hne
      refine h ⟨not_lt.mp hlen, hmagic, ?_⟩
      rw [← toNat_declared, Nat.one_le_iff_ne_zero]
      exact fun hzero => hne (UInt16.toNat_inj.mp hzero)
    rw [decide_eq_true hmagic, readLeU16_of_lt (by omega), entry_of_lt (by omega) 0,
      readLeU16_of_lt (by omega), hcount]
    rfl
  · rw [decide_eq_false hmagic]
    rfl

end Checked

theorem isSome_iff_announces {payload : Bytes} : (decodeAdpcmPayload payload).isSome ↔
    AnnouncesAdpcm payload ∧ declaredCount payload - 1 ≤ 2 * (payload.length - 9) := by
  rw [isSome_decodeAdpcmPayload, toNat_declared]
  constructor
  · rintro ⟨hmagic, hlen, hcount, hle⟩
    exact ⟨⟨hlen, hmagic, Nat.one_le_iff_ne_zero.mpr hcount⟩, by omega⟩
  · rintro ⟨⟨hlen, hmagic, hcount⟩, hle⟩
    exact ⟨hmagic, hlen, by omega, by omega⟩

/-- **The decoder and hostile bytes.** For every payload, and whatever `out` held, the function
ends, no access is outside of its table or of the payload and no predictor outside of 16 bits. When
length, magic and count are right, `out` holds as many of the declared samples as there are half
bytes for, else what it held. True is returned exactly if these are all declared samples. -/
theorem decodeAdpcmPayload_safe (payload : Bytes) (out : List Int16) :
    ∃ accepted out', Checked.decodeAdpcmPayload payload out = .ok (accepted, out') ∧
      (accepted = true ↔
        AnnouncesAdpcm payload ∧ declaredCount payload - 1 ≤ 2 * (payload.length - 9)) ∧
      (accepted = true → out'.length = declaredCount payload) ∧
      (AnnouncesAdpcm payload →
        out'.length = min (declaredCount payload) (1 + 2 * (payload.length - 9))) ∧
      (¬ AnnouncesAdpcm payload → out' = out) ∧
      decodeAdpcmPayload payload = if accepted then some out' else none := by
  by_cases h : AnnouncesAdpcm payload
  · have hlen := AdpcmDecoder.length_final h
    have hpos := h.count
    refine ⟨_, _, Checked.decodeAdpcmPayload_of_announces out h, ?_, of_decide_eq_true,
      fun _ => hlen, fun hnot => absurd h hnot, ?_⟩
    · rw [decide_eq_true_iff, hlen]
      exact ⟨fun hle => ⟨h, by omega⟩, fun ⟨_, hle⟩ => by omega⟩
    · have hguard : ¬ (payload.length < 9 ∨ payload.take 4 ≠ kAdpcmMagic) :=
        not_or.mpr ⟨not_lt.mpr h.length, not_not.mpr h.magic⟩
      rw [decodeAdpcmPayload, if_neg hguard, toNat_declared, if_neg (by omega)]
      simp only [decide_eq_true_iff]
      rfl
  · refine ⟨false, out, Checked.decodeAdpcmPayload_of_not_announces out h, ?_, Bool.noConfusion,
      fun hyes => absurd hyes h, fun _ => rfl, ?_⟩
    · exact ⟨Bool.noConfusion, fun hyes => absurd hyes.1 h⟩
    · rw [if_neg Bool.false_ne_true, ← Option.not_isSome_iff_eq_none, isSome_iff_announces]
      exact fun hyes => h hyes.1

end Audio

end TarkovVoice

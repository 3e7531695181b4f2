import TarkovVoice.Client.SignalingClient

/-!
# Conversions of received numbers

A number in a message is read as a `double` and cast to an integer type, which C++ leaves undefined
where the number, cut towards zero, does not fit. Some of the casts come after a bound and some
before: a port is clamped on both sides first, a sequence number and a time only from below, and an
icon index not at all.

## Main definitions

* `Conversion`, `conversions` — the casts that a message leads to
* `Harmless` — a condition on the numbers as they are read

## Main results

* `sequence_of_defined`, `captureUnixMs_of_defined`, `port_of_defined` — what a defined cast gives
* `conversions_defined_iff`
-/

namespace TarkovVoice

namespace Client

open Net
open Net.DirectVoiceTransport (candidatePort parseCandidate parseCandidates)

/-! ### Casts -/

/-- The integer types that numbers are converted to. -/
inductive IntType
  | int
  | uint32
  | int64
  | uint16
  deriving DecidableEq

/-- The least value of a type. -/
def IntType.low : IntType → ℤ
  | .int => -2 ^ 31
  | .uint32 => 0
  | .int64 => -2 ^ 63
  | .uint16 => 0

/-- The greatest value of a type. -/
def IntType.high : IntType → ℤ
  | .int => 2 ^ 31 - 1
  | .uint32 => 2 ^ 32 - 1
  | .int64 => 2 ^ 63 - 1
  | .uint16 => 2 ^ 16 - 1

/-- A `static_cast` of a `double` to an integer type, with the number that is converted. What such a
cast does is defined only within the bounds of the type. -/
structure Conversion where
  type : IntType
  value : Number
  deriving DecidableEq

/-- The number, cut towards zero, is a value of the type. Otherwise C++ leaves undefined what the
cast gives, and so it does for an infinity or a NaN. -/
def Conversion.Defined (c : Conversion) : Prop :=
  match c.value with
  | .finite q => c.type.low ≤ (Number.finite q).truncate ∧ (Number.finite q).truncate ≤ c.type.high
  | _ => False

/-! ### What a message is converted from -/

/-- What `parsePeerStatus` reads the numbers in: the payload, or the whole message if there
is none. -/
def statusData (envelope : Bytes) : Bytes :=
  (extractBalancedValue envelope (utf8 "payload") openBrace closeBrace).getD envelope

/-- What the `voice_frame` branch reads the numbers in: the payload, or an empty object if there is
none. -/
def framePayload (text : Bytes) : Bytes :=
  (extractBalancedValue text (utf8 "payload") openBrace closeBrace).getD (utf8 "\x7b\x7d")

/-- A number, or 0. -/
def numberOf (json : Bytes) (key : String) : Number :=
  (extractJsonNumber json (utf8 key)).getD (.finite 0)

/-- The ports of the candidates, as they are read: a number that is missing counts as 0. -/
def portNumbers (payloadJson : Bytes) : List Number :=
  match extractBalancedValue payloadJson (utf8 "candidates") openBracket closeBracket with
  | some candidatesJson =>
    (splitObjectArray candidatesJson).map fun object => numberOf object "port"
  | none => []

/-- `std::clamp(x, 0.0, 65535.0)`. Nothing is below or above a NaN. -/
def clampPort : Number → Number
  | .finite q => if q < 0 then .finite 0 else if 65535 < q then .finite 65535 else .finite q
  | .infinite negative => if negative then .finite 0 else .finite 65535
  | .nan => .nan

/-- A message with numbers in it. Each of these leads to one or more casts, which
`Message.conversions` lists. -/
inductive Message
  /-- `peer_status`, `peer_joined` or `peer_left`. -/
  | peerStatus (text : Bytes)
  | voiceFrame (text : Bytes)
  /-- `ice_offer`, `ice_answer` or `ice_candidate`. -/
  | ice (type text : Bytes)

/-- The casts that a message leads to, with the numbers as the code hands them to the casts, clamped
or not. -/
def conversions : Message → List Conversion
  | .peerStatus text => [⟨.int, numberOf (statusData text) "iconIndex"⟩]
  | .voiceFrame text =>
    [ ⟨.uint32, (numberOf (framePayload text) "sequence").max 0⟩,
      ⟨.int64, (numberOf (framePayload text) "captureUnixMs").max 0⟩ ]
  | .ice type text =>
    (portNumbers (iceOfMessage type text).payloadJson).map fun port => ⟨.uint16, clampPort port⟩

/-- The icon index is 0 to 4, and every port 0 to 65535. The numbers of a frame have no bounds. -/
def InBounds : Message → Prop
  | .peerStatus text => ∀ now, 0 ≤ (parsePeerStatus now text).iconIndex ∧
      (parsePeerStatus now text).iconIndex ≤ 4
  | .voiceFrame _ => True
  | .ice type text => ∀ c ∈ parseCandidates (iceOfMessage type text).payloadJson,
      c.port.toNat ≤ 65535

/-- A NaN, or a number below the bound. -/
def Below (bound : ℚ) : Number → Prop
  | .finite q => q < bound
  | .infinite negative => negative = true
  | .nan => True

/-- The icon index is a number that an `int` can hold, sequence number and time do not exceed their
types, and no port is a NaN. -/
def Harmless : Message → Prop
  | .peerStatus text => ∃ q, numberOf (statusData text) "iconIndex" = .finite q ∧
      -2 ^ 31 - 1 < q ∧ q < 2 ^ 31
  | .voiceFrame text => Below (2 ^ 32) (numberOf (framePayload text) "sequence") ∧
      Below (2 ^ 63) (numberOf (framePayload text) "captureUnixMs")
  | .ice type text => ∀ port ∈ portNumbers (iceOfMessage type text).payloadJson, port ≠ .nan

/-! ### Bounds -/

/-- Cutting a number towards zero. It lands within bounds on both sides of 0 if the number is less
than one beyond them. -/
theorem truncate_bounds {low high : ℤ} (hlow : low ≤ 0) (hhigh : 0 ≤ high) (q : ℚ) :
    (low ≤ (Number.finite q).truncate ∧ (Number.finite q).truncate ≤ high) ↔
      (low : ℚ) - 1 < q ∧ q < high + 1 := by
  have hlow' : (low : ℚ) ≤ 0 := by exact_mod_cast hlow
  have hhigh' : (0 : ℚ) ≤ high := by exact_mod_cast hhigh
  rw [Number.truncate]
  split
  · next hq =>
    have hfloor : ⌊q⌋ ≤ high ↔ q < high + 1 := by
      rw [← Int.lt_add_one_iff, Int.floor_lt]
      push_cast
      exact Iff.rfl
    have hnonneg : 0 ≤ ⌊q⌋ := Int.floor_nonneg.mpr hq
    rw [hfloor]
    refine and_congr_left fun _ => iff_of_true (hlow.trans hnonneg) ?_
    linarith
  · next hq =>
    rw [not_le] at hq
    have hceil : low ≤ ⌈q⌉ ↔ (low : ℚ) - 1 < q := by
      rw [← Int.sub_one_lt_iff, Int.lt_ceil]
      push_cast
      exact Iff.rfl
    have hnonpos : ⌈q⌉ ≤ 0 := Int.ceil_le.mpr (by exact_mod_cast hq.le)
    rw [hceil]
    refine and_congr_right fun _ => iff_of_true (hnonpos.trans hhigh) ?_
    linarith

/-- A cast from 0 on. Infinity and what is too large are not defined; a NaN has become 0 before the
cast. -/
theorem defined_max_iff {type : IntType} (hlow : type.low ≤ 0) (hhigh : 0 ≤ type.high)
    (x : Number) : (Conversion.mk type (x.max 0)).Defined ↔ Below (type.high + 1) x := by
  have hzero : (Conversion.mk type (.finite 0)).Defined := ⟨hlow, hhigh⟩
  have hhigh' : (0 : ℚ) ≤ type.high := by exact_mod_cast hhigh
  have hlow' : (type.low : ℚ) ≤ 0 := by exact_mod_cast hlow
  cases x with
  | finite q =>
    rw [Number.max]
    split
    · next hq =>
      refine (truncate_bounds hlow hhigh q).trans (and_iff_right ?_)
      linarith
    · next hq =>
      refine iff_of_true hzero ?_
      show q < _
      linarith [not_lt.mp hq]
  | infinite negative =>
    cases negative with
    | true => exact iff_of_true hzero rfl
    | false => exact iff_of_false id Bool.false_ne_true
  | nan => exact iff_of_true hzero trivial

theorem defined_clampPort_iff (x : Number) :
    (Conversion.mk .uint16 (clampPort x)).Defined ↔ x ≠ .nan := by
  have hbounds : ∀ q : ℚ, 0 ≤ q → q ≤ 65535 → (Conversion.mk .uint16 (.finite q)).Defined := by
    intro q hlow hhigh
    have hlow' : IntType.uint16.low ≤ 0 := by decide
    have hhigh' : 0 ≤ IntType.uint16.high := by decide
    refine (truncate_bounds hlow' hhigh' q).mpr ?_
    norm_num [IntType.low, IntType.high]
    constructor <;> linarith
  cases x with
  | finite q =>
    refine iff_of_true ?_ (by simp)
    rw [clampPort]
    split
    · exact hbounds 0 le_rfl (by norm_num)
    · split
      · exact hbounds 65535 (by norm_num) le_rfl
      · exact hbounds q (by linarith) (by linarith)
  | infinite negative =>
    refine iff_of_true ?_ (by simp)
    cases negative with
    | true => exact hbounds 0 le_rfl (by norm_num)
    | false => exact hbounds 65535 (by norm_num) le_rfl
  | nan => exact iff_of_false id fun h => h rfl

/-! ### What a defined cast gives -/

variable {text payloadJson : Bytes}

theorem iconIndex_parsePeerStatus (now : ℕ) :
    (parsePeerStatus now text).iconIndex =
      max 0 (min (numberOf (statusData text) "iconIndex").truncate 4) := rfl

/-- The sequence number is the number that was read. -/
theorem sequence_of_defined
    (h : (Conversion.mk .uint32 ((numberOf (framePayload text) "sequence").max 0)).Defined) :
    ((voiceFrameOfMessage text).sequence.toNat : ℤ) =
      ((numberOf (framePayload text) "sequence").max 0).truncate := by
  have hsequence : (voiceFrameOfMessage text).sequence =
      UInt32.ofNat ((numberOf (framePayload text) "sequence").max 0).truncate.toNat := rfl
  rw [hsequence]
  generalize (numberOf (framePayload text) "sequence").max 0 = x at h ⊢
  cases x with
  | finite q =>
    obtain ⟨hlow, hhigh⟩ := h
    rw [IntType.low] at hlow
    rw [IntType.high] at hhigh
    rw [UInt32.toNat_ofNat']
    omega
  | infinite negative => exact absurd h id
  | nan => exact absurd h id

/-- The capture time is the number that was read. -/
theorem captureUnixMs_of_defined
    (h : (Conversion.mk .int64 ((numberOf (framePayload text) "captureUnixMs").max 0)).Defined) :
    (voiceFrameOfMessage text).captureUnixMs.toInt =
      ((numberOf (framePayload text) "captureUnixMs").max 0).truncate := by
  have htime : (voiceFrameOfMessage text).captureUnixMs =
      Int64.ofInt ((numberOf (framePayload text) "captureUnixMs").max 0).truncate := rfl
  rw [htime]
  generalize (numberOf (framePayload text) "captureUnixMs").max 0 = x at h ⊢
  cases x with
  | finite q =>
    obtain ⟨hlow, hhigh⟩ := h
    rw [IntType.low] at hlow
    rw [IntType.high] at hhigh
    exact Int64.toInt_ofInt_of_le hlow (Int.lt_of_le_sub_one hhigh)
  | infinite negative => exact absurd h id
  | nan => exact absurd h id

/-- A port is the number that was read, clamped. Only a NaN gets through the clamp as it is. -/
theorem port_of_defined {x : Number} (h : (Conversion.mk .uint16 (clampPort x)).Defined) :
    ((candidatePort x).toNat : ℤ) = (clampPort x).truncate := by
  have hmost : ((65535 : UInt16).toNat : ℤ) = (Number.finite 65535).truncate := by
    norm_num [Number.truncate]
    decide
  cases x with
  | finite q =>
    rw [clampPort] at h ⊢
    rw [candidatePort]
    split at h
    · next hneg =>
      rw [if_pos hneg, if_pos hneg]
      rfl
    · next hneg =>
      rw [if_neg hneg, if_neg hneg]
      split at h
      · next hbig =>
        rw [if_pos hbig, if_pos hbig]
        exact hmost
      · next hbig =>
        rw [if_neg hbig, if_neg hbig]
        obtain ⟨hlow, hhigh⟩ := h
        rw [Number.truncate, if_pos (not_lt.mp hneg)] at hlow hhigh ⊢
        rw [IntType.low] at hlow
        rw [IntType.high] at hhigh
        rw [UInt16.toNat_ofNat']
        omega
  | infinite negative =>
    cases negative with
    | true => rfl
    | false => exact hmost
  | nan => exact absurd h id

theorem port_mem_portNumbers {c : Net.Candidate} (h : c ∈ parseCandidates payloadJson) :
    ∃ x ∈ portNumbers payloadJson, c.port = candidatePort x := by
  rw [parseCandidates] at h
  rw [portNumbers]
  rcases hjson : extractBalancedValue payloadJson (utf8 "candidates") openBracket closeBracket with
    _ | candidatesJson
  · rw [hjson] at h
    exact absurd h List.not_mem_nil
  · rw [hjson] at h
    obtain ⟨object, hobject, hc⟩ := List.mem_filterMap.mp h
    refine ⟨_, List.mem_map_of_mem hobject, ?_⟩
    rw [parseCandidate] at hc
    split at hc
    · rw [← Option.some.inj hc]
      rfl
    · exact absurd hc.symm (Option.some_ne_none c)

theorem inBounds (m : Message) : InBounds m := by
  cases m with
  | peerStatus text =>
    intro now
    rw [iconIndex_parsePeerStatus]
    omega
  | voiceFrame text => trivial
  | ice type text => exact fun c _ => Nat.le_of_lt_succ c.port.toNat_lt

/-- **Which messages are converted without harm.** For every message, whatever its text: all casts
that it leads to are defined, and the icon index and the ports within their bounds, exactly if the
icon index is a number that an `int` can hold, sequence number and time do not exceed their types,
and no port is a NaN. Everything else is clamped before it is cast. -/
theorem conversions_defined_iff (m : Message) :
    ((∀ c ∈ conversions m, c.Defined) ∧ InBounds m) ↔ Harmless m := by
  rw [and_iff_left (inBounds m)]
  cases m with
  | peerStatus text =>
    rw [conversions, Harmless, List.forall_mem_singleton]
    cases hx : numberOf (statusData text) "iconIndex" with
    | finite q =>
      have hlow : IntType.int.low ≤ 0 := by decide
      have hhigh : 0 ≤ IntType.int.high := by decide
      refine (truncate_bounds hlow hhigh q).trans ?_
      norm_num [IntType.low, IntType.high]
    | infinite negative => simp [Conversion.Defined]
    | nan => simp [Conversion.Defined]
  | voiceFrame text =>
    rw [conversions, Harmless, List.forall_mem_cons, List.forall_mem_singleton]
    have hsequence := @defined_max_iff .uint32 (by decide) (by decide)
      (numberOf (framePayload text) "sequence")
    have htime := @defined_max_iff .int64 (by decide) (by decide)
      (numberOf (framePayload text) "captureUnixMs")
    rw [hsequence, htime]
    norm_num [IntType.high]
  | ice type text =>
    rw [conversions, Harmless, List.forall_mem_map]
    exact forall₂_congr fun x _ => defined_clampPort_iff x

/-! ### Casts that are not defined -/

/-- A status with an icon index that no `int` holds. -/
def bigIcon : Message := .peerStatus (utf8
  "\x7b\"type\":\"peer_status\",\"peerId\":\"p\",\"payload\":\x7b\"iconIndex\":3000000000\x7d\x7d")

/-- A frame whose number has 33 bits. -/
def bigSequence : Message := .voiceFrame (utf8
  "\x7b\"type\":\"voice_frame\",\"peerId\":\"p\",\"payload\":\x7b\"sequence\":4294967296\x7d\x7d")

/-- A frame whose time has 64 bits and no sign. -/
def lateFrame : Message := .voiceFrame (utf8
  "\x7b\"type\":\"voice_frame\",\"peerId\":\"p\",\"payload\":\x7b\"captureUnixMs\":1e19\x7d\x7d")

/-- A candidate in which a member's value is the word `port`, and the next name has a colon. -/
def nanPort : Message := .ice (utf8 "ice_offer") (utf8
  "\x7b\"peerId\":\"p\",\"payload\":\x7b\"candidates\":[\x7b\"kind\":\"port\",\"to:nan\":1\x7d]\x7d\x7d")

theorem not_defined_finite {type : IntType} {q : ℚ} (hlow : type.low ≤ 0) (hhigh : 0 ≤ type.high)
    (hq : (type.high : ℚ) + 1 ≤ q) : ¬ (Conversion.mk type (.finite q)).Defined := fun h =>
  not_lt.mpr hq ((truncate_bounds hlow hhigh q).mp h).2

/-- **Casts that are not defined**, in messages that are valid JSON: an icon index, a sequence
number and a time that are too large, and a port that is read from a name. -/
theorem casts_not_defined :
    (∃ c ∈ conversions bigIcon, ¬ c.Defined) ∧ (∃ c ∈ conversions bigSequence, ¬ c.Defined) ∧
      (∃ c ∈ conversions lateFrame, ¬ c.Defined) ∧ ∃ c ∈ conversions nanPort, ¬ c.Defined := by
  refine ⟨⟨⟨.int, .finite 3000000000⟩, by decide +kernel, ?_⟩,
    ⟨⟨.uint32, .finite 4294967296⟩, by decide +kernel, ?_⟩,
    ⟨⟨.int64, .finite 10000000000000000000⟩, by decide +kernel, ?_⟩,
    ⟨.uint16, .nan⟩, by decide +kernel, id⟩
  · exact not_defined_finite (by decide) (by decide) (by norm_num [IntType.high])
  · exact not_defined_finite (by decide) (by decide) (by norm_num [IntType.high])
  · exact not_defined_finite (by decide) (by decide) (by norm_num [IntType.high])

end Client

end TarkovVoice

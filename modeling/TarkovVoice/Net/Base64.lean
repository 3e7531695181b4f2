import TarkovVoice.Net.Bytes
import Mathlib.Tactic.IntervalCases

/-!
# Base 64

`base64Encode` and `base64Decode` of `client/src/net/SignalingClient.cpp`, by which audio travels
inside a message.

The decoder's `value` is an `int` of 32 bits that is never cleared: every letter shifts it by six,
and the bits of earlier letters fall out at the top. `toNat_shiftIn` says which number is left, and
only its low twelve bits are ever read.

## Main definitions

* `base64Encode`, `base64Decode`

## Main results

* `base64Decode_base64Encode` — what was encoded is decoded again
* `base64Decode_spaced` — also with white space put into it
-/

namespace TarkovVoice

namespace Net

/-! ### The two functions -/

def alphabet : Bytes := utf8 "ABCDEFGHIJKLMNOPQRSTUVWXYZabcdefghijklmnopqrstuvwxyz0123456789+/"

/-- `triple`. -/
def triple (b0 b1 b2 : UInt8) : UInt32 :=
  (b0.toUInt32 <<< 16) ||| (b1.toUInt32 <<< 8) ||| b2.toUInt32

/-- `alphabet[(triple >> shift) & 0x3f]`. -/
def letterAt (triple shift : UInt32) : UInt8 :=
  alphabet.getD ((triple >>> shift) &&& 0x3f).toNat 0

/-- `base64Encode`: four letters for three bytes, and the last ones filled up with `=`. -/
def base64Encode : Bytes → Bytes
  | [] => []
  | [b0] => [letterAt (triple b0 0 0) 18, letterAt (triple b0 0 0) 12, 61, 61]
  | [b0, b1] =>
    [letterAt (triple b0 b1 0) 18, letterAt (triple b0 b1 0) 12, letterAt (triple b0 b1 0) 6, 61]
  | b0 :: b1 :: b2 :: bytes =>
    letterAt (triple b0 b1 b2) 18 :: letterAt (triple b0 b1 b2) 12 ::
      letterAt (triple b0 b1 b2) 6 :: letterAt (triple b0 b1 b2) 0 :: base64Encode bytes

/-- `valueOf`, with nothing where the source has `-1`: the place of a letter in the alphabet. -/
def valueOf (c : UInt8) : Option ℕ :=
  if 65 ≤ c ∧ c ≤ 90 then some (c.toNat - 65)
  else if 97 ≤ c ∧ c ≤ 122 then some (c.toNat - 97 + 26)
  else if 48 ≤ c ∧ c ≤ 57 then some (c.toNat - 48 + 52)
  else if c = 43 then some 62
  else if c = 47 then some 63
  else none

/-- `(value << 6) | decoded`, in an `int` of 32 bits. What is shifted out is lost. -/
def shiftIn (value : BitVec 32) (decoded : ℕ) : BitVec 32 := value <<< 6 ||| BitVec.ofNat 32 decoded

/-- `static_cast<std::uint8_t>((value >> bits) & 0xff)`. The shift is one of a signed number. -/
def lowByte (value : BitVec 32) (bits : ℕ) : UInt8 :=
  UInt8.ofBitVec ((value.sshiftRight bits &&& 0xff).setWidth 8)

/-- The loop of `base64Decode`. White space is skipped, `=` ends the text, and any other byte that
is no letter makes it fail. -/
def base64Loop : Bytes → BitVec 32 → ℤ → Bytes → Option Bytes
  | [], _, _, out => some out
  | c :: text, value, bits, out =>
    if isspace c then base64Loop text value bits out
    else if c = 61 then some out
    else
      match valueOf c with
      | none => none
      | some decoded =>
        let value := shiftIn value decoded
        let bits := bits + 6
        if 0 ≤ bits then base64Loop text value (bits - 8) (out ++ [lowByte value bits.toNat])
        else base64Loop text value bits out

/-- `base64Decode`. The loop begins with `bits` at -8, so that the second letter gives the first
byte. -/
def base64Decode (text : Bytes) : Option Bytes := base64Loop text 0 (-8) []

/-! ### Letters -/

theorem letter_cases : ∀ d < 64, isspace (alphabet.getD d 0) = false ∧ alphabet.getD d 0 ≠ 61 ∧
    valueOf (alphabet.getD d 0) = some d := by
  decide +kernel

theorem base64Loop_letter {d : ℕ} (hd : d < 64) (text : Bytes) (value : BitVec 32) (bits : ℤ)
    (out : Bytes) :
    base64Loop (alphabet.getD d 0 :: text) value bits out =
      if 0 ≤ bits + 6 then
        base64Loop text (shiftIn value d) (bits + 6 - 8)
          (out ++ [lowByte (shiftIn value d) (bits + 6).toNat])
      else base64Loop text (shiftIn value d) (bits + 6) out := by
  obtain ⟨hspace, hpad, hvalue⟩ := letter_cases d hd
  rw [base64Loop, hspace, if_neg Bool.false_ne_true, if_neg hpad, hvalue]

theorem base64Loop_pad (text : Bytes) (value : BitVec 32) (bits : ℤ) (out : Bytes) :
    base64Loop (61 :: text) value bits out = some out := by
  rw [base64Loop, if_neg (by decide), if_pos rfl]

theorem toNat_triple (b0 b1 b2 : UInt8) :
    (triple b0 b1 b2).toNat = b0.toNat * 65536 + b1.toNat * 256 + b2.toNat := by
  have h0 := b0.toNat_lt
  have h1 := b1.toNat_lt
  have h2 := b2.toNat_lt
  have hshift0 : (b0.toUInt32 <<< 16).toNat = b0.toNat <<< 16 := by
    simp [Nat.shiftLeft_eq]
    omega
  have hshift1 : (b1.toUInt32 <<< 8).toNat = b1.toNat <<< 8 := by
    simp [Nat.shiftLeft_eq]
    omega
  have hlow : b1.toNat <<< 8 + b2.toNat = b1.toNat <<< 8 ||| b2.toNat :=
    Nat.shiftLeft_add_eq_or_of_lt h2 _
  have hhigh : b0.toNat <<< 16 + (b1.toNat <<< 8 + b2.toNat) =
      b0.toNat <<< 16 ||| (b1.toNat <<< 8 + b2.toNat) := by
    refine Nat.shiftLeft_add_eq_or_of_lt ?_ _
    rw [Nat.shiftLeft_eq]
    omega
  rw [triple, UInt32.toNat_or, UInt32.toNat_or, hshift0, hshift1, UInt8.toNat_toUInt32,
    Nat.or_assoc, ← hlow, ← hhigh, Nat.shiftLeft_eq, Nat.shiftLeft_eq]
  omega

/-- The letter at a position stands for the six bits there. -/
theorem letterAt_eq (t : UInt32) {k : ℕ} (hk : k < 32) :
    letterAt t (UInt32.ofNat k) = alphabet.getD (t.toNat / 2 ^ k % 64) 0 := by
  have hand : ∀ n : ℕ, n &&& 63 = n % 64 := fun n => Nat.and_two_pow_sub_one_eq_mod n 6
  rw [letterAt]
  simp [Nat.shiftRight_eq_div_pow, hand, Nat.mod_eq_of_lt (show k < 4294967296 by omega),
    Nat.mod_eq_of_lt hk]

/-! ### The decoder's number -/

theorem toNat_shiftIn (value : BitVec 32) {d : ℕ} (hd : d < 64) :
    (shiftIn value d).toNat = value.toNat % 2 ^ 26 * 64 + d := by
  have hmod : value.toNat <<< 6 % 2 ^ 32 = (value.toNat % 2 ^ 26) <<< 6 := by
    rw [Nat.shiftLeft_eq, Nat.shiftLeft_eq]
    omega
  rw [shiftIn, BitVec.toNat_or, BitVec.toNat_shiftLeft, BitVec.toNat_ofNat, hmod,
    Nat.mod_eq_of_lt (show d < 2 ^ 32 by omega), ← Nat.shiftLeft_add_eq_or_of_lt hd,
    Nat.shiftLeft_eq]

/-- Eight bits from the low end: the sign does not reach them, since no more than 24 bits are
shifted out. -/
theorem toNat_lowByte (value : BitVec 32) {k : ℕ} (hk : k ≤ 24) :
    (lowByte value k).toNat = value.toNat / 2 ^ k % 256 := by
  have hbits : (value.sshiftRight k &&& 0xff).setWidth 8 = (value >>> k).setWidth 8 := by
    refine BitVec.eq_of_getLsbD_eq fun i hi => ?_
    have hin : k + i < 32 := by omega
    have hword : ¬ 32 ≤ i := by omega
    have hmask : ∀ i < 8, (255#8).getLsbD i = true := by decide
    simp [BitVec.getLsbD_sshiftRight, hin, hword, hi, hmask i hi]
  rw [lowByte, hbits]
  simp [Nat.shiftRight_eq_div_pow]

theorem lowByte_shiftIn (value : BitVec 32) {d e k : ℕ} (hd : d < 64) (he : e < 64) (hk : k ≤ 4)
    {b : UInt8} (h : (d * 64 + e) / 2 ^ k % 256 = b.toNat) :
    lowByte (shiftIn (shiftIn value d) e) k = b := by
  rw [← UInt8.toNat_inj, toNat_lowByte _ (by omega), toNat_shiftIn _ he, toNat_shiftIn _ hd, ← h]
  interval_cases k <;> omega

/-! ### Decoding what was encoded -/

section Letters

variable {d e f g : ℕ} (hd : d < 64) (he : e < 64) (hf : f < 64) (hg : g < 64) (text : Bytes)
  (value : BitVec 32) (out : Bytes)

include hd he

/-- Two letters give a byte, whatever the number holds before. Its high bits are those of letters
read long ago. -/
theorem base64Loop_two {b : UInt8} (hb : d * 4 + e / 16 = b.toNat) :
    base64Loop (alphabet.getD d 0 :: alphabet.getD e 0 :: text) value (-8) out =
      base64Loop text (shiftIn (shiftIn value d) e) (-4) (out ++ [b]) := by
  have hbyte : lowByte (shiftIn (shiftIn value d) e) 4 = b :=
    lowByte_shiftIn value hd he (by omega) (by omega)
  rw [base64Loop_letter hd, if_neg (by decide), base64Loop_letter he, if_pos (by decide)]
  show base64Loop text _ (-4) (out ++ [lowByte _ 4]) = _
  rw [hbyte]

include hf

/-- The third letter gives the second byte. -/
theorem base64Loop_three {b c : UInt8} (hb : d * 4 + e / 16 = b.toNat)
    (hc : e % 16 * 16 + f / 4 = c.toNat) :
    base64Loop (alphabet.getD d 0 :: alphabet.getD e 0 :: alphabet.getD f 0 :: text) value (-8)
        out =
      base64Loop text (shiftIn (shiftIn (shiftIn value d) e) f) (-6) (out ++ [b, c]) := by
  have hbyte : lowByte (shiftIn (shiftIn (shiftIn value d) e) f) 2 = c :=
    lowByte_shiftIn (shiftIn value d) he hf (by omega) (by omega)
  rw [base64Loop_two hd he _ value out hb, base64Loop_letter hf, if_pos (by decide)]
  show base64Loop text _ (-6) (out ++ [b] ++ [lowByte _ 2]) = _
  rw [hbyte, List.append_assoc, List.singleton_append]

include hg

/-- The fourth letter gives the third byte, and the loop is where it was. -/
theorem base64Loop_four {b c b' : UInt8} (hb : d * 4 + e / 16 = b.toNat)
    (hc : e % 16 * 16 + f / 4 = c.toNat) (hb' : f % 4 * 64 + g = b'.toNat) :
    base64Loop (alphabet.getD d 0 :: alphabet.getD e 0 :: alphabet.getD f 0 ::
        alphabet.getD g 0 :: text) value (-8) out =
      base64Loop text (shiftIn (shiftIn (shiftIn (shiftIn value d) e) f) g) (-8)
        (out ++ [b, c, b']) := by
  have hbyte : lowByte (shiftIn (shiftIn (shiftIn (shiftIn value d) e) f) g) 0 = b' :=
    lowByte_shiftIn (shiftIn (shiftIn value d) e) hf hg (by omega) (by omega)
  rw [base64Loop_three hd he hf _ value out hb hc, base64Loop_letter hg, if_pos (by decide)]
  show base64Loop text _ (-8) (out ++ [b, c] ++ [lowByte _ 0]) = _
  rw [hbyte, List.append_assoc]
  rfl

end Letters

/-- The letters of three bytes. -/
theorem letters_eq (b0 b1 b2 : UInt8) :
    letterAt (triple b0 b1 b2) 18 = alphabet.getD (b0.toNat / 4) 0 ∧
      letterAt (triple b0 b1 b2) 12 = alphabet.getD (b0.toNat % 4 * 16 + b1.toNat / 16) 0 ∧
      letterAt (triple b0 b1 b2) 6 = alphabet.getD (b1.toNat % 16 * 4 + b2.toNat / 64) 0 ∧
      letterAt (triple b0 b1 b2) 0 = alphabet.getD (b2.toNat % 64) 0 := by
  have h0 := b0.toNat_lt
  have h1 := b1.toNat_lt
  have h2 := b2.toNat_lt
  have hletter : ∀ k < 32, ∀ d, (b0.toNat * 65536 + b1.toNat * 256 + b2.toNat) / 2 ^ k % 64 = d →
      letterAt (triple b0 b1 b2) (UInt32.ofNat k) = alphabet.getD d 0 := by
    rintro k hk d rfl
    rw [letterAt_eq _ hk, toNat_triple]
  exact ⟨hletter 18 (by omega) _ (by omega), hletter 12 (by omega) _ (by omega),
    hletter 6 (by omega) _ (by omega), hletter 0 (by omega) _ (by omega)⟩

theorem base64Loop_base64Encode (bytes : Bytes) (value : BitVec 32) (out : Bytes) :
    base64Loop (base64Encode bytes) value (-8) out = some (out ++ bytes) := by
  induction bytes using base64Encode.induct generalizing value out with
  | case1 =>
    rw [List.append_nil]
    rfl
  | case2 b0 =>
    obtain ⟨h18, h12, -, -⟩ := letters_eq b0 0 0
    have h0 := b0.toNat_lt
    have hzero : (0 : UInt8).toNat = 0 := rfl
    rw [base64Encode, h18, h12, base64Loop_two (b := b0) (by omega) (by omega) _ _ _ (by omega),
      base64Loop_pad]
  | case3 b0 b1 =>
    obtain ⟨h18, h12, h6, -⟩ := letters_eq b0 b1 0
    have h0 := b0.toNat_lt
    have h1 := b1.toNat_lt
    have hzero : (0 : UInt8).toNat = 0 := rfl
    rw [base64Encode, h18, h12, h6, base64Loop_three (b := b0) (c := b1) (by omega) (by omega)
      (by omega) _ _ _ (by omega) (by omega), base64Loop_pad]
  | case4 b0 b1 b2 bytes ih =>
    obtain ⟨h18, h12, h6, hlow⟩ := letters_eq b0 b1 b2
    have h0 := b0.toNat_lt
    have h1 := b1.toNat_lt
    have h2 := b2.toNat_lt
    rw [base64Encode, h18, h12, h6, hlow, @base64Loop_four _ _ _ _ (by omega) (by omega) (by omega)
      (by omega) _ _ _ b0 b1 b2 (by omega) (by omega) (by omega), ih, List.append_assoc]
    rfl

/-- **What was encoded is decoded again**, whatever the bytes and however many. The induction takes
three bytes at a time. -/
theorem base64Decode_base64Encode (bytes : Bytes) :
    base64Decode (base64Encode bytes) = some bytes :=
  base64Loop_base64Encode bytes 0 []

/-! ### White space in the text -/

/-- `Spaced text spaced`: white space was put into `text`, anywhere and in any amount, also in front
of it and behind it; nothing else was changed. -/
inductive Spaced : Bytes → Bytes → Prop
  | nil : Spaced [] []
  | keep {text spaced : Bytes} (c : UInt8) : Spaced text spaced → Spaced (c :: text) (c :: spaced)
  | blank {text spaced : Bytes} {c : UInt8} (hc : isspace c = true) :
    Spaced text spaced → Spaced text (c :: spaced)

/-- The loop does not see the white space: a run over the spaced text goes through the same
states. -/
theorem Spaced.base64Loop_eq {text spaced : Bytes} (h : Spaced text spaced) (value : BitVec 32)
    (bits : ℤ) (out : Bytes) :
    base64Loop spaced value bits out = base64Loop text value bits out := by
  induction h generalizing value bits out with
  | nil => rfl
  | blank hc _ ih => rw [base64Loop, if_pos hc, ih]
  | keep c _ ih =>
    rw [base64Loop, base64Loop]
    simp only [ih]

/-- **White space is no part of the text.** Whatever the bytes are, what was encoded is decoded
again, with any white space anywhere in between. The number the decoder shifts is never cleared, so
it overflows after six letters; what is decoded does not depend on it. -/
theorem base64Decode_spaced {bytes spaced : Bytes} (h : Spaced (base64Encode bytes) spaced) :
    base64Decode spaced = some bytes := by
  rw [base64Decode, h.base64Loop_eq]
  exact base64Loop_base64Encode bytes 0 []

theorem base64Decode_spaced_man : base64Decode (utf8 "TW F\nu ") = some (utf8 "Man") :=
  base64Decode_spaced (.keep _ (.keep _ (.blank (by decide) (.keep _ (.blank (by decide)
    (.keep _ (.blank (by decide) .nil)))))))

/-! ### What the text consists of -/

theorem getD_mem_alphabet (d : ℕ) (hd : d < 64) : alphabet.getD d 0 ∈ alphabet := by
  have hlength : alphabet.length = 64 := by decide
  rw [List.getD_eq_getElem?_getD, List.getElem?_eq_getElem (hlength ▸ hd)]
  exact List.getElem_mem _

theorem letterAt_mem (t shift : UInt32) : letterAt t shift ∈ alphabet := by
  refine getD_mem_alphabet _ ?_
  have hand : ((t >>> shift) &&& 0x3f).toNat ≤ 63 := by
    rw [UInt32.toNat_and]
    exact Nat.and_le_right
  omega

theorem mem_base64Encode {bytes : Bytes} {c : UInt8} (h : c ∈ base64Encode bytes) :
    c ∈ alphabet ∨ c = 61 := by
  induction bytes using base64Encode.induct with
  | case1 => cases h
  | case2 b0 =>
    simp only [base64Encode, List.mem_cons, List.not_mem_nil, or_false] at h
    rcases h with rfl | rfl | h | h
    · exact .inl (letterAt_mem _ _)
    · exact .inl (letterAt_mem _ _)
    · exact .inr h
    · exact .inr h
  | case3 b0 b1 =>
    simp only [base64Encode, List.mem_cons, List.not_mem_nil, or_false] at h
    rcases h with rfl | rfl | rfl | h
    · exact .inl (letterAt_mem _ _)
    · exact .inl (letterAt_mem _ _)
    · exact .inl (letterAt_mem _ _)
    · exact .inr h
  | case4 b0 b1 b2 bytes ih =>
    simp only [base64Encode, List.mem_cons] at h
    rcases h with rfl | rfl | rfl | rfl | h
    · exact .inl (letterAt_mem _ _)
    · exact .inl (letterAt_mem _ _)
    · exact .inl (letterAt_mem _ _)
    · exact .inl (letterAt_mem _ _)
    · exact ih h

end Net

end TarkovVoice

import Mathlib.Data.List.Basic
import Mathlib.Tactic.Common

/-!
# Pieces of UTF-8 texts

A byte string is valid if it encodes a list of characters. A valid text may be cut where a character
begins, and nowhere else. `UInt8.IsUTF8FirstByte` says that a byte begins a character.

## Main definitions

* `Utf8.Valid`

## Main results

* `Utf8.valid_take_iff` — where a text may be cut
* `Utf8.valid_between_ascii_iff` — ASCII bytes at the ends do not matter
-/

namespace TarkovVoice

namespace Utf8

/-- The bytes of a list of characters, each in one to four bytes by core's
`String.utf8EncodeChar`. -/
def encode (cs : List Char) : List UInt8 := cs.flatMap String.utf8EncodeChar

def Valid (b : List UInt8) : Prop := ∃ cs, b = encode cs

variable {b b' : List UInt8} {c d : Char}

theorem encode_cons (c : Char) (cs : List Char) :
    encode (c :: cs) = String.utf8EncodeChar c ++ encode cs := List.flatMap_cons

theorem valid_nil : Valid [] := ⟨[], rfl⟩

theorem Valid.append (h : Valid b) (h' : Valid b') : Valid (b ++ b') := by
  obtain ⟨cs, rfl⟩ := h
  obtain ⟨cs', rfl⟩ := h'
  exact ⟨cs ++ cs', List.flatMap_append.symm⟩

/-- No character's text begins another's. So a text is read character by character in one
way only. -/
theorem char_unique (h : String.utf8EncodeChar c ++ b = String.utf8EncodeChar d ++ b') : c = d := by
  have hc := @ByteArray.utf8DecodeChar?_utf8EncodeChar_append b.toByteArray c
  have hd := @ByteArray.utf8DecodeChar?_utf8EncodeChar_append b'.toByteArray d
  rw [← List.toByteArray_append] at hc hd
  rw [h, hd] at hc
  exact (Option.some.inj hc).symm

theorem valid_append_iff : Valid (String.utf8EncodeChar c ++ b) ↔ Valid b := by
  constructor
  · rintro ⟨cs, h⟩
    cases cs with
    | nil =>
      exact absurd (List.append_eq_nil_iff.mp h).1 String.utf8EncodeChar_ne_nil
    | cons d cs =>
      rw [encode_cons] at h
      obtain rfl := char_unique h
      exact ⟨cs, List.append_cancel_left h⟩
  · rintro ⟨cs, rfl⟩
    exact ⟨c :: cs, rfl⟩

/-- Part of a character is no text. It begins as the character does, and any text that began so
would have all of it. -/
theorem not_valid_take {n : ℕ} (hn : n ≠ 0) (hlt : n < (String.utf8EncodeChar c).length) :
    ¬ Valid ((String.utf8EncodeChar c).take n) := by
  rintro ⟨cs, h⟩
  cases cs with
  | nil =>
    have hlength := congrArg List.length h
    rw [List.length_take, Nat.min_eq_left (Nat.le_of_lt hlt)] at hlength
    exact hn hlength
  | cons d cs =>
    rw [encode_cons] at h
    have hsplit : String.utf8EncodeChar d ++ (encode cs ++ (String.utf8EncodeChar c).drop n) =
        String.utf8EncodeChar c ++ [] := by
      rw [← List.append_assoc, ← h, List.take_append_drop, List.append_nil]
    obtain rfl := char_unique hsplit
    have hlength := congrArg List.length h
    rw [List.length_take, List.length_append] at hlength
    omega

/-- **A text may be cut** where a character begins, or at its end, and nowhere else. The byte behind
the cut decides; the other one would not do. -/
theorem valid_take_iff (h : Valid b) (n : ℕ) :
    Valid (b.take n) ↔ ∀ x ∈ b[n]?, x.IsUTF8FirstByte := by
  obtain ⟨cs, rfl⟩ := h
  induction cs generalizing n with
  | nil => simp [encode, valid_nil]
  | cons c cs ih =>
    rw [encode_cons]
    by_cases hlt : n < (String.utf8EncodeChar c).length
    · have hget : (String.utf8EncodeChar c ++ encode cs)[n]? =
          some (String.utf8EncodeChar c)[n] := by
        rw [List.getElem?_append_left hlt, List.getElem?_eq_getElem hlt]
      have htake : (String.utf8EncodeChar c ++ encode cs).take n =
          (String.utf8EncodeChar c).take n := List.take_append_of_le_length (Nat.le_of_lt hlt)
      have hfirst : (∀ x ∈ (String.utf8EncodeChar c ++ encode cs)[n]?, x.IsUTF8FirstByte) ↔
          n = 0 := by
        simp only [hget, Option.mem_some_iff, forall_eq',
          UInt8.isUTF8FirstByte_getElem_utf8EncodeChar]
      rw [hfirst, htake]
      by_cases hn : n = 0
      · rw [hn, List.take_zero]
        exact iff_of_true valid_nil rfl
      · exact iff_of_false (not_valid_take hn hlt) hn
    · -- the cut is behind the first character
      obtain ⟨k, rfl⟩ := Nat.exists_eq_add_of_le (Nat.not_lt.mp hlt)
      rw [List.take_length_add_append, valid_append_iff, ih,
        List.getElem?_append_right (Nat.le_add_right _ _), Nat.add_sub_cancel_left]

/-! ### ASCII -/

theorem isUTF8FirstByte_of_lt {x : UInt8} (h : x < 0x80) : x.IsUTF8FirstByte := by
  have hall : ∀ n < 128, (UInt8.ofNat n).IsUTF8FirstByte := by decide
  have hx := hall x.toNat h
  rwa [UInt8.ofNat_toNat] at hx

theorem utf8EncodeChar_ascii {x : UInt8} (h : x < 0x80) :
    String.utf8EncodeChar (Char.ofNat x.toNat) = [x] := by
  have hall : ∀ n < 128, String.utf8EncodeChar (Char.ofNat n) = [UInt8.ofNat n] := by decide
  have hx := hall x.toNat h
  rwa [UInt8.ofNat_toNat] at hx

/-- A character is one ASCII byte or has none. So ASCII bytes in a text are characters, wherever
they stand. -/
theorem ascii_or (c : Char) : (∃ x < 0x80, String.utf8EncodeChar c = [x]) ∨
    ∀ x ∈ String.utf8EncodeChar c, 0x80 ≤ x := by
  refine or_iff_not_imp_right.mpr fun h => ?_
  push Not at h
  obtain ⟨x, hx, hnot⟩ := h
  have hlt := UInt8.not_le.mp hnot
  obtain ⟨i, hi, rfl⟩ := List.getElem_of_mem hx
  obtain rfl := UInt8.isUTF8FirstByte_getElem_utf8EncodeChar.mp (isUTF8FirstByte_of_lt hlt)
  -- the byte is a character of its own
  obtain ⟨x, b, hcons⟩ := List.exists_cons_of_ne_nil (@String.utf8EncodeChar_ne_nil c)
  simp only [hcons, List.getElem_cons_zero] at hlt
  have hsame : String.utf8EncodeChar c ++ [] =
      String.utf8EncodeChar (Char.ofNat x.toNat) ++ b := by
    rw [utf8EncodeChar_ascii hlt, List.append_nil, hcons, List.singleton_append]
  obtain rfl := char_unique hsame
  exact ⟨x, hlt, utf8EncodeChar_ascii hlt⟩

theorem valid_cons_iff {x : UInt8} (h : x < 0x80) : Valid (x :: b) ↔ Valid b := by
  have hx := @valid_append_iff b (Char.ofNat x.toNat)
  rwa [utf8EncodeChar_ascii h, List.singleton_append] at hx

variable {u v : List UInt8}

theorem valid_ascii_append_iff (h : ∀ x ∈ u, x < 0x80) : Valid (u ++ b) ↔ Valid b := by
  induction u with
  | nil => rfl
  | cons x u ih =>
    obtain ⟨hx, hu⟩ := List.forall_mem_cons.mp h
    rw [List.cons_append, valid_cons_iff hx, ih hu]

theorem valid_append_ascii_iff (h : ∀ x ∈ v, x < 0x80) : Valid (b ++ v) ↔ Valid b := by
  constructor
  · intro hb
    have htake := (valid_take_iff hb b.length).mpr ?_
    · rwa [List.take_left] at htake
    · intro x hx
      rw [List.getElem?_append_right (Nat.le_refl _), Nat.sub_self] at hx
      exact isUTF8FirstByte_of_lt (h x (List.mem_of_getElem? hx))
  · intro hb
    have hv := (valid_ascii_append_iff (b := []) h).mpr valid_nil
    rw [List.append_nil] at hv
    exact hb.append hv

/-- **ASCII bytes** at the ends may be taken away. A text stays valid, and what was no text does not
become one. -/
theorem valid_between_ascii_iff (hu : ∀ x ∈ u, x < 0x80) (hv : ∀ x ∈ v, x < 0x80) :
    Valid (u ++ b ++ v) ↔ Valid b := by
  rw [valid_append_ascii_iff hv, valid_ascii_append_iff hu]

end Utf8

end TarkovVoice

import Mathlib.Data.Nat.Digits.Defs
import Mathlib.Data.String.Basic
import Mathlib.Tactic.Common

/-!
# Byte strings

A `std::string`, a `std::vector<std::uint8_t>` and the text of a message are lists of bytes. Go
strings and string literals enter through `utf8`.

## Main definitions

* `utf8` — the bytes of a string
* `decimal` — a number as text

## Main results

* `decimal_induction` — the digits of a number, one at a time
-/

namespace TarkovVoice

namespace Net

abbrev Bytes := List UInt8

/-- The UTF-8 bytes of a string. -/
def utf8 (s : String) : Bytes := s.toList.flatMap String.utf8EncodeChar

theorem utf8_append (s t : String) : utf8 (s ++ t) = utf8 s ++ utf8 t := by
  rw [utf8, String.toList_append, List.flatMap_append]
  rfl

theorem utf8_injective {s t : String} (h : utf8 s = utf8 t) : s = t := by
  have hbytes : ∀ u : String, u.toByteArray = (utf8 u).toByteArray := by
    intro u
    calc u.toByteArray = (String.ofList u.toList).toByteArray := by rw [String.ofList_toList]
      _ = (utf8 u).toByteArray := rfl
  refine String.toByteArray_inj.mp ?_
  rw [hbytes, hbytes, h]

/-- The double quote. -/
def quote : UInt8 := 34

def backslash : UInt8 := 92

def colon : UInt8 := 58

def comma : UInt8 := 44

/-- The bracket that opens an object. -/
def openBrace : UInt8 := 123

def closeBrace : UInt8 := 125

/-- The bracket that opens an array. -/
def openBracket : UInt8 := 91

def closeBracket : UInt8 := 93

/-- `std::isspace` in the C locale: the blank, and the five controls from the tab to the carriage
return. -/
def isspace (c : UInt8) : Bool := c == 32 || (9 ≤ c && c ≤ 13)

/-- `std::isdigit`. -/
def isdigit (c : UInt8) : Bool := 48 ≤ c && c ≤ 57

/-- `std::isalpha`. -/
def isalpha (c : UInt8) : Bool := (65 ≤ c && c ≤ 90) || (97 ≤ c && c ≤ 122)

/-- `std::tolower`. -/
def tolower (c : UInt8) : UInt8 := if 65 ≤ c ∧ c ≤ 90 then c + 32 else c

/-- A decidable property of bytes is checked on all 256 of them. This is for facts about single
bytes that no arithmetic shortens. -/
theorem forall_byte {P : UInt8 → Prop} (h : ∀ n < 256, P (UInt8.ofNat n)) (c : UInt8) : P c := by
  have hc := h c.toNat c.toNat_lt
  rwa [UInt8.ofNat_toNat] at hc

/-! ### Numbers as text -/

/-- The byte of a decimal digit. -/
def digit (d : ℕ) : UInt8 := 48 + UInt8.ofNat d

/-- A number in base ten, without leading zeros. -/
def decimal (n : ℕ) : Bytes := utf8 (toString n)

theorem utf8_digitChar : ∀ d < 10, String.utf8EncodeChar d.digitChar = [digit d] := by decide

theorem decimal_eq (n : ℕ) :
    decimal n = (Nat.toDigits 10 n).flatMap String.utf8EncodeChar := by
  rw [decimal, utf8]
  congr 1
  exact Nat.toList_repr

theorem decimal_of_lt {n : ℕ} (h : n < 10) : decimal n = [digit n] := by
  rw [decimal_eq, Nat.toDigits_of_lt_base h, List.flatMap_singleton, utf8_digitChar n h]

theorem decimal_append {n d : ℕ} (hn : 0 < n) (hd : d < 10) :
    decimal (10 * n + d) = decimal n ++ [digit d] := by
  rw [decimal_eq, ← Nat.toDigits_append_toDigits (by omega) hn hd, List.flatMap_append,
    ← decimal_eq, ← decimal_eq, decimal_of_lt hd]

/-- **The digits of a number, one at a time.** A number of one digit is that digit, and another one
is a shorter number that is not 0, with one digit behind it. -/
theorem decimal_induction {P : ℕ → Bytes → Prop} (one : ∀ d < 10, P d [digit d])
    (more : ∀ n d u, 0 < n → d < 10 → P n u → P (10 * n + d) (u ++ [digit d])) (n : ℕ) :
    P n (decimal n) := by
  induction n using Nat.strong_induction_on with
  | _ n ih =>
    by_cases hn : n < 10
    · rw [decimal_of_lt hn]
      exact one n hn
    · have hpos : 0 < n / 10 := by omega
      have hmod : n % 10 < 10 := Nat.mod_lt _ (by omega)
      have hsplit : n = 10 * (n / 10) + n % 10 := (Nat.div_add_mod n 10).symm
      rw [hsplit, decimal_append hpos hmod]
      exact more _ _ _ hpos hmod (ih _ (by omega))

theorem digit_isdigit : ∀ d < 10, isdigit (digit d) = true := by decide

theorem decimal_isdigit (n : ℕ) : ∀ c ∈ decimal n, isdigit c = true := by
  refine decimal_induction (P := fun _ u => ∀ c ∈ u, isdigit c = true) ?_ ?_ n
  · intro d hd c hc
    rw [List.mem_singleton.mp hc]
    exact digit_isdigit d hd
  · intro n d u _ hd hu c hc
    rcases List.mem_append.mp hc with hc | hc
    · exact hu c hc
    · rw [List.mem_singleton.mp hc]
      exact digit_isdigit d hd

theorem exists_decimal_cons (n : ℕ) : ∃ d u, decimal n = d :: u ∧ isdigit d = true := by
  have hne : decimal n ≠ [] :=
    decimal_induction (P := fun _ u => u ≠ []) (fun _ _ => List.cons_ne_nil _ _)
      (fun _ _ _ _ _ _ => by simp) n
  obtain ⟨d, u, hdu⟩ := List.exists_cons_of_ne_nil hne
  exact ⟨d, u, hdu, decimal_isdigit n d (hdu ▸ List.mem_cons_self ..)⟩

end Net

end TarkovVoice

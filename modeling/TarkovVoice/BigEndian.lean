import Mathlib.Algebra.Order.Ring.Nat
import Mathlib.Data.List.Basic
import Mathlib.Data.Nat.ModEq
import Mathlib.Tactic.Ring

/-!
# Big-endian numbers and the slices of a byte string

A natural number as a fixed number of bytes, most significant first, and back. The two directions
are inverse on numbers that fit and on byte strings of the width.

A parser that reads fields at offsets sees a byte string through its slices. `slice l i n` is the
`n` bytes from `i` on, and the lemmas here say how slices of concatenations and of prefixes look.

## Main definitions

* `BigEndian.bytes`, `BigEndian.value`, `slice`

## Main results

* `BigEndian.value_bytes`, `BigEndian.bytes_value`
* `slice_append_slice`, `slice_of_append`, `slice_of_prefix`
-/

namespace TarkovVoice

namespace BigEndian

/-- The low `w` bytes of `v`, most significant first. What does not fit is cut off at the
high end. -/
def bytes : ℕ → ℕ → List UInt8
  | 0, _ => []
  | w + 1, v => UInt8.ofNat (v / 256 ^ w) :: bytes w v

/-- The number a byte string spells, the first byte being the most significant. Zeros in front do
not count. -/
def value : List UInt8 → ℕ
  | [] => 0
  | b :: l => b.toNat * 256 ^ l.length + value l

@[simp] theorem length_bytes (w v : ℕ) : (bytes w v).length = w := by
  induction w with
  | zero => rfl
  | succ w ih => rw [bytes, List.length_cons, ih]

theorem value_lt (l : List UInt8) : value l < 256 ^ l.length := by
  induction l with
  | nil => simp [value]
  | cons b l ih =>
    have hb : b.toNat + 1 ≤ 256 := b.toNat_lt
    calc b.toNat * 256 ^ l.length + value l
        < b.toNat * 256 ^ l.length + 256 ^ l.length := by omega
      _ = (b.toNat + 1) * 256 ^ l.length := by ring
      _ ≤ 256 * 256 ^ l.length := Nat.mul_le_mul_right _ hb
      _ = 256 ^ (l.length + 1) := by ring

theorem value_bytes (w v : ℕ) : value (bytes w v) = v % 256 ^ w := by
  induction w with
  | zero => simp [bytes, value, Nat.mod_one]
  | succ w ih =>
    have hb : (UInt8.ofNat (v / 256 ^ w)).toNat = v / 256 ^ w % 256 := UInt8.toNat_ofNat'
    rw [bytes, value, ih, length_bytes, hb, Nat.mod_pow_succ]
    ring

theorem value_bytes_of_lt {w v : ℕ} (h : v < 256 ^ w) : value (bytes w v) = v := by
  rw [value_bytes, Nat.mod_eq_of_lt h]

/-- What lies above the low `w` bytes does not matter: a cast to `w` bytes in front changes
nothing. -/
theorem bytes_add_mul (w v k : ℕ) : bytes w (k * 256 ^ w + v) = bytes w v := by
  induction w generalizing k with
  | zero => rfl
  | succ w ih =>
    have hsplit : k * 256 ^ (w + 1) + v = (k * 256) * 256 ^ w + v := by ring
    have hdiv : ((k * 256) * 256 ^ w + v) / 256 ^ w = v / 256 ^ w + k * 256 := by
      rw [Nat.add_comm, Nat.add_mul_div_right _ _ (Nat.pow_pos (by omega))]
    have hbyte : UInt8.ofNat (v / 256 ^ w + k * 256) = UInt8.ofNat (v / 256 ^ w) := by
      refine UInt8.toNat_inj.mp ?_
      rw [UInt8.toNat_ofNat', UInt8.toNat_ofNat']
      omega
    rw [hsplit, bytes, ih, hdiv, hbyte, ← bytes]

theorem bytes_value (l : List UInt8) : bytes l.length (value l) = l := by
  induction l with
  | nil => rfl
  | cons b l ih =>
    have hlt := value_lt l
    have hdiv : (b.toNat * 256 ^ l.length + value l) / 256 ^ l.length = b.toNat := by
      rw [Nat.add_comm, Nat.add_mul_div_right _ _ (Nat.pow_pos (by omega)), Nat.div_eq_of_lt hlt,
        Nat.zero_add]
    rw [List.length_cons, bytes, value, hdiv, bytes_add_mul, ih, UInt8.ofNat_toNat]

theorem bytes_value_of_length {l : List UInt8} {w : ℕ} (h : l.length = w) :
    bytes w (value l) = l := by
  rw [← h, bytes_value]

end BigEndian

/-! ### Slices -/

section Slice

variable {α : Type*}

/-- The `n` entries of `l` from `i` on. Where the list ends before, there are fewer. -/
def slice (l : List α) (i n : ℕ) : List α := (l.drop i).take n

theorem length_slice {l : List α} {i n : ℕ} (h : i + n ≤ l.length) : (slice l i n).length = n := by
  rw [slice, List.length_take, List.length_drop]
  omega

theorem slice_zero (l : List α) (n : ℕ) : slice l 0 n = l.take n := rfl

theorem slice_succ {l : List α} {i n : ℕ} (h : i < l.length) :
    slice l i (n + 1) = l[i] :: slice l (i + 1) n := by
  rw [slice, List.drop_eq_getElem_cons h, List.take_succ_cons, slice]

/-- Neighbouring slices join. A parser that reads field by field has read, in all, what stood
there. -/
theorem slice_append_slice {l : List α} {i m j n : ℕ} (h : i + m = j) :
    slice l i m ++ slice l j n = slice l i (m + n) := by
  rw [slice, slice, slice, ← h, ← List.drop_drop, List.take_add]

theorem slice_append_slice_append {l t : List α} {i m j n : ℕ} (h : i + m = j) :
    slice l i m ++ (slice l j n ++ t) = slice l i (m + n) ++ t := by
  rw [← List.append_assoc, slice_append_slice h]

/-- The slice of a concatenation that is one of its parts. -/
theorem slice_of_append {a b c : List α} {i n : ℕ} (hi : a.length = i) (hn : b.length = n) :
    slice (a ++ (b ++ c)) i n = b := by
  rw [slice, ← hi, List.drop_left, ← hn, List.take_left]

/-- A prefix has the same slices as far as it goes. What follows in memory does not matter to a
reader that stays inside. -/
theorem slice_of_prefix {l l' : List α} (h : l <+: l') {i n : ℕ} (hin : i + n ≤ l.length) :
    slice l i n = slice l' i n := by
  obtain ⟨t, rfl⟩ := h
  rw [slice, slice, List.drop_append_of_le_length (by omega),
    List.take_append_of_le_length (by rw [List.length_drop]; omega)]

end Slice

end TarkovVoice

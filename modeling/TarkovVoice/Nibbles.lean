import Mathlib.Data.List.Basic

/-!
# Half bytes, two to a byte

A coder that writes four bits at a time puts the first half byte into the low bits and the second
into the high bits of a byte; when one is left over at the end, its byte has zeros above it. A
reader takes each byte apart again, low bits first.

Reading what was packed, in a loop that takes each half byte in turn, is a loop over the half bytes
that went in, and possibly one zero more.

## Main definitions

* `Nibbles.pack`, `Nibbles.low`, `Nibbles.high`

## Main results

* `Nibbles.foldl_pack` — loops over the bytes as loops over the half bytes
-/

namespace TarkovVoice

namespace Nibbles

/-- Half bytes, two to a byte, low bits first. A last one that is left over has a byte of its own,
with zeros above it. -/
def pack : List UInt8 → List UInt8
  | [] => []
  | [a] => [a]
  | a :: b :: l => (a ||| b <<< 4) :: pack l

/-- The low four bits. -/
def low (byte : UInt8) : UInt8 := byte &&& 0x0f

/-- The high four bits. -/
def high (byte : UInt8) : UInt8 := (byte >>> 4) &&& 0x0f

/-- What is read after the last half byte when their number is odd. A reader cannot tell it from a
half byte that was written; it has to know the number. -/
def padding (l : List UInt8) : List UInt8 := if l.length % 2 = 1 then [0] else []

theorem of_lt_sixteen {P : UInt8 → Prop} (h : ∀ n < 16, P (UInt8.ofNat n)) {a : UInt8}
    (ha : a < 16) : P a := by
  have hn := h a.toNat (UInt8.lt_iff_toNat_lt.mp ha)
  rwa [UInt8.ofNat_toNat] at hn

theorem low_pair {a b : UInt8} (ha : a < 16) (hb : b < 16) : low (a ||| b <<< 4) = a := by
  revert b
  refine of_lt_sixteen (P := fun a => ∀ {b : UInt8}, b < 16 → low (a ||| b <<< 4) = a) ?_ ha
  intro n hn b hb
  refine of_lt_sixteen (P := fun b => low (UInt8.ofNat n ||| b <<< 4) = UInt8.ofNat n) ?_ hb
  revert n
  decide

theorem high_pair {a b : UInt8} (ha : a < 16) (hb : b < 16) : high (a ||| b <<< 4) = b := by
  revert b
  refine of_lt_sixteen (P := fun a => ∀ {b : UInt8}, b < 16 → high (a ||| b <<< 4) = b) ?_ ha
  intro n hn b hb
  refine of_lt_sixteen (P := fun b => high (UInt8.ofNat n ||| b <<< 4) = b) ?_ hb
  revert n
  decide

theorem low_single {a : UInt8} (ha : a < 16) : low a = a :=
  of_lt_sixteen (P := fun a => low a = a) (by decide) ha

theorem high_single {a : UInt8} (ha : a < 16) : high a = 0 :=
  of_lt_sixteen (P := fun a => high a = 0) (by decide) ha

/-- **Loops over the bytes are loops over the half bytes.** A loop that takes the low half of
each byte and then the high one does what a loop over the half bytes would, with the padding
behind them. -/
theorem foldl_pack {σ : Type*} (f : σ → UInt8 → σ) (l : List UInt8) :
    (∀ a ∈ l, a < 16) → ∀ s, (pack l).foldl (fun s byte => f (f s (low byte)) (high byte)) s =
      (l ++ padding l).foldl f s := by
  induction l using pack.induct with
  | case1 =>
    intro _ s
    rfl
  | case2 a =>
    intro hl s
    have ha := hl a (List.mem_singleton_self a)
    rw [pack, List.foldl_cons, List.foldl_nil, low_single ha, high_single ha]
    rfl
  | case3 a b l ih =>
    intro hl s
    have ha := hl a (List.mem_cons_self ..)
    have hb := hl b (List.mem_cons_of_mem _ (List.mem_cons_self ..))
    have hpad : padding (a :: b :: l) = padding l := by
      rw [padding, padding, List.length_cons, List.length_cons, Nat.add_assoc,
        Nat.add_mod_right]
    rw [pack, List.foldl_cons, low_pair ha hb, high_pair ha hb, hpad,
      ih fun c hc => hl c (List.mem_cons_of_mem _ (List.mem_cons_of_mem _ hc))]
    rfl

end Nibbles

end TarkovVoice

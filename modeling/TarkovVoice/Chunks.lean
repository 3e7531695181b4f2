import Mathlib.Data.List.Basic
import Mathlib.Order.Nat
import Mathlib.Tactic.Common

/-!
# Cutting a stream into chunks

A stream that arrives in pieces of any length is cut into chunks of `n` entries; what is left over
waits for more. What has been cut does not depend on the pieces: it is what would be cut from the
whole stream at once.

## Main definitions

* `Chunks.complete`, `Chunks.rest`

## Main results

* `Chunks.flatten_complete` — cutting loses nothing
* `Chunks.complete_append`, `Chunks.rest_append` — one more piece
-/

namespace TarkovVoice

namespace Chunks

variable {γ : Type*} {n : ℕ}

/-- The complete chunks of a list: the pieces of `n` entries from the front, as many as
there are. -/
def complete (n : ℕ) (l : List γ) : List (List γ) :=
  (List.range (l.length / n)).map fun i => (l.drop (n * i)).take n

/-- What is left over behind the complete chunks. It has fewer than `n` entries, and waits
for more. -/
def rest (n : ℕ) (l : List γ) : List γ := l.drop (n * (l.length / n))

@[simp] theorem length_complete (l : List γ) : (complete n l).length = l.length / n := by
  rw [complete, List.length_map, List.length_range]

@[simp] theorem length_rest (l : List γ) : (rest n l).length = l.length % n := by
  rw [rest, List.length_drop]
  exact (Nat.mod_eq_sub_mul_div).symm

theorem length_of_mem_complete {l c : List γ} (h : c ∈ complete n l) : c.length = n := by
  obtain ⟨i, hi, rfl⟩ := List.mem_map.mp h
  have hle : n * (i + 1) ≤ l.length :=
    (Nat.mul_le_mul_left n (List.mem_range.mp hi)).trans (Nat.mul_div_le _ _)
  rw [List.length_take, List.length_drop]
  rw [Nat.mul_succ] at hle
  omega

theorem complete_of_lt {l : List γ} (h : l.length < n) : complete n l = [] := by
  rw [complete, Nat.div_eq_of_lt h]
  rfl

theorem rest_of_lt {l : List γ} (h : l.length < n) : rest n l = l := by
  rw [rest, Nat.div_eq_of_lt h]
  rfl

/-- How many chunks there are after one more piece. -/
theorem length_append_div (hn : 0 < n) (l l' : List γ) :
    (l ++ l').length / n = l.length / n + (rest n l ++ l').length / n := by
  rw [List.length_append, List.length_append, length_rest, ← Nat.mul_add_div hn,
    ← Nat.add_assoc, Nat.div_add_mod]

/-- The complete chunks before a position do not change when the list goes on. Those that follow are
cut from what was left over and the new piece. -/
theorem complete_append (hn : 0 < n) (l l' : List γ) :
    complete n (l ++ l') = complete n l ++ complete n (rest n l ++ l') := by
  have hdrop : ∀ i, (l ++ l').drop (n * (l.length / n + i)) = (rest n l ++ l').drop (n * i) := by
    intro i
    rw [Nat.mul_add, ← List.drop_drop, List.drop_append_of_le_length (Nat.mul_div_le _ _), rest]
  rw [complete, length_append_div hn, List.range_add, List.map_append, List.map_map]
  refine congr (congrArg _ (List.map_congr_left fun i hi => ?_))
    (List.map_congr_left fun i _ => ?_)
  · have hle : n * (i + 1) ≤ l.length :=
      (Nat.mul_le_mul_left n (List.mem_range.mp hi)).trans (Nat.mul_div_le _ _)
    rw [Nat.mul_succ] at hle
    rw [List.drop_append_of_le_length (by omega),
      List.take_append_of_le_length (by rw [List.length_drop]; omega)]
  · exact congrArg (List.take n) (hdrop i)

theorem rest_append (hn : 0 < n) (l l' : List γ) :
    rest n (l ++ l') = rest n (rest n l ++ l') := by
  rw [rest, length_append_div hn, Nat.mul_add, ← List.drop_drop,
    List.drop_append_of_le_length (Nat.mul_div_le _ _)]
  rfl

/-- The first chunk, and the others. -/
theorem complete_of_le (hn : 0 < n) {l : List γ} (h : n ≤ l.length) :
    complete n l = l.take n :: complete n (l.drop n) ∧ rest n l = rest n (l.drop n) := by
  have htake : (l.take n).length = n := by
    rw [List.length_take, Nat.min_eq_left h]
  have hone : complete n (l.take n) = [l.take n] := by
    rw [complete, htake, Nat.div_self hn]
    simp [List.take_take]
  have hnone : rest n (l.take n) = [] := by
    rw [← List.length_eq_zero_iff, length_rest, htake, Nat.mod_self]
  have hsplit := List.take_append_drop n l
  constructor
  · rw [← hsplit, complete_append hn, hone, hnone, hsplit]
    rfl
  · rw [← hsplit, rest_append hn, hnone, hsplit]
    rfl

/-- **Cutting loses nothing.** The chunks one after the other, and what is left over behind them,
are the list. -/
theorem flatten_complete (hn : 0 < n) (l : List γ) : (complete n l).flatten ++ rest n l = l := by
  induction hlen : l.length using Nat.strong_induction_on generalizing l with
  | _ k ih =>
    rcases Nat.lt_or_ge l.length n with h | h
    · rw [complete_of_lt h, rest_of_lt h]
      rfl
    · obtain ⟨hcomplete, hrest⟩ := complete_of_le hn h
      have hshorter : (l.drop n).length < k := by
        rw [List.length_drop]
        omega
      rw [hcomplete, hrest, List.flatten_cons, List.append_assoc, ih _ hshorter _ rfl,
        List.take_append_drop]

end Chunks

end TarkovVoice

import Mathlib.Data.List.Induction
import Mathlib.Order.Nat

/-!
# A gate that stays open a little longer

A gate opens when its input is hot and stays open for some ticks afterwards, so that short pauses
do not close it. A counter does this: it is set when the input is hot and counts down otherwise. At
some ticks the input is off, which closes the gate at once.

## Main definitions

* `Hangover.Tick`, `Hangover.count`

## Main results

* `Hangover.lt_count_iff`, `Hangover.count_pos_iff` — the counter as a window over the ticks
-/

namespace TarkovVoice

namespace Hangover

/-- What the input is at a tick: switched off, or on and not of interest, or on and of interest. -/
inductive Tick
  | off
  | cold
  | hot
  deriving DecidableEq

/-- One tick of a counter that is set to `n`. It counts down while the input is cold, and is cleared
when the input is switched off. -/
def step (n count : ℕ) : Tick → ℕ
  | .off => 0
  | .cold => count - 1
  | .hot => n

/-- The counter after some ticks, which starts at 0. The gate is open while it is not 0. -/
def count (n : ℕ) (l : List Tick) : ℕ := l.foldl (step n) 0

variable {n : ℕ} {l : List Tick}

theorem count_concat (t : Tick) : count n (l ++ [t]) = step n (count n l) t := by
  rw [count, List.foldl_append]
  rfl

/-- The last entry of a list and the others. -/
theorem getElem?_concat_eq_some {t u : Tick} {j : ℕ} :
    (l ++ [t])[j]? = some u ↔ l[j]? = some u ∨ (j = l.length ∧ t = u) := by
  rcases lt_trichotomy j l.length with hj | rfl | hj
  · rw [List.getElem?_append_left hj]
    simp [hj.ne]
  · simp
  · rw [List.getElem?_eq_none (by simp; omega), List.getElem?_eq_none hj.le]
    simp [hj.ne']

theorem lt_count_iff {m : ℕ} : m < count n l ↔
    ∃ j, l[j]? = some .hot ∧ l.length + m ≤ j + n ∧ ∀ i, j ≤ i → l[i]? ≠ some .off := by
  induction l using List.reverseRecOn generalizing m with
  | nil => simp [count]
  | append_singleton l t ih =>
    rw [count_concat]
    simp only [getElem?_concat_eq_some, List.length_append, List.length_singleton, not_or, ne_eq]
    cases t with
    | off =>
      refine iff_of_false (Nat.not_lt_zero m) ?_
      rintro ⟨j, hj | ⟨-, hj⟩, -, hoff⟩
      · exact (hoff _ (List.getElem?_eq_some_iff.mp hj).1.le).2 ⟨rfl, rfl⟩
      · exact absurd hj (by decide)
    | hot =>
      constructor
      · intro hm
        have hm : m < n := hm
        refine ⟨l.length, Or.inr ⟨rfl, rfl⟩, by omega, fun i hi => ⟨?_, fun h => by cases h.2⟩⟩
        rw [List.getElem?_eq_none hi]
        exact (Option.some_ne_none _).symm
      · rintro ⟨j, hj, hle, -⟩
        have hlt : j ≤ l.length := by
          rcases hj with hj | ⟨rfl, -⟩
          · exact (List.getElem?_eq_some_iff.mp hj).1.le
          · exact le_rfl
        show m < n
        omega
    | cold =>
      have hcount : m < step n (count n l) .cold ↔ m + 1 < count n l := by
        rw [step]
        omega
      rw [hcount, ih]
      refine exists_congr fun j => ?_
      simp only [reduceCtorEq, and_false, or_false, not_false_eq_true, and_true, ne_eq]
      rw [Nat.add_right_comm l.length 1 m, Nat.add_assoc l.length m 1]

/-- **The gate is open** when the input was hot at one of the last `n` ticks, and has not been off
since. -/
theorem count_pos_iff : 0 < count n l ↔
    ∃ j, l[j]? = some .hot ∧ l.length ≤ j + n ∧ ∀ i, j ≤ i → l[i]? ≠ some .off := lt_count_iff

end Hangover

end TarkovVoice

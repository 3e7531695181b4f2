import Mathlib.Algebra.Ring.Nat
import Mathlib.Data.List.Count
import Mathlib.Tactic.Common

/-!
# Texts with a separator between them

Parts are put one behind the other, with a separator between each two. If the separator is in none
of the parts, the text tells them apart from all other parts of the same number.

## Main results

* `Separated.count_intercalate` — how many separators there are
* `Separated.intercalate_injective`
-/

namespace TarkovVoice

namespace Separated

variable {α : Type*} [DecidableEq α] {sep : α} {l l' : List (List α)}

/-- One separator for each part but the first, and those in the parts. So the number of separators
tells the number of parts only where no part has one. -/
theorem count_intercalate (sep : α) (p : List α) (l : List (List α)) :
    ([sep].intercalate (p :: l)).count sep = l.length + ((p :: l).map (List.count sep)).sum := by
  induction l generalizing p with
  | nil => simp
  | cons q l ih =>
    rw [List.intercalate_cons_cons, List.count_append, List.count_append, List.count_singleton_self,
      ih]
    simp only [List.map_cons, List.sum_cons, List.length_cons]
    omega

theorem forall_notMem_iff : (∀ p ∈ l, sep ∉ p) ↔ (l.map (List.count sep)).sum = 0 := by
  rw [List.sum_eq_zero_iff_forall_eq_nat, List.forall_mem_map]
  exact forall₂_congr fun p _ => List.count_eq_zero.symm

/-- **Parts without the separator** are told apart. Only one of the two lists needs to be free of
it: the other has as many separators in all, so none is left for its parts. -/
theorem intercalate_injective (hlength : l'.length = l.length) (h : ∀ p ∈ l, sep ∉ p)
    (heq : [sep].intercalate l' = [sep].intercalate l) : l' = l := by
  cases l with
  | nil => exact List.length_eq_zero_iff.mp hlength
  | cons p l =>
    obtain ⟨p', l', rfl⟩ := List.exists_cons_of_length_eq_add_one hlength
    -- no separator is left for the other parts
    have hcount := congrArg (List.count sep) heq
    rw [count_intercalate, count_intercalate, forall_notMem_iff.mp h] at hcount
    rw [List.length_cons, List.length_cons] at hlength
    have h' : ∀ q ∈ p' :: l', sep ∉ q := forall_notMem_iff.mpr (by omega)
    rw [← List.splitOn_intercalate sep h' (List.cons_ne_nil _ _), heq,
      List.splitOn_intercalate sep h (List.cons_ne_nil _ _)]

end Separated

end TarkovVoice

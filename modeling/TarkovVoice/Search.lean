import Mathlib.Data.List.Basic
import Mathlib.Tactic.Common

/-!
# Searching a list for a word

The first place where one list occurs inside another. A position in a text is represented by what
the text holds from there on, so a search returns a suffix.

A text is usually searched piece by piece. `Skips needle u text` says that no occurrence begins
inside `u` when `text` follows it, and is what lets a search pass over `u`.

## Main definitions

* `Search.find` — the text from the first occurrence of a word on
* `Search.Skips` — no occurrence begins inside a piece

## Main results

* `Search.find_eq_some_iff` — what `find` returns, without its recursion
* `Search.find_append_of_skips` — searching on behind a piece
* `Search.find_singleton` — searching for one letter
-/

namespace TarkovVoice

namespace Search

variable {α : Type*} {needle u v text : List α}

/-- No occurrence of `needle` in `u ++ text` begins inside `u`. One may begin in `u` and end in
`text`, so what follows `u` matters. -/
def Skips (needle : List α) : List α → List α → Prop
  | [], _ => True
  | a :: u, text => ¬ needle <+: a :: (u ++ text) ∧ Skips needle u text

/-- A letter that is not the first of the word cannot begin an occurrence. What follows `u` does not
matter then. -/
theorem skips_of_head_notMem {b : α} (h : b ∉ u) : Skips (b :: needle) u text := by
  induction u with
  | nil => trivial
  | cons a u ih =>
    obtain ⟨ha, hu⟩ := not_or.mp (mt List.mem_cons.mpr h)
    refine ⟨fun hpre => ha ?_, ih hu⟩
    exact (List.cons_prefix_cons.mp hpre).1

variable [DecidableEq α]

/-- The text from the first occurrence of `needle` on, `needle` itself included. Nothing if there is
none; the empty word is found at once. -/
def find (needle : List α) : List α → Option (List α)
  | [] => if needle <+: [] then some [] else none
  | a :: text => if needle <+: a :: text then some (a :: text) else find needle text

theorem find_of_prefix (h : needle <+: text) : find needle text = some text := by
  cases text with
  | nil => exact if_pos h
  | cons a text => exact if_pos h

theorem find_append_of_skips (h : Skips needle u text) :
    find needle (u ++ text) = find needle text := by
  induction u with
  | nil => rfl
  | cons a u ih =>
    obtain ⟨ha, hu⟩ := h
    rw [List.cons_append, find, if_neg ha, ih hu]

/-- **The first occurrence**: the needle is there, and nowhere before. This determines the place, so
a text is searched by naming what stands in front. -/
theorem find_eq_some_iff : find needle text = some v ↔
    ∃ u, text = u ++ v ∧ needle <+: v ∧ Skips needle u v := by
  constructor
  · intro h
    induction text with
    | nil =>
      rw [find] at h
      split at h
      · rename_i hn
        cases h
        exact ⟨[], rfl, hn, trivial⟩
      · cases h
    | cons a text ih =>
      rw [find] at h
      split at h
      · rename_i hn
        cases h
        exact ⟨[], rfl, hn, trivial⟩
      · rename_i hn
        obtain ⟨u, rfl, hv, hu⟩ := ih h
        exact ⟨a :: u, rfl, hv, hn, hu⟩
  · rintro ⟨u, rfl, hv, hu⟩
    rw [find_append_of_skips hu, find_of_prefix hv]

/-- **Searching for one letter.** -/
theorem find_singleton {b : α} (h : b ∉ u) : find [b] (u ++ b :: text) = some (b :: text) := by
  rw [find_append_of_skips (skips_of_head_notMem h)]
  exact find_of_prefix ⟨text, rfl⟩

end Search

end TarkovVoice

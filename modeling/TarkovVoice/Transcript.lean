import Mathlib.Data.List.Induction
import Mathlib.Tactic.Common

/-!
# Transcripts

A list of entries each of which has to be justified by those before it: a conversation in which
everything that is said follows from what was said earlier.

## Main definitions

* `Justified` — every entry satisfies a condition on what comes before it

## Main results

* `justified_append` — a transcript and its continuation
* `Justified.foldl` — an invariant of a fold over a transcript
-/

namespace TarkovVoice

variable {α : Type*}

/-- Every entry of the list satisfies `P` with what comes before it, the entries before in their
order. -/
def Justified (P : List α → α → Prop) (l : List α) : Prop :=
  ∀ before a after, l = before ++ a :: after → P before a

section Justified

variable {P Q : List α → α → Prop} {l l' : List α}

theorem justified_nil : Justified P [] := by
  intro before a after h
  exact absurd h.symm (by simp)

/-- **Continuing a transcript.** The continuation is justified by what came before it as well. -/
theorem justified_append :
    Justified P (l ++ l') ↔ Justified P l ∧ Justified (fun before => P (l ++ before)) l' := by
  constructor
  · intro h
    refine ⟨fun before a after hl => ?_, fun before a after hl => ?_⟩
    · exact h before a (after ++ l') (by rw [hl]; simp)
    · exact h (l ++ before) a after (by rw [hl]; simp)
  · rintro ⟨h, h'⟩ before a after hl
    rcases List.append_eq_append_iff.mp hl with ⟨m, hbefore, hm⟩ | ⟨m, hm, hafter⟩
    · rw [hbefore]
      exact h' m a after hm
    · cases m with
      | nil =>
        rw [List.append_nil] at hm
        have hfirst : P (l ++ []) a := h' [] a after hafter.symm
        rwa [List.append_nil, hm] at hfirst
      | cons b m =>
        rw [List.cons_append] at hafter
        obtain ⟨rfl, -⟩ := List.cons_eq_cons.mp hafter
        exact h before a m hm

theorem justified_singleton {a : α} : Justified P [a] ↔ P [] a := by
  constructor
  · intro h
    exact h [] a [] rfl
  · intro h before b after hl
    cases before with
    | nil =>
      obtain ⟨rfl, -⟩ := List.cons_eq_cons.mp hl
      exact h
    | cons c before => exact absurd (List.cons_eq_cons.mp hl).2 (by simp)

theorem Justified.prefix (h : Justified P (l ++ l')) : Justified P l :=
  (justified_append.mp h).1

/-- Entries that are justified by whatever comes before them. -/
theorem justified_of_forall (h : ∀ a ∈ l, ∀ before, P before a) : Justified P l := by
  intro before a after hl
  exact h a (by rw [hl]; simp) before

/-- **An invariant of a fold over a transcript**, kept by every entry that is justified. -/
theorem Justified.foldl {β : Type*} {f : β → α → β} {I : List α → β → Prop} {b : β}
    (hinit : I [] b) (hstep : ∀ before a b, P before a → I before b → I (before ++ [a]) (f b a))
    (h : Justified P l) : I l (l.foldl f b) := by
  induction l using List.reverseRecOn with
  | nil => exact hinit
  | append_singleton l a ih =>
    rw [List.foldl_append, List.foldl_cons, List.foldl_nil]
    exact hstep l a _ (h l a [] rfl) (ih h.prefix)

end Justified

end TarkovVoice

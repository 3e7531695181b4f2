import Mathlib.Data.List.Basic
import Mathlib.Tactic.Common

/-!
# Interleavings

Two sources put entries into one queue. What is in the queue is an interleaving of what each of them
has put: everything from both, each in its own order. Which of the two came first at any place is
not said.

## Main definitions

* `Interleaved`

## Main results

* `Interleaved.append` — queueing on
* `Interleaved.mem_iff`, `Interleaved.foldl_left` — what a reader of the queue sees
-/

namespace TarkovVoice

/-- `Interleaved xs ys zs`: all of `xs` and `ys` and nothing else is in `zs`, each in its order,
whichever comes first where. -/
inductive Interleaved {α : Type*} : List α → List α → List α → Prop
  | nil : Interleaved [] [] []
  | left {x : α} {xs ys zs : List α} : Interleaved xs ys zs → Interleaved (x :: xs) ys (x :: zs)
  | right {y : α} {xs ys zs : List α} : Interleaved xs ys zs → Interleaved xs (y :: ys) (y :: zs)

namespace Interleaved

variable {α β : Type*} {xs xs' ys ys' zs zs' : List α}

theorem only_left (xs : List α) : Interleaved xs [] xs := by
  induction xs with
  | nil => exact .nil
  | cons x xs ih => exact ih.left

theorem only_right (ys : List α) : Interleaved [] ys ys := by
  induction ys with
  | nil => exact .nil
  | cons y ys ih => exact ih.right

/-- **Queueing on**: more from both sources, behind all that is there. What was queued before stays
in front, whichever source it is from. -/
theorem append (h : Interleaved xs ys zs) (h' : Interleaved xs' ys' zs') :
    Interleaved (xs ++ xs') (ys ++ ys') (zs ++ zs') := by
  induction h with
  | nil => exact h'
  | left _ ih => exact ih.left
  | right _ ih => exact ih.right

theorem mem_iff (h : Interleaved xs ys zs) {z : α} : z ∈ zs ↔ z ∈ xs ∨ z ∈ ys := by
  induction h with
  | nil => simp
  | left _ ih => rw [List.mem_cons, ih, List.mem_cons, or_assoc]
  | right _ ih => rw [List.mem_cons, ih, List.mem_cons, or_left_comm]

/-- **A reader that ignores one source** ends where it would without it. It may ignore the entries
of that source only, and has to do so in any state. -/
theorem foldl_left {f : β → α → β} (h : Interleaved xs ys zs) (hf : ∀ y ∈ ys, ∀ b, f b y = b) :
    ∀ b, zs.foldl f b = xs.foldl f b := by
  induction h with
  | nil => exact fun b => rfl
  | left _ ih => exact fun b => ih hf _
  | right _ ih =>
    obtain ⟨hy, hys⟩ := List.forall_mem_cons.mp hf
    intro b
    rw [List.foldl_cons, hy]
    exact ih hys b

end Interleaved

end TarkovVoice

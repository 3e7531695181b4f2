import Mathlib.Logic.Function.Basic
import Mathlib.Tactic.Ring

/-!
# Mixing letters into a state

A hash that goes over a text letter by letter, with one state. Where a step loses nothing of the
state and nothing of the letter, two texts that differ in one letter have different hashes. Where a
step multiplies the state and adds something to it, the difference of two hashes is the difference
of the letters, multiplied once for every letter that follows.

## Main definitions

* `Mixing.affine` — a step that multiplies and adds

## Main results

* `Mixing.foldl_ne` — steps that lose nothing
* `Mixing.foldl_affine_eq_iff` — when a changed letter does not matter
-/

namespace TarkovVoice

namespace Mixing

variable {σ α : Type*} {step : σ → α → σ}

theorem foldl_injective (hstate : ∀ c, Function.Injective fun s => step s c) (l : List α) :
    Function.Injective fun s => l.foldl step s := by
  induction l with
  | nil => exact Function.injective_id
  | cons c l ih =>
    intro s s' h
    exact hstate c (ih h)

/-- **Steps that lose nothing** keep texts apart that differ in one letter. The letters in front and
behind are the same, and the state they begin with too. -/
theorem foldl_ne (hstate : ∀ c, Function.Injective fun s => step s c)
    (hletter : ∀ s, Function.Injective fun c => step s c) (s : σ) (u v : List α) {x y : α}
    (hxy : x ≠ y) : (u ++ x :: v).foldl step s ≠ (u ++ y :: v).foldl step s := by
  rw [List.foldl_append, List.foldl_append, List.foldl_cons, List.foldl_cons]
  exact fun h => hxy (hletter _ (foldl_injective hstate v h))

/-- Two states that do not meet. A loop that carries both is two loops, and what is proved of either
holds of its half. -/
theorem foldl_prod {σ' : Type*} {step' : σ' → α → σ'} (l : List α) (s : σ) (s' : σ') :
    l.foldl (fun h c => (step h.1 c, step' h.2 c)) (s, s') =
      (l.foldl step s, l.foldl step' s') := by
  induction l generalizing s s' with
  | nil => rfl
  | cons c l ih => exact ih _ _

section Affine

variable {R : Type*} [CommRing R] (m : R) (g : α → R)

def affine (h : R) (c : α) : R := m * h + g c

theorem foldl_affine_sub (l : List α) (a b : R) :
    l.foldl (affine m g) a - l.foldl (affine m g) b = m ^ l.length * (a - b) := by
  induction l generalizing a b with
  | nil => rw [List.foldl_nil, List.foldl_nil, List.length_nil, pow_zero, one_mul]
  | cons c l ih =>
    calc (c :: l).foldl (affine m g) a - (c :: l).foldl (affine m g) b
        = m ^ l.length * (affine m g a c - affine m g b c) := ih _ _
      _ = m ^ (l.length + 1) * (a - b) := by rw [affine, affine]; ring

/-- **A changed letter does not matter** if its difference is multiplied away. Each letter behind it
multiplies once more, so in a ring with zero divisors that may happen far behind. -/
theorem foldl_affine_eq_iff (a : R) (u v : List α) (x y : α) :
    (u ++ x :: v).foldl (affine m g) a = (u ++ y :: v).foldl (affine m g) a ↔
      m ^ v.length * (g x - g y) = 0 := by
  rw [List.foldl_append, List.foldl_append, List.foldl_cons, List.foldl_cons, ← sub_eq_zero,
    foldl_affine_sub, affine, affine, add_sub_add_left_eq_sub]

end Affine

end Mixing

end TarkovVoice

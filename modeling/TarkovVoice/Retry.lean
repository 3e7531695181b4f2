import Mathlib.Data.List.Pairwise
import Mathlib.Order.Lattice
import Mathlib.Tactic.Common

/-!
# Repeating until there is an answer

A timer that is polled at irregular times and fires while there is no answer: not before `delay` has
passed since it was last set, not within `gap` of the last time it fired, and at most `limit` times.
It may be set again, which counts the delay anew, but neither the gap nor the limit. Times are
natural numbers, and the time 0 stands for never.

## Main definitions

* `Retry`, `Retry.Policy`, `Retry.Occasion`
* `Retry.Policy.after`, `Retry.Policy.fires` — what happens to a timer, and when it fires

## Main results

* `Retry.Policy.fires_spaced` — at most `limit` times, and more than `gap` apart
* `Retry.Policy.fires_delayed` — more than `delay` after it was set
* `Retry.Policy.fires_of_answered` — not after an answer
-/

namespace TarkovVoice

/-- A timer that fires a limited number of times, until it is answered. Times are numbers, and 0
stands for never. -/
@[ext] structure Retry where
  /-- When it was last set. -/
  start : ℕ
  /-- When it last fired. -/
  last : ℕ := 0
  count : ℕ := 0
  answered : Bool := false

namespace Retry

/-- When a timer fires: how long after it was set, how long after it last fired, and how often. The
timer is late where it is polled late, but never early. -/
structure Policy where
  delay : ℕ
  gap : ℕ
  limit : ℕ

/-- What happens to a timer. Setting it, an answer and a word from the other side create one, if
there is none. -/
inductive Occasion
  | set (now : ℕ)
  | answer (now : ℕ)
  /-- The timer is noticed, and set if it never was. -/
  | notice (now : ℕ)
  | poll (now : ℕ)
  | discard

def Occasion.isDiscard : Occasion → Bool
  | .discard => true
  | _ => false

def Occasion.isSet : Occasion → Bool
  | .set _ => true
  | _ => false

namespace Policy

variable (p : Policy)

/-- The timer fires if it is polled now: it is not answered, it has fired less often than the limit,
and the delay and the gap are over. -/
def Due (now : ℕ) (r : Retry) : Prop :=
  r.answered = false ∧ r.count < p.limit ∧ now - r.start > p.delay ∧
    (r.last = 0 ∨ now - r.last > p.gap)

instance (now : ℕ) (r : Retry) : Decidable (p.Due now r) :=
  inferInstanceAs (Decidable (_ ∧ _ ∧ _ ∧ _))

/-- What is left of a timer that is polled. If it fires, it remembers when, and that it did once
more. -/
def poll (now : ℕ) (r : Retry) : Retry :=
  if p.Due now r then { r with last := now, count := r.count + 1 } else r

/-- What an occasion does. -/
def after (o : Option Retry) : Occasion → Option Retry
  | .set now => some { o.getD { start := now } with start := now }
  | .answer now => some { o.getD { start := now } with answered := true }
  | .notice now =>
    let r := o.getD { start := now }
    some (if r.start = 0 then { r with start := now } else r)
  | .poll now => o.map (p.poll now)
  | .discard => none

/-- The times at which an occasion makes the timer fire: the time of a poll, if the timer is there
and due, and none otherwise. -/
def firesAt (o : Option Retry) : Occasion → List ℕ
  | .poll now => if ∃ r ∈ o, p.Due now r then [now] else []
  | _ => []

/-- The times at which the timer fires, over a sequence of occasions. They are in the order of the
occasions, whatever the clock says. -/
def fires (o : Option Retry) : List Occasion → List ℕ
  | [] => []
  | x :: l => p.firesAt o x ++ fires (p.after o x) l

variable {p}

theorem fires_append (l l' : List Occasion) : ∀ o : Option Retry,
    p.fires o (l ++ l') = p.fires o l ++ p.fires (l.foldl p.after o) l' := by
  induction l with
  | nil => exact fun _ => rfl
  | cons x l ih =>
    intro o
    rw [List.cons_append, fires, fires, ih, List.append_assoc]
    rfl

/-- A poll of a timer there is. -/
theorem fires_poll (now : ℕ) (r : Retry) (l : List Occasion) :
    p.fires (some r) (.poll now :: l) =
      (if p.Due now r then [now] else []) ++ p.fires (some (p.poll now r)) l := by
  rw [fires, firesAt]
  simp only [Option.mem_def, Option.some_inj, exists_eq_left']
  rfl

theorem fires_poll_none (now : ℕ) (l : List Occasion) :
    p.fires none (.poll now :: l) = p.fires none l := by
  rw [fires, firesAt]
  simp only [Option.mem_def, reduceCtorEq, false_and, exists_false, if_false, List.nil_append]
  rfl

/-! ### Gap and limit -/

/-- The timer has fired `count` times, the last time more than `gap` before the times `fires`. These
are as far apart, and no more of them than the limit leaves, unless more had been reached before. -/
def Spaced (p : Policy) (o : Option Retry) (fires : List ℕ) : Prop :=
  fires.Pairwise (fun a b => a + p.gap < b) ∧
    fires.length + (o.elim 0 count) ≤ max p.limit (o.elim 0 count) ∧
    ∀ r ∈ o, r.last ≠ 0 → ∀ a ∈ fires, r.last + p.gap < a

/-- What does not fire leaves the spacing as it is. It may set the timer anew, or count as an
answer, as long as it leaves the last time and the count alone. -/
theorem Spaced.of_same {o : Option Retry} {r : Retry} {fires : List ℕ}
    (h : p.Spaced (some r) fires) (hlast : r.last = (o.elim 0 last))
    (hcount : r.count = o.elim 0 count) : p.Spaced o fires := by
  obtain ⟨hspaced, hlimit, hgap⟩ := h
  refine ⟨hspaced, ?_, fun r' hr' => ?_⟩
  · rwa [Option.elim_some, hcount] at hlimit
  · rw [Option.mem_def.mp hr', Option.elim_some] at hlast
    rw [← hlast]
    exact hgap r rfl

/-- **Gap and limit.** While it is not discarded, the timer fires at most `limit` times, and the
times are more than `gap` apart. -/
theorem fires_spaced (l : List Occasion) (hkept : ∀ x ∈ l, x.isDiscard = false) :
    ∀ o : Option Retry, p.Spaced o (p.fires o l) := by
  induction l with
  | nil =>
    intro o
    refine ⟨.nil, ?_, fun _ _ _ _ ha => absurd ha List.not_mem_nil⟩
    rw [fires, List.length_nil, Nat.zero_add]
    exact Nat.le_max_right _ _
  | cons x l ih =>
    intro o
    have hrest := ih fun y hy => hkept y (List.mem_cons_of_mem x hy)
    cases x with
    | discard => exact absurd (hkept _ List.mem_cons_self) Bool.noConfusion
    | set now => exact (hrest _).of_same (by cases o <;> rfl) (by cases o <;> rfl)
    | answer now => exact (hrest _).of_same (by cases o <;> rfl) (by cases o <;> rfl)
    | notice now =>
      refine (hrest _).of_same ?_ ?_
      · cases o <;> split <;> rfl
      · cases o <;> split <;> rfl
    | poll now =>
      cases o with
      | none =>
        rw [fires_poll_none]
        exact hrest none
      | some r =>
        obtain ⟨hspaced, hlimit, hgap⟩ := hrest (some (p.poll now r))
        rw [fires_poll]
        by_cases hdue : p.Due now r
        · obtain ⟨-, hless, hdelay, hlast⟩ := id hdue
          have hpoll : p.poll now r = { r with last := now, count := r.count + 1 } := if_pos hdue
          rw [hpoll] at hspaced hlimit hgap ⊢
          have hlater : ∀ a ∈ p.fires (some { r with last := now, count := r.count + 1 }) l,
              now + p.gap < a := hgap _ rfl (by dsimp only; omega)
          rw [if_pos hdue]
          refine ⟨List.pairwise_cons.mpr ⟨hlater, hspaced⟩, ?_, fun r' hr' hne a ha => ?_⟩
          · change _ + (r.count + 1) ≤ max _ (r.count + 1) at hlimit
            rw [Option.elim_some, List.length_append, List.length_singleton]
            omega
          · obtain rfl := Option.some.inj hr'
            have hnow : r.last + p.gap < now := by omega
            rcases List.mem_cons.mp ha with rfl | ha
            · exact hnow
            · have := hlater a ha
              omega
        · have hpoll : p.poll now r = r := if_neg hdue
          rw [hpoll] at hspaced hlimit hgap ⊢
          rw [if_neg hdue]
          exact ⟨hspaced, hlimit, hgap⟩

/-! ### Delay -/

/-- **Delay.** After the timer was set, and until it is set again or discarded, it fires only more
than `delay` later. -/
theorem fires_delayed {now : ℕ} (l : List Occasion)
    (hkept : ∀ x ∈ l, x.isDiscard = false ∧ x.isSet = false) :
    ∀ r : Retry, r.start = now → now ≠ 0 → ∀ a ∈ p.fires (some r) l, now + p.delay < a := by
  induction l with
  | nil => exact fun _ _ _ _ ha => absurd ha List.not_mem_nil
  | cons x l ih =>
    intro r hstart hnow a ha
    have hrest := ih fun y hy => hkept y (List.mem_cons_of_mem x hy)
    cases x with
    | discard => exact absurd (hkept _ List.mem_cons_self).1 Bool.noConfusion
    | set now' => exact absurd (hkept _ List.mem_cons_self).2 Bool.noConfusion
    | answer now' =>
      exact hrest { r with answered := true } hstart hnow a ha
    | notice now' =>
      have hsame : p.after (some r) (.notice now') = some r :=
        congrArg some (if_neg (hstart.symm ▸ hnow))
      rw [fires, hsame] at ha
      exact hrest r hstart hnow a ha
    | poll now' =>
      rw [fires_poll] at ha
      rcases List.mem_append.mp ha with ha | ha
      · split at ha
        · next hdue =>
          obtain ⟨-, -, hdelay, -⟩ := hdue
          rw [List.mem_singleton.mp ha]
          omega
        · exact absurd ha List.not_mem_nil
      · refine hrest (p.poll now' r) ?_ hnow a ha
        rw [poll]
        split <;> exact hstart

/-! ### Answers -/

/-- **No firing after an answer**, until the timer is discarded, whatever it is set to and however
often it is polled. -/
theorem fires_of_answered (l : List Occasion) (hkept : ∀ x ∈ l, x.isDiscard = false) :
    ∀ r : Retry, r.answered = true → p.fires (some r) l = [] := by
  induction l with
  | nil => exact fun _ _ => rfl
  | cons x l ih =>
    intro r hr
    have hrest := ih fun y hy => hkept y (List.mem_cons_of_mem x hy)
    cases x with
    | discard => exact absurd (hkept _ List.mem_cons_self) Bool.noConfusion
    | set now => exact hrest _ hr
    | answer now => exact hrest _ rfl
    | notice now =>
      rw [fires]
      refine hrest _ ?_
      split <;> exact hr
    | poll now =>
      have hnot : ¬ p.Due now r := by
        rintro ⟨hnone, -⟩
        rw [hr] at hnone
        exact Bool.noConfusion hnone
      have hpoll : p.poll now r = r := if_neg hnot
      rw [fires_poll, if_neg hnot, hpoll]
      exact hrest r hr

end Policy

end Retry

end TarkovVoice

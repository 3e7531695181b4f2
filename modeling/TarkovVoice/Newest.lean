import Mathlib.Data.List.Induction
import Mathlib.Order.WithBot
import Mathlib.Tactic.Common

/-!
# Keeping what is newer

A receiver that numbers its input often keeps an entry only if its key exceeds every key that came
before. `newest` is that filter on a list, started from the largest key seen so far, which is `⊥`
before the first. It drops repetitions and whatever is overtaken.

## Main definitions

* `newest`, `lastKey`

## Main results

* `newest_append` — the filter can be cut anywhere
* `newest_eq_filter` — an entry is kept or not by its position alone
* `mem_newest_iff` — from a sorted list whose keys are unique it drops only repetitions and what is
  too old at the start
* `newest_copies` — it undoes repetition of increasing entries
* `exists_sublist_forall₂` — increasing entries that have partners run through them
-/

namespace TarkovVoice

variable {γ κ : Type*} [LinearOrder κ] (key : γ → κ)

/-- The entries whose key exceeds `last` and every key before. An entry that is dropped has no
effect on those that follow. -/
def newest (last : WithBot κ) : List γ → List γ
  | [] => []
  | x :: l => if last < key x then x :: newest (key x) l else newest last l

/-- The largest key of a list, or `last` if no key exceeds it. It is what a receiver compares the
next entry with. -/
def lastKey (last : WithBot κ) : List γ → WithBot κ
  | [] => last
  | x :: l => lastKey (max last (key x)) l

variable {key} {last : WithBot κ}

@[simp] theorem newest_nil : newest key last [] = [] := rfl

@[simp] theorem lastKey_nil : lastKey key last [] = last := rfl

theorem lastKey_cons (x : γ) (l : List γ) :
    lastKey key last (x :: l) = lastKey key (max last (key x)) l := rfl

theorem newest_cons (x : γ) (l : List γ) :
    newest key last (x :: l) =
      (if last < key x then [x] else []) ++ newest key (max last (key x)) l := by
  rw [newest]
  split
  · next h =>
    rw [max_eq_right h.le]
    rfl
  · next h =>
    rw [max_eq_left (not_lt.mp h)]
    rfl

theorem lastKey_append (l l' : List γ) :
    lastKey key last (l ++ l') = lastKey key (lastKey key last l) l' := by
  induction l generalizing last with
  | nil => rfl
  | cons x l ih => exact ih

theorem newest_append (l l' : List γ) :
    newest key last (l ++ l') = newest key last l ++ newest key (lastKey key last l) l' := by
  induction l generalizing last with
  | nil => rfl
  | cons x l ih => rw [List.cons_append, newest_cons, newest_cons, ih, lastKey_cons,
      List.append_assoc]

theorem le_lastKey (l : List γ) : last ≤ lastKey key last l := by
  induction l generalizing last with
  | nil => exact le_refl last
  | cons x l ih => exact (le_max_left _ _).trans ih

theorem key_le_lastKey {x : γ} {l : List γ} (h : x ∈ l) :
    (key x : WithBot κ) ≤ lastKey key last l := by
  induction l generalizing last with
  | nil => exact absurd h List.not_mem_nil
  | cons y l ih =>
    rcases List.mem_cons.mp h with rfl | h
    · exact (le_max_right _ _).trans (le_lastKey l)
    · exact ih h

/-- The largest key is where the list starts from, or the key of an entry. -/
theorem lastKey_eq_or (l : List γ) :
    lastKey key last l = last ∨ ∃ x ∈ l, lastKey key last l = key x := by
  induction l generalizing last with
  | nil => exact Or.inl rfl
  | cons x l ih =>
    rw [lastKey_cons]
    rcases @ih (max last (key x)) with h | ⟨y, hy, h⟩
    · rcases le_total last (key x : WithBot κ) with hm | hm
      · exact Or.inr ⟨x, List.mem_cons_self, h.trans (max_eq_right hm)⟩
      · exact Or.inl (h.trans (max_eq_left hm))
    · exact Or.inr ⟨y, List.mem_cons_of_mem _ hy, h⟩

theorem newest_sublist (l : List γ) : (newest key last l).Sublist l := by
  induction l generalizing last with
  | nil => exact List.Sublist.slnil
  | cons x l ih =>
    rw [newest]
    split
    · exact ih.cons_cons x
    · exact ih.cons x

/-- Every key is smaller. -/
theorem lastKey_lt_iff {l : List γ} {k : κ} :
    lastKey key last l < k ↔ last < k ∧ ∀ x ∈ l, key x < k := by
  constructor
  · intro h
    refine ⟨(le_lastKey l).trans_lt h, fun x hx => ?_⟩
    exact WithBot.coe_lt_coe.mp ((key_le_lastKey hx).trans_lt h)
  · rintro ⟨hlast, hl⟩
    rcases @lastKey_eq_or _ _ _ key last l with heq | ⟨x, hx, heq⟩
    · rwa [heq]
    · rw [heq]
      exact WithBot.coe_lt_coe.mpr (hl x hx)

/-- **Which entries are kept.** Those whose key exceeds `last` and the keys of all entries before
them, whether these were kept or not. -/
theorem newest_eq_filter (l : List γ) : newest key last l =
    (l.zipIdx.filter fun x : γ × ℕ =>
      decide (last < key x.1 ∧ ∀ y ∈ l.take x.2, key y < key x.1)).map Prod.fst := by
  induction l using List.reverseRecOn with
  | nil => rfl
  | append_singleton l x ih =>
    have hbefore : ∀ z ∈ l.zipIdx, (l ++ [x]).take z.2 = l.take z.2 := fun z hz =>
      List.take_append_of_le_length (List.snd_lt_of_mem_zipIdx hz).le
    have hkeep : (l.zipIdx.filter fun z : γ × ℕ =>
        decide (last < key z.1 ∧ ∀ y ∈ (l ++ [x]).take z.2, key y < key z.1)) =
          l.zipIdx.filter fun z : γ × ℕ =>
            decide (last < key z.1 ∧ ∀ y ∈ l.take z.2, key y < key z.1) :=
      List.filter_congr fun z hz => by rw [hbefore z hz]
    have hlast : (l ++ [x]).take l.length = l := List.take_left
    rw [newest_append, List.zipIdx_append, List.filter_append, List.map_append, hkeep, ← ih,
      Nat.zero_add, List.zipIdx_singleton, newest_cons, newest_nil,
      List.append_nil, List.filter_cons, hlast]
    congr 1
    by_cases h : lastKey key last l < (key x : WithBot κ)
    · rw [if_pos h, decide_eq_true (lastKey_lt_iff.mp h)]
      rfl
    · rw [if_neg h, decide_eq_false (fun hkeys => h (lastKey_lt_iff.mpr hkeys))]
      rfl

theorem lt_of_mem_newest {x : γ} {l : List γ} (h : x ∈ newest key last l) : last < key x := by
  induction l generalizing last with
  | nil => exact absurd h List.not_mem_nil
  | cons y l ih =>
    rw [newest_cons] at h
    rcases List.mem_append.mp h with h | h
    · split at h
      · next hlt => rwa [List.mem_singleton.mp h]
      · exact absurd h List.not_mem_nil
    · exact (le_max_left _ _).trans_lt (ih h)

variable (key) in
/-- What is kept has increasing keys. So no key is kept twice, and an entry that is late is not kept
at all. -/
theorem newest_pairwise (l : List γ) :
    (newest key last l).Pairwise fun x y => key x < key y := by
  induction l generalizing last with
  | nil => exact List.Pairwise.nil
  | cons x l ih =>
    rw [newest]
    split
    · refine List.pairwise_cons.mpr ⟨fun y hy => ?_, ih⟩
      exact WithBot.coe_lt_coe.mp (lt_of_mem_newest hy)
    · exact ih

/-- From a sorted list whose keys are unique, only what is too old at the start is lost. Entries may
be repeated in it; a repeated one is the same entry. -/
theorem mem_newest_iff {x : γ} {l : List γ} (hsorted : l.Pairwise fun y z => key y ≤ key z)
    (hunique : ∀ y ∈ l, ∀ z ∈ l, key y = key z → y = z) :
    x ∈ newest key last l ↔ x ∈ l ∧ last < key x := by
  refine ⟨fun h => ⟨(newest_sublist l).subset h, lt_of_mem_newest h⟩, fun h => ?_⟩
  obtain ⟨hx, hlt⟩ := h
  induction l generalizing last with
  | nil => exact absurd hx List.not_mem_nil
  | cons y l ih =>
    obtain ⟨hle, hsorted⟩ := List.pairwise_cons.mp hsorted
    rw [newest_cons, List.mem_append]
    by_cases hxy : x = y
    · left
      rw [← hxy, if_pos hlt]
      exact List.mem_singleton_self x
    · right
      have hxl : x ∈ l := (List.mem_cons.mp hx).resolve_left hxy
      have hne : key y ≠ key x := fun he =>
        hxy (hunique x hx y List.mem_cons_self he.symm)
      refine ih hsorted (fun u hu v hv => hunique u (List.mem_cons_of_mem y hu) v
        (List.mem_cons_of_mem y hv)) hxl (max_lt hlt ?_)
      exact WithBot.coe_lt_coe.mpr (lt_of_le_of_ne (hle x hxl) hne)

/-- Repeating an entry does not change what is kept, nor what the next entries are compared with.
The copies come one behind the other here. -/
theorem newest_replicate_append (x : γ) (n : ℕ) (l : List γ) :
    newest key last (List.replicate (n + 1) x ++ l) = newest key last (x :: l) ∧
      lastKey key last (List.replicate (n + 1) x ++ l) = lastKey key last (x :: l) := by
  induction n generalizing last with
  | zero => exact ⟨rfl, rfl⟩
  | succ n ih =>
    have hmax : max (max last (key x : WithBot κ)) (key x) = max last (key x) := by
      rw [max_assoc, max_self]
    obtain ⟨hnew, hlast⟩ := @ih (max last (key x))
    rw [List.replicate_succ, List.cons_append, newest_cons, newest_cons, lastKey_cons, lastKey_cons,
      hnew, hlast, newest_cons, lastKey_cons, hmax, if_neg (not_lt.mpr (le_max_right _ _)),
      List.nil_append]
    exact ⟨rfl, rfl⟩

/-- A list whose entries increase from `last` on is kept. -/
theorem newest_eq_self {l : List γ} (hl : ∀ x ∈ l, last < key x)
    (hsorted : l.Pairwise fun y z => key y < key z) : newest key last l = l := by
  induction l generalizing last with
  | nil => rfl
  | cons x l ih =>
    obtain ⟨hlt, hsorted⟩ := List.pairwise_cons.mp hsorted
    rw [newest, if_pos (hl x List.mem_cons_self),
      ih (fun y hy => WithBot.coe_lt_coe.mpr (hlt y hy)) hsorted]

/-- Entries that are numbered from `n` on are kept exactly when there are none or `n` is past
`last`. -/
theorem newest_eq_iff {key : γ → ℕ} {last : WithBot ℕ} {l : List γ} {n m : ℕ}
    (h : l.map key = List.range' n m) :
    newest key last l = l ↔ m = 0 ∨ last < WithBot.some n := by
  cases m with
  | zero =>
    rw [List.map_eq_nil_iff.mp h]
    exact ⟨fun _ => Or.inl rfl, fun _ => rfl⟩
  | succ m =>
    have hmem : ∀ x ∈ l, n ≤ key x := fun x hx => by
      have hx' := List.mem_map_of_mem (f := key) hx
      rw [h, List.mem_range'_1] at hx'
      exact hx'.1
    constructor
    · intro heq
      cases l with
      | nil => exact absurd h (by simp)
      | cons x l =>
        rw [List.map_cons, List.range'_succ] at h
        have hx : x ∈ newest key last (x :: l) := by
          rw [heq]
          exact List.mem_cons_self
        right
        rw [← (List.cons.inj h).1]
        exact lt_of_mem_newest hx
    · rintro (h0 | hlt)
      · exact absurd h0 (Nat.succ_ne_zero m)
      · refine newest_eq_self (fun x hx => hlt.trans_le (WithBot.coe_le_coe.mpr (hmem x hx))) ?_
        rw [← List.pairwise_map, h]
        exact List.pairwise_lt_range'

/-- **Repetitions are dropped.** Each entry may be repeated any number of times, but at least one
copy is needed. -/
theorem newest_copies (n : γ → ℕ) (l : List γ) :
    newest key last (l.flatMap fun x => List.replicate (n x + 1) x) = newest key last l ∧
      lastKey key last (l.flatMap fun x => List.replicate (n x + 1) x) = lastKey key last l := by
  induction l generalizing last with
  | nil => exact ⟨rfl, rfl⟩
  | cons x l ih =>
    obtain ⟨hnew, hlast⟩ := @newest_replicate_append _ _ _ key last x (n x)
      (l.flatMap fun x => List.replicate (n x + 1) x)
    obtain ⟨hnew', hlast'⟩ := @ih (max last (key x))
    rw [List.flatMap_cons, hnew, hlast, newest_cons, newest_cons, lastKey_cons, lastKey_cons, hnew',
      hlast']
    exact ⟨rfl, rfl⟩

/-! ### Matching by key -/

/-- A list with increasing keys whose entries have partners of the same key in another such list
runs through that list. -/
theorem exists_sublist_forall₂ {δ : Type*} {key' : δ → κ} {R : γ → δ → Prop} {l : List γ}
    {m : List δ} (hl : l.Pairwise fun x y => key x < key y)
    (hm : m.Pairwise fun x y => key' x < key' y)
    (h : ∀ x ∈ l, ∃ y ∈ m, key' y = key x ∧ R x y) :
    ∃ m', m'.Sublist m ∧ List.Forall₂ R l m' := by
  induction l generalizing m with
  | nil => exact ⟨[], List.nil_sublist m, .nil⟩
  | cons x l ih =>
    obtain ⟨hx, hl⟩ := List.pairwise_cons.mp hl
    obtain ⟨y, hy, hkey, hxy⟩ := h x List.mem_cons_self
    obtain ⟨before, after, rfl⟩ := List.append_of_mem hy
    obtain ⟨-, hafter, hbefore⟩ := List.pairwise_append.mp hm
    -- the other entries have larger keys, so that their partners come after `y`
    have hrest : ∀ x' ∈ l, ∃ y' ∈ after, key' y' = key x' ∧ R x' y' := by
      intro x' hx'
      obtain ⟨y', hy', hkey', hxy'⟩ := h x' (List.mem_cons_of_mem x hx')
      have hlt : key' y < key' y' := by
        rw [hkey, hkey']
        exact hx x' hx'
      rcases List.mem_append.mp hy' with hmem | hmem
      · exact absurd (hbefore y' hmem y List.mem_cons_self) (lt_asymm hlt)
      · rcases List.mem_cons.mp hmem with rfl | hmem
        · exact absurd hlt (lt_irrefl _)
        · exact ⟨y', hmem, hkey', hxy'⟩
    obtain ⟨m', hsub, hall⟩ := ih hl (List.pairwise_cons.mp hafter).2 hrest
    exact ⟨y :: m', (hsub.cons_cons y).trans (List.sublist_append_right before _), .cons hxy hall⟩

end TarkovVoice

import Mathlib.Data.List.TakeWhile
import Mathlib.Tactic.Common

/-!
# The first good token

A scan of a list for a token: entries that satisfy `cont`, as many as there are, from one on that
satisfies `start`. A token that is not good is passed over, with what ended it.

This is the same as cutting the list wherever `cont` fails, and looking among the parts, each from
its first start on.

## Main definitions

* `Tokens.first` — the scan
* `Tokens.tokens` — the parts

## Main results

* `Tokens.first_eq` — the scan finds the first part that is good
-/

namespace TarkovVoice

namespace Tokens

variable {α : Type*} (start cont : α → Bool) (accepts : List α → Bool)

/-- The scan. A token is taken as long as it goes on; if it is not good, the scan goes on behind the
entry that ended it, whatever that is. -/
def first : List α → Option (List α)
  | [] => none
  | a :: l =>
    if start a then
      if accepts ((a :: l).takeWhile cont) then some ((a :: l).takeWhile cont)
      else first ((a :: l).dropWhile cont).tail
    else first l
termination_by l => l.length
decreasing_by
  · have hdrop := List.length_dropWhile_le cont (a :: l)
    rw [List.length_cons] at hdrop
    rw [List.length_tail, List.length_cons]
    omega
  · exact Nat.lt_succ_self _

/-- The parts of a list, each from its first start on. They are what is between two entries that do
not go on, and empty where there is no start. -/
def tokens (l : List α) : List (List α) :=
  (l.splitOnP fun a => !cont a).map (List.dropWhile fun a => !start a)

variable {start cont accepts} {l : List α} {a : α}

/-- In front of a start, what goes on does not matter. -/
theorem tokens_cons_of_not_start (hstart : start a = false) (hnil : accepts [] = false) :
    (tokens start cont (a :: l)).find? accepts = (tokens start cont l).find? accepts := by
  rw [tokens, tokens, List.splitOnP_cons_eq_if_modifyHead]
  cases hcont : cont a with
  | true =>
    obtain ⟨part, parts, hparts⟩ :=
      List.exists_cons_of_ne_nil (List.splitOnP_ne_nil (fun a => !cont a) l)
    rw [Bool.not_true, if_neg Bool.false_ne_true, hparts, List.modifyHead_cons, List.map_cons,
      List.map_cons, List.dropWhile_cons_of_pos (by rw [hstart]; rfl)]
  | false =>
    rw [Bool.not_false, if_pos rfl, List.map_cons, List.dropWhile_nil,
      List.find?_cons_of_neg (by rw [hnil]; exact Bool.false_ne_true)]

/-- From a start on, the first part is what goes on. -/
theorem tokens_of_start (hstart : start a = true) (hcont : cont a = true)
    (hnil : accepts [] = false) : (tokens start cont (a :: l)).find? accepts =
      if accepts ((a :: l).takeWhile cont) then some ((a :: l).takeWhile cont)
      else (tokens start cont ((a :: l).dropWhile cont).tail).find? accepts := by
  have hrun : ∀ x ∈ (a :: l).takeWhile cont, (!cont x) = false := by
    intro x hx
    rw [List.mem_takeWhile_imp hx]
    rfl
  have hfront : ((a :: l).takeWhile cont).dropWhile (fun a => !start a) =
      (a :: l).takeWhile cont := by
    rw [List.takeWhile_cons_of_pos hcont,
      List.dropWhile_cons_of_neg (by rw [hstart]; exact Bool.false_ne_true)]
  have hcut := List.takeWhile_append_dropWhile (p := cont) (l := a :: l)
  -- What goes on ends with the list, or with the next entry that does not.
  cases hrest : (a :: l).dropWhile cont with
  | nil =>
    rw [hrest, List.append_nil] at hcut
    rw [hcut] at hrun hfront ⊢
    rw [tokens, List.splitOnP_eq_singleton hrun, List.map_singleton, hfront, List.tail_nil, tokens,
      List.splitOnP_nil, List.map_singleton, List.dropWhile_nil, List.find?_singleton,
      List.find?_singleton, hnil]
    rfl
  | cons b rest =>
    have hend : (!cont b) = true := by
      have hnot := List.head?_dropWhile_not cont (a :: l)
      rw [hrest] at hnot
      exact congrArg not hnot
    rw [hrest] at hcut
    have hparts : tokens start cont (a :: l) =
        (a :: l).takeWhile cont :: tokens start cont rest := by
      rw [tokens]
      nth_rewrite 1 [← hcut]
      rw [List.splitOnP_append_cons_of_forall_mem hrun b hend rest, List.map_cons, hfront]
      rfl
    rw [hparts, List.tail_cons, List.find?_cons]
    cases accepts ((a :: l).takeWhile cont) <;> rfl

/-- **The scan finds the first part that is good.** It is assumed that a start goes on by itself,
and that a token of no entries is not good. -/
theorem first_eq (hcont : ∀ a, start a = true → cont a = true) (hnil : accepts [] = false)
    (l : List α) : first start cont accepts l = (tokens start cont l).find? accepts := by
  fun_induction first start cont accepts l with
  | case1 =>
    rw [tokens, List.splitOnP_nil, List.map_singleton, List.dropWhile_nil, List.find?_singleton,
      hnil]
    rfl
  | case2 a l hstart haccepts => rw [tokens_of_start hstart (hcont a hstart) hnil, if_pos haccepts]
  | case3 a l hstart haccepts ih =>
    rw [tokens_of_start hstart (hcont a hstart) hnil, if_neg haccepts, ih]
  | case4 a l hstart ih => rw [tokens_cons_of_not_start (eq_false_of_ne_true hstart) hnil, ih]

/-- What the scan finds is good, and of entries that go on. Nothing is said of what stands around
it. -/
theorem of_mem_first {l token : List α} (h : token ∈ first start cont accepts l) :
    accepts token = true ∧ ∀ a ∈ token, cont a = true := by
  fun_induction first start cont accepts l with
  | case1 => exact absurd h (Option.not_mem_none token)
  | case2 a l hstart haccepts =>
    obtain rfl := Option.some.inj h
    exact ⟨haccepts, fun _ hx => List.mem_takeWhile_imp hx⟩
  | case3 a l hstart haccepts ih => exact ih h
  | case4 a l hstart ih => exact ih h

end Tokens

end TarkovVoice

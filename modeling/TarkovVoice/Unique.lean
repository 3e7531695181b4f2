import Mathlib.Data.List.Induction
import Mathlib.Data.List.Nodup
import Mathlib.Tactic.Common

/-!
# Collecting without repetition

A list that grows at its end, by what it does not have yet. In the end it is the list of all that
was offered, without what was offered again.

## Main definitions

* `Unique.add`

## Main results

* `Unique.foldl_eq` — collecting is `List.eraseDups`
* `Unique.nodup_eraseDups`
-/

namespace TarkovVoice

namespace Unique

variable {α β : Type*} [BEq α] [LawfulBEq α]

/-- The list with one more, unless it has that already. New entries go to the end, so the order is
that of the first offers. -/
def add (l : List α) (a : α) : List α := if l.contains a then l else l ++ [a]

theorem add_of_mem {l : List α} {a : α} (h : a ∈ l) : add l a = l :=
  if_pos (List.contains_iff_mem.mpr h)

theorem add_of_notMem {l : List α} {a : α} (h : a ∉ l) : add l a = l ++ [a] :=
  if_neg (mt List.contains_iff_mem.mp h)

theorem eraseDups_concat (l : List α) (a : α) : (l ++ [a]).eraseDups = add l.eraseDups a := by
  rw [List.eraseDups_append, List.cons_removeAll, List.nil_removeAll]
  by_cases h : a ∈ l
  · rw [add_of_mem (List.mem_eraseDups.mpr h), List.contains_iff_mem.mpr h,
      if_neg Bool.false_ne_true.symm]
    exact List.append_nil _
  · rw [add_of_notMem (mt List.mem_eraseDups.mp h),
      if_pos (eq_false_of_ne_true (mt List.contains_iff_mem.mp h))]
    rfl

/-- **Collecting** what `f` makes of the entries of a list, where it makes something. The loop may
look like anything, as long as one turn adds what `f` makes or does nothing. -/
theorem foldl_eq {f : β → Option α} {g : List α → β → List α}
    (hg : ∀ l b, g l b = (f b).elim l (add l)) (l : List β) :
    l.foldl g [] = (l.filterMap f).eraseDups := by
  induction l using List.reverseRecOn with
  | nil => rfl
  | append_singleton l b ih =>
    rw [List.foldl_append, List.foldl_cons, List.foldl_nil, ih, hg, List.filterMap_append]
    cases hb : f b with
    | none => rw [List.filterMap_cons_none hb, List.filterMap_nil, List.append_nil]; rfl
    | some a => rw [List.filterMap_cons_some hb, List.filterMap_nil, eraseDups_concat]; rfl

theorem nodup_add {l : List α} (h : l.Nodup) (a : α) : (add l a).Nodup := by
  by_cases ha : a ∈ l
  · rwa [add_of_mem ha]
  · rw [add_of_notMem ha]
    exact (List.concat_eq_append ▸ List.nodup_concat l a).mpr ⟨ha, h⟩

theorem nodup_eraseDups (l : List α) : l.eraseDups.Nodup := by
  have hfold := foldl_eq (f := some) (g := add) (fun _ _ => rfl) l
  rw [List.filterMap_some] at hfold
  rw [← hfold]
  exact List.foldlRecOn l add .nil fun _ h a _ => nodup_add h a

end Unique

end TarkovVoice

import TarkovVoice.Machine

/-!
# Refinement

A machine refines another when every step of it is matched by steps of the other, none, one or
several, with labels that can be read off the step. Runs are then matched by runs, from the initial
states on or from any pair of related states, and what the runs of the other machine keep can be
carried back.

## Main definitions

* `Machine.Path` — steps that lead from one state to another
* `Machine.Simulation`

## Main results

* `Machine.Path.kept` — what all steps with certain labels keep
* `Machine.Simulation.path`, `Machine.Simulation.run`
-/

namespace TarkovVoice

namespace Machine

variable {σ τ α β : Type*} {M : Machine σ α} {N : Machine τ β}

/-! ### Paths -/

/-- `M.Path s t s'`: the steps `t` lead from `s` to `s'`, wherever `s` comes from. A run is a path
from an initial state. -/
inductive Path (M : Machine σ α) (s : σ) : List (σ × α) → σ → Prop
  | nil : Path M s [] s
  | snoc {t : List (σ × α)} {u v : σ} {a : α} :
      Path M s t u → M.step u a v → Path M s (t ++ [(u, a)]) v

section Paths

variable {s u v : σ} {t t' : List (σ × α)}

theorem Path.single {a : α} (h : M.step s a u) : M.Path s [(s, a)] u := Path.nil.snoc h

theorem Path.append (h : M.Path s t u) (h' : M.Path u t' v) : M.Path s (t ++ t') v := by
  induction h' with
  | nil =>
    rw [List.append_nil]
    exact h
  | snoc _ hs ih =>
    rw [← List.append_assoc]
    exact ih.snoc hs

/-- A run is a path from an initial state. -/
theorem Run.path (h : M.Run t s) : ∃ s₀, M.init s₀ ∧ M.Path s₀ t s := by
  induction h with
  | start h => exact ⟨_, h, .nil⟩
  | snoc _ hs ih =>
    obtain ⟨s₀, hinit, hpath⟩ := ih
    exact ⟨s₀, hinit, hpath.snoc hs⟩

/-- A path from an initial state is a run. -/
theorem Path.run (h : M.Path s t u) (hinit : M.init s) : M.Run t u := by
  induction h with
  | nil => exact .start hinit
  | snoc _ hs ih => exact ih.snoc hs

theorem Run.append_path (h : M.Run t s) (h' : M.Path s t' u) : M.Run (t ++ t') u := by
  obtain ⟨s₀, hinit, hpath⟩ := h.path
  exact (hpath.append h').run hinit

/-- A path goes through each of its steps. It can be cut there into what comes before, the step, and
what comes after. -/
theorem Path.split {a : α} (h : M.Path s (t ++ (u, a) :: t') v) :
    M.Path s t u ∧ ∃ w, M.step u a w ∧ M.Path w t' v := by
  generalize hr : t ++ (u, a) :: t' = r at h
  induction h generalizing t' with
  | nil => exact absurd hr (by simp)
  | @snoc r v v' b hpath hs ih =>
    rcases List.eq_nil_or_concat t' with rfl | ⟨l, x, rfl⟩
    · obtain ⟨rfl, hx⟩ := List.append_inj' hr rfl
      obtain ⟨rfl, rfl⟩ := Prod.mk.inj (List.singleton_inj.mp hx)
      exact ⟨hpath, v', hs, .nil⟩
    · rw [List.concat_eq_append] at hr ⊢
      rw [← List.cons_append, ← List.append_assoc] at hr
      obtain ⟨hcut, hx⟩ := List.append_inj' hr rfl
      obtain rfl := List.singleton_inj.mp hx
      obtain ⟨hbefore, w, hstep, hafter⟩ := ih hcut
      exact ⟨hbefore, w, hstep, hafter.snoc hs⟩

/-- **What paths keep**: a property that every step with a good label keeps. A path may begin
anywhere, so this is said of no initial state. -/
theorem Path.kept (P : σ → Prop) (good : α → Prop)
    (hstep : ∀ u a v, P u → good a → M.step u a v → P v) (h : M.Path s t u) :
    (∀ a ∈ t.map Prod.snd, good a) → P s → P u := by
  induction h with
  | nil => exact fun _ hs => hs
  | @snoc t u v a _ hs ih =>
    intro hgood hP
    rw [List.map_append] at hgood
    exact hstep u a v (ih (fun b hb => hgood b (List.mem_append_left _ hb)) hP)
      (hgood a (List.mem_append_right _ (List.mem_singleton_self _))) hs

end Paths

/-! ### Simulations -/

/-- Steps of `M` are matched by steps of `N`: each by any number of them, whose labels are read off
the step that they match. -/
structure Simulation (M : Machine σ α) (N : Machine τ β) where
  /-- When a state of `N` stands for one of `M`. -/
  Rel : σ → τ → Prop
  /-- The labels of the steps that match a step. -/
  labels : σ → α → List β
  init : ∀ s, M.init s → ∃ u, N.init u ∧ Rel s u
  step : ∀ s a s' u, M.Reachable s → Rel s u → M.step s a s' →
    ∃ t u', N.Path u t u' ∧ t.map Prod.snd = labels s a ∧ Rel s' u'

namespace Simulation

variable (S : Simulation M N) {s s' : σ} {u : τ} {t : List (σ × α)}

/-- The labels that match the steps of a path, in order. A step may be matched by none, and then
leaves no label. -/
def labelsOf (t : List (σ × α)) : List β := t.flatMap fun x => S.labels x.1 x.2

/-- **Paths are matched by paths.** The path may begin in any reachable state and in any state
related to it, and what it is matched by ends in a related one again. -/
theorem path (hreach : M.Reachable s) (hrel : S.Rel s u) (h : M.Path s t s') :
    ∃ t' u', N.Path u t' u' ∧ t'.map Prod.snd = S.labelsOf t ∧ S.Rel s' u' := by
  induction h with
  | nil => exact ⟨[], u, .nil, rfl, hrel⟩
  | @snoc t v v' a hpath hs ih =>
    obtain ⟨t₁, u₁, hpath₁, hlabels₁, hrel₁⟩ := ih
    obtain ⟨t₀, hrun⟩ := hreach
    obtain ⟨t₂, u₂, hpath₂, hlabels₂, hrel₂⟩ :=
      S.step v a v' u₁ ⟨_, hrun.append_path hpath⟩ hrel₁ hs
    refine ⟨t₁ ++ t₂, u₂, hpath₁.append hpath₂, ?_, hrel₂⟩
    rw [List.map_append, hlabels₁, hlabels₂, labelsOf, labelsOf, List.flatMap_append,
      List.flatMap_singleton]

/-- **Runs are matched by runs**, whose labels are read off the steps that they match. So what every
run of `N` satisfies, every run of `M` satisfies in the terms of `N`. -/
theorem run (h : M.Run t s) :
    ∃ t' u, N.Run t' u ∧ t'.map Prod.snd = S.labelsOf t ∧ S.Rel s u := by
  obtain ⟨s₀, hinit, hpath⟩ := h.path
  obtain ⟨u₀, hinit', hrel⟩ := S.init s₀ hinit
  obtain ⟨t', u, hpath', hlabels, hrel'⟩ := S.path (.init hinit) hrel hpath
  exact ⟨t', u, hpath'.run hinit', hlabels, hrel'⟩

end Simulation

end Machine

end TarkovVoice

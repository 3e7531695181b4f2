import Mathlib.Data.List.Basic
import Mathlib.Tactic.Common

/-!
# Labelled state machines and their runs

Every component of this development is a state machine whose steps carry a label: the message
that was handled, the call that was made, the datagram that arrived. This file holds what does
not depend on the component: runs, reachable states, and the three rules every later induction
over a run goes through.

A run records, for each step, the state it was taken in together with its label. That is what
lets a condition on steps (`∀ x ∈ t, good x.1 x.2`) and a property of visited states
(`∀ x ∈ t, P x.1`) be stated about the same list.

## Main definitions

* `Machine` — initial states and a labelled step relation
* `Machine.Run`, `Machine.Reachable`
* `Machine.ofNext`, `Machine.trace` — machines whose steps are given by a function

## Main results

* `Machine.Run.invariant` — an inductive property holds at the end of every run
* `Machine.Run.invariant_of_good` — the same, when only steps satisfying a condition preserve it
* `Machine.Run.visited_iff` — a property holds in every visited state exactly when every step
  satisfies the condition that decides whether it is preserved
-/

namespace TarkovVoice

/-- A labelled state machine: its initial states and its steps. Nothing is assumed of either; there
may be none, or several from one state under one label. -/
structure Machine (σ α : Type*) where
  /-- The states a run may start in. -/
  init : σ → Prop
  /-- `step s a s'`: in state `s` the step labelled `a` can lead to `s'`. -/
  step : σ → α → σ → Prop

namespace Machine

variable {σ α : Type*} {M : Machine σ α}

/-- `M.Run t s`: a run that ends in `s`. Its trace `t` lists each step taken, in order, as the
state it was taken in and its label. -/
inductive Run (M : Machine σ α) : List (σ × α) → σ → Prop
  | start {s : σ} : M.init s → Run M [] s
  | snoc {t : List (σ × α)} {s s' : σ} {a : α} :
      Run M t s → M.step s a s' → Run M (t ++ [(s, a)]) s'

/-- The states some run ends in, from an initial state on. -/
def Reachable (M : Machine σ α) (s : σ) : Prop := ∃ t, M.Run t s

theorem Reachable.init {s : σ} (h : M.init s) : M.Reachable s := ⟨[], .start h⟩

theorem Reachable.step {s s' : σ} {a : α} (h : M.Reachable s) (hs : M.step s a s') :
    M.Reachable s' := by
  obtain ⟨t, ht⟩ := h
  exact ⟨_, ht.snoc hs⟩

/-- **Invariants of runs.** What holds at the beginning and is kept by every step holds at
the end. -/
theorem Run.invariant {I : σ → Prop} (hinit : ∀ s, M.init s → I s)
    (hstep : ∀ s a s', I s → M.step s a s' → I s') {t : List (σ × α)} {s : σ}
    (h : M.Run t s) : I s := by
  induction h with
  | start h => exact hinit _ h
  | snoc _ hs ih => exact hstep _ _ _ ih hs

theorem Reachable.invariant {I : σ → Prop} (hinit : ∀ s, M.init s → I s)
    (hstep : ∀ s a s', I s → M.step s a s' → I s') {s : σ} (h : M.Reachable s) : I s := by
  obtain ⟨_, ht⟩ := h
  exact ht.invariant hinit hstep

/-- **Invariants of runs whose steps are all good.** It is enough that good steps keep the
property. -/
theorem Run.invariant_of_good {I : σ → Prop} {good : σ → α → Prop}
    (hinit : ∀ s, M.init s → I s)
    (hstep : ∀ s a s', I s → good s a → M.step s a s' → I s') {t : List (σ × α)} {s : σ}
    (h : M.Run t s) : (∀ x ∈ t, good x.1 x.2) → I s := by
  induction h with
  | start h => exact fun _ => hinit _ h
  | snoc _ hs ih =>
    intro hgood
    exact hstep _ _ _ (ih fun x hx => hgood x (List.mem_append_left _ hx))
      (hgood (_, _) (List.mem_append_right _ (List.mem_singleton_self _))) hs

/-- A run may be cut off after any of its steps. What is left of it is a run, which ends in the
state before the next step. -/
theorem Run.of_append {t t' : List (σ × α)} {s : σ} (h : M.Run (t ++ t') s) :
    ∃ s', M.Run t s' := by
  generalize hr : t ++ t' = r at h
  induction h generalizing t' with
  | start h =>
    obtain ⟨rfl, -⟩ := List.append_eq_nil_iff.mp hr
    exact ⟨_, .start h⟩
  | @snoc r s s' a hrun hs ih =>
    rcases List.eq_nil_or_concat t' with rfl | ⟨l, x, rfl⟩
    · rw [List.append_nil] at hr
      exact ⟨s', hr ▸ hrun.snoc hs⟩
    · rw [List.concat_eq_append, ← List.append_assoc] at hr
      exact ih (List.append_inj_left' hr rfl)

/-- **A property and the condition that decides it.** Let `J` hold initially and be kept by every
step that satisfies `good`. If, where `J` and `P` hold, a step keeps `P` exactly when it satisfies
`good`, then `P` holds in every state a run visits exactly when all its steps satisfy `good`. -/
theorem Run.visited_iff_of_inv {J P : σ → Prop} {good : σ → α → Prop}
    (hinit : ∀ s, M.init s → J s ∧ P s)
    (hinv : ∀ s a s', J s → good s a → M.step s a s' → J s')
    (hstep : ∀ s a s', J s → P s → M.step s a s' → (P s' ↔ good s a))
    {t : List (σ × α)} {s : σ} (h : M.Run t s) :
    ((∀ x ∈ t, P x.1) ∧ P s) ↔ ∀ x ∈ t, good x.1 x.2 := by
  have hJ := h.invariant_of_good (fun s hs => (hinit s hs).1) hinv
  induction h with
  | start h => exact ⟨fun _ => by simp, fun _ => ⟨by simp, (hinit _ h).2⟩⟩
  | @snoc t s s' a hrun hs ih =>
    have hJ' := hrun.invariant_of_good (fun s hs => (hinit s hs).1) hinv
    constructor
    · rintro ⟨hvis, hend⟩ x hx
      have hP := hvis _ (List.mem_append_right _ (List.mem_singleton_self _))
      have hgood := (ih hJ').mp ⟨fun y hy => hvis y (List.mem_append_left _ hy), hP⟩
      rcases List.mem_append.mp hx with hx | hx
      · exact hgood x hx
      · rw [List.mem_singleton.mp hx]
        exact (hstep _ _ _ (hJ' hgood) hP hs).mp hend
    · intro hgood
      have hbefore : ∀ x ∈ t, good x.1 x.2 := fun x hx => hgood x (List.mem_append_left _ hx)
      obtain ⟨hvis, hP⟩ := (ih hJ').mpr hbefore
      have hlast := hgood (_, _) (List.mem_append_right _ (List.mem_singleton_self _))
      refine ⟨fun x hx => ?_, (hstep _ _ _ (hJ' hbefore) hP hs).mpr hlast⟩
      rcases List.mem_append.mp hx with hx | hx
      · exact hvis x hx
      · rw [List.mem_singleton.mp hx]
        exact hP

/-- The same with the reachable states as `J`. What one step decides in a reachable state decides it
of the whole run. -/
theorem Run.visited_iff {P : σ → Prop} {good : σ → α → Prop} (hinit : ∀ s, M.init s → P s)
    (hstep : ∀ s a s', M.Reachable s → P s → M.step s a s' → (P s' ↔ good s a))
    {t : List (σ × α)} {s : σ} (h : M.Run t s) :
    ((∀ x ∈ t, P x.1) ∧ P s) ↔ ∀ x ∈ t, good x.1 x.2 :=
  h.visited_iff_of_inv (fun s hs => ⟨.init hs, hinit s hs⟩)
    (fun _ _ _ hJ _ hs => hJ.step hs) hstep

/-! ### Steps given by a function -/

section OfNext

variable {init : σ → Prop} {enabled : σ → α → Prop} {next : σ → α → σ}

/-- The machine that applies `next` to a label that is enabled. Its steps are determined by their
labels. -/
def ofNext (init : σ → Prop) (enabled : σ → α → Prop) (next : σ → α → σ) : Machine σ α where
  init := init
  step := fun s a s' => enabled s a ∧ s' = next s a

/-- The steps that a sequence of labels takes from `s`, each as the state before it and its label.
Nothing is asked of the labels. -/
def trace (next : σ → α → σ) : σ → List α → List (σ × α)
  | _, [] => []
  | s, a :: as => (s, a) :: trace next (next s a) as

theorem forall_trace_nil {P : σ × α → Prop} {s : σ} : (∀ x ∈ trace next s [], P x) ↔ True :=
  iff_of_true (fun _ hx => absurd hx List.not_mem_nil) trivial

/-- What holds of all steps, step by step. -/
theorem forall_trace_cons {P : σ × α → Prop} {s : σ} {a : α} {as : List α} :
    (∀ x ∈ trace next s (a :: as), P x) ↔ P (s, a) ∧ ∀ x ∈ trace next (next s a) as, P x :=
  List.forall_mem_cons

theorem snd_mem_of_mem_trace {as : List α} {x : σ × α} :
    ∀ {s : σ}, x ∈ trace next s as → x.2 ∈ as := by
  induction as with
  | nil => exact fun hx => absurd hx List.not_mem_nil
  | cons a as ih =>
    intro s hx
    rcases List.mem_cons.mp hx with rfl | hx
    · exact List.mem_cons_self
    · exact List.mem_cons_of_mem a (ih hx)

theorem Run.append_trace (as : List α) :
    ∀ {t : List (σ × α)} {s : σ}, (ofNext init enabled next).Run t s →
      (∀ x ∈ trace next s as, enabled x.1 x.2) →
      (ofNext init enabled next).Run (t ++ trace next s as) (as.foldl next s) := by
  induction as with
  | nil =>
    intro t s h _
    rw [trace, List.append_nil]
    exact h
  | cons a as ih =>
    intro t s h hen
    have hstep := h.snoc ⟨hen _ List.mem_cons_self, rfl⟩
    have hrest := ih hstep fun x hx => hen x (List.mem_cons_of_mem _ hx)
    rwa [List.append_assoc] at hrest

/-- A sequence of labels that are enabled one after the other is a run. This is how a concrete run
is written down: by its labels. -/
theorem run_trace {s : σ} (hs : init s) {as : List α}
    (hen : ∀ x ∈ trace next s as, enabled x.1 x.2) :
    (ofNext init enabled next).Run (trace next s as) (as.foldl next s) :=
  Run.append_trace as (.start hs) hen

end OfNext

end Machine

end TarkovVoice

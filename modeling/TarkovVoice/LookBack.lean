import Mathlib.Data.List.DropRight

/-!
# A gate with a look back

A source yields items tick by tick, and a gate decides at each tick whether they pass. The first
item of interest usually comes a little before the gate opens, so when it opens, the last `n`
items that were held back before it pass first. At some ticks the source is off, and what was held
back is forgotten.

`Stream` holds back everything, so it says what is meant. Something that runs keeps only the last
`n` items, and `rtake_rtake_append` is why that is enough.

## Main definitions

* `Tick`, `Stream`, `stream`

## Main results

* `held_stream` — what is held back, read off the ticks
* `passed_stream_of_opened` — what passes in a run of ticks with an open gate
* `passed_stream_sublist` — nothing passes twice or out of order
-/

namespace TarkovVoice

namespace LookBack

variable {γ : Type*}

/-- What happens at a tick: the source is on or off, and if it is on, then the gate is open or
closed to what it yields. -/
inductive Tick (γ : Type*)
  /-- The source is off. -/
  | off
  /-- It yields items, and the gate is closed. -/
  | closed (items : List γ)
  /-- It yields items, and the gate is open. -/
  | opened (items : List γ)

/-- The items of a tick. -/
def Tick.items : Tick γ → List γ
  | .off => []
  | .closed items => items
  | .opened items => items

/-- The gate is closed, with the source on. -/
def Tick.isClosed : Tick γ → Bool
  | .closed _ => true
  | _ => false

/-- The gate is open. -/
def Tick.isOpened : Tick γ → Bool
  | .opened _ => true
  | _ => false

/-- What was held back since it was last of use, and what has passed, from the beginning on. -/
structure Stream (γ : Type*) where
  held : List γ := []
  passed : List γ := []

/-- One tick, with a look back of `n` items. While the gate is closed all items are held back; only
the last `n` of them pass when it opens, in front of those of the tick. -/
def Stream.step (n : ℕ) (s : Stream γ) : Tick γ → Stream γ
  | .off => { s with held := [] }
  | .closed items => { s with held := s.held ++ items }
  | .opened items => { held := [], passed := s.passed ++ (s.held.rtake n ++ items) }

/-- The stream after some ticks. At first nothing is held back and nothing has passed. -/
def stream (n : ℕ) (l : List (Tick γ)) : Stream γ := l.foldl (Stream.step n) {}

variable {n : ℕ} {l before run after : List (Tick γ)}

theorem stream_concat (t : Tick γ) : stream n (l ++ [t]) = (stream n l).step n t := by
  rw [stream, List.foldl_append]
  rfl

/-- **What is held back** are the items of the ticks with a closed gate that come last. A tick with
the source switched off, or with an open gate, ends what is held back before it. -/
theorem held_stream (n : ℕ) (l : List (Tick γ)) :
    (stream n l).held = (l.rtakeWhile Tick.isClosed).flatMap Tick.items := by
  induction l using List.reverseRecOn with
  | nil => rfl
  | append_singleton l t ih =>
    rw [stream_concat]
    cases t with
    | off => rw [List.rtakeWhile_concat_neg _ _ _ Bool.noConfusion]; rfl
    | closed items =>
      rw [List.rtakeWhile_concat_pos _ _ _ rfl, List.flatMap_append, ← ih,
        List.flatMap_singleton]
      rfl
    | opened items => rw [List.rtakeWhile_concat_neg _ _ _ Bool.noConfusion]; rfl

/-- What has passed is only ever added to, and what is added does not depend on it. So runs can be
looked at one piece after the other. -/
theorem foldl_passed (n : ℕ) (l : List (Tick γ)) : ∀ s : Stream γ,
    (l.foldl (Stream.step n) s).passed =
      s.passed ++ (l.foldl (Stream.step n) { held := s.held }).passed := by
  induction l with
  | nil => exact fun s => (List.append_nil _).symm
  | cons t l ih =>
    intro s
    rw [List.foldl_cons, ih, List.foldl_cons, ih (Stream.step n { held := s.held } t)]
    cases t with
    | off => rfl
    | closed items => rfl
    | opened items =>
      show (s.passed ++ _) ++ _ = s.passed ++ (([] ++ _) ++ _)
      rw [List.append_assoc, List.nil_append]
      rfl

/-- While the gate stays open, everything passes, as it comes, and nothing is held back. -/
theorem foldl_opened (n : ℕ) (hrun : ∀ t ∈ run, t.isOpened) (s : Stream γ) (hs : s.held = []) :
    run.foldl (Stream.step n) s = { held := [], passed := s.passed ++ run.flatMap Tick.items } := by
  induction run generalizing s with
  | nil =>
    rw [List.flatMap_nil, List.append_nil, ← hs]
    rfl
  | cons t run ih =>
    have ht := hrun t (List.mem_cons_self ..)
    cases t with
    | off => exact absurd ht Bool.noConfusion
    | closed items => exact absurd ht Bool.noConfusion
    | opened items =>
      rw [List.foldl_cons, ih (fun t ht => hrun t (List.mem_cons_of_mem _ ht)) _ rfl,
        List.flatMap_cons, ← List.append_assoc]
      simp only [Stream.step, hs, List.rtake_nil, List.nil_append]
      rfl

/-- **What passes in a run of ticks with an open gate**: the last `n` items held back before it,
and then all of its own. -/
theorem passed_stream_of_opened (hne : run ≠ []) (hrun : ∀ t ∈ run, t.isOpened) :
    (stream n (before ++ run ++ after)).passed =
      (stream n before).passed ++ ((stream n before).held.rtake n ++ run.flatMap Tick.items) ++
        (stream n after).passed := by
  obtain ⟨t, run, rfl⟩ := List.exists_cons_of_ne_nil hne
  have ht := hrun t (List.mem_cons_self ..)
  cases t with
  | off => exact absurd ht Bool.noConfusion
  | closed items => exact absurd ht Bool.noConfusion
  | opened items =>
    rw [stream, List.foldl_append, List.foldl_append, List.foldl_cons,
      foldl_opened n (fun t ht => hrun t (List.mem_cons_of_mem _ ht)) _ rfl, foldl_passed]
    simp only [Stream.step, List.append_assoc, List.flatMap_cons, Tick.items]
    rfl

/-- **Nothing passes twice or out of order**, however often the gate opens and closes. What passes
is a sublist of all the items, in the order in which they came. -/
theorem passed_stream_sublist (n : ℕ) (l : List (Tick γ)) :
    (stream n l).passed.Sublist (l.flatMap Tick.items) := by
  have hall : ((stream n l).passed ++ (stream n l).held).Sublist (l.flatMap Tick.items) := by
    induction l using List.reverseRecOn with
    | nil => exact List.Sublist.refl _
    | append_singleton l t ih =>
      rw [stream_concat, List.flatMap_append, List.flatMap_singleton]
      cases t with
      | off =>
        exact (List.Sublist.append (List.Sublist.refl _) (List.nil_sublist _)).trans
          (ih.trans (List.sublist_append_left _ _))
      | closed items =>
        simp only [Stream.step, ← List.append_assoc]
        exact ih.append (List.Sublist.refl _)
      | opened items =>
        simp only [Stream.step, List.append_nil, ← List.append_assoc]
        exact (((List.Sublist.refl _).append (List.drop_sublist _ _)).trans ih).append
          (List.Sublist.refl _)
  exact (List.sublist_append_left _ _).trans hall

/-- **The last `n` items are enough to know the last `n` items** after more have come. So nothing
older needs to be kept. -/
theorem rtake_rtake_append (n : ℕ) (l m : List γ) :
    (l.rtake n ++ m).rtake n = (l ++ m).rtake n := by
  have hsplit : l.rtake n ++ m = (l ++ m).drop (l.length - n) := by
    rw [List.rtake, List.drop_append_of_le_length (Nat.sub_le _ _)]
  rw [hsplit, List.rtake, List.rtake, List.drop_drop, List.length_drop, List.length_append]
  congr 1
  omega

end LookBack

end TarkovVoice

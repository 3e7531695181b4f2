import Mathlib.Data.Set.Card
import TarkovVoice.Refinement

/-!
# A registry of rooms

What the coordinator is for, without its tables: who is in which room, and who hosts it. A registry
is always in order. A client is in one room at most, a room is open exactly as long as somebody is
in it, its host is in it, no room holds more than a limited number, and names are not used twice.

Three things happen. A client that is nowhere founds a room or enters an open one, and a client
leaves, wherever it is. When the host leaves, one of those who stay becomes the host, and the
registry does not say which.

## Main definitions

* `Registry`, `Registry.Action`, `Registry.machine`

## Main results

* `Registry.stays`, `Registry.hosts` — only leaving takes one out of a room, or a host its room
* `Registry.stays_closed` — a room that is closed is closed for good
-/

namespace TarkovVoice

namespace Coordinator

/-- Who is in which room, and who hosts it. A room is there as long as it has a host; a host is in
its room; no room has more members than the limit; and the names of rooms that are gone are
remembered. -/
@[ext] structure Registry (κ ρ : Type*) (limit : ℕ) where
  place : κ → Option ρ
  /-- The hosts of the rooms that are open. -/
  host : ρ → Option κ
  /-- The rooms that have been open. -/
  used : Set ρ
  host_place : ∀ {r k}, host r = some k → place k = some r
  host_of_place : ∀ {r k}, place k = some r → ∃ k', host r = some k'
  used_of_host : ∀ {r k}, host r = some k → r ∈ used
  limited : ∀ r, {k | place k = some r}.encard ≤ limit

namespace Registry

variable {κ ρ : Type*} {limit : ℕ}

/-- What a client does: it founds a room, enters one that is there and not full, or leaves the one
it is in. Leaving may pass the host's part on to any other member. -/
inductive Action (κ ρ : Type*)
  | found (k : κ) (r : ρ)
  | enter (k : κ) (r : ρ)
  | leave (k : κ)

section Step

variable [DecidableEq κ] [DecidableEq ρ]

/-- What becomes of a registry. A room is founded under a name that was never used, is entered if it
has a host, and when its host leaves it may have any other or be closed. -/
def Step (s : Registry κ ρ limit) : Action κ ρ → Registry κ ρ limit → Prop
  | .found k r, s' => s.place k = none ∧ r ∉ s.used ∧
      s'.place = Function.update s.place k (some r) ∧
      s'.host = Function.update s.host r (some k) ∧ s'.used = insert r s.used
  | .enter k r, s' => s.place k = none ∧ s.host r ≠ none ∧
      s'.place = Function.update s.place k (some r) ∧ s'.host = s.host ∧ s'.used = s.used
  | .leave k, s' => s'.place = Function.update s.place k none ∧
      (∀ r k', s.host r = some k' → k' ≠ k → s'.host r = some k') ∧ s'.used = s.used

variable (κ ρ limit) in
/-- The registry, from before anybody has come. -/
def machine : Machine (Registry κ ρ limit) (Action κ ρ) where
  init s := s.place = (fun _ => none) ∧ s.used = ∅
  step := Step

variable {s s' : Registry κ ρ limit} {k : κ} {r : ρ}
  {t : List (Registry κ ρ limit × Action κ ρ)}

/-- **One stays where one is** until one leaves. -/
theorem stays (h : (machine κ ρ limit).Path s t s') (hnot : .leave k ∉ t.map Prod.snd)
    (hk : s.place k = some r) : s'.place k = some r := by
  refine h.kept (fun s => s.place k = some r) (fun a => a ≠ .leave k) ?_ ?_ hk
  · intro u a v hu hgood hstep
    cases a with
    | found k' r' =>
      obtain ⟨hnone, -, hplace, -⟩ := hstep
      have hne : k ≠ k' := by
        rintro rfl
        exact absurd (hu.symm.trans hnone) (Option.some_ne_none r)
      rw [hplace, Function.update_of_ne hne]
      exact hu
    | enter k' r' =>
      obtain ⟨hnone, -, hplace, -⟩ := hstep
      have hne : k ≠ k' := by
        rintro rfl
        exact absurd (hu.symm.trans hnone) (Option.some_ne_none r)
      rw [hplace, Function.update_of_ne hne]
      exact hu
    | leave k' =>
      have hne : k ≠ k' := fun heq => hgood (heq ▸ rfl)
      rw [hstep.1, Function.update_of_ne hne]
      exact hu
  · exact fun a ha heq => hnot (heq ▸ ha)

/-- **A host hosts** until it leaves. -/
theorem hosts (h : (machine κ ρ limit).Path s t s') (hnot : .leave k ∉ t.map Prod.snd)
    (hk : s.host r = some k) : s'.host r = some k := by
  refine h.kept (fun s => s.host r = some k) (fun a => a ≠ .leave k) ?_ ?_ hk
  · intro u a v hu hgood hstep
    cases a with
    | found k' r' =>
      obtain ⟨-, hfresh, -, hhost, -⟩ := hstep
      have hne : r ≠ r' := by
        rintro rfl
        exact hfresh (u.used_of_host hu)
      rw [hhost, Function.update_of_ne hne]
      exact hu
    | enter k' r' =>
      rw [hstep.2.2.2.1]
      exact hu
    | leave k' => exact hstep.2.1 r k hu fun heq => hgood (heq ▸ rfl)
  · exact fun a ha heq => hnot (heq ▸ ha)

/-- **A room that is closed** is closed for good. -/
theorem stays_closed (h : (machine κ ρ limit).Path s t s') (hr : r ∈ s.used)
    (hclosed : s.host r = none) : r ∈ s'.used ∧ s'.host r = none := by
  refine h.kept (fun s => r ∈ s.used ∧ s.host r = none) (fun _ => True) ?_
    (fun _ _ => trivial) ⟨hr, hclosed⟩
  rintro u a v ⟨hused, hnone⟩ - hstep
  cases a with
  | found k' r' =>
    obtain ⟨-, hfresh, -, hhost, hnew⟩ := hstep
    have hne : r ≠ r' := by
      rintro rfl
      exact hfresh hused
    rw [hnew, hhost, Function.update_of_ne hne]
    exact ⟨Set.mem_insert_of_mem _ hused, hnone⟩
  | enter k' r' =>
    rw [hstep.2.2.2.1, hstep.2.2.2.2]
    exact ⟨hused, hnone⟩
  | leave k' =>
    refine ⟨hstep.2.2 ▸ hused, Option.eq_none_iff_forall_ne_some.mpr fun k hk => ?_⟩
    -- A host of it would have been in it before.
    have hplace := v.host_place hk
    rw [hstep.1, Function.update_apply] at hplace
    split at hplace
    · exact absurd hplace.symm (Option.some_ne_none r)
    · obtain ⟨k', hk'⟩ := u.host_of_place hplace
      exact absurd (hk'.symm.trans hnone) (Option.some_ne_none k')

end Step

end Registry

end Coordinator

end TarkovVoice

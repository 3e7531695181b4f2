import Mathlib.Data.List.Pairwise
import TarkovVoice.Newest

/-!
# Delivery over two paths

A sender gives each item to one or both of two paths. On the direct path an item may be repeated,
and the receiver keeps what is newer than all it has kept. On the relay path items wait in order,
and the receiver accepts or ignores each. Items are sent in the order of their keys.

Nothing gets lost exactly when each item is given to a path, and the receiver ignores on the relay
path only what has also been given to the direct path.

## Main definitions

* `TwoPaths`, with `send`, `read`, `take`
* `TwoPaths.Reaches` — every item is played, or still on a path that will play it
* `TwoPaths.Inv`

## Main results

* `TwoPaths.Inv.send`, `Inv.read`, `Inv.take` — what each operation does to `Reaches`
-/

namespace TarkovVoice

variable {γ κ : Type*} [LinearOrder κ]

/-- The items sent, those given to the direct path, what is on each path, what the receiver has
played, and the key of the last item it kept of the direct path. -/
@[ext] structure TwoPaths (γ κ : Type*) where
  sent : List γ
  carried : List γ
  flight : List γ
  relay : List γ
  played : List γ
  last : WithBot κ

namespace TwoPaths

variable (key : γ → κ) (s : TwoPaths γ κ)

/-- An item is sent: `copies` times over the direct path, and over the relay path if `relays`. -/
def send (x : γ) (copies : ℕ) (relays : Bool) : TwoPaths γ κ :=
  { s with
    sent := s.sent ++ [x]
    carried := if 0 < copies then s.carried ++ [x] else s.carried
    flight := s.flight ++ List.replicate copies x
    relay := if relays then s.relay ++ [x] else s.relay }

/-- The receiver reads `l` of the direct path, which leaves `rest`. It plays what is newer than all
it has taken from this path, in the order in which it is read. -/
def read (l rest : List γ) : TwoPaths γ κ :=
  { s with
    flight := rest
    played := s.played ++ newest key s.last l
    last := lastKey key s.last l }

/-- The receiver accepts or ignores `x`, the first item of the relay path, which leaves `rest`.
Which of the two is not decided here: the receiver may look at anything. -/
def take (x : γ) (rest : List γ) (accept : Bool) : TwoPaths γ κ :=
  { s with
    relay := rest
    played := if accept then s.played ++ [x] else s.played }

/-- Every item that was sent has been played, would be if the receiver read the direct path, or
waits on the relay path. So none is lost for good. -/
def Reaches : Prop :=
  ∀ x ∈ s.sent, x ∈ s.played ∨ x ∈ newest key s.last s.flight ∨ x ∈ s.relay

/-- The paths hold what was sent, in order. What was given to the direct path is played or will be,
and everything else that was played came before all that waits on the relay path. -/
structure Inv : Prop where
  sent : s.sent.Pairwise fun x y => key x < key y
  carried : s.carried ⊆ s.sent
  flight : s.flight.Pairwise fun x y => key x ≤ key y
  flight_subset : s.flight ⊆ s.carried
  relay : s.relay.Pairwise fun x y => key x < key y
  relay_subset : s.relay ⊆ s.sent
  last : s.last ≤ lastKey key ⊥ s.sent
  arrives : ∀ x ∈ s.carried, x ∈ s.played ∨ x ∈ s.flight ∧ s.last < key x
  played : ∀ x ∈ s.played, x ∈ s.sent ∧ (x ∈ s.carried ∨ ∀ y ∈ s.relay, key x < key y)

variable {key s}

/-- Items with one key are one item, as the sender never gives a key twice. -/
theorem Inv.eq_of_key_eq (h : s.Inv key) {x y : γ} (hx : x ∈ s.sent) (hy : y ∈ s.sent)
    (hxy : key x = key y) : x = y := by
  by_contra hne
  have : Std.Symm fun x y : γ => key x ≠ key y := ⟨fun _ _ h => h.symm⟩
  exact (h.sent.imp fun hlt => hlt.ne).forall hx hy hne hxy

/-- What reading the direct path would keep: what is newer than all that was kept. The path is
sorted and may hold copies, but no two items with one key. -/
theorem Inv.mem_newest_iff (h : s.Inv key) {x : γ} :
    x ∈ newest key s.last s.flight ↔ x ∈ s.flight ∧ s.last < key x :=
  TarkovVoice.mem_newest_iff h.flight fun _ hy _ hz =>
    h.eq_of_key_eq (h.carried (h.flight_subset hy)) (h.carried (h.flight_subset hz))

theorem Inv.last_lt (h : s.Inv key) {x : γ} (hx : ∀ y ∈ s.sent, key y < key x) :
    s.last < key x := by
  refine h.last.trans_lt ?_
  rcases @lastKey_eq_or _ _ _ key ⊥ s.sent with hbot | ⟨y, hy, hlast⟩
  · rw [hbot]
    exact WithBot.bot_lt_coe _
  · rw [hlast]
    exact WithBot.coe_lt_coe.mpr (hx y hy)

/-! ### Sending -/

theorem Inv.send (h : s.Inv key) {x : γ} (hx : ∀ y ∈ s.sent, key y < key x) (copies : ℕ)
    (relays : Bool) : (s.send x copies relays).Inv key := by
  have hsent : ∀ {y}, y ∈ s.sent → y ∈ s.sent ++ [x] := fun hy => List.mem_append_left _ hy
  have hlast : x ∈ s.sent ++ [x] := List.mem_append_right _ (List.mem_singleton_self x)
  have hsnoc : ∀ {l : List γ}, l.Pairwise (fun y z => key y < key z) → l ⊆ s.sent →
      (l ++ [x]).Pairwise fun y z => key y < key z := fun hl hsub =>
    List.pairwise_append.mpr ⟨hl, List.pairwise_singleton _ x, fun y hy z hz => by
      rw [List.mem_singleton.mp hz]
      exact hx y (hsub hy)⟩
  refine ⟨hsnoc h.sent fun _ hy => hy, fun y hy => ?_, ?_, fun y hy => ?_, ?_, fun y hy => ?_, ?_,
    fun y hy => ?_, fun y hy => ?_⟩
  · change y ∈ (if 0 < copies then _ else _) at hy
    split at hy
    · exact (List.mem_append.mp hy).elim (fun hy => hsent (h.carried hy)) fun hy =>
        List.mem_singleton.mp hy ▸ hlast
    · exact hsent (h.carried hy)
  · refine List.pairwise_append.mpr ⟨h.flight, List.pairwise_replicate.mpr (Or.inr le_rfl),
      fun y hy z hz => ?_⟩
    rw [List.eq_of_mem_replicate hz]
    exact (hx y (h.carried (h.flight_subset hy))).le
  · show y ∈ (if 0 < copies then _ else _)
    rcases List.mem_append.mp hy with hy | hy
    · split
      · exact List.mem_append_left _ (h.flight_subset hy)
      · exact h.flight_subset hy
    · obtain ⟨hcopies, rfl⟩ := List.mem_replicate.mp hy
      rw [if_pos (Nat.pos_of_ne_zero hcopies)]
      exact List.mem_append_right _ (List.mem_singleton_self _)
  · show (if relays then _ else _ : List γ).Pairwise _
    split
    · exact hsnoc h.relay h.relay_subset
    · exact h.relay
  · change y ∈ (if relays then _ else _ : List γ) at hy
    split at hy
    · exact (List.mem_append.mp hy).elim (fun hy => hsent (h.relay_subset hy)) fun hy =>
        List.mem_singleton.mp hy ▸ hlast
    · exact hsent (h.relay_subset hy)
  · show s.last ≤ lastKey key ⊥ (s.sent ++ [x])
    rw [lastKey_append]
    exact h.last.trans (le_lastKey _)
  · change y ∈ (if 0 < copies then _ else _) at hy
    have hold : y ∈ s.carried → y ∈ s.played ∨ y ∈ s.flight ++ List.replicate copies x ∧
        s.last < key y := fun hy =>
      (h.arrives y hy).imp id (And.imp_left fun hy => List.mem_append_left _ hy)
    split at hy
    · next hcopies =>
      rcases List.mem_append.mp hy with hy | hy
      · exact hold hy
      · rw [List.mem_singleton.mp hy]
        exact Or.inr ⟨List.mem_append_right _ (List.mem_replicate.mpr ⟨hcopies.ne', rfl⟩),
          h.last_lt hx⟩
    · exact hold hy
  · obtain ⟨hmem, hbefore⟩ := h.played y hy
    refine ⟨hsent hmem, hbefore.imp (fun hy => ?_) fun hall z hz => ?_⟩
    · show y ∈ (if 0 < copies then _ else _)
      split
      · exact List.mem_append_left _ hy
      · exact hy
    · change z ∈ (if relays then _ else _ : List γ) at hz
      split at hz
      · rcases List.mem_append.mp hz with hz | hz
        · exact hall z hz
        · rw [List.mem_singleton.mp hz]
          exact hx y hmem
      · exact hall z hz

/-- **Sending** loses the item exactly when it is given to neither path, and never another one. Its
key exceeds those of all items sent before. -/
theorem Inv.reaches_send (h : s.Inv key) {x : γ} (hx : ∀ y ∈ s.sent, key y < key x) (copies : ℕ)
    (relays : Bool) (hs : s.Reaches key) :
    (s.send x copies relays).Reaches key ↔ 0 < copies ∨ relays = true := by
  have hnew : x ∉ s.sent := fun hmem => lt_irrefl _ (hx x hmem)
  have hinv := h.send hx copies relays
  constructor
  · intro hall
    rcases hall x (List.mem_append_right _ (List.mem_singleton_self x)) with hp | hf | hr
    · exact absurd (h.played x hp).1 hnew
    · rcases List.mem_append.mp (hinv.mem_newest_iff.mp hf).1 with hf | hf
      · exact absurd (h.carried (h.flight_subset hf)) hnew
      · exact Or.inl (Nat.pos_of_ne_zero (List.mem_replicate.mp hf).1)
    · change x ∈ (if relays then _ else _ : List γ) at hr
      split at hr
      · next hrelays => exact Or.inr hrelays
      · exact absurd (h.relay_subset hr) hnew
  · intro hgiven y hy
    rcases List.mem_append.mp hy with hy | hy
    · rcases hs y hy with hp | hf | hr
      · exact Or.inl hp
      · obtain ⟨hf, hlt⟩ := h.mem_newest_iff.mp hf
        exact Or.inr (Or.inl (hinv.mem_newest_iff.mpr ⟨List.mem_append_left _ hf, hlt⟩))
      · refine Or.inr (Or.inr ?_)
        show y ∈ (if relays then _ else _ : List γ)
        split
        · exact List.mem_append_left _ hr
        · exact hr
    · rw [List.mem_singleton.mp hy]
      right
      rcases hgiven with hcopies | hrelays
      · exact Or.inl (hinv.mem_newest_iff.mpr ⟨List.mem_append_right _
          (List.mem_replicate.mpr ⟨hcopies.ne', rfl⟩), h.last_lt hx⟩)
      · right
        show x ∈ (if relays then _ else _ : List γ)
        rw [if_pos hrelays]
        exact List.mem_append_right _ (List.mem_singleton_self x)

/-! ### Reading the direct path -/

theorem Inv.read (h : s.Inv key) {l rest : List γ} (hl : s.flight = l ++ rest) :
    (s.read key l rest).Inv key := by
  have hsplit := h.flight
  rw [hl] at hsplit
  have hfirst : ∀ y ∈ l, y ∈ s.carried := fun y hy =>
    h.flight_subset (hl ▸ List.mem_append_left _ hy)
  have hrest : ∀ y ∈ rest, y ∈ s.carried := fun y hy =>
    h.flight_subset (hl ▸ List.mem_append_right _ hy)
  refine ⟨h.sent, h.carried, (List.pairwise_append.mp hsplit).2.1, hrest, h.relay, h.relay_subset,
    ?_, fun y hy => ?_, fun y hy => ?_⟩
  · rcases @lastKey_eq_or _ _ _ key s.last l with hsame | ⟨y, hy, hlast⟩
    · exact hsame.le.trans h.last
    · exact hlast.le.trans (key_le_lastKey (h.carried (hfirst y hy)))
  · rcases h.arrives y hy with hp | hf
    · exact Or.inl (List.mem_append_left _ hp)
    · have hkept := h.mem_newest_iff.mpr hf
      rw [hl, newest_append] at hkept
      rcases List.mem_append.mp hkept with hkept | hkept
      · exact Or.inl (List.mem_append_right _ hkept)
      · exact Or.inr ⟨(newest_sublist rest).subset hkept, lt_of_mem_newest hkept⟩
  · rcases List.mem_append.mp hy with hy | hy
    · exact h.played y hy
    · have hmem := hfirst y ((newest_sublist l).subset hy)
      exact ⟨h.carried hmem, Or.inl hmem⟩

/-- **Reading** loses nothing, and brings nothing back. What it does not play had been played before
or is a copy, or had been lost already. -/
theorem reaches_read {l rest : List γ} (hl : s.flight = l ++ rest) :
    (s.read key l rest).Reaches key ↔ s.Reaches key := by
  refine forall₂_congr fun x _ => ?_
  show x ∈ s.played ++ newest key s.last l ∨ x ∈ newest key (lastKey key s.last l) rest ∨ _ ↔ _
  rw [hl, newest_append, List.mem_append, List.mem_append, or_assoc, or_assoc]
  rfl

/-! ### Taking from the relay path -/

theorem Inv.take (h : s.Inv key) {x : γ} {rest : List γ} (hx : s.relay = x :: rest)
    (accept : Bool) : (s.take x rest accept).Inv key := by
  have hsorted := h.relay
  rw [hx] at hsorted
  obtain ⟨hlt, hrest⟩ := List.pairwise_cons.mp hsorted
  have hsub : x :: rest ⊆ s.sent := hx ▸ h.relay_subset
  have hold : ∀ y ∈ s.played, y ∈ s.sent ∧ (y ∈ s.carried ∨ ∀ z ∈ rest, key y < key z) := by
    intro y hy
    obtain ⟨hmem, hbefore⟩ := h.played y hy
    exact ⟨hmem, hbefore.imp id fun hall z hz => hall z (hx ▸ List.mem_cons_of_mem _ hz)⟩
  refine ⟨h.sent, h.carried, h.flight, h.flight_subset, hrest,
    fun y hy => hsub (List.mem_cons_of_mem _ hy), h.last, fun y hy => ?_, fun y hy => ?_⟩
  · refine (h.arrives y hy).imp (fun hp => ?_) id
    show y ∈ (if accept then _ else _ : List γ)
    split
    · exact List.mem_append_left _ hp
    · exact hp
  · change y ∈ (if accept then _ else _ : List γ) at hy
    split at hy
    · rcases List.mem_append.mp hy with hy | hy
      · exact hold y hy
      · rw [List.mem_singleton.mp hy]
        exact ⟨hsub List.mem_cons_self, Or.inr hlt⟩
    · exact hold y hy

/-- **Taking** an item from the relay path loses it exactly when it is ignored without having been
given to the direct path. -/
theorem Inv.reaches_take (h : s.Inv key) {x : γ} {rest : List γ} (hx : s.relay = x :: rest)
    (accept : Bool) (hs : s.Reaches key) :
    (s.take x rest accept).Reaches key ↔ accept = true ∨ x ∈ s.carried := by
  have hsorted := h.relay
  rw [hx] at hsorted
  obtain ⟨hlt, -⟩ := List.pairwise_cons.mp hsorted
  have hmem : x ∈ s.relay := hx ▸ List.mem_cons_self
  constructor
  · intro hall
    cases accept with
    | true => exact Or.inl rfl
    | false =>
      right
      rcases hall x (h.relay_subset hmem) with hp | hf | hr
      · exact (h.played x hp).2.resolve_right fun hbefore => lt_irrefl _ (hbefore x hmem)
      · exact h.flight_subset (h.mem_newest_iff.mp hf).1
      · exact absurd (hlt x hr) (lt_irrefl _)
  · intro hkeep y hy
    have hplayed : ∀ {z}, z ∈ s.played → z ∈ (s.take x rest accept).played := by
      intro z hz
      show z ∈ (if accept then _ else _ : List γ)
      split
      · exact List.mem_append_left _ hz
      · exact hz
    rcases hs y hy with hp | hf | hr
    · exact Or.inl (hplayed hp)
    · exact Or.inr (Or.inl hf)
    · rw [hx] at hr
      rcases List.mem_cons.mp hr with rfl | hr
      · rcases hkeep with haccept | hcarried
        · left
          show y ∈ (if accept then _ else _ : List γ)
          rw [if_pos haccept]
          exact List.mem_append_right _ (List.mem_singleton_self y)
        · exact (h.arrives y hcarried).imp hplayed fun hf => Or.inl (h.mem_newest_iff.mpr hf)
      · exact Or.inr (Or.inr hr)

end TwoPaths

end TarkovVoice

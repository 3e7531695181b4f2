import TarkovVoice.Coordinator.History
import TarkovVoice.Coordinator.Registry
import TarkovVoice.Coordinator.Stranding

/-!
# The hub is a registry

Every reachable hub stands for a registry, and every event for what the client asked for: founding a
room is leaving the old one and founding, joining is leaving and entering, and losing the connection
is leaving. Joining the room one is alone in is leaving it: the room is closed before it is entered.
All other events leave the registry alone.

What a registry keeps, the hub keeps. As long as a client does not ask for anything else, it stays
in its room, the room stays, and a host stays the host, whatever everybody else does. A room that is
gone does not come back.

## Main definitions

* `Hub.place`, `Hub.host`, `Hub.used`, `Hub.registry`
* `Hub.moves` — what an event does to the registry
* `Hub.simulation`

## Main results

* `Hub.refines_registry` — runs of the hub are runs of the registry
* `Hub.membership_lasts` — what lasts until a client leaves
-/

namespace TarkovVoice

namespace Coordinator

namespace Hub

open Registry (Action)

variable {w : Ambient} {h h' : Hub} {c : ClientPtr} {env : Envelope} {rid k : String}

/-! ### The registry of a hub -/

/-- The room that the client registered under `k` is in, if it is in one that is there. A stranded
client is nowhere, whatever its record says. -/
def place (h : Hub) (k : String) : Option String :=
  match h.clients.get k with
  | some p => if (h.rooms.get (h.client p).roomID).isSome then some (h.client p).roomID else none
  | none => none

/-- The host of a room that is there. -/
def host (h : Hub) (rid : String) : Option String :=
  (h.rooms.get rid).map fun r => (h.room r).hostID

/-- The ids of the rooms there have been, also of those that are gone. The registry never gives an
id twice. -/
def used (h : Hub) : Set String := {rid | ∃ r < h.nextRoom, (h.room r).id = rid}

theorem place_eq_some : h.place k = some rid ↔
    (∃ p, h.Occupies rid k p) ∧ ∃ r, h.rooms.get rid = some r := by
  rw [place]
  constructor
  · intro hplace
    split at hplace
    · next p hp =>
      split at hplace
      · next hopen =>
        have hrid : (h.client p).roomID = rid := Option.some.inj hplace
        exact ⟨⟨p, hp, hrid⟩, Option.isSome_iff_exists.mp (hrid ▸ hopen)⟩
      · exact absurd hplace.symm (Option.some_ne_none rid)
    · exact absurd hplace.symm (Option.some_ne_none rid)
  · rintro ⟨⟨p, hp, rfl⟩, hopen⟩
    rw [hp]
    exact if_pos (Option.isSome_iff_exists.mpr hopen)

theorem host_eq_some {k' : String} : h.host rid = some k' ↔
    ∃ r, h.rooms.get rid = some r ∧ (h.room r).hostID = k' := Option.map_eq_some_iff

theorem host_eq_none : h.host rid = none ↔ h.rooms.get rid = none := Option.map_eq_none_iff

/-- The members of a room, in the terms of the registry. -/
theorem Inv.place_iff (hi : h.Inv) {r : RoomPtr} (hr : h.rooms.get rid = some r) :
    h.place k = some rid ↔ k ∈ (h.room r).peers.keys := by
  rw [place_eq_some, FMap.mem_keys]
  constructor
  · rintro ⟨⟨p, hp⟩, -⟩
    exact ⟨p, ((hi.rooms_ok hr).peers_iff k p).mpr hp⟩
  · rintro ⟨p, hp⟩
    exact ⟨⟨p, ((hi.rooms_ok hr).peers_iff k p).mp hp⟩, r, hr⟩

/-- **The registry a hub stands for.** The invariant of the hub is what makes it one: a host is in
its room, a room is open while somebody is in it, and nobody exceeds the limit. -/
def registry (h : Hub) (hi : h.Inv) : Registry String String maxPeersPerRoom where
  place := h.place
  host := h.host
  used := h.used
  host_place := by
    intro rid k hhost
    obtain ⟨r, hr, rfl⟩ := host_eq_some.mp hhost
    exact (hi.place_iff hr).mpr (FMap.mem_keys.mpr (hi.rooms_ok hr).host)
  host_of_place := by
    intro rid k hplace
    obtain ⟨-, r, hr⟩ := place_eq_some.mp hplace
    exact ⟨_, host_eq_some.mpr ⟨r, hr, rfl⟩⟩
  used_of_host := by
    intro rid k hhost
    obtain ⟨r, hr, -⟩ := host_eq_some.mp hhost
    exact ⟨r, (hi.rooms_ok hr).lt, (hi.rooms_ok hr).id⟩
  limited := by
    intro rid
    cases hr : h.rooms.get rid with
    | none =>
      have hnobody : {k | h.place k = some rid} = ∅ := by
        refine Set.eq_empty_of_forall_notMem fun k hk => ?_
        obtain ⟨-, r, hr'⟩ := place_eq_some.mp hk
        exact absurd (hr'.symm.trans hr) (Option.some_ne_none r)
      rw [hnobody, Set.encard_empty]
      exact zero_le
    | some r =>
      have hmembers :
          {k | h.place k = some rid} = ((h.room r).peers.keys.toFinset : Set String) := by
        ext k
        rw [Finset.mem_coe, List.mem_toFinset]
        exact hi.place_iff hr
      rw [hmembers, Set.encard_coe_eq_coe_finsetCard, Nat.cast_le]
      exact (List.toFinset_card_le _).trans (hi.rooms_ok hr).peers_le

/-- The hub stands for the registry: who is where, who hosts what and which room ids were used can
be read off the hub. -/
structure StandsFor (h : Hub) (u : Registry String String maxPeersPerRoom) : Prop where
  place : u.place = h.place
  host : u.host = h.host
  used : u.used = h.used

theorem Inv.standsFor (hi : h.Inv) : h.StandsFor (h.registry hi) := ⟨rfl, rfl, rfl⟩

/-! ### What does not matter -/

/-- The same tables, as far as the registry goes. Nicks, names, locks and queues may differ. -/
structure SameRegistry (h h' : Hub) : Prop where
  place : h'.place = h.place
  host : h'.host = h.host
  used : h'.used = h.used

theorem SameRegistry.standsFor (hs : h.SameRegistry h')
    {u : Registry String String maxPeersPerRoom} (hu : h.StandsFor u) : h'.StandsFor u :=
  ⟨hu.place.trans hs.place.symm, hu.host.trans hs.host.symm, hu.used.trans hs.used.symm⟩

theorem sameRegistry_deliver (mail : Mail) : h.SameRegistry (h.deliver mail) := ⟨rfl, rfl, rfl⟩

theorem sameRegistry_enqueue (c : ClientPtr) (env : Envelope) : h.SameRegistry (h.enqueue c env) :=
  ⟨rfl, rfl, rfl⟩

theorem SameRegistry.deliver (hs : h.SameRegistry h') (mail : Mail) :
    h.SameRegistry (h'.deliver mail) := ⟨hs.place, hs.host, hs.used⟩

theorem sameRegistry_updateNick (c : ClientPtr) (env : Envelope) :
    h.SameRegistry (h.updateNick c env) := by
  have hplace : (h.updateNick c env).place = h.place := by
    funext k
    simp only [place, roomID_updateNick]
    rw [updateNick_eq]
  refine ⟨hplace, ?_, ?_⟩ <;> rw [updateNick_eq] <;> rfl

/-- A client connects, and is nowhere. -/
theorem Inv.sameRegistry_addClient (hi : h.Inv) {id nick : String} {cap : ℕ}
    (hfresh : ∀ c < h.nextClient, (h.client c).id ≠ id) :
    h.SameRegistry ((h.newClient id nick cap).addClient h.nextClient) := by
  have hself : ((h.newClient id nick cap).addClient h.nextClient).client h.nextClient =
      ⟨id, nick, ""⟩ := Function.update_self ..
  have hclients : ((h.newClient id nick cap).addClient h.nextClient).clients =
      h.clients.put id h.nextClient := by simp [newClient, Hub.addClient]
  refine ⟨?_, rfl, rfl⟩
  funext k
  refine Option.ext fun rid => ?_
  rw [place_eq_some, place_eq_some]
  refine and_congr_left fun hopen => exists_congr fun p => ?_
  obtain ⟨r, hr⟩ := hopen
  rw [Occupies, Occupies, hclients, FMap.get_put]
  split
  · next hk =>
    -- Nobody was registered under the new id, and no room is without a name.
    refine iff_of_false ?_ ?_
    · rintro ⟨hp, hroom⟩
      obtain rfl := Option.some.inj hp
      rw [hself] at hroom
      exact (hi.rooms_ok hr).named hroom.symm
    · rintro ⟨hp, -⟩
      exact hfresh p (hi.client_lt hp) ((hi.clients_keyed hp).trans hk)
  · refine and_congr_right fun hp => ?_
    have hne : p ≠ h.nextClient := Nat.ne_of_lt (hi.client_lt hp)
    have hother : ((h.newClient id nick cap).addClient h.nextClient).client p = h.client p :=
      Function.update_of_ne hne _ _
    rw [hother]

/-! ### Leaving -/

/-- A client is gone from its room: it left, or its connection ended. The rooms that others are in
stay, and keep their hosts unless the host is the client. -/
structure Gone (h h' : Hub) (c : ClientPtr) : Prop where
  inv : h'.Inv
  occupies : ∀ {rid k p}, rid ≠ "" → (h'.Occupies rid k p ↔ p ≠ c ∧ h.Occupies rid k p)
  nextRoom : h'.nextRoom = h.nextRoom
  room_id : ∀ r, (h'.room r).id = (h.room r).id
  hostID : ∀ r, (h.room r).hostID ≠ (h.client c).id → (h'.room r).hostID = (h.room r).hostID
  rooms : ∀ {rid r}, h'.rooms.get rid = some r → h.rooms.get rid = some r
  /-- A room survives when there is anybody else in it. -/
  survives : ∀ {rid r k p}, h.rooms.get rid = some r → p ≠ c → h.Occupies rid k p →
    h'.rooms.get rid = some r

/-- **Leaving is leaving**: where a client is gone from its room, the registry has taken the action
of that. -/
theorem Gone.step (hg : h.Gone h' c) (hi : h.Inv) (hc : h.Registered c)
    {u : Registry String String maxPeersPerRoom} (hu : h.StandsFor u) :
    ∃ u', u.Step (.leave (h.client c).id) u' ∧ h'.StandsFor u' := by
  refine ⟨h'.registry hg.inv, ⟨?_, ?_, ?_⟩, hg.inv.standsFor⟩
  · show h'.place = _
    rw [hu.place]
    funext k
    refine Option.ext fun rid => ?_
    rw [Function.update_apply]
    constructor
    · intro hplace
      obtain ⟨⟨p, hp⟩, r, hr⟩ := place_eq_some.mp hplace
      obtain ⟨hpc, hocc⟩ := (hg.occupies (hg.inv.rooms_ok hr).named).mp hp
      have hk : k ≠ (h.client c).id := fun heq => hpc (hc.eq_of_id hocc.1 heq)
      rw [if_neg hk]
      exact place_eq_some.mpr ⟨⟨p, hocc⟩, r, hg.rooms hr⟩
    · intro hplace
      split at hplace
      · exact absurd hplace.symm (Option.some_ne_none rid)
      · next hk =>
        obtain ⟨⟨p, hp⟩, r, hr⟩ := place_eq_some.mp hplace
        have hpc : p ≠ c := by
          rintro rfl
          exact hk (hi.clients_keyed hp.1).symm
        exact place_eq_some.mpr
          ⟨⟨p, (hg.occupies (hi.rooms_ok hr).named).mpr ⟨hpc, hp⟩⟩, r, hg.survives hr hpc hp⟩
  · intro rid k hhost hk
    rw [hu.host] at hhost
    obtain ⟨r, hr, rfl⟩ := host_eq_some.mp hhost
    obtain ⟨p, hp⟩ := (hi.rooms_ok hr).host
    have hocc := ((hi.rooms_ok hr).peers_iff _ p).mp hp
    have hpc : p ≠ c := by
      rintro rfl
      exact hk (hi.clients_keyed hocc.1).symm
    exact host_eq_some.mpr ⟨r, hg.survives hr hpc hocc, hg.hostID r hk⟩
  · show h'.used = _
    rw [hu.used, used, used, hg.nextRoom]
    simp only [hg.room_id]

/-- The room that is left behind keeps its host, unless the host is the one who leaves. Then the
member with the least id becomes it. -/
theorem LeftBehind.hostID_eq {old new : Room} (hl : h.LeftBehind c old new)
    (hne : old.hostID ≠ (h.client c).id) : new.hostID = old.hostID := by
  rcases hl.host with ⟨-, hhost, -⟩ | ⟨hhost, -⟩
  · exact hhost
  · exact absurd hhost hne

theorem hostID_update {r : RoomPtr} {room' : Room} {own : String}
    (hroom' : (h.room r).hostID ≠ own → room'.hostID = (h.room r).hostID) (r' : RoomPtr)
    (hne : (h.room r').hostID ≠ own) :
    (Function.update h.room r room' r').hostID = (h.room r').hostID := by
  by_cases hr : r' = r
  · subst hr
    rw [Function.update_self]
    exact hroom' hne
  · rw [Function.update_of_ne hr]

/-- Whoever else is in a room is left behind in it. -/
theorem Inv.not_last (hi : h.Inv) {r : RoomPtr} {p : ClientPtr} (hr : h.rooms.get rid = some r)
    (hpc : p ≠ c) (hp : h.Occupies rid k p) (hc : h.Registered c) :
    ((h.room r).peers.delete (h.client c).id).len ≠ 0 := by
  intro hlast
  have hk : k ≠ (h.client c).id := fun heq => hpc (hc.eq_of_id hp.1 heq)
  have hmem := ((hi.rooms_ok hr).peers_iff k p).mpr hp
  rw [← FMap.get_delete_of_ne _ hk, FMap.len_eq_zero_iff.mp hlast k] at hmem
  exact absurd hmem.symm (Option.some_ne_none p)

theorem Inv.gone_leaveRoomLocked (hi : h.Inv) (hc : h.Registered c) :
    h.Gone (h.leaveRoomLocked w c) c := by
  obtain ⟨hi', hl⟩ := hi.leaveRoomLocked (w := w) hc
  refine ⟨hi', fun {rid k p} hne => ?_, hl.nextRoom, hl.room_id, fun r hhost => ?_, hl.rooms,
    fun {rid r k p} hr hpc hp => ?_⟩
  · rw [Occupies, Occupies, hl.clients]
    by_cases hpc : p = c
    · subst hpc
      rw [hl.roomID]
      exact iff_of_false (fun hp => hne hp.2.symm) fun hp => hp.1 rfl
    · rw [hl.roomID_of_ne p hpc]
      exact ⟨fun hp => ⟨hpc, hp⟩, fun hp => hp.2⟩
  · rcases leaveRoomLocked_cases (w := w) (c := c) (fun rid r hr => hi.room_keyed hr) with
      ⟨-, heq⟩ | ⟨-, -, heq⟩ | ⟨r₀, -, -, -, heq⟩ | ⟨r₀, room', -, -, -, hleft, heq⟩ <;> rw [heq]
    · rfl
    · refine hostID_update ?_ r hhost
      exact fun _ => rfl
    · exact hostID_update hleft.hostID_eq r hhost
  · rcases hl.survives hr with hlive | ⟨-, -, hlast⟩
    · exact hlive
    · exact absurd hlast (hi.not_last hr hpc hp hc)

theorem Inv.gone_removeClient (hi : h.Inv) (hc : h.Registered c) :
    h.Gone (h.removeClient w c) c := by
  obtain ⟨hclient, hclients⟩ := hi.removeClient_tables (w := w) c
  have hocc : ∀ {rid k p}, rid ≠ "" →
      ((h.removeClient w c).Occupies rid k p ↔ p ≠ c ∧ h.Occupies rid k p) := by
    intro rid k p _
    rw [Occupies, hclient, hclients]
    constructor
    · rintro ⟨hp, hroom⟩
      obtain ⟨hk, hold⟩ := FMap.get_of_get_delete hp
      refine ⟨?_, hold, hroom⟩
      rintro rfl
      exact hk (hi.clients_keyed hold).symm
    · rintro ⟨hpc, hp, hroom⟩
      have hk : k ≠ (h.client c).id := fun heq => hpc (hc.eq_of_id hp heq)
      exact ⟨(FMap.get_delete_of_ne _ hk).trans hp, hroom⟩
  have hkeyed := hi.clients_keyed.delete (h.client c).id
  have hi' := hi.removeClient (w := w) hc
  rcases removeClient_cases (w := w) (c := c) (fun rid r hr => hi.room_keyed hr) with
    ⟨-, heq⟩ | ⟨-, -, heq⟩ | ⟨r₀, -, hr₀, hlast, heq⟩ | ⟨r₀, room', -, hr₀, -, hleft, heq⟩ <;>
    rw [heq] at hi' hocc ⊢
  · exact ⟨hi', hocc, rfl, fun _ => rfl, fun _ _ => rfl, id, fun hr _ _ => hr⟩
  · exact ⟨hi', hocc, rfl, fun _ => rfl, fun _ _ => rfl, id, fun hr _ _ => hr⟩
  · rw [broadcastRoomsLocked_eq hkeyed] at hi' hocc ⊢
    refine ⟨hi', hocc, rfl, id_update_room rfl, hostID_update fun _ => rfl,
      fun hr => (FMap.get_of_get_delete hr).2, fun {rid r k p} hr hpc hp => ?_⟩
    have hne : rid ≠ (h.room r₀).id := by
      rw [(hi.rooms_ok hr₀).id]
      rintro rfl
      obtain rfl := Option.some.inj (hr.symm.trans hr₀)
      exact hi.not_last hr hpc hp hc hlast
    exact (FMap.get_delete_of_ne _ hne).trans hr
  · rw [broadcastRoomsLocked_eq hkeyed] at hi' hocc ⊢
    exact ⟨hi', hocc, rfl, id_update_room hleft.id, hostID_update hleft.hostID_eq, id,
      fun hr _ _ => hr⟩

/-! ### Entering -/

/-- A client without a room is nowhere. -/
theorem Inv.place_eq_none (hi : h.Inv) (hc : h.Registered c) (hnone : (h.client c).roomID = "") :
    h.place (h.client c).id = none := by
  refine Option.eq_none_iff_forall_ne_some.mpr fun rid hplace => ?_
  obtain ⟨⟨p, hp⟩, r, hr⟩ := place_eq_some.mp hplace
  obtain rfl := hc.eq_of_id hp.1 rfl
  exact (hi.rooms_ok hr).named (hp.2.symm.trans hnone)

/-- Where everybody is after a client without a room has gone to `rid`, as their records say. It is
used for founding and for entering, which differ in whether the room was open. -/
theorem Inv.place_of_moved (hi : h.Inv) (hc : h.Registered c) (hnone : (h.client c).roomID = "")
    (hmoved : ∀ k p x, h'.Occupies x k p ↔
      (p = c ∧ h.clients.get k = some c ∧ rid = x) ∨ (p ≠ c ∧ h.Occupies x k p))
    (hopen : ∀ x, (∃ r, h'.rooms.get x = some r) ↔ x = rid ∨ ∃ r, h.rooms.get x = some r)
    (hvacant : (∃ r, h.rooms.get rid = some r) ∨ ∀ k p, ¬ h.Occupies rid k p) :
    h'.place = Function.update h.place (h.client c).id (some rid) := by
  funext k
  refine Option.ext fun x => ?_
  rw [place_eq_some, hopen, Function.update_apply]
  constructor
  · rintro ⟨⟨p, hp⟩, hx⟩
    rcases (hmoved k p x).mp hp with ⟨-, hk, rfl⟩ | ⟨hpc, hocc⟩
    · rw [if_pos (hi.clients_keyed hk).symm]
    · have hk : k ≠ (h.client c).id := fun heq => hpc (hc.eq_of_id hocc.1 heq)
      rw [if_neg hk, place_eq_some]
      refine ⟨⟨p, hocc⟩, ?_⟩
      rcases hx with rfl | hx
      · exact hvacant.resolve_right fun hnobody => hnobody k p hocc
      · exact hx
  · intro hplace
    split at hplace
    · next hk =>
      obtain rfl := Option.some.inj hplace
      exact ⟨⟨c, (hmoved k c rid).mpr (.inl ⟨rfl, hk ▸ hc, rfl⟩)⟩, .inl rfl⟩
    · next hk =>
      obtain ⟨⟨p, hp⟩, hx⟩ := place_eq_some.mp hplace
      have hpc : p ≠ c := by
        rintro rfl
        exact hk (hi.clients_keyed hp.1).symm
      exact ⟨⟨p, (hmoved k p x).mpr (.inr ⟨hpc, hp⟩)⟩, .inr hx⟩

/-- **Founding a room** is a step of the registry. The client is in no room by then, and the id of
the room is new. -/
theorem Inv.step_founded (hi : h.Inv) (hc : h.Registered c) (hnone : (h.client c).roomID = "")
    (room : Room) (hfresh : ∀ r < h.nextRoom, (h.room r).id ≠ room.id) (hnamed : room.id ≠ "")
    (hhost : room.hostID = (h.client c).id)
    (hpeers : room.peers = (∅ : GoMap ClientPtr).put (h.client c).id c)
    {u : Registry String String maxPeersPerRoom} (hu : h.StandsFor u) :
    ∃ u', u.Step (.found (h.client c).id room.id) u' ∧ (h.founded c room).StandsFor u' := by
  have hi' := hi.found hc hnone hfresh hnamed hhost hpeers
  have hunused : room.id ∉ h.used := fun ⟨r, hlt, hid⟩ => hfresh r hlt hid
  have hother : ∀ {x r}, h.rooms.get x = some r → x ≠ room.id ∧ r ≠ h.nextRoom := by
    intro x r hr
    refine ⟨?_, Nat.ne_of_lt (hi.rooms_ok hr).lt⟩
    rintro rfl
    exact hfresh r (hi.rooms_ok hr).lt (hi.rooms_ok hr).id
  have hget : ∀ x, (h.founded c room).rooms.get x =
      if x = room.id then some h.nextRoom else h.rooms.get x := fun x => FMap.get_put _ _ _ _
  refine ⟨(h.founded c room).registry hi', ⟨?_, ?_, ?_, ?_, ?_⟩, hi'.standsFor⟩
  · rw [hu.place]
    exact hi.place_eq_none hc hnone
  · rw [hu.used]
    exact hunused
  · rw [hu.place]
    refine hi.place_of_moved hc hnone (fun k p x => occupies_setRoomID (h := h)) (fun x => ?_)
      (.inr fun k p hp => ?_)
    · rw [hget]
      by_cases hx : x = room.id
      · rw [if_pos hx]
        exact iff_of_true ⟨_, rfl⟩ (.inl hx)
      · rw [if_neg hx, or_iff_right hx]
    · obtain ⟨r, hlt, hid⟩ := hi.used hnamed hp
      exact hfresh r hlt hid
  · rw [hu.host]
    funext x
    show ((h.founded c room).rooms.get x).map _ = _
    rw [hget, Function.update_apply]
    by_cases hx : x = room.id
    · rw [if_pos hx, if_pos hx, ← hhost, Option.map_some]
      exact congrArg (fun room : Room => some room.hostID) (Function.update_self ..)
    · rw [if_neg hx, if_neg hx, host]
      cases hr : h.rooms.get x with
      | none => rfl
      | some r =>
        exact congrArg (fun room : Room => some room.hostID)
          (Function.update_of_ne (hother hr).2 _ _)
  · rw [hu.used]
    ext x
    show (∃ r < h.nextRoom + 1, _) ↔ _
    rw [Set.mem_insert_iff]
    constructor
    · rintro ⟨r, hlt, rfl⟩
      by_cases hr : r = h.nextRoom
      · subst hr
        exact .inl (congrArg Room.id (Function.update_self ..))
      · have hroom : (h.founded c room).room r = h.room r := Function.update_of_ne hr _ _
        rw [hroom]
        exact .inr ⟨r, lt_of_le_of_ne (Nat.lt_succ_iff.mp hlt) hr, rfl⟩
    · rintro (rfl | ⟨r, hlt, rfl⟩)
      · exact ⟨h.nextRoom, Nat.lt_succ_self _, congrArg Room.id (Function.update_self ..)⟩
      · exact ⟨r, Nat.lt_succ_of_lt hlt,
          congrArg Room.id (Function.update_of_ne (Nat.ne_of_lt hlt) _ _)⟩

/-- What does not depend on whether the room that is entered is still there. -/
theorem used_admitted (c : ClientPtr) (r : RoomPtr) : (h.admitted c r).used = h.used := by
  ext x
  have hid : ∀ r', ((h.admitted c r).room r').id = (h.room r').id := id_update_room rfl
  exact exists_congr fun r' => and_congr_right fun _ => by rw [hid]

theorem host_admitted (c : ClientPtr) (r : RoomPtr) : (h.admitted c r).host = h.host := by
  funext x
  show (h.rooms.get x).map _ = (h.rooms.get x).map _
  congr 1
  funext r'
  by_cases hr : r' = r
  · subst hr
    simp only [admitted, Function.update_self]
  · simp only [admitted, Function.update_of_ne hr]

/-- **Entering a room** is a step of the registry, if the room is there. The client is in no room by
then. -/
theorem Inv.step_admitted (hi : h.Inv) (hc : h.Registered c) (hnone : (h.client c).roomID = "")
    {r : RoomPtr} (hr : h.rooms.get rid = some r) (hi' : (h.admitted c r).Inv)
    {u : Registry String String maxPeersPerRoom} (hu : h.StandsFor u) :
    ∃ u', u.Step (.enter (h.client c).id rid) u' ∧ (h.admitted c r).StandsFor u' := by
  have hid := (hi.rooms_ok hr).id
  refine ⟨(h.admitted c r).registry hi', ⟨?_, ?_, ?_, ?_, ?_⟩, hi'.standsFor⟩
  · rw [hu.place]
    exact hi.place_eq_none hc hnone
  · rw [hu.host]
    exact fun hclosed => absurd (hr.symm.trans (host_eq_none.mp hclosed)) (Option.some_ne_none r)
  · rw [hu.place, ← hid]
    refine hi.place_of_moved hc hnone (fun k p x => occupies_setRoomID (h := h)) (fun x => ?_)
      (.inl ⟨r, hid ▸ hr⟩)
    refine (or_iff_right_of_imp ?_).symm
    rintro rfl
    exact ⟨r, hid ▸ hr⟩
  · rw [hu.host]
    exact host_admitted c r
  · rw [hu.used]
    exact used_admitted c r

/-- **A room that is gone** is not entered. The hub writes the client's record and a room that no
map holds, and the registry has neither. -/
theorem Inv.sameRegistry_admitted (hi : h.Inv)
    (hnone : (h.client c).roomID = "") {r : RoomPtr} (hgone : h.rooms.get (h.room r).id = none) :
    h.SameRegistry (h.admitted c r) := by
  refine ⟨?_, host_admitted c r, used_admitted c r⟩
  funext k
  refine Option.ext fun x => ?_
  rw [place_eq_some, place_eq_some]
  refine and_congr_left fun ⟨r', hr'⟩ => exists_congr fun p => ?_
  have hx : (h.room r).id ≠ x := by
    rintro rfl
    exact absurd (hr'.symm.trans hgone) (Option.some_ne_none r')
  have hold : (h.client c).roomID ≠ x := fun heq =>
    (hi.rooms_ok hr').named (heq.symm.trans hnone)
  exact occupies_setRoomID_of_ne hx hold

/-! ### Events -/

/-- A room that is there and not full is entered, unless it is closed by leaving it. That happens to
the only member of a room who joins it once more. -/
def joinMoves (h : Hub) (c : ClientPtr) (rid : String) (r : RoomPtr) :
    List (Action String String) :=
  if (h.client c).roomID = rid ∧ (h.room r).peers.len = 1 then [.leave (h.client c).id]
  else [.leave (h.client c).id, .enter (h.client c).id rid]

/-- What an event does to the registry, as the actions it takes: at most two, and none for what only
passes messages on. -/
def moves (h : Hub) : Event → List (Action String String)
  | .handle c env w =>
    if env.type = "create_room" then
      [.leave (h.client c).id, .found (h.client c).id ("room_" ++ w.randomHex)]
    else if env.type = "join_room" then
      match h.rooms.get env.roomID with
      | none => []
      | some r =>
        if maxPeersPerRoom ≤ (h.room r).peers.len then [] else h.joinMoves c env.roomID r
    else if env.type = "leave_room" then [.leave (h.client c).id]
    else []
  | .removeClient c _ => [.leave (h.client c).id]
  | .addClient _ _ _ | .invalidJson _ _ | .writeLoop _ => []

/-- The registry takes these actions, and the hub stands for what comes out. -/
def Follows (u : Registry String String maxPeersPerRoom) (actions : List (Action String String))
    (h' : Hub) : Prop :=
  ∃ t u', (Registry.machine String String maxPeersPerRoom).Path u t u' ∧
    t.map Prod.snd = actions ∧ h'.StandsFor u'

section Events

variable {u : Registry String String maxPeersPerRoom}

theorem SameRegistry.follows (hs : h.SameRegistry h') (hu : h.StandsFor u) : Follows u [] h' :=
  ⟨[], u, .nil, rfl, hs.standsFor hu⟩

theorem Gone.follows (hg : h.Gone h' c) (hi : h.Inv) (hc : h.Registered c) (hu : h.StandsFor u) :
    Follows u [.leave (h.client c).id] h' := by
  obtain ⟨u', hstep, hu'⟩ := hg.step hi hc hu
  have hpath : (Registry.machine String String maxPeersPerRoom).Path u
      [(u, .leave (h.client c).id)] u' := Machine.Path.single hstep
  exact ⟨_, u', hpath, rfl, hu'⟩

/-- One more action, which may start from any registry that the hub stands for. -/
theorem Follows.then {actions : List (Action String String)} (hf : Follows u actions h)
    {a : Action String String}
    (hstep : ∀ u', h.StandsFor u' → ∃ u'', u'.Step a u'' ∧ h'.StandsFor u'') :
    Follows u (actions ++ [a]) h' := by
  obtain ⟨t, u', hpath, rfl, hu'⟩ := hf
  obtain ⟨u'', hstep, hu''⟩ := hstep u' hu'
  exact ⟨t ++ [(u', a)], u'', hpath.snoc hstep, by rw [List.map_append, List.map_singleton], hu''⟩

theorem Follows.same {actions : List (Action String String)} (hf : Follows u actions h)
    (hs : h.SameRegistry h') : Follows u actions h' := by
  obtain ⟨t, u', hpath, hlabels, hu'⟩ := hf
  exact ⟨t, u', hpath, hlabels, hs.standsFor hu'⟩

theorem Inv.follows_vacated (hi : h.Inv) (hc : h.Registered c) (env : Envelope)
    (hu : h.StandsFor u) : Follows u [.leave (h.client c).id] (h.vacated w c env) :=
  ((hi.gone_leaveRoomLocked hc).follows hi hc hu).same (sameRegistry_updateNick c env)

/-- **A room is founded** by a client that has left its old room, if it was in one. Both actions are
there in any case; leaving nothing is a step of the registry too. -/
theorem Inv.follows_created (hi : h.Inv) (hc : h.Registered c)
    (hfresh : ∀ r < h.nextRoom, (h.room r).id ≠ "room_" ++ w.randomHex) (hu : h.StandsFor u) :
    Follows u [.leave (h.client c).id, .found (h.client c).id ("room_" ++ w.randomHex)]
      (h.created w c env) := by
  obtain ⟨hiv, hl⟩ := hi.vacated (w := w) hc env
  have hleft := hi.follows_vacated (w := w) hc env hu
  refine hleft.then fun u' hu' => ?_
  rw [← hl.id c]
  refine hiv.step_founded (hl.registered.mpr hc) hl.roomID (newRoom w _ c env) (fun r hlt => ?_)
    (fun hnil => ?_) rfl rfl hu'
  · rw [hl.room_id]
    exact hfresh r (hl.nextRoom ▸ hlt)
  · -- The id is not the empty name.
    have hlen := congrArg String.length hnil
    simp [newRoom] at hlen

/-- **A room is entered**, if leaving has not closed it. It is there and not full before the client
leaves its old room, and leaving fills no room. -/
theorem Inv.follows_joined (hi : h.Inv) (hc : h.Registered c) {r : RoomPtr}
    (hr : h.rooms.get env.roomID = some r) (hlen : (h.room r).peers.len < maxPeersPerRoom)
    (hu : h.StandsFor u) :
    Follows u (h.joinMoves c env.roomID r) (h.joined w c env r) := by
  obtain ⟨hiv, hl⟩ := hi.vacated (w := w) hc env
  have hcv := hl.registered.mpr hc
  have hleft := hi.follows_vacated (w := w) hc env hu
  have hid : ((h.vacated w c env).room r).id = env.roomID :=
    (hl.room_id r).trans (hi.rooms_ok hr).id
  rw [joinMoves]
  split
  · next halone =>
    obtain ⟨hsame, hone⟩ := halone
    have hdelete := FMap.len_delete (hi.seated hc (hsame ▸ hr))
    have hgone := hl.alone (hsame ▸ hr) (by omega)
    exact hleft.same (hiv.sameRegistry_admitted hl.roomID (by rw [hid, ← hsame, hgone]))
  · next hnot =>
    have hlive : (h.vacated w c env).rooms.get env.roomID = some r := by
      refine (hl.survives hr).resolve_right ?_
      rintro ⟨-, hsame, hlast⟩
      have hdelete := FMap.len_delete (hi.seated hc (hsame ▸ hr))
      exact hnot ⟨hsame.symm, by omega⟩
    refine hleft.then fun u' hu' => ?_
    rw [← hl.id c]
    exact hiv.step_admitted hcv hl.roomID hlive (hi.admitted hc hr hlen) hu'

/-- The messages that are about no room leave the registry alone. -/
theorem sameRegistry_handled {h' : Hub} (hh : Handled w h c env h')
    (htype : env.type ∉ ["create_room", "join_room", "leave_room"]) : h.SameRegistry h' := by
  simp only [List.mem_cons, List.not_mem_nil, or_false, not_or] at htype
  obtain ⟨hcreate, hjoin, hleave⟩ := htype
  cases hh with
  | create heq => exact absurd heq hcreate
  | join heq => exact absurd heq hjoin
  | leave heq => exact absurd heq hleave
  | hello => exact ((sameRegistry_updateNick c env).deliver _).deliver _
  | silent => exact ⟨rfl, rfl, rfl⟩
  | listRooms | route | unavailable | status | voice | reply => exact sameRegistry_deliver _

theorem Inv.follows_handle (hi : h.Inv) (hc : h.Registered c)
    (hfresh : ∀ r < h.nextRoom, (h.room r).id ≠ "room_" ++ w.randomHex) (hu : h.StandsFor u) :
    Follows u (h.moves (.handle c env w)) (h.handle w c env) := by
  rw [moves]
  by_cases hcreate : env.type = "create_room"
  · have hkeyed : (h.created w c env).Keyed (h.created w c env).clients := fun k p hp =>
      (id_setRoomID c p _).trans ((hi.vacated (w := w) hc env).1.clients_keyed hp)
    have hhandle : h.handle w c env = h.createRoom w c env := by
      simp only [handle, hcreate]
    rw [if_pos hcreate, hhandle, createRoom_eq, enqueue_eq]
    refine (broadcastRoomsLocked_eq (h := (h.created w c env).deliver _) hkeyed).symm ▸ ?_
    exact (hi.follows_created hc hfresh hu).same ((sameRegistry_deliver _).deliver _)
  rw [if_neg hcreate]
  by_cases hjoin : env.type = "join_room"
  · have hhandle : h.handle w c env = h.joinRoom w c env := by simp only [handle, hjoin]
    rw [if_pos hjoin, hhandle]
    cases hr : h.rooms.get env.roomID with
    | none =>
      simp only [joinRoom, hr]
      exact (sameRegistry_enqueue _ _).follows hu
    | some r =>
      dsimp only
      split
      · next hfull =>
        simp only [joinRoom, hr, if_pos hfull]
        exact (sameRegistry_enqueue _ _).follows hu
      · next hlen =>
        have hlen := not_le.mp hlen
        rw [hi.joinRoom_delivers hc hr hlen]
        exact (hi.follows_joined hc hr hlen hu).same
          (((sameRegistry_deliver _).deliver _).deliver _)
  rw [if_neg hjoin]
  by_cases hleave : env.type = "leave_room"
  · have hhandle : h.handle w c env = h.leaveRoom w c := by simp only [handle, hleave]
    obtain ⟨hil, hl⟩ := hi.leaveRoomLocked (w := w) hc
    rw [if_pos hleave, hhandle, leaveRoom, broadcastRoomsLocked_eq hil.clients_keyed]
    exact ((hi.gone_leaveRoomLocked hc).follows hi hc hu).same (sameRegistry_deliver _)
  · rw [if_neg hleave]
    exact (sameRegistry_handled (handle_handled hi hc env)
      (by simp [hcreate, hjoin, hleave])).follows hu

theorem Inv.follows_after (hi : h.Inv) {e : Event} (he : h.Enabled e) (hu : h.StandsFor u) :
    Follows u (h.moves e) (h.after e) := by
  cases e with
  | addClient id nick cap => exact (hi.sameRegistry_addClient he).follows hu
  | handle c env w => exact hi.follows_handle he.1 he.2 hu
  | invalidJson c w => exact (sameRegistry_enqueue _ _).follows hu
  | removeClient c w => exact (hi.gone_removeClient he).follows hi he hu
  | writeLoop c => exact SameRegistry.follows (h := h) ⟨rfl, rfl, rfl⟩ hu

end Events

/-! ### Runs -/

/-- **The hub simulates the registry.** A step of the hub is matched by the actions that its event
stands for: none for most messages, two for a room that is created or joined. -/
def simulation : Machine.Simulation machine (Registry.machine String String maxPeersPerRoom) where
  Rel := StandsFor
  labels := moves
  init := by
    rintro _ rfl
    refine ⟨newHub.registry inv_newHub, ⟨rfl, ?_⟩, inv_newHub.standsFor⟩
    exact Set.eq_empty_of_forall_notMem fun x ⟨r, hlt, _⟩ => absurd hlt (Nat.not_lt_zero r)
  step := by
    rintro h e _ u hreach hu ⟨he, rfl⟩
    exact (inv_of_reachable hreach).follows_after he hu

/-- **Runs of the hub are runs of the registry**, action for action. Every run of the hub, with its
clients' messages in any order, is matched by a run of the registry whose actions are read off the
events, and the hub stands for the registry that comes out. So what is proved of all registries
holds of the hub. -/
theorem refines_registry {t : List (Hub × Event)} (hrun : machine.Run t h) :
    ∃ (hi : h.Inv) (t' : List (Registry String String maxPeersPerRoom × Action String String)),
      (Registry.machine String String maxPeersPerRoom).Run t' (h.registry hi) ∧
        t'.map Prod.snd = t.flatMap fun x => x.1.moves x.2 := by
  obtain ⟨t', u, hrun', hlabels, hplace, hhost, hused⟩ := simulation.run hrun
  have hi := inv_of_reachable ⟨t, hrun⟩
  have hu : u = h.registry hi := Registry.ext hplace hhost hused
  exact ⟨hi, t', hu ▸ hrun', hlabels⟩

/-- A client that connects and creates a room. -/
theorem refines_registry_hosting :
    ∃ (hi : hosting.Inv)
      (t' : List (Registry String String maxPeersPerRoom × Action String String)),
      (Registry.machine String String maxPeersPerRoom).Run t' (hosting.registry hi) ∧
        t'.map Prod.snd = [.leave "peer_1", .found "peer_1" "room_a1"] :=
  refines_registry hosting_run

/-- The client registered under `k` asks for another room or none, or its connection ends. -/
def Departs (h : Hub) (k : String) : Event → Prop
  | .handle c env _ =>
    (h.client c).id = k ∧ env.type ∈ ["create_room", "join_room", "leave_room"]
  | .removeClient c _ => (h.client c).id = k
  | _ => False

theorem departs_of_leave_mem {e : Event} (hmem : .leave k ∈ h.moves e) : h.Departs k e := by
  cases e with
  | handle c env w =>
    rw [moves] at hmem
    split at hmem
    · next htype =>
      refine ⟨?_, by rw [htype]; decide⟩
      simpa [eq_comm] using hmem
    · split at hmem
      · next htype =>
        refine ⟨?_, by rw [htype]; decide⟩
        split at hmem
        · exact absurd hmem List.not_mem_nil
        · split at hmem
          · exact absurd hmem List.not_mem_nil
          · rw [joinMoves] at hmem
            split at hmem <;> simpa [eq_comm] using hmem
      · split at hmem
        · next htype =>
          refine ⟨?_, by rw [htype]; decide⟩
          simpa [eq_comm] using hmem
        · exact absurd hmem List.not_mem_nil
  | removeClient c w => simpa [moves, eq_comm, Departs] using hmem
  | addClient | invalidJson | writeLoop => exact absurd hmem List.not_mem_nil

/-- **What lasts.** From any reachable hub on, whatever anybody else does: a member that does not
create or join or leave a room, and whose connection lasts, stays in its room, which stays, and
stays its host if it is. And a room that is gone does not come back. -/
theorem membership_lasts (hreach : machine.Reachable h) {t : List (Hub × Event)}
    (hpath : machine.Path h t h') :
    (∀ rid r k, h.rooms.get rid = some r → k ∈ (h.room r).peers.keys →
      (∀ x ∈ t, ¬ x.1.Departs k x.2) →
      ∃ r', h'.rooms.get rid = some r' ∧ k ∈ (h'.room r').peers.keys ∧
        ((h.room r).hostID = k → (h'.room r').hostID = k)) ∧
    ∀ r < h.nextRoom, h.rooms.get (h.room r).id = none → h'.rooms.get (h.room r).id = none := by
  have hi := inv_of_reachable hreach
  obtain ⟨t₀, hrun⟩ := hreach
  have hi' := inv_of_reachable ⟨_, hrun.append_path hpath⟩
  obtain ⟨t', u, hpath', hlabels, hu⟩ := simulation.path ⟨t₀, hrun⟩ hi.standsFor hpath
  refine ⟨fun rid r k hr hk hstay => ?_, fun r hlt hclosed => ?_⟩
  · have hnot : .leave k ∉ t'.map Prod.snd := by
      rw [hlabels]
      intro hmem
      obtain ⟨x, hx, hmem⟩ := List.mem_flatMap.mp hmem
      exact hstay x hx (departs_of_leave_mem hmem)
    have hplace := Registry.stays hpath' hnot ((hi.place_iff hr).mpr hk)
    rw [hu.place] at hplace
    obtain ⟨-, r', hr'⟩ := place_eq_some.mp hplace
    refine ⟨r', hr', (hi'.place_iff hr').mp hplace, fun hhost => ?_⟩
    have hhosts := Registry.hosts hpath' hnot (host_eq_some.mpr ⟨r, hr, hhost⟩)
    rw [hu.host] at hhosts
    obtain ⟨r'', hr'', hhost''⟩ := host_eq_some.mp hhosts
    obtain rfl := Option.some.inj (hr''.symm.trans hr')
    exact hhost''
  · have hclosed' := Registry.stays_closed hpath' (show (h.room r).id ∈ h.used from ⟨r, hlt, rfl⟩)
      (host_eq_none.mpr hclosed)
    rw [hu.host] at hclosed'
    exact host_eq_none.mp hclosed'.2

/-- The host leaves, and the room is there for the one who stays. -/
theorem membership_lasts_shared :
    ∃ r', (shared.after (.handle 0 { type := "leave_room" } (Ambient.plain 30 "a3"))).rooms.get
        "room_a1" = some r' ∧
      "peer_2" ∈ ((shared.after (.handle 0 { type := "leave_room" }
        (Ambient.plain 30 "a3"))).room r').peers.keys := by
  have he : shared.Enabled (.handle 0 { type := "leave_room" } (Ambient.plain 30 "a3")) :=
    And.intro (by decide) (by decide)
  have hpath : machine.Path shared _ _ := Machine.Path.single ⟨he, rfl⟩
  obtain ⟨r', hr', hmember, -⟩ := (membership_lasts shared_reachable hpath).1 "room_a1" 0 "peer_2"
    (by decide) (by decide) (by
      intro x hx
      rw [List.mem_singleton.mp hx]
      exact fun hdeparts => absurd hdeparts.1 (by decide))
  exact ⟨r', hr', hmember⟩

end Hub

end Coordinator

end TarkovVoice

import TarkovVoice.Coordinator.Effects

/-!
# The membership invariant

The hub keeps the same fact three times over: a client's `roomID` says where it is, a room's
`Peers` say who is in it, and `h.clients` says who is connected at all. This file couples the
three and shows that no order of operations pulls them apart.

The coupling is one equivalence. `Occupies rid k p` is what the clients say: `p` is registered
under `k` and its `roomID` is `rid`. A room in `h.rooms` is in order (`RoomOk`) when its `Peers`
are exactly its occupants, between one and five of them, its host among them.

## Stranded clients

The converse does not hold: an occupied room need not exist. `joinRoom` looks the room up before
it leaves the old one, and when both are the same room with nobody else in it, the leave deletes
the room that is then joined. The invariant therefore only says that whoever occupies a room that
is not there occupies it alone (`stranded_alone`), which is what the rest of the hub relies on
without knowing it.

## Main results

* `Hub.Inv.leaveRoomLocked`, `Hub.Inv.handle`, `Hub.Inv.removeClient`, `Hub.Inv.addClient`
* `Hub.inv_of_reachable`
* `Hub.rooms_in_order` — the rooms of every reachable hub
-/

namespace TarkovVoice

namespace Coordinator

namespace Hub

variable {w : Ambient} {h : Hub} {c : ClientPtr}

/-! ### The invariant -/

/-- `p` is registered under `k`, and its own record says it is in `rid`. The membership invariant
says that the records of the rooms agree with this. -/
def Occupies (h : Hub) (rid k : String) (p : ClientPtr) : Prop :=
  h.clients.get k = some p ∧ (h.client p).roomID = rid

/-- The room at `r`, stored under `rid`, is in order: it carries its id, its peers are those that
say they are in it and at most as many as there may be, and its host is one of them. -/
structure RoomOk (h : Hub) (rid : String) (r : RoomPtr) : Prop where
  id : (h.room r).id = rid
  named : rid ≠ ""
  lt : r < h.nextRoom
  peers_iff : ∀ k p, (h.room r).peers.get k = some p ↔ h.Occupies rid k p
  peers_le : (h.room r).peers.len ≤ maxPeersPerRoom
  host : ∃ p, (h.room r).peers.get (h.room r).hostID = some p

/-- **The membership invariant.** Clients and rooms are stored under their ids, every room is in
order, and whoever says it is in a room that is gone is the only one who says so. -/
structure Inv (h : Hub) : Prop where
  clients_keyed : h.Keyed h.clients
  client_lt : ∀ {k p}, h.clients.get k = some p → p < h.nextClient
  rooms_ok : ∀ {rid r}, h.rooms.get rid = some r → h.RoomOk rid r
  stranded_alone : ∀ {rid k k' p q}, rid ≠ "" → h.rooms.get rid = none →
    h.Occupies rid k p → h.Occupies rid k' q → p = q
  used : ∀ {rid k p}, rid ≠ "" → h.Occupies rid k p → ∃ r < h.nextRoom, (h.room r).id = rid

theorem inv_newHub : newHub.Inv where
  clients_keyed := fun _ _ hp => by simp [newHub] at hp
  client_lt := fun hp => by simp [newHub] at hp
  rooms_ok := fun hr => by simp [newHub] at hr
  stranded_alone := fun _ _ hp => by simp [newHub, Occupies] at hp
  used := fun _ hp => by simp [newHub, Occupies] at hp

theorem Registered.occupies (hc : h.Registered c) :
    h.Occupies (h.client c).roomID (h.client c).id c := ⟨hc, rfl⟩

theorem Inv.registered (hi : h.Inv) {k : String} {p : ClientPtr} (hp : h.clients.get k = some p) :
    h.Registered p := by
  rw [Registered, hi.clients_keyed hp, hp]

theorem Registered.eq_of_id {k : String} {p : ClientPtr} (hc : h.Registered c)
    (hp : h.clients.get k = some p) (hk : k = (h.client c).id) : p = c := by
  rw [hk, hc] at hp
  exact (Option.some.inj hp).symm

theorem Inv.room_keyed (hi : h.Inv) {rid : String} {r : RoomPtr} (hr : h.rooms.get rid = some r) :
    h.Keyed (h.room r).peers :=
  fun _ _ hp => hi.clients_keyed (((hi.rooms_ok hr).peers_iff _ _).mp hp).1

theorem Inv.rooms_inj (hi : h.Inv) {rid rid' : String} {r : RoomPtr}
    (hr : h.rooms.get rid = some r) (hr' : h.rooms.get rid' = some r) : rid = rid' := by
  rw [← (hi.rooms_ok hr).id, ← (hi.rooms_ok hr').id]

theorem Inv.seated (hi : h.Inv) (hc : h.Registered c) {r : RoomPtr}
    (hr : h.rooms.get (h.client c).roomID = some r) :
    (h.room r).peers.get (h.client c).id = some c :=
  ((hi.rooms_ok hr).peers_iff _ _).mpr hc.occupies

/-- A room in order stays in order when neither it nor its occupants change. -/
theorem RoomOk.frame {h' : Hub} {rid : String} {r : RoomPtr} (hok : h.RoomOk rid r)
    (hroom : h'.room r = h.room r) (hnext : h.nextRoom ≤ h'.nextRoom)
    (hocc : ∀ k p, h'.Occupies rid k p ↔ h.Occupies rid k p) : h'.RoomOk rid r where
  id := by rw [hroom, hok.id]
  named := hok.named
  lt := Nat.lt_of_lt_of_le hok.lt hnext
  peers_iff k p := by rw [hroom, hocc, hok.peers_iff]
  peers_le := by rw [hroom]; exact hok.peers_le
  host := by rw [hroom]; exact hok.host

/-- Queues play no part in the invariant. -/
theorem Inv.send (hi : h.Inv) (s : ClientPtr → SendQueue) : Inv { h with send := s } where
  clients_keyed := hi.clients_keyed
  client_lt := hi.client_lt
  rooms_ok hr := (hi.rooms_ok hr).frame rfl le_rfl fun _ _ => Iff.rfl
  stranded_alone := hi.stranded_alone
  used := hi.used

/-- Nor do the records of clients that are not registered, or any nick. -/
theorem Inv.client (hi : h.Inv) {f : ClientPtr → Client}
    (hid : ∀ p, h.Registered p → (f p).id = (h.client p).id)
    (hroom : ∀ p, h.Registered p → (f p).roomID = (h.client p).roomID) :
    Inv { h with client := f } := by
  have hocc : ∀ rid k p, Occupies { h with client := f } rid k p ↔ h.Occupies rid k p :=
    fun rid k p => and_congr_right fun hp => by rw [← hroom p (hi.registered hp)]
  exact {
    clients_keyed := fun k p hp => (hid p (hi.registered hp)).trans (hi.clients_keyed hp)
    client_lt := hi.client_lt
    rooms_ok := fun hr => (hi.rooms_ok hr).frame rfl le_rfl (hocc _)
    stranded_alone := fun hne hnone hp hq =>
      hi.stranded_alone hne hnone ((hocc _ _ _).mp hp) ((hocc _ _ _).mp hq)
    used := fun hne hp => hi.used hne ((hocc _ _ _).mp hp) }

theorem occupies_setRoomID {rid x k : String} {p : ClientPtr} :
    (h.setRoomID c x).Occupies rid k p ↔
      (p = c ∧ h.clients.get k = some c ∧ x = rid) ∨ (p ≠ c ∧ h.Occupies rid k p) := by
  by_cases hp : p = c
  · subst hp
    simp [Occupies, setRoomID, setClient]
  · simp [Occupies, setRoomID, setClient, hp]

/-- Away from the two rooms involved, a client's move changes no occupants. -/
theorem occupies_setRoomID_of_ne {rid x k : String} {p : ClientPtr} (hx : x ≠ rid)
    (hold : (h.client c).roomID ≠ rid) :
    (h.setRoomID c x).Occupies rid k p ↔ h.Occupies rid k p := by
  rw [occupies_setRoomID]
  constructor
  · rintro (⟨-, -, h⟩ | ⟨-, h⟩)
    · exact absurd h hx
    · exact h
  · intro hp
    refine Or.inr ⟨?_, hp⟩
    rintro rfl
    exact hold hp.2

/-- Whoever occupies a named room after `c` was sent out of its own is not `c`. -/
theorem occupies_of_vacated {rid k : String} {p : ClientPtr} (hne : rid ≠ "")
    (hp : (h.setRoomID c "").Occupies rid k p) : p ≠ c ∧ h.Occupies rid k p := by
  rcases occupies_setRoomID.mp hp with ⟨-, -, hrid⟩ | hp
  · exact absurd hrid.symm hne
  · exact hp

/-! ### Leaving -/

/-- The rooms' ids do not change when one room is rewritten under its own id. -/
theorem id_update_room {r : RoomPtr} {room' : Room} (hid : room'.id = (h.room r).id)
    (r' : RoomPtr) : (Function.update h.room r room' r').id = (h.room r').id := by
  by_cases hr' : r' = r
  · rw [hr', Function.update_self, hid]
  · rw [Function.update_of_ne hr']

/-- The last member leaves and the room is deleted. -/
theorem Inv.vacate_last (hi : h.Inv) (hc : h.Registered c) {r : RoomPtr}
    (hr : h.rooms.get (h.client c).roomID = some r)
    (hlast : ((h.room r).peers.delete (h.client c).id).len = 0) :
    Inv { h.setRoomID c "" with
      rooms := h.rooms.delete (h.room r).id
      room := Function.update h.room r
        { h.room r with peers := (h.room r).peers.delete (h.client c).id } } := by
  have hok := hi.rooms_ok hr
  have hids : ∀ r', (Function.update h.room r
      { h.room r with peers := (h.room r).peers.delete (h.client c).id } r').id =
        (h.room r').id := id_update_room rfl
  refine ⟨fun k p hp => ?_, hi.client_lt, fun {rid r'} hr' => ?_,
    fun {rid k k' p q} hne hnone hp hq => ?_, fun {rid k p} hne hp => ?_⟩
  · exact (id_setRoomID c p "").trans (hi.clients_keyed hp)
  · obtain ⟨hrid, hget⟩ := FMap.get_of_get_delete (hok.id ▸ hr' :
      (h.rooms.delete (h.client c).roomID).get rid = some r')
    have hptr : r' ≠ r := by
      rintro rfl
      exact hrid (hi.rooms_inj hget hr)
    exact (hi.rooms_ok hget).frame (Function.update_of_ne hptr _ _) le_rfl fun k p =>
      occupies_setRoomID_of_ne (hi.rooms_ok hget).named.symm (Ne.symm hrid)
  · obtain ⟨hpc, hp⟩ := occupies_of_vacated (h := h) (c := c) hne hp
    obtain ⟨-, hq⟩ := occupies_of_vacated (h := h) (c := c) hne hq
    have hnone : (h.rooms.delete (h.client c).roomID).get rid = none := hok.id ▸ hnone
    by_cases hrid : rid = (h.client c).roomID
    · have hk : k ≠ (h.client c).id := fun hk => hpc (hc.eq_of_id hp.1 hk)
      have hseat := (hok.peers_iff k p).mpr (hrid ▸ hp)
      rw [← FMap.get_delete_of_ne _ hk, FMap.len_eq_zero_iff.mp hlast] at hseat
      exact absurd hseat (by simp)
    · exact hi.stranded_alone hne (by rwa [FMap.get_delete_of_ne _ hrid] at hnone) hp hq
  · obtain ⟨r', hlt, hid⟩ := hi.used hne (occupies_of_vacated (h := h) (c := c) hne hp).2
    exact ⟨r', hlt, (hids r').trans hid⟩

/-- A member leaves others behind. -/
theorem Inv.vacate_others (hi : h.Inv) (hc : h.Registered c) {r : RoomPtr} {room' : Room}
    (hr : h.rooms.get (h.client c).roomID = some r) (hl : h.LeftBehind c (h.room r) room')
    (s : ClientPtr → SendQueue) :
    Inv { h.setRoomID c "" with room := Function.update h.room r room', send := s } := by
  have hok := hi.rooms_ok hr
  have hseat := hi.seated hc hr
  have hids := id_update_room (h := h) hl.id
  refine ⟨fun k p hp => ?_, hi.client_lt, fun {rid r'} hr' => ?_,
    fun {rid k k' p q} hne hnone hp hq => ?_, fun {rid k p} hne hp => ?_⟩
  · exact (id_setRoomID c p "").trans (hi.clients_keyed hp)
  · by_cases hptr : r' = r
    · subst hptr
      obtain rfl := hi.rooms_inj hr hr'
      have hpeers : ∀ k p, room'.peers.get k = some p ↔
          (h.setRoomID c "").Occupies (h.client c).roomID k p := by
        intro k p
        rw [occupies_setRoomID, hl.peers]
        constructor
        · intro hp
          obtain ⟨hk, hp⟩ := FMap.get_of_get_delete hp
          have hocc := (hok.peers_iff k p).mp hp
          refine Or.inr ⟨?_, hocc⟩
          rintro rfl
          exact hk (hi.clients_keyed hocc.1).symm
        · rintro (⟨-, -, h⟩ | ⟨hpc, hp⟩)
          · exact absurd h hok.named.symm
          · rw [FMap.get_delete_of_ne _ fun hk => hpc (hc.eq_of_id hp.1 hk)]
            exact (hok.peers_iff k p).mpr hp
      refine ⟨?_, hok.named, hok.lt, ?_, ?_, ?_⟩ <;> simp only [Function.update_self]
      · rw [hl.id, hok.id]
      · exact hpeers
      · have := FMap.len_delete hseat
        have := hok.peers_le
        rw [hl.peers]
        omega
      · rcases hl.host with ⟨hne, hhost, -⟩ | ⟨-, next, hnext, -, hhost, -⟩
        · obtain ⟨p, hp⟩ := hok.host
          exact ⟨p, by rw [hhost, hl.peers, FMap.get_delete_of_ne _ hne, hp]⟩
        · exact ⟨next, by rw [hhost, hnext]⟩
    · have hrid : rid ≠ (h.client c).roomID := by
        rintro rfl
        exact hptr (Option.some.inj (hr'.symm.trans hr))
      exact (hi.rooms_ok hr').frame (Function.update_of_ne hptr _ _) le_rfl fun k p =>
        occupies_setRoomID_of_ne (hi.rooms_ok hr').named.symm (Ne.symm hrid)
  · obtain ⟨-, hp⟩ := occupies_of_vacated (h := h) (c := c) hne hp
    obtain ⟨-, hq⟩ := occupies_of_vacated (h := h) (c := c) hne hq
    exact hi.stranded_alone hne hnone hp hq
  · obtain ⟨r', hlt, hid⟩ := hi.used hne (occupies_of_vacated (h := h) (c := c) hne hp).2
    exact ⟨r', hlt, (hids r').trans hid⟩

/-- A stranded client gives up the room that is no longer there. -/
theorem Inv.unstrand (hi : h.Inv) (hgone : h.rooms.get (h.client c).roomID = none) :
    (h.setRoomID c "").Inv := by
  have hlive : ∀ {rid r}, h.rooms.get rid = some r → (h.client c).roomID ≠ rid := by
    rintro rid r hr rfl
    exact absurd (hr.symm.trans hgone) (by simp)
  exact {
    clients_keyed := keyed_setRoomID.mpr hi.clients_keyed
    client_lt := hi.client_lt
    rooms_ok := fun hr => (hi.rooms_ok hr).frame rfl le_rfl fun k p =>
      occupies_setRoomID_of_ne (hi.rooms_ok hr).named.symm (hlive hr)
    stranded_alone := fun hne hdead hp hq =>
      hi.stranded_alone hne hdead (occupies_of_vacated hne hp).2 (occupies_of_vacated hne hq).2
    used := fun hne hp => hi.used hne (occupies_of_vacated hne hp).2 }

/-! ### Entering -/

/-- A client without a room enters one that is there and not full. -/
theorem Inv.admit (hi : h.Inv) (hc : h.Registered c) (hnone : (h.client c).roomID = "")
    {rid : String} {r : RoomPtr} (hr : h.rooms.get rid = some r)
    (hlen : (h.room r).peers.len < maxPeersPerRoom) :
    (h.admitted c r).Inv := by
  have hok := hi.rooms_ok hr
  rw [admitted, hok.id]
  have hids : ∀ r', (Function.update h.room r
      { h.room r with peers := (h.room r).peers.put (h.client c).id c } r').id =
        (h.room r').id := id_update_room rfl
  have hnew : (h.room r).peers.get (h.client c).id = none := by
    rcases hget : (h.room r).peers.get (h.client c).id with _ | p
    · rfl
    · have hocc := (hok.peers_iff _ _).mp hget
      obtain rfl := hc.eq_of_id hocc.1 rfl
      exact absurd (hocc.2.symm.trans hnone) hok.named
  refine ⟨fun k p hp => ?_, hi.client_lt, fun {rid' r'} hr' => ?_,
    fun {rid' k k' p q} hne hdead hp hq => ?_, fun {rid' k p} hne hp => ?_⟩
  · exact (id_setRoomID c p rid).trans (hi.clients_keyed hp)
  · by_cases hptr : r' = r
    · subst hptr
      obtain rfl := hi.rooms_inj hr hr'
      have hpeers : ∀ k p, ((h.room r').peers.put (h.client c).id c).get k = some p ↔
          (h.setRoomID c rid).Occupies rid k p := by
        intro k p
        rw [occupies_setRoomID, FMap.get_put]
        by_cases hk : k = (h.client c).id
        · rw [if_pos hk, hk]
          constructor
          · intro hp
            exact Or.inl ⟨(Option.some.inj hp).symm, hc, rfl⟩
          · rintro (⟨hp, -⟩ | ⟨hp, hocc⟩)
            · rw [hp]
            · exact absurd (hc.eq_of_id hocc.1 rfl) hp
        · rw [if_neg hk, hok.peers_iff]
          constructor
          · intro hocc
            refine Or.inr ⟨?_, hocc⟩
            rintro rfl
            exact hk (hi.clients_keyed hocc.1).symm
          · rintro (⟨rfl, hget, -⟩ | ⟨-, hocc⟩)
            · exact absurd (hi.clients_keyed hget).symm hk
            · exact hocc
      refine ⟨?_, hok.named, hok.lt, ?_, ?_, ?_⟩ <;> simp only [Function.update_self]
      · exact hok.id
      · exact hpeers
      · rw [FMap.len_put_of_none _ hnew]
        exact hlen
      · obtain ⟨p, hp⟩ := hok.host
        rw [FMap.get_put]
        split
        · exact ⟨c, rfl⟩
        · exact ⟨p, hp⟩
    · have hrid : rid' ≠ rid := by
        rintro rfl
        exact hptr (Option.some.inj (hr'.symm.trans hr))
      exact (hi.rooms_ok hr').frame (Function.update_of_ne hptr _ _) le_rfl fun k p =>
        occupies_setRoomID_of_ne (Ne.symm hrid) (hnone ▸ (hi.rooms_ok hr').named.symm)
  · have hrid : rid ≠ rid' := by
      rintro rfl
      exact absurd (hr.symm.trans hdead) (by simp)
    have hstay : ∀ {k p}, (h.setRoomID c rid).Occupies rid' k p → h.Occupies rid' k p :=
      fun hp => (occupies_setRoomID_of_ne hrid (hnone ▸ hne.symm)).mp hp
    exact hi.stranded_alone hne hdead (hstay hp) (hstay hq)
  · by_cases hrid : rid = rid'
    · subst hrid
      exact ⟨r, hok.lt, (hids r).trans hok.id⟩
    · obtain ⟨r', hlt, hid⟩ :=
        hi.used hne ((occupies_setRoomID_of_ne hrid (hnone ▸ hne.symm)).mp hp)
      exact ⟨r', hlt, (hids r').trans hid⟩

/-- A client without a room enters one that is no longer there, and that nobody occupies. -/
theorem Inv.strand (hi : h.Inv) (hnone : (h.client c).roomID = "")
    {rid : String} {r : RoomPtr} (hdead : h.rooms.get rid = none)
    (hlt : r < h.nextRoom) (hid : (h.room r).id = rid)
    (hvacant : ∀ k p, ¬ h.Occupies rid k p) : (h.admitted c r).Inv := by
  rw [admitted, hid]
  have hptr : ∀ {rid' r'}, h.rooms.get rid' = some r' → rid' ≠ rid ∧ r' ≠ r := by
    intro rid' r' hr'
    have hne : rid' ≠ rid := by
      rintro rfl
      exact absurd (hr'.symm.trans hdead) (by simp)
    refine ⟨hne, ?_⟩
    rintro rfl
    exact hne ((hi.rooms_ok hr').id.symm.trans hid)
  have hids : ∀ r', (Function.update h.room r
      { h.room r with peers := (h.room r).peers.put (h.client c).id c } r').id =
        (h.room r').id := id_update_room rfl
  refine ⟨fun k p hp => ?_, hi.client_lt, fun {rid' r'} hr' => ?_,
    fun {rid' k k' p q} hne hgone hp hq => ?_, fun {rid' k p} hne hp => ?_⟩
  · exact (id_setRoomID c p rid).trans (hi.clients_keyed hp)
  · obtain ⟨hrid, hr⟩ := hptr hr'
    exact (hi.rooms_ok hr').frame (Function.update_of_ne hr _ _) le_rfl fun k p =>
      occupies_setRoomID_of_ne (Ne.symm hrid) (hnone ▸ (hi.rooms_ok hr').named.symm)
  · by_cases hrid : rid = rid'
    · subst hrid
      have halone : ∀ {k p}, (h.setRoomID c rid).Occupies rid k p → p = c := by
        intro k p hp
        rcases occupies_setRoomID.mp hp with ⟨hpc, -⟩ | ⟨-, hocc⟩
        · exact hpc
        · exact absurd hocc (hvacant k p)
      exact (halone hp).trans (halone hq).symm
    · have hstay : ∀ {k p}, (h.setRoomID c rid).Occupies rid' k p → h.Occupies rid' k p :=
        fun hp => (occupies_setRoomID_of_ne hrid (hnone ▸ hne.symm)).mp hp
      exact hi.stranded_alone hne hgone (hstay hp) (hstay hq)
  · by_cases hrid : rid = rid'
    · subst hrid
      exact ⟨r, hlt, (hids r).trans hid⟩
    · obtain ⟨r', hlt', hr'⟩ :=
        hi.used hne ((occupies_setRoomID_of_ne hrid (hnone ▸ hne.symm)).mp hp)
      exact ⟨r', hlt', (hids r').trans hr'⟩

/-- A client without a room founds one under an id that was never used. -/
theorem Inv.found (hi : h.Inv) (hc : h.Registered c) (hnone : (h.client c).roomID = "")
    {room : Room} (hfresh : ∀ r < h.nextRoom, (h.room r).id ≠ room.id) (hnamed : room.id ≠ "")
    (hhost : room.hostID = (h.client c).id)
    (hpeers : room.peers = (∅ : GoMap ClientPtr).put (h.client c).id c) :
    (h.founded c room).Inv := by
  rw [founded]
  have hvacant : ∀ k p, ¬ h.Occupies room.id k p := by
    intro k p hp
    obtain ⟨r, hlt, hid⟩ := hi.used hnamed hp
    exact hfresh r hlt hid
  refine ⟨fun k p hp => ?_, hi.client_lt, fun {rid r} hr => ?_,
    fun {rid k k' p q} hne hgone hp hq => ?_, fun {rid k p} hne hp => ?_⟩
  · exact (id_setRoomID c p room.id).trans (hi.clients_keyed hp)
  · by_cases hrid : rid = room.id
    · subst hrid
      obtain rfl : h.nextRoom = r := by simpa using hr
      refine ⟨?_, hnamed, Nat.lt_succ_self _, ?_, ?_, ?_⟩ <;> simp only [Function.update_self]
      · intro k p
        have hiff : (h.setRoomID c room.id).Occupies room.id k p ↔
            p = c ∧ h.clients.get k = some c := by
          rw [occupies_setRoomID]
          simp [hvacant]
        refine Iff.trans ?_ hiff.symm
        rw [hpeers, FMap.get_put]
        constructor
        · intro hp
          split at hp
          · next hk => exact ⟨(Option.some.inj hp).symm, hk ▸ hc⟩
          · simp at hp
        · rintro ⟨rfl, hk⟩
          rw [if_pos (hi.clients_keyed hk).symm]
      · rw [hpeers, FMap.len_put_of_none _ (FMap.get_empty _)]
        simp [maxPeersPerRoom]
      · exact ⟨c, by rw [hpeers, hhost, FMap.get_put_self]⟩
    · have hr' : h.rooms.get rid = some r := (FMap.get_put_of_ne _ hrid _).symm.trans hr
      have hok := hi.rooms_ok hr'
      refine hok.frame (Function.update_of_ne (Nat.ne_of_lt hok.lt) _ _) (Nat.le_succ _) ?_
      have hocc := fun k p => occupies_setRoomID_of_ne (h := h) (c := c) (k := k) (p := p)
        (Ne.symm hrid) (hnone ▸ hok.named.symm)
      exact hocc
  · have hrid : rid ≠ room.id := by
      rintro rfl
      exact absurd hgone (by simp)
    have hgone' : h.rooms.get rid = none := (FMap.get_put_of_ne _ hrid _).symm.trans hgone
    have hstay : ∀ {k p}, (h.setRoomID c room.id).Occupies rid k p → h.Occupies rid k p :=
      fun hp => (occupies_setRoomID_of_ne (Ne.symm hrid) (hnone ▸ hne.symm)).mp hp
    exact hi.stranded_alone hne hgone' (hstay hp) (hstay hq)
  · by_cases hrid : rid = room.id
    · subst hrid
      exact ⟨h.nextRoom, Nat.lt_succ_self _, by simp⟩
    · obtain ⟨r, hlt, hid⟩ :=
        hi.used hne ((occupies_setRoomID_of_ne (Ne.symm hrid) (hnone ▸ hne.symm)).mp hp)
      refine ⟨r, Nat.lt_succ_of_lt hlt, ?_⟩
      exact (congrArg Room.id (Function.update_of_ne (Nat.ne_of_lt hlt) _ _)).trans hid

/-! ### Connecting and disconnecting -/

/-- A client under a new id connects. -/
theorem Inv.addClient (hi : h.Inv) {id nick : String} {cap : ℕ}
    (hfresh : ∀ p < h.nextClient, (h.client p).id ≠ id) :
    ((h.newClient id nick cap).addClient h.nextClient).Inv := by
  have hfree : h.clients.get id = none := by
    rcases hget : h.clients.get id with _ | p
    · rfl
    · exact absurd (hi.clients_keyed hget) (hfresh p (hi.client_lt hget))
  have hget : ∀ {k p}, ((h.newClient id nick cap).addClient h.nextClient).clients.get k = some p →
      (k = id ∧ p = h.nextClient) ∨ (h.clients.get k = some p ∧ p ≠ h.nextClient) := by
    intro k p hp
    simp only [Hub.addClient, newClient, Function.update_self, FMap.get_put] at hp
    split at hp
    · next hk => exact Or.inl ⟨hk, (Option.some.inj hp).symm⟩
    · exact Or.inr ⟨hp, Nat.ne_of_lt (hi.client_lt hp)⟩
  have hold : ∀ {p}, p ≠ h.nextClient →
      ((h.newClient id nick cap).addClient h.nextClient).client p = h.client p :=
    fun hp => Function.update_of_ne hp _ _
  have hnew : ((h.newClient id nick cap).addClient h.nextClient).client h.nextClient =
      ⟨id, nick, ""⟩ := Function.update_self _ _ _
  have hocc : ∀ {rid k p}, rid ≠ "" →
      (((h.newClient id nick cap).addClient h.nextClient).Occupies rid k p ↔
        h.Occupies rid k p) := by
    intro rid k p hne
    constructor
    · rintro ⟨hp, hrid⟩
      rcases hget hp with ⟨-, rfl⟩ | ⟨hp, hpn⟩
      · rw [hnew] at hrid
        exact absurd hrid.symm hne
      · exact ⟨hp, by rw [← hold hpn, hrid]⟩
    · rintro ⟨hp, hrid⟩
      have hk : k ≠ id := by
        rintro rfl
        exact absurd (hp.symm.trans hfree) (by simp)
      refine ⟨?_, by rw [hold (Nat.ne_of_lt (hi.client_lt hp)), hrid]⟩
      simp only [Hub.addClient, newClient, Function.update_self, FMap.get_put_of_ne _ hk, hp]
  refine ⟨fun k p hp => ?_, fun {k p} hp => ?_, fun {rid r} hr => ?_,
    fun {rid k k' p q} hne hgone hp hq => ?_, fun {rid k p} hne hp => ?_⟩
  · rcases hget hp with ⟨rfl, rfl⟩ | ⟨hp, hpn⟩
    · rw [hnew]
    · rw [hold hpn, hi.clients_keyed hp]
  · rcases hget hp with ⟨-, rfl⟩ | ⟨hp, -⟩
    · exact Nat.lt_succ_self _
    · exact Nat.lt_succ_of_lt (hi.client_lt hp)
  · have hok := hi.rooms_ok (r := r) hr
    exact hok.frame rfl le_rfl fun k p => hocc hok.named
  · exact hi.stranded_alone hne hgone ((hocc hne).mp hp) ((hocc hne).mp hq)
  · exact hi.used hne ((hocc hne).mp hp)

/-- A client without a room is taken out of `h.clients`. -/
theorem Inv.forget (hi : h.Inv) (hc : h.Registered c) (hnone : (h.client c).roomID = "") :
    Inv { h with clients := h.clients.delete (h.client c).id } := by
  have hocc : ∀ {rid k p}, rid ≠ "" →
      (Occupies { h with clients := h.clients.delete (h.client c).id } rid k p ↔
        h.Occupies rid k p) := by
    intro rid k p hne
    constructor
    · rintro ⟨hp, hrid⟩
      exact ⟨(FMap.get_of_get_delete hp).2, hrid⟩
    · rintro ⟨hp, hrid⟩
      have hk : k ≠ (h.client c).id := by
        intro hk
        rw [hc.eq_of_id hp hk, hnone] at hrid
        exact hne hrid.symm
      exact ⟨(FMap.get_delete_of_ne _ hk).trans hp, hrid⟩
  exact {
    clients_keyed := hi.clients_keyed.delete _
    client_lt := fun hp => hi.client_lt (FMap.get_of_get_delete hp).2
    rooms_ok := fun hr =>
      (hi.rooms_ok hr).frame rfl le_rfl fun k p => hocc (hi.rooms_ok hr).named
    stranded_alone := fun hne hgone hp hq =>
      hi.stranded_alone hne hgone ((hocc hne).mp hp) ((hocc hne).mp hq)
    used := fun hne hp => hi.used hne ((hocc hne).mp hp) }

/-! ### The operations -/

theorem Inv.enqueue (hi : h.Inv) (c : ClientPtr) (env : Envelope) : (h.enqueue c env).Inv :=
  hi.send _

theorem Inv.broadcastLocked (hi : h.Inv) {r : RoomPtr} (hm : h.Keyed (h.room r).peers)
    (env : Envelope) : (h.broadcastLocked w env r).Inv := by
  rw [broadcastLocked_eq hm]
  exact hi.send _

theorem Inv.broadcastRoomsLocked (hi : h.Inv) : (h.broadcastRoomsLocked w).Inv := by
  rw [broadcastRoomsLocked_eq hi.clients_keyed]
  exact hi.send _

theorem Inv.updateNick (hi : h.Inv) (c : ClientPtr) (env : Envelope) :
    (h.updateNick c env).Inv := by
  rw [updateNick_eq]
  exact hi.client (fun p _ => id_updateNick c p env) fun p _ => roomID_updateNick c p env

/-- What `leaveRoomLocked` leaves alone, and what becomes of the room. This is all that the handlers
which call it need to know. -/
structure Left (h h' : Hub) (c : ClientPtr) : Prop where
  clients : h'.clients = h.clients
  nextRoom : h'.nextRoom = h.nextRoom
  id : ∀ q, (h'.client q).id = (h.client q).id
  nick_of_ne : ∀ q, q ≠ c → (h'.client q).nick = (h.client q).nick
  roomID : (h'.client c).roomID = ""
  roomID_of_ne : ∀ q, q ≠ c → (h'.client q).roomID = (h.client q).roomID
  room_id : ∀ r, (h'.room r).id = (h.room r).id
  rooms : ∀ {rid r}, h'.rooms.get rid = some r → h.rooms.get rid = some r
  /-- A room survives unless the client was alone in it. -/
  survives : ∀ {rid r}, h.rooms.get rid = some r → h'.rooms.get rid = some r ∨
    (h'.rooms.get rid = none ∧ rid = (h.client c).roomID ∧
      ((h.room r).peers.delete (h.client c).id).len = 0)
  alone : ∀ {r}, h.rooms.get (h.client c).roomID = some r →
    ((h.room r).peers.delete (h.client c).id).len = 0 → h'.rooms.get (h.client c).roomID = none
  peers : ∀ {r}, h.rooms.get (h.client c).roomID = some r →
    (h'.room r).peers = (h.room r).peers.delete (h.client c).id
  elsewhere : ∀ {rid r}, h.rooms.get rid = some r → rid ≠ (h.client c).roomID →
    h'.room r = h.room r

theorem Inv.leaveRoomLocked (hi : h.Inv) (hc : h.Registered c) :
    (h.leaveRoomLocked w c).Inv ∧ h.Left (h.leaveRoomLocked w c) c := by
  have hnamed : ∀ {r}, h.rooms.get "" ≠ some r := fun hr => (hi.rooms_ok hr).named rfl
  have hne : ∀ q, q ≠ c → ((h.setRoomID c "").client q).roomID = (h.client q).roomID :=
    fun q hq => roomID_setRoomID_of_ne hq ""
  have hptr : ∀ {rid r r'}, h.rooms.get (h.client c).roomID = some r → h.rooms.get rid = some r' →
      rid ≠ (h.client c).roomID → r' ≠ r := by
    rintro rid r r' hr hr' hrid rfl
    exact hrid (hi.rooms_inj hr' hr)
  rcases leaveRoomLocked_cases (w := w) (c := c) (fun rid r hr => hi.room_keyed hr) with
    ⟨hnone, heq⟩ | ⟨-, hgone, heq⟩ | ⟨r, -, hr, hlast, heq⟩ | ⟨r, room', -, hr, hlen, hl, heq⟩ <;>
    rw [heq]
  · refine ⟨hi, rfl, rfl, fun _ => rfl, fun _ _ => rfl, hnone, fun _ _ => rfl, fun _ => rfl,
      fun hr => hr, Or.inl, fun hr => ?_, fun hr => ?_, fun _ _ => rfl⟩ <;>
    · rw [hnone] at hr
      exact absurd hr hnamed
  · refine ⟨hi.unstrand hgone, rfl, rfl, fun q => id_setRoomID c q "",
      fun q _ => nick_setRoomID c q "", roomID_setRoomID c "", hne, fun _ => rfl,
      fun hr => hr, Or.inl, fun _ _ => hgone, fun hr => ?_, fun _ _ => rfl⟩
    exact absurd (hr.symm.trans hgone) (by simp)
  · have hid := (hi.rooms_ok hr).id
    refine ⟨hi.vacate_last hc hr hlast, rfl, rfl, fun q => id_setRoomID c q "",
      fun q _ => nick_setRoomID c q "", roomID_setRoomID c "", hne, id_update_room rfl,
      fun hr' => (FMap.get_of_get_delete hr').2, fun {rid r'} hr' => ?_, fun _ _ => ?_,
      fun {r'} hr' => ?_, fun {rid r'} hr' hrid => ?_⟩
    · by_cases hrid : rid = (h.client c).roomID
      · subst hrid
        obtain rfl := Option.some.inj (hr.symm.trans hr')
        refine Or.inr ⟨?_, rfl, hlast⟩
        simp only [hid, FMap.get_delete_self]
      · refine Or.inl ?_
        simp only [hid, FMap.get_delete_of_ne _ hrid, hr']
    · simp only [hid, FMap.get_delete_self]
    · obtain rfl := Option.some.inj (hr.symm.trans hr')
      simp only [Function.update_self]
    · exact Function.update_of_ne (hptr hr hr' hrid) _ _
  · refine ⟨hi.vacate_others hc hr hl _, rfl, rfl, fun q => id_setRoomID c q "",
      fun q _ => nick_setRoomID c q "", roomID_setRoomID c "", hne, id_update_room hl.id,
      fun hr' => hr', Or.inl, fun {r'} hr' hlast => ?_, fun {r'} hr' => ?_,
      fun {rid r'} hr' hrid => ?_⟩
    · obtain rfl := Option.some.inj (hr.symm.trans hr')
      exact absurd hlast hlen
    · obtain rfl := Option.some.inj (hr.symm.trans hr')
      simp only [room_deliver, Function.update_self, hl.peers]
    · exact Function.update_of_ne (hptr hr hr' hrid) _ _

theorem Left.registered {h' : Hub} (hl : h.Left h' c) {p : ClientPtr} :
    h'.Registered p ↔ h.Registered p := by
  rw [Registered, Registered, hl.clients, hl.id]

theorem Inv.vacated (hi : h.Inv) (hc : h.Registered c) (env : Envelope) :
    (h.vacated w c env).Inv ∧ h.Left (h.vacated w c env) c := by
  obtain ⟨hi', hl⟩ := hi.leaveRoomLocked (w := w) hc
  refine ⟨hi'.updateNick c env, ?_⟩
  have hid : ∀ q, ((h.vacated w c env).client q).id = (h.client q).id := fun q =>
    (id_updateNick c q env).trans (hl.id q)
  have hroom : ∀ q, ((h.vacated w c env).client q).roomID =
      ((h.leaveRoomLocked w c).client q).roomID := fun q => roomID_updateNick c q env
  have hnick : ∀ q, q ≠ c → ((h.vacated w c env).client q).nick = (h.client q).nick :=
    fun q hq => (nick_updateNick_of_ne hq env).trans (hl.nick_of_ne q hq)
  have heq : h.vacated w c env =
      { h.leaveRoomLocked w c with client := (h.vacated w c env).client } := updateNick_eq c env
  rw [heq]
  exact ⟨hl.clients, hl.nextRoom, hid, hnick, (hroom c).trans hl.roomID,
    fun q hq => (hroom q).trans (hl.roomID_of_ne q hq), hl.room_id, hl.rooms, hl.survives,
    hl.alone, hl.peers, hl.elsewhere⟩

/-- A room created under a new id. -/
theorem Inv.founded (hi : h.Inv) (hc : h.Registered c) (env : Envelope)
    (hfresh : ∀ r < h.nextRoom, (h.room r).id ≠ "room_" ++ w.randomHex) :
    ((h.vacated w c env).founded c ((h.vacated w c env).newRoom w c env)).Inv := by
  obtain ⟨hi', hl⟩ := hi.vacated (w := w) hc env
  have hnamed : "room_" ++ w.randomHex ≠ "" := by
    intro hnil
    have := congrArg String.length hnil
    simp at this
  have hfresh' : ∀ r < (h.vacated w c env).nextRoom,
      ((h.vacated w c env).room r).id ≠ "room_" ++ w.randomHex := fun r hr => by
    rw [hl.room_id]
    exact hfresh r (hl.nextRoom ▸ hr)
  exact hi'.found (hl.registered.mpr hc) hl.roomID hfresh' hnamed rfl rfl

/-- A join whose room survives the implicit leave. Then the client is a member of a room that is
there. -/
theorem Inv.admitted_of_survives (hi : h.Inv) (hc : h.Registered c) {env : Envelope} {r : RoomPtr}
    (hr : h.rooms.get env.roomID = some r) (hlen : (h.room r).peers.len < maxPeersPerRoom)
    (hlive : (h.vacated w c env).rooms.get env.roomID = some r) :
    ((h.vacated w c env).admitted c r).Inv := by
  obtain ⟨hi', hl⟩ := hi.vacated (w := w) hc env
  refine hi'.admit (hl.registered.mpr hc) hl.roomID hlive ?_
  by_cases hrid : env.roomID = (h.client c).roomID
  · rw [hrid] at hr
    have := FMap.len_delete (hi.seated hc hr)
    rw [hl.peers hr]
    omega
  · rwa [hl.elsewhere hr hrid]

/-- A join whose room the implicit leave deleted. The client enters a room that no map holds any
more, which the invariant allows: it is about the rooms that are there. -/
theorem Inv.admitted_of_gone (hi : h.Inv) (hc : h.Registered c) {env : Envelope} {r : RoomPtr}
    (hr : h.rooms.get env.roomID = some r)
    (hgone : (h.vacated w c env).rooms.get env.roomID = none)
    (hrid : env.roomID = (h.client c).roomID)
    (hlast : ((h.room r).peers.delete (h.client c).id).len = 0) :
    ((h.vacated w c env).admitted c r).Inv := by
  obtain ⟨hi', hl⟩ := hi.vacated (w := w) hc env
  have hok := hi.rooms_ok hr
  refine hi'.strand hl.roomID hgone (hl.nextRoom ▸ hok.lt) ((hl.room_id r).trans hok.id) ?_
  rintro k p ⟨hp, hprid⟩
  rw [hl.clients] at hp
  have hpc : p ≠ c := by
    rintro rfl
    exact hok.named (hprid.symm.trans hl.roomID)
  have hocc : h.Occupies env.roomID k p := ⟨hp, (hl.roomID_of_ne p hpc).symm.trans hprid⟩
  have hget := (hok.peers_iff k p).mpr hocc
  have hk : k ≠ (h.client c).id := fun hk => hpc (hc.eq_of_id hp hk)
  rw [← FMap.get_delete_of_ne _ hk, FMap.len_eq_zero_iff.mp hlast] at hget
  exact absurd hget (by simp)

/-- Whether or not the room survived, its peers are keyed by their ids. -/
theorem Inv.admitted_keyed (hi : h.Inv) (hc : h.Registered c) (env : Envelope) {rid : String}
    {r : RoomPtr} (hr : h.rooms.get rid = some r) :
    ((h.vacated w c env).admitted c r).Keyed (((h.vacated w c env).admitted c r).room r).peers := by
  obtain ⟨-, hl⟩ := hi.vacated (w := w) hc env
  have hkeyed : h.Keyed ((h.vacated w c env).room r).peers := by
    by_cases hrid : rid = (h.client c).roomID
    · rw [hl.peers (hrid ▸ hr)]
      exact (hi.room_keyed hr).delete _
    · rw [hl.elsewhere hr hrid]
      exact hi.room_keyed hr
  intro k p hp
  simp only [admitted, Function.update_self, id_setRoomID, hl.id, FMap.get_put] at hp ⊢
  split at hp
  · next hk => rw [← Option.some.inj hp, hk]
  · exact hkeyed hp

/-- A join that is answered with `joined_room` keeps the invariant, even when it strands `c`. -/
theorem Inv.admitted (hi : h.Inv) (hc : h.Registered c) {env : Envelope} {r : RoomPtr}
    (hr : h.rooms.get env.roomID = some r) (hlen : (h.room r).peers.len < maxPeersPerRoom) :
    ((h.vacated w c env).admitted c r).Inv := by
  obtain ⟨-, hl⟩ := hi.vacated (w := w) hc env
  rcases hl.survives hr with hlive | ⟨hgone, hrid, hlast⟩
  · exact hi.admitted_of_survives hc hr hlen hlive
  · exact hi.admitted_of_gone hc hr hgone hrid hlast

/-- The connection ends, whatever room the client was in. The client is gone from the tables and
from its room; its record stays as it was. -/
theorem Inv.removeClient (hi : h.Inv) (hc : h.Registered c) : (h.removeClient w c).Inv := by
  have hforget : ∀ h' : Hub, h'.Inv → h'.clients = h.clients → (h'.client c).roomID = "" →
      (∀ p, (h'.client p).id = (h.client p).id) →
      (∀ p, p ≠ c → (h'.client p).roomID = (h.client p).roomID) →
      Inv { h' with client := h.client, clients := h.clients.delete (h.client c).id } := by
    intro h' hi' hclients hnone hid hroom
    have hc' : h'.Registered c := by rw [Registered, hclients, hid, hc]
    have hdel := hi'.forget hc' hnone
    rw [hclients, hid] at hdel
    refine hdel.client (fun p _ => (hid p).symm) fun p hp => (hroom p ?_).symm
    rintro rfl
    simp [Registered, hid] at hp
  have hid := fun p => id_setRoomID (h := h) c p ""
  have hne := fun p (hp : p ≠ c) => roomID_setRoomID_of_ne (h := h) hp ""
  rcases removeClient_cases (w := w) (c := c) (fun rid r hr => hi.room_keyed hr) with
    ⟨hnone, heq⟩ | ⟨-, hgone, heq⟩ | ⟨r, -, hr, hlast, heq⟩ | ⟨r, room', -, hr, -, hl, heq⟩ <;>
    rw [heq]
  · exact hi.forget hc hnone
  · exact hforget (h.setRoomID c "") (hi.unstrand hgone) rfl (roomID_setRoomID c "") hid hne
  · refine Inv.broadcastRoomsLocked ?_
    exact hforget _ (hi.vacate_last hc hr hlast) rfl (roomID_setRoomID c "") hid hne
  · refine Inv.broadcastRoomsLocked ?_
    exact (hforget _ (hi.vacate_others hc hr hl h.send) rfl (roomID_setRoomID c "") hid hne).send _

end Hub

end Coordinator

end TarkovVoice

import TarkovVoice.Coordinator.Runs

/-!
# Who is told

The notifications of `Effects.lean` go to whoever is in some room's `Peers`. Under the membership
invariant that comes down to what the clients' own records say: the one who leaves, joins or
speaks is heard by its roommates, the other registered clients with its `roomID`.

This also covers a client whose room is no longer there. It has no roommates, and nobody is told.

## Main definitions

* `Hub.Roommate`, `Hub.toRoommates`
* `Hub.news` — what a step offered to a client's queue

## Main results

* `Hub.toRoom_eq` — a broadcast about a member reaches its roommates
* `Hub.offered_leaveRoomLocked`, `Hub.offered_removeClient` — leaving tells the roommates
* `Hub.joined_occupies` — the peers of a room just joined, whether or not it survived
-/

namespace TarkovVoice

namespace Coordinator

namespace Hub

variable {w : Ambient} {h : Hub} {c q : ClientPtr} {env : Envelope}

/-- `q` is another registered client in the room `c` says it is in. The room itself may be gone;
then there is no such `q` (`Inv.no_roommate`). -/
def Roommate (h : Hub) (c q : ClientPtr) : Prop :=
  q ≠ c ∧ h.Registered q ∧ (h.client c).roomID ≠ "" ∧
    (h.client q).roomID = (h.client c).roomID

instance : Decidable (h.Roommate c q) := inferInstanceAs (Decidable (_ ∧ _ ∧ _ ∧ _))

/-- One envelope for each of `c`'s roommates, and nothing for `c` itself. -/
def toRoommates (h : Hub) (c : ClientPtr) (env : Envelope) : Mail :=
  fun q => if h.Roommate c q then [env] else []

/-- What a step from `h` to `h'` offered to `q`'s queue, whether or not there was room for it. -/
def news (h h' : Hub) (q : ClientPtr) : List Envelope :=
  (h'.send q).offered.drop (h.send q).offered.length

theorem news_of_offered {h' : Hub} {l : List Envelope}
    (hoff : (h'.send q).offered = (h.send q).offered ++ l) : h.news h' q = l := by
  rw [news, hoff, List.drop_left]

@[simp] theorem news_self : h.news h q = [] := List.drop_length

theorem mem_toOne {env' : Envelope} : env' ∈ toOne c env q ↔ q = c ∧ env' = env := by
  by_cases hq : q = c <;> simp [toOne, hq]

theorem mem_toRoommates {env' : Envelope} :
    env' ∈ h.toRoommates c env q ↔ h.Roommate c q ∧ env' = env := by
  by_cases hq : h.Roommate c q <;> simp [toRoommates, hq]

theorem mem_toRoom {m : GoMap ClientPtr} {env' : Envelope} :
    env' ∈ h.toRoom m env q ↔ h.Hears m env q ∧ env' = env := by
  by_cases hq : h.Hears m env q <;> simp [toRoom, hq]

theorem mem_toAll {env' : Envelope} :
    env' ∈ h.toAll w q ↔ h.Registered q ∧ env' = h.roomsEnvelope w := by
  by_cases hq : h.Registered q
  · simp [toAll, hq, show h.clients.get (h.client q).id = some q from hq]
  · simp [toAll, hq, show ¬ h.clients.get (h.client q).id = some q from hq]

section Kinds

variable {P : Envelope → Prop}

/-- Mail of one envelope is all of its kind. -/
theorem forall_toOne (hP : P env) : ∀ q, ∀ env' ∈ toOne c env q, P env' := by
  intro q env' henv
  rwa [(mem_toOne.mp henv).2]

theorem forall_toRoommates (hP : P env) : ∀ q, ∀ env' ∈ h.toRoommates c env q, P env' := by
  intro q env' henv
  rwa [(mem_toRoommates.mp henv).2]

theorem forall_toRoom {m : GoMap ClientPtr} (hP : P env) :
    ∀ q, ∀ env' ∈ h.toRoom m env q, P env' := by
  intro q env' henv
  rwa [(mem_toRoom.mp henv).2]

theorem forall_toAll (hP : P (h.roomsEnvelope w)) : ∀ q, ∀ env ∈ h.toAll w q, P env := by
  intro q env henv
  rwa [(mem_toAll.mp henv).2]

end Kinds

/-- **A broadcast about a member reaches its roommates** and nobody else. The map holds those who
say they are in the room, and the envelope carries the member's id, so it skips the member. -/
theorem toRoom_eq {m : GoMap ClientPtr} (hc : h.Registered c) (hnamed : (h.client c).roomID ≠ "")
    (hm : ∀ k p, m.get k = some p ↔ h.Occupies (h.client c).roomID k p)
    (hid : env.peerID = (h.client c).id) (htype : env.type ≠ "room_closed") :
    h.toRoom m env = h.toRoommates c env := by
  funext q
  have hiff : h.Hears m env q ↔ h.Roommate c q := by
    constructor
    · rintro ⟨hget, hskip⟩
      obtain ⟨hreg, hroom⟩ := (hm _ _).mp hget
      refine ⟨?_, hreg, hnamed, hroom⟩
      rintro rfl
      exact hskip.elim (fun hne => hne hid.symm) htype
    · rintro ⟨hne, hreg, -, hroom⟩
      refine ⟨(hm _ _).mpr ⟨hreg, hroom⟩, Or.inl fun hsame => hne ?_⟩
      exact hc.eq_of_id hreg (hsame.trans hid)
  simp only [toRoom, toRoommates, hiff]

theorem Inv.room_occupies (hi : h.Inv) {r : RoomPtr}
    (hr : h.rooms.get (h.client c).roomID = some r) (k : String) (p : ClientPtr) :
    (h.room r).peers.get k = some p ↔ h.Occupies (h.client c).roomID k p :=
  (hi.rooms_ok hr).peers_iff k p

/-- A client whose room is not there has no roommates. Others who say they are in such a room would
keep it there. -/
theorem Inv.no_roommate (hi : h.Inv) (hc : h.Registered c)
    (hgone : h.rooms.get (h.client c).roomID = none) : ¬ h.Roommate c q := by
  rintro ⟨hne, hreg, hnamed, hroom⟩
  exact hne (hi.stranded_alone hnamed hgone ⟨hreg, hroom⟩ hc.occupies)

/-- Those who stay behind in a room are the roommates of the one who leaves. The map is read after
the one who leaves has been taken out of it. -/
theorem Inv.hears_left (hi : h.Inv) (hc : h.Registered c) {r : RoomPtr}
    (hr : h.rooms.get (h.client c).roomID = some r) (rid : String) :
    h.Hears ((h.room r).peers.delete (h.client c).id) (h.peerLeft w c rid) q ↔
      h.Roommate c q := by
  have hok := hi.rooms_ok hr
  constructor
  · rintro ⟨hget, -⟩
    obtain ⟨hk, hget⟩ := FMap.get_of_get_delete hget
    obtain ⟨hreg, hroom⟩ := (hok.peers_iff _ _).mp hget
    refine ⟨?_, hreg, hok.named, hroom⟩
    rintro rfl
    exact hk rfl
  · rintro ⟨hne, hreg, -, hroom⟩
    have hk : (h.client q).id ≠ (h.client c).id := fun hk => hne (hc.eq_of_id hreg hk)
    refine ⟨?_, Or.inl hk⟩
    rw [FMap.get_delete_of_ne _ hk]
    exact (hok.peers_iff _ _).mpr ⟨hreg, hroom⟩

/-- When nobody stays behind there were no roommates. -/
theorem Inv.no_roommate_of_last (hi : h.Inv) (hc : h.Registered c) {r : RoomPtr}
    (hr : h.rooms.get (h.client c).roomID = some r)
    (hlast : ((h.room r).peers.delete (h.client c).id).len = 0) : ¬ h.Roommate c q := by
  intro hmate
  obtain ⟨hget, -⟩ := (hi.hears_left (w := Ambient.plain 0 "") hc hr "").mpr hmate
  rw [FMap.len_eq_zero_iff.mp hlast] at hget
  exact absurd hget (by simp)

/-- **Leaving tells the roommates**, and nobody else, and offers each of them one envelope. A client
in no room, or in one that is gone, tells nobody. -/
theorem Inv.offered_leaveRoomLocked (hi : h.Inv) (hc : h.Registered c) (q : ClientPtr) :
    ((h.leaveRoomLocked w c).send q).offered =
      (h.send q).offered ++ h.toRoommates c (h.peerLeft w c (h.client c).roomID) q := by
  have hquiet : ∀ {h' : Hub}, h'.send = h.send → ¬ h.Roommate c q →
      (h'.send q).offered =
        (h.send q).offered ++ h.toRoommates c (h.peerLeft w c (h.client c).roomID) q := by
    intro h' hsend hmate
    rw [hsend, toRoommates, if_neg hmate, List.append_nil]
  rcases leaveRoomLocked_cases (w := w) (c := c) (fun rid r hr => hi.room_keyed hr) with
    ⟨hnone, heq⟩ | ⟨-, hgone, heq⟩ | ⟨r, -, hr, hlast, heq⟩ | ⟨r, room', -, hr, hlen, hl, heq⟩ <;>
    rw [heq]
  · exact hquiet rfl fun hmate => hmate.2.2.1 hnone
  · exact hquiet rfl (hi.no_roommate hc hgone)
  · exact hquiet rfl (hi.no_roommate_of_last hc hr hlast)
  · rw [offered_deliver, hl.peers, (hi.rooms_ok hr).id]
    simp only [toRoom, toRoommates, hi.hears_left hc hr, send_setRoomID]

theorem offered_broadcastRoomsLocked (hkeyed : h.Keyed h.clients) (q : ClientPtr) :
    ∃ l : List Envelope, (∀ env ∈ l, env.type = "rooms") ∧
      ((h.broadcastRoomsLocked w).send q).offered = (h.send q).offered ++ l := by
  refine ⟨h.toAll w q, fun env henv => ?_, ?_⟩
  · rw [(mem_toAll.mp henv).2, roomsEnvelope]
  · rw [broadcastRoomsLocked_eq hkeyed, offered_deliver]

/-- A disconnect tells the roommates, and then perhaps everybody about the rooms. The lists go out
behind the notice, so a roommate hears of the leave first. -/
theorem Inv.offered_removeClient (hi : h.Inv) (hc : h.Registered c) (q : ClientPtr) :
    ∃ l : List Envelope, (∀ env ∈ l, env.type = "rooms") ∧
      ((h.removeClient w c).send q).offered =
        (h.send q).offered ++ (h.toRoommates c (h.peerLeft w c (h.client c).roomID) q ++ l) := by
  have hkeyed := hi.clients_keyed.delete (h.client c).id
  rcases removeClient_cases (w := w) (c := c) (fun rid r hr => hi.room_keyed hr) with
    ⟨hnone, heq⟩ | ⟨-, hgone, heq⟩ | ⟨r, -, hr, hlast, heq⟩ | ⟨r, room', -, hr, hlen, hl, heq⟩ <;>
    rw [heq]
  · refine ⟨[], by simp, ?_⟩
    rw [toRoommates, if_neg fun hmate => hmate.2.2.1 hnone]
    simp
  · refine ⟨[], by simp, ?_⟩
    rw [toRoommates, if_neg (hi.no_roommate hc hgone)]
    simp
  · obtain ⟨l, hrooms, hoff⟩ := offered_broadcastRoomsLocked (w := w) (h := { h with
      clients := h.clients.delete (h.client c).id
      rooms := h.rooms.delete (h.room r).id
      room := Function.update h.room r
        { h.room r with peers := (h.room r).peers.delete (h.client c).id } }) hkeyed q
    refine ⟨l, hrooms, hoff.trans ?_⟩
    rw [toRoommates, if_neg (hi.no_roommate_of_last hc hr hlast), List.nil_append]
  · obtain ⟨l, hrooms, hoff⟩ := offered_broadcastRoomsLocked (w := w) (h := { h with
      clients := h.clients.delete (h.client c).id
      room := Function.update h.room r room' }.deliver
        (h.toRoom room'.peers (h.peerLeft w c (h.room r).id))) hkeyed q
    refine ⟨l, hrooms, hoff.trans ?_⟩
    rw [offered_deliver, hl.peers, (hi.rooms_ok hr).id, List.append_assoc]
    simp only [toRoom, toRoommates, hi.hears_left hc hr]

/-- A disconnect takes the client out of `h.clients` and leaves every record as it is, also the
client's own, which keeps naming the room. -/
theorem Inv.removeClient_tables (hi : h.Inv) (c : ClientPtr) :
    (h.removeClient w c).client = h.client ∧
      (h.removeClient w c).clients = h.clients.delete (h.client c).id := by
  have hkeyed := hi.clients_keyed.delete (h.client c).id
  rcases removeClient_cases (w := w) (c := c) (fun rid r hr => hi.room_keyed hr) with
    ⟨-, heq⟩ | ⟨-, -, heq⟩ | ⟨r, -, -, -, heq⟩ | ⟨r, room', -, -, -, -, heq⟩ <;> rw [heq]
  · exact ⟨rfl, rfl⟩
  · exact ⟨rfl, rfl⟩
  · rw [broadcastRoomsLocked_eq hkeyed]
    exact ⟨rfl, rfl⟩
  · rw [broadcastRoomsLocked_eq hkeyed]
    exact ⟨rfl, rfl⟩

/-! ### Entering -/

theorem Inv.offered_vacated (hi : h.Inv) (hc : h.Registered c) (env : Envelope) (q : ClientPtr) :
    ((h.vacated w c env).send q).offered =
      (h.send q).offered ++ h.toRoommates c (h.peerLeft w c (h.client c).roomID) q := by
  rw [Hub.vacated, updateNick_eq]
  exact hi.offered_leaveRoomLocked hc q

theorem id_joined {p : ClientPtr} {r : RoomPtr} :
    ((h.joined w c env r).client p).id = ((h.vacated w c env).client p).id :=
  id_setRoomID c p _

theorem Inv.roomID_joined (hi : h.Inv) (hc : h.Registered c) {r : RoomPtr}
    (hr : h.rooms.get env.roomID = some r) :
    ((h.joined w c env r).client c).roomID = env.roomID := by
  obtain ⟨-, hl⟩ := hi.vacated (w := w) hc env
  have hid : ((h.vacated w c env).room r).id = env.roomID :=
    (hl.room_id r).trans (hi.rooms_ok hr).id
  rw [← hid]
  exact roomID_setRoomID c _

theorem Inv.id_room_joined (hi : h.Inv) (hc : h.Registered c) {r : RoomPtr}
    (hr : h.rooms.get env.roomID = some r) :
    ((h.joined w c env r).room r).id = env.roomID := by
  obtain ⟨-, hl⟩ := hi.vacated (w := w) hc env
  simp only [joined, Hub.admitted, Function.update_self]
  exact (hl.room_id r).trans (hi.rooms_ok hr).id

theorem Inv.registered_joined (hi : h.Inv) (hc : h.Registered c) (env : Envelope) (r : RoomPtr) :
    (h.joined w c env r).Registered c := by
  rw [Registered, id_joined]
  exact (hi.vacated (w := w) hc env).2.registered.mpr hc

/-- A join adds `c` to the occupants of the room, and changes no other. It is said by the records of
the clients, so it holds also when the room itself is gone. -/
theorem Inv.occupies_joined (hi : h.Inv) (hc : h.Registered c) {r : RoomPtr}
    (hr : h.rooms.get env.roomID = some r) (rid k : String) (p : ClientPtr) :
    (h.joined w c env r).Occupies rid k p ↔
      (p = c ∧ (h.vacated w c env).clients.get k = some c ∧ env.roomID = rid) ∨
        (p ≠ c ∧ (h.vacated w c env).Occupies rid k p) := by
  obtain ⟨-, hl⟩ := hi.vacated (w := w) hc env
  have hid : ((h.vacated w c env).room r).id = env.roomID :=
    (hl.room_id r).trans (hi.rooms_ok hr).id
  rw [← hid]
  exact occupies_setRoomID (h := h.vacated w c env)

/-- The clients `c` finds in the room it joins are those who say they are in it, whether or not
the room is still in `h.rooms`. -/
theorem Inv.joined_occupies (hi : h.Inv) (hc : h.Registered c) {r : RoomPtr}
    (hr : h.rooms.get env.roomID = some r) (hlen : (h.room r).peers.len < maxPeersPerRoom)
    (k : String) (p : ClientPtr) :
    ((h.joined w c env r).room r).peers.get k = some p ↔
      (h.joined w c env r).Occupies env.roomID k p := by
  obtain ⟨-, hl⟩ := hi.vacated (w := w) hc env
  have hij : (h.joined w c env r).Inv := hi.admitted hc hr hlen
  have hreg := hi.registered_joined (w := w) hc env r
  have hroom := hi.roomID_joined (w := w) hc hr
  rcases hl.survives hr with hlive | ⟨hgone, hrid, hlast⟩
  · exact (hij.rooms_ok (r := r) hlive).peers_iff k p
  · have hget : ((h.joined w c env r).room r).peers.get k =
        if k = (h.client c).id then some c else none := by
      have hold := hl.peers (hrid ▸ hr)
      simp only [joined, Hub.admitted, Function.update_self, hold, hl.id, FMap.get_put,
        FMap.len_eq_zero_iff.mp hlast]
    have hidc : ((h.joined w c env r).client c).id = (h.client c).id := id_joined.trans (hl.id c)
    rw [hget]
    constructor
    · intro hp
      split at hp
      · next hk =>
        rw [← Option.some.inj hp, hk, ← hidc]
        exact ⟨hreg, hroom⟩
      · exact absurd hp (by simp)
    · intro hp
      have hpc : p = c := hij.stranded_alone (hi.rooms_ok hr).named hgone hp ⟨hreg, hroom⟩
      subst hpc
      rw [if_pos ((hij.clients_keyed hp.1).symm.trans hidc)]

/-- The one who joins is announced to its new roommates. When the room is gone there are none, and
the announcement reaches nobody. -/
theorem Inv.toRoom_joined (hi : h.Inv) (hc : h.Registered c) {r : RoomPtr}
    (hr : h.rooms.get env.roomID = some r) (hlen : (h.room r).peers.len < maxPeersPerRoom)
    (rid : String) :
    (h.joined w c env r).toRoom ((h.joined w c env r).room r).peers
        (peerJoined w (h.joined w c env r) c rid env) =
      (h.joined w c env r).toRoommates c (peerJoined w (h.joined w c env r) c rid env) := by
  have hroom := hi.roomID_joined (w := w) hc hr
  refine toRoom_eq (hi.registered_joined hc env r) ?_ ?_ rfl (by simp [peerJoined])
  · rw [hroom]
    exact (hi.rooms_ok hr).named
  · rw [hroom]
    exact hi.joined_occupies hc hr hlen

/-! ### What the channels take -/

/-- What of the news of a step `q`'s channel had room for. A full channel drops what is offered to
it. -/
def accepted (h h' : Hub) (q : ClientPtr) : List Envelope :=
  (h'.send q).queued.drop (h.send q).queued.length

/-- Every queue's history is extended, and what is accepted is part of what is offered. Nothing is
ever taken back. -/
def Extends (h h' : Hub) : Prop :=
  ∀ q, ∃ l l', l'.Sublist l ∧ (h'.send q).offered = (h.send q).offered ++ l ∧
    (h'.send q).queued = (h.send q).queued ++ l'

theorem Extends.accepted {h' : Hub} (hx : h.Extends h') (q : ClientPtr) :
    (h.accepted h' q).Sublist (h.news h' q) := by
  obtain ⟨l, l', hsub, hoff, hqueued⟩ := hx q
  rw [news_of_offered hoff, Hub.accepted, hqueued, List.drop_left]
  exact hsub

theorem extends_of_send {h' : Hub} (hsend : h'.send = h.send) : h.Extends h' := by
  intro q
  exact ⟨[], [], List.Sublist.refl _, by rw [hsend, List.append_nil],
    by rw [hsend, List.append_nil]⟩

theorem Extends.deliver {h' : Hub} (hx : h.Extends h') (mail : Mail) :
    h.Extends (h'.deliver mail) := by
  intro q
  obtain ⟨l, l', hsub, hoff, hqueued⟩ := hx q
  obtain ⟨m, hm, hmail⟩ := SendQueue.queued_offerAll (h'.send q) (mail q)
  refine ⟨l ++ mail q, l' ++ m, hsub.append hm, ?_, ?_⟩
  · rw [offered_deliver, hoff, List.append_assoc]
  · rw [Hub.deliver, hmail, hqueued, List.append_assoc]

theorem Inv.extends_leaveRoomLocked (hi : h.Inv) (c : ClientPtr) :
    h.Extends (h.leaveRoomLocked w c) := by
  rcases leaveRoomLocked_cases (w := w) (c := c) (fun rid r hr => hi.room_keyed hr) with
    ⟨-, heq⟩ | ⟨-, -, heq⟩ | ⟨r, -, -, -, heq⟩ | ⟨r, room', -, -, -, -, heq⟩ <;> rw [heq]
  · exact extends_of_send rfl
  · exact extends_of_send rfl
  · exact extends_of_send rfl
  · exact (extends_of_send rfl).deliver _

theorem Inv.extends_vacated (hi : h.Inv) (c : ClientPtr) (env : Envelope) :
    h.Extends (h.vacated w c env) := by
  rw [Hub.vacated, updateNick_eq]
  exact hi.extends_leaveRoomLocked c

theorem Inv.extends_removeClient (hi : h.Inv) (c : ClientPtr) :
    h.Extends (h.removeClient w c) := by
  have hkeyed := hi.clients_keyed.delete (h.client c).id
  rcases removeClient_cases (w := w) (c := c) (fun rid r hr => hi.room_keyed hr) with
    ⟨-, heq⟩ | ⟨-, -, heq⟩ | ⟨r, -, -, -, heq⟩ | ⟨r, room', -, -, -, -, heq⟩ <;> rw [heq]
  · exact extends_of_send rfl
  · exact extends_of_send rfl
  · rw [broadcastRoomsLocked_eq hkeyed]
    exact (extends_of_send rfl).deliver _
  · rw [broadcastRoomsLocked_eq hkeyed]
    exact ((extends_of_send rfl).deliver _).deliver _

theorem Inv.extends_handled (hi : h.Inv) {h' : Hub} (hh : Handled w h c env h') :
    h.Extends h' := by
  cases hh with
  | create =>
    have hcreated : h.Extends (h.created w c env) := hi.extends_vacated c env
    exact (hcreated.deliver _).deliver _
  | @join r =>
    have hjoined : h.Extends (h.joined w c env r) := hi.extends_vacated c env
    exact ((hjoined.deliver _).deliver _).deliver _
  | leave => exact (hi.extends_leaveRoomLocked c).deliver _
  | hello =>
    rw [updateNick_eq]
    exact ((extends_of_send rfl).deliver _).deliver _
  | silent => exact extends_of_send rfl
  | listRooms | route | unavailable | status | voice | reply =>
    exact (extends_of_send rfl).deliver _

end Hub

end Coordinator

end TarkovVoice

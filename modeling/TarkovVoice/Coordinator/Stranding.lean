import TarkovVoice.Coordinator.Mail

/-!
# Stranded clients

A client whose `roomID` is not empty should be in that room: `h.rooms` has it, and its `Peers`
have the client. Every operation keeps this but one. `joinRoom` looks up the room, then leaves the
client's old room, then enters the room it had looked up. When both are the same room and the
client is alone in it, leaving deletes it from `h.rooms`, and the client enters a room that no
longer exists.

The condition is exact. A run keeps all rooms real precisely when no client ever joins the room
it is alone in.

## Main definitions

* `Hub.RoomsAreReal`, `Hub.RejoinsAlone`

## Main results

* `Hub.roomsAreReal_after_iff` — what one step does to `RoomsAreReal`
* `Hub.rooms_are_real_iff` — when a run keeps it, and when an answered join does
* `Hub.stranded_not_real` — a run that does not
-/

namespace TarkovVoice

namespace Coordinator

namespace Hub

variable {w : Ambient} {h : Hub} {c p : ClientPtr} {env : Envelope}

/-- `c` is a member of the room stored under `rid`: the room's own record says so, whatever the
client's does. -/
def IsMember (h : Hub) (rid : String) (c : ClientPtr) : Prop :=
  ∃ r, h.rooms.get rid = some r ∧ (h.room r).peers.get (h.client c).id = some c

/-- Every registered client that says it is in a room is a member of it. By the invariant it could
fail only because the room is not there. -/
def RoomsAreReal (h : Hub) : Prop :=
  ∀ k c, h.clients.get k = some c → (h.client c).roomID ≠ "" → h.IsMember (h.client c).roomID c

/-- A client asks to join the room it is in, and nobody else is in it. Leaving the room first
deletes it. -/
def RejoinsAlone (h : Hub) : Event → Prop
  | .handle c env _ => env.type = "join_room" ∧ env.roomID = (h.client c).roomID ∧
      ∃ r, h.rooms.get env.roomID = some r ∧ (h.room r).peers.len = 1
  | _ => False

/-! ### One step -/

/-- `p` is registered and says it is in a room that is not there. This happens to a client that
joins the room it is alone in. -/
def Lost (h : Hub) (p : ClientPtr) : Prop :=
  h.Registered p ∧ (h.client p).roomID ≠ "" ∧ h.rooms.get (h.client p).roomID = none

@[simp] theorem lost_deliver (mail : Mail) : (h.deliver mail).Lost p ↔ h.Lost p := Iff.rfl

theorem Inv.isMember_iff (hi : h.Inv) (hc : h.Registered c) (hnamed : (h.client c).roomID ≠ "") :
    h.IsMember (h.client c).roomID c ↔ ¬ h.Lost c := by
  constructor
  · rintro ⟨r, hr, -⟩ ⟨-, -, hgone⟩
    exact absurd (hr.symm.trans hgone) (by simp)
  · intro hlost
    rcases hr : h.rooms.get (h.client c).roomID with _ | r
    · exact absurd ⟨hc, hnamed, hr⟩ hlost
    · exact ⟨r, hr, hi.seated hc hr⟩

theorem Inv.roomsAreReal_iff (hi : h.Inv) : h.RoomsAreReal ↔ ∀ p, ¬ h.Lost p := by
  constructor
  · intro hreal p hlost
    exact (hi.isMember_iff hlost.1 hlost.2.1).mp (hreal _ p hlost.1 hlost.2.1) hlost
  · intro hnone k p hp hnamed
    exact (hi.isMember_iff (hi.registered hp) hnamed).mpr (hnone p)

/-- Leaving a room strands nobody. The room is deleted only when nobody is left in it. -/
theorem Inv.lost_of_left (hi : h.Inv) (hc : h.Registered c) {h' : Hub} (hl : h.Left h' c)
    (hlost : h'.Lost p) : h.Lost p := by
  obtain ⟨hreg, hnamed, hgone⟩ := hlost
  have hpc : p ≠ c := by
    rintro rfl
    exact hnamed hl.roomID
  rw [hl.roomID_of_ne p hpc] at hnamed hgone
  refine ⟨hl.registered.mp hreg, hnamed, ?_⟩
  rcases hr : h.rooms.get (h.client p).roomID with _ | r
  · rfl
  · rcases hl.survives hr with hlive | ⟨-, hrid, hlast⟩
    · exact absurd (hlive.symm.trans hgone) (by simp)
    · refine absurd ⟨hpc, hl.registered.mp hreg, hrid ▸ hnamed, hrid⟩
        (hi.no_roommate_of_last hc (hrid ▸ hr) hlast)

/-- Founding a room strands nobody, although its founder leaves another one first. -/
theorem Inv.lost_of_created (hi : h.Inv) (hc : h.Registered c)
    (hlost : (h.created w c env).Lost p) : h.Lost p := by
  obtain ⟨-, hl⟩ := hi.vacated (w := w) hc env
  obtain ⟨hreg, hnamed, hgone⟩ := hlost
  have hpc : p ≠ c := by
    rintro rfl
    simp [created, Hub.founded] at hgone
  have hroom : ((h.created w c env).client p).roomID = ((h.vacated w c env).client p).roomID :=
    roomID_setRoomID_of_ne hpc _
  rw [hroom] at hnamed hgone
  refine hi.lost_of_left hc hl ⟨?_, hnamed, ?_⟩
  · have hid : ((h.created w c env).client p).id = ((h.vacated w c env).client p).id :=
      id_setRoomID c p _
    rw [Registered, ← hid]
    exact hreg
  · simp only [created, Hub.founded, FMap.get_put] at hgone
    split at hgone
    · exact absurd hgone (by simp)
    · exact hgone

/-- Nobody but the one who joins can be stranded by a join. Whoever stays behind in the old room
keeps it there. -/
theorem Inv.lost_of_joined (hi : h.Inv) (hc : h.Registered c) {r : RoomPtr} (hpc : p ≠ c)
    (hlost : (h.joined w c env r).Lost p) : h.Lost p := by
  obtain ⟨-, hl⟩ := hi.vacated (w := w) hc env
  obtain ⟨hreg, hnamed, hgone⟩ := hlost
  have hroom : ((h.joined w c env r).client p).roomID = ((h.vacated w c env).client p).roomID :=
    roomID_setRoomID_of_ne hpc _
  rw [hroom] at hnamed hgone
  refine hi.lost_of_left hc hl ⟨?_, hnamed, hgone⟩
  have hid : ((h.joined w c env r).client p).id = ((h.vacated w c env).client p).id := id_joined
  rw [Registered, ← hid]
  exact hreg

/-- And that happens exactly when it was alone in the very room. Any other room outlives the leave,
or is not the one that was left. -/
theorem Inv.lost_joined_iff (hi : h.Inv) (hc : h.Registered c) (htype : env.type = "join_room")
    {r : RoomPtr} (hr : h.rooms.get env.roomID = some r) :
    (h.joined w c env r).Lost c ↔ h.RejoinsAlone (.handle c env w) := by
  obtain ⟨-, hl⟩ := hi.vacated (w := w) hc env
  have hroom := hi.roomID_joined (w := w) hc hr
  have hreg := hi.registered_joined (w := w) hc env r
  constructor
  · rintro ⟨-, -, hgone⟩
    rw [hroom] at hgone
    rcases hl.survives hr with hlive | ⟨-, hrid, hlast⟩
    · exact absurd (hlive.symm.trans hgone) (by simp)
    · have hlen := FMap.len_delete (hi.seated hc (hrid ▸ hr))
      exact ⟨htype, hrid, r, hr, by omega⟩
  · rintro ⟨-, hrid, r', hr', hone⟩
    obtain rfl := Option.some.inj (hr.symm.trans hr')
    have hlen := FMap.len_delete (hi.seated hc (hrid ▸ hr))
    refine ⟨hreg, by rw [hroom]; exact (hi.rooms_ok hr).named, ?_⟩
    rw [hroom, hrid]
    exact hl.alone (hrid ▸ hr) (by omega)

/-- A disconnect strands nobody. The client is not registered afterwards, and the room is deleted
only when it is empty. -/
theorem Inv.lost_of_removeClient (hi : h.Inv) (hc : h.Registered c)
    (hlost : (h.removeClient w c).Lost p) : h.Lost p := by
  have hkeyed := hi.clients_keyed.delete (h.client c).id
  have hreg : ∀ {k p}, (h.clients.delete (h.client c).id).get k = some p → p ≠ c := by
    rintro k p hp rfl
    obtain ⟨hne, hp⟩ := FMap.get_of_get_delete hp
    exact hne (hi.clients_keyed hp).symm
  rcases removeClient_cases (w := w) (c := c) (fun rid r hr => hi.room_keyed hr) with
    ⟨-, heq⟩ | ⟨-, -, heq⟩ | ⟨r, -, hr, hlast, heq⟩ | ⟨r, room', -, hr, -, -, heq⟩ <;>
    rw [heq] at hlost
  · exact ⟨(FMap.get_of_get_delete hlost.1).2, hlost.2⟩
  · exact ⟨(FMap.get_of_get_delete hlost.1).2, hlost.2⟩
  · rw [broadcastRoomsLocked_eq hkeyed] at hlost
    obtain ⟨hget, hnamed, hgone⟩ := hlost
    have hp : h.Registered p := (FMap.get_of_get_delete hget).2
    refine ⟨hp, hnamed, ?_⟩
    have hne : (h.client p).roomID ≠ (h.client c).roomID := fun hsame =>
      hi.no_roommate_of_last hc hr hlast ⟨hreg hget, hp, hsame ▸ hnamed, hsame⟩
    have hgone : (h.rooms.delete (h.room r).id).get (h.client p).roomID = none := hgone
    rwa [(hi.rooms_ok hr).id, FMap.get_delete_of_ne _ hne] at hgone
  · rw [broadcastRoomsLocked_eq hkeyed] at hlost
    exact ⟨(FMap.get_of_get_delete hlost.1).2, hlost.2⟩

theorem Inv.lost_of_handled (hi : h.Inv) (hc : h.Registered c) {h' : Hub}
    (hh : Handled w h c env h') (hlost : h'.Lost p) :
    h.Lost p ∨ h.RejoinsAlone (.handle c env w) := by
  cases hh with
  | create =>
    simp only [lost_deliver] at hlost
    exact Or.inl (hi.lost_of_created hc hlost)
  | join htype hr hlen =>
    simp only [lost_deliver] at hlost
    by_cases hpc : p = c
    · subst hpc
      exact Or.inr ((hi.lost_joined_iff hc htype hr).mp hlost)
    · exact Or.inl (hi.lost_of_joined hc hpc hlost)
  | leave => exact Or.inl (hi.lost_of_left hc (hi.leaveRoomLocked (w := w) hc).2 hlost)
  | hello =>
    obtain ⟨hreg, hnamed, hgone⟩ := hlost
    simp only [client_deliver, rooms_deliver, roomID_updateNick] at hnamed hgone
    rw [updateNick_eq] at hgone
    refine Or.inl ⟨?_, hnamed, hgone⟩
    simp only [Registered, client_deliver, clients_deliver, id_updateNick] at hreg
    rw [updateNick_eq] at hreg
    exact hreg
  | silent => exact Or.inl hlost
  | listRooms | route | unavailable | status | voice | reply => exact Or.inl hlost

theorem Inv.lost_of_after (hi : h.Inv) {e : Event} (he : h.Enabled e)
    (hlost : (h.after e).Lost p) : h.Lost p ∨ h.RejoinsAlone e := by
  cases e with
  | addClient id nick cap =>
    obtain ⟨hreg, hnamed, hgone⟩ := hlost
    have hpn : p ≠ h.nextClient := by
      rintro rfl
      simp [Hub.after, newClient, Hub.addClient] at hnamed
    have hold : ((h.after (.addClient id nick cap)).client p) = h.client p :=
      Function.update_of_ne hpn _ _
    rw [hold] at hnamed hgone
    rw [Registered, hold] at hreg
    refine Or.inl ⟨?_, hnamed, hgone⟩
    simp only [Hub.after, newClient, Hub.addClient, Function.update_self, FMap.get_put] at hreg
    split at hreg
    · exact absurd (Option.some.inj hreg).symm hpn
    · exact hreg
  | handle c env w => exact hi.lost_of_handled he.1 (handle_handled hi he.1 env) hlost
  | invalidJson c w => exact Or.inl hlost
  | removeClient c w => exact Or.inl (hi.lost_of_removeClient he hlost)
  | writeLoop c => exact Or.inl hlost

/-- A client that joins the room it is alone in is answered, and stranded. -/
theorem Inv.lost_of_rejoinsAlone (hi : h.Inv) {e : Event} (he : h.Enabled e)
    (halone : h.RejoinsAlone e) : ∃ p, (h.after e).Lost p := by
  cases e with
  | handle c env w =>
    obtain ⟨htype, hrid, r, hr, hone⟩ := halone
    have hlen : (h.room r).peers.len < maxPeersPerRoom := by
      rw [hone]
      decide
    have hlost : (h.joined w c env r).Lost c :=
      (hi.lost_joined_iff he.1 htype hr).mpr ⟨htype, hrid, r, hr, hone⟩
    have heq : h.handle w c env = h.joinRoom w c env := by
      simp only [Hub.handle, htype]
    refine ⟨c, ?_⟩
    rw [Hub.after, heq, hi.joinRoom_delivers he.1 hr hlen]
    exact hlost
  | addClient | invalidJson | removeClient | writeLoop => exact halone.elim

/-- **One step keeps the rooms real unless a client rejoins alone**, and then that client's room is
not real any more. -/
theorem roomsAreReal_after_iff (hi : h.Inv) (hreal : h.RoomsAreReal) {e : Event}
    (he : h.Enabled e) : (h.after e).RoomsAreReal ↔ ¬ h.RejoinsAlone e := by
  rw [(hi.after he).roomsAreReal_iff]
  rw [hi.roomsAreReal_iff] at hreal
  constructor
  · intro hnone halone
    obtain ⟨p, hlost⟩ := hi.lost_of_rejoinsAlone he halone
    exact hnone p hlost
  · intro halone p hlost
    exact (hi.lost_of_after he hlost).elim (hreal p) halone

/-! ### Runs -/

theorem roomsAreReal_newHub : newHub.RoomsAreReal := by
  intro k c hc
  simp [newHub] at hc

/-- The client asks to join a room, and the step answers it with `joined_room`. -/
def JoinAnswered (h : Hub) (c : ClientPtr) (env : Envelope) (w : Ambient) : Prop :=
  env.type = "join_room" ∧
    ∃ answer ∈ h.news (h.after (.handle c env w)) c, answer.type = "joined_room"

/-- Only a join of a room that is there and not full is answered with `joined_room`. -/
theorem JoinAnswered.room (ha : h.JoinAnswered c env w) : ∃ r,
    h.rooms.get env.roomID = some r ∧ (h.room r).peers.len < maxPeersPerRoom := by
  obtain ⟨htype, answer, hmem, hjoined⟩ := ha
  have heq : h.after (.handle c env w) = h.joinRoom w c env := by
    simp only [Hub.after, Hub.handle, htype]
  have hrefused : ∀ error : String, h.joinRoom w c env = h.enqueue c (errorEnvelope w error) →
      False := by
    intro error hjoin
    have hoff : ((h.after (.handle c env w)).send c).offered =
        (h.send c).offered ++ toOne c (errorEnvelope w error) c := by
      rw [heq, hjoin, enqueue_eq, offered_deliver]
    rw [news_of_offered hoff] at hmem
    rw [(mem_toOne.mp hmem).2, errorEnvelope] at hjoined
    simp at hjoined
  rcases hr : h.rooms.get env.roomID with _ | r
  · refine (hrefused "room not found" ?_).elim
    simp only [joinRoom, hr]
    rfl
  · by_cases hlen : (h.room r).peers.len < maxPeersPerRoom
    · exact ⟨r, rfl, hlen⟩
    · refine (hrefused "room is full" ?_).elim
      simp only [joinRoom, hr, if_pos (Nat.not_lt.mp hlen)]
      rfl

/-- An answered join makes the client a member unless it rejoins alone. The answer itself says that
it has joined in either case. -/
theorem Inv.isMember_of_joinAnswered_iff (hi : h.Inv) (he : h.Enabled (.handle c env w))
    (ha : h.JoinAnswered c env w) :
    (h.after (.handle c env w)).IsMember env.roomID c ↔ ¬ h.RejoinsAlone (.handle c env w) := by
  obtain ⟨r, hr, hlen⟩ := ha.room
  have heq : h.after (.handle c env w) = h.joinRoom w c env := by
    simp only [Hub.after, Hub.handle, ha.1]
  have hjoin := heq.trans (hi.joinRoom_delivers he.1 hr hlen)
  have hroom : ((h.after (.handle c env w)).client c).roomID = env.roomID := by
    simp only [hjoin, client_deliver]
    exact hi.roomID_joined he.1 hr
  have hreg : (h.after (.handle c env w)).Registered c := by
    simp only [hjoin, registered_deliver]
    exact hi.registered_joined he.1 env r
  have hlost : (h.after (.handle c env w)).Lost c ↔ h.RejoinsAlone (.handle c env w) := by
    simp only [hjoin, lost_deliver]
    exact hi.lost_joined_iff he.1 ha.1 hr
  have hmember := (hi.after he).isMember_iff hreg (by rw [hroom]; exact (hi.rooms_ok hr).named)
  rw [hroom] at hmember
  rw [hmember, hlost]

/-- **Rooms stay real exactly when nobody rejoins alone.** A run keeps every client in the room
it says it is in as long as no step of it is a client joining the room it is alone in, and no
longer. A join in the state it ends in that is answered with `joined_room` makes the client a
member of the room, unless it is such a step. -/
theorem rooms_are_real_iff {t : List (Hub × Event)} (hrun : machine.Run t h) :
    (((∀ x ∈ t, x.1.RoomsAreReal) ∧ h.RoomsAreReal) ↔ ∀ x ∈ t, ¬ x.1.RejoinsAlone x.2) ∧
    ∀ c env w, h.Enabled (.handle c env w) → h.JoinAnswered c env w →
      ((h.after (.handle c env w)).IsMember env.roomID c ↔
        ¬ h.RejoinsAlone (.handle c env w)) := by
  have hinit : ∀ h, machine.init h → h.RoomsAreReal := by
    rintro _ rfl
    exact roomsAreReal_newHub
  have hstep : ∀ h e h', machine.Reachable h → h.RoomsAreReal → machine.step h e h' →
      (h'.RoomsAreReal ↔ ¬ h.RejoinsAlone e) := by
    rintro h e _ hreach hreal ⟨he, rfl⟩
    exact roomsAreReal_after_iff (inv_of_reachable hreach) hreal he
  refine ⟨hrun.visited_iff (P := RoomsAreReal) hinit hstep, fun c env w he ha => ?_⟩
  exact (inv_of_reachable ⟨t, hrun⟩).isMember_of_joinAnswered_iff he ha

/-- The message that strands the only member of `room_a1`. -/
def rejoin : Event := .handle 0 { type := "join_room", roomID := "room_a1" } (Ambient.plain 20 "a2")

/-- The host of `hosting` after it joined its own room. -/
def stranded : Hub := hosting.after rejoin

theorem stranded_reachable : machine.Reachable stranded :=
  reachable_after hosting_reachable (And.intro (by decide) (by decide))

theorem rejoin_answered :
    hosting.JoinAnswered 0 { type := "join_room", roomID := "room_a1" } (Ambient.plain 20 "a2") :=
  ⟨rfl, by decide⟩

theorem rooms_are_real_iff_hosting :
    hosting.RoomsAreReal ∧ (stranded.IsMember "room_a1" 0 ↔ ¬ hosting.RejoinsAlone rejoin) := by
  refine ⟨((rooms_are_real_iff hosting_run).1.mpr ?_).2, ?_⟩
  · intro x hx
    rcases List.mem_cons.mp hx with rfl | hx
    · exact id
    · rw [List.mem_singleton.mp hx]
      rintro ⟨htype, -⟩
      exact absurd htype (by decide)
  · exact (rooms_are_real_iff hosting_run).2 _ _ _ (And.intro (by decide) (by decide))
      rejoin_answered

/-- **A reachable hub whose rooms are not real.** The only member has joined its own room, which was
closed when it left it. -/
theorem stranded_not_real : machine.Reachable stranded ∧ ¬ stranded.RoomsAreReal ∧
    hosting.JoinAnswered 0 { type := "join_room", roomID := "room_a1" } (Ambient.plain 20 "a2") ∧
    ¬ (hosting.after rejoin).IsMember "room_a1" 0 := by
  have hgone : stranded.rooms.get "room_a1" = none := by decide
  have hmember : ¬ stranded.IsMember "room_a1" 0 := by
    rintro ⟨r, hr, -⟩
    exact absurd (hr.symm.trans hgone) (by simp)
  refine ⟨stranded_reachable, fun hreal => hmember ?_, rejoin_answered, hmember⟩
  exact hreal "peer_1" 0 (by decide) (by decide)

end Hub

end Coordinator

end TarkovVoice

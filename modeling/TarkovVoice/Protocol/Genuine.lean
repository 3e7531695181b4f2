import TarkovVoice.Coordinator.Conversation
import TarkovVoice.Protocol.RoomMessages

/-!
# What the coordinator can hold and send

The coordinator makes all ids itself: `peer_` and `room_` with random hexadecimal digits. Nicks and
room names come from the clients. This file carries a condition on those texts through every run, to
the rooms, to the records of the clients and to every envelope that is queued.

`Readable` says of a nick or a name that the client's search for a list of members is not led
astray by it.

## Main definitions

* `Readable`, `GenuineEvent` — the condition, and the events whose texts satisfy it
* `GenuineMail` — the envelopes that are queued then

## Main results

* `genuine_of_run` — every run of such events queues only such envelopes
-/

namespace TarkovVoice

namespace Protocol

open Net Coordinator
open Coordinator.Hub

/-- Printable text that does not hide the list of a room's members. A room or a host with another
name can be misread by the client. -/
def Readable (s : String) : Prop := Printable s ∧ ¬ Shadows (utf8 s) (utf8 "peers")

instance (s : String) : Decidable (Readable s) := inferInstanceAs (Decidable (_ ∧ _))

/-- Ids are made as `serveWS` and `createRoom` make them, and the texts of users are readable. -/
def GenuineEvent : Event → Prop
  | .addClient id nick _ => Generated "peer" id ∧ Readable nick
  | .handle _ env w => Hex w.randomHex ∧ Readable env.nick ∧ Readable (roomName env)
  | _ => True

/-- A room with readable texts and made-up ids, as every room of a genuine run is. -/
structure GenuineRoom (room : Room) : Prop extends Known room where
  readableName : Readable room.name
  readableNick : Readable room.hostNick

/-- An envelope the coordinator queues for the client with the id `own` in a genuine run. It has a
known type, and made-up ids if it is about a peer of a room; and if the client enters a room with
it, then it is the answer about that room, which is empty otherwise if the client has founded it. -/
structure GenuineMail (own : String) (env : Envelope) : Prop where
  type : env.type ∈ plainTypes ++ roomTypes
  ids : env.type ∈ roomTypes → Generated "room" env.roomID ∧ Generated "peer" env.peerID
  answer : Enters env.type → ∃ w room, GenuineRoom room ∧ env = roomAnswer env.type w room ∧
    (env.type = "room_created" → room.peers.keys = [own])

/-- What a genuine run leaves behind: the texts in the records of the clients, in the rooms and in
all that was ever queued are as the events' texts are. This is the invariant of the runs. -/
structure Genuine (h : Hub) : Prop where
  id : ∀ p, h.Registered p → Generated "peer" (h.client p).id
  nick : ∀ p, h.Registered p → Readable (h.client p).nick
  roomID : ∀ p, h.Registered p → (h.client p).roomID ≠ "" → Generated "room" (h.client p).roomID
  rooms : ∀ r < h.nextRoom, GenuineRoom (h.room r)
  mail : ∀ p, ∀ env ∈ (h.send p).offered, GenuineMail (h.client p).id env

section Mail

variable {own : String} {env : Envelope}

theorem genuineMail_of_plain (h : env.type ∈ plainTypes) (hnot : ¬ Enters env.type) :
    GenuineMail own env := by
  have hdisjoint : ∀ type ∈ plainTypes, type ∉ roomTypes := by decide
  exact ⟨List.mem_append_left _ h, fun hroom => absurd hroom (hdisjoint _ h),
    fun henters => absurd henters hnot⟩

theorem genuineMail_of_type (type : String) (htype : env.type = type)
    (h : type ∈ plainTypes ∧ ¬ Enters type) : GenuineMail own env :=
  genuineMail_of_plain (htype ▸ h.1) (htype ▸ h.2)

theorem genuineMail_of_answer {type : String} (htype : Enters type) (w : Ambient) {room : Room}
    (h : GenuineRoom room) (hfounded : type = "room_created" → room.peers.keys = [own]) :
    GenuineMail own (roomAnswer type w room) := by
  have hplain : ∀ {type}, Enters type → type ∈ plainTypes ∧ type ∉ roomTypes := by
    rintro type (rfl | rfl) <;> decide
  exact ⟨List.mem_append_left _ (hplain htype).1, fun hroom => absurd hroom (hplain htype).2,
    fun _ => ⟨w, room, h, rfl, hfounded⟩⟩

theorem genuineMail_of_room (htype : env.type ∈ roomTypes) (hroom : Generated "room" env.roomID)
    (hpeer : Generated "peer" env.peerID) : GenuineMail own env := by
  have hnot : ∀ type ∈ roomTypes, ¬ Enters type := by decide
  exact ⟨List.mem_append_right _ htype, fun _ => ⟨hroom, hpeer⟩,
    fun henters => absurd henters (hnot _ htype)⟩

end Mail

variable {w : Ambient} {h : Hub} {c : ClientPtr} {env : Envelope}

theorem genuine_newHub : Genuine newHub where
  id p hp := by simp [Registered, newHub] at hp
  nick p hp := by simp [Registered, newHub] at hp
  roomID p hp := by simp [Registered, newHub] at hp
  rooms r hr := absurd hr (Nat.not_lt_zero r)
  mail p env henv := absurd henv List.not_mem_nil

/-! ### Rooms -/

theorem GenuineRoom.setPeers {room : Room} (h : GenuineRoom room) {peers : GoMap ClientPtr}
    (hpeers : ∀ k ∈ peers.keys, Generated "peer" k) : GenuineRoom { room with peers := peers } where
  id := h.id
  name := h.name
  hostID := h.hostID
  hostNick := h.hostNick
  peers p hp := hpeers p.1 (by
    rw [← FMap.map_fst_entries]
    exact List.mem_map_of_mem hp)
  readableName := h.readableName
  readableNick := h.readableNick

theorem GenuineRoom.keys {room : Room} (h : GenuineRoom room) :
    ∀ k ∈ room.peers.keys, Generated "peer" k := by
  intro k hk
  rw [← FMap.map_fst_entries] at hk
  obtain ⟨p, hp, rfl⟩ := List.mem_map.mp hk
  exact h.peers p hp

/-- A room that somebody has left. -/
theorem GenuineRoom.left {room : Room} (h : GenuineRoom room) (id : String) :
    GenuineRoom { room with peers := room.peers.delete id } :=
  h.setPeers fun k hk => h.keys k (FMap.mem_keys_delete.mp hk).2

theorem genuineRoom_update {h' : Hub} {r : RoomPtr} {room' : Room}
    (hrooms : ∀ r < h.nextRoom, GenuineRoom (h.room r)) (hroom' : GenuineRoom room')
    (hupdate : h'.room = Function.update h.room r room') (hnext : h'.nextRoom = h.nextRoom) :
    ∀ r < h'.nextRoom, GenuineRoom (h'.room r) := by
  intro r' hr'
  rw [hupdate]
  by_cases hrr : r' = r
  · rw [hrr, Function.update_self]
    exact hroom'
  · rw [Function.update_of_ne hrr]
    exact hrooms r' (hnext ▸ hr')

/-! ### Steps -/

theorem Genuine.deliver (hg : Genuine h) {mail : Mail}
    (hmail : ∀ p, ∀ env ∈ mail p, GenuineMail (h.client p).id env) : Genuine (h.deliver mail) where
  id := hg.id
  nick := hg.nick
  roomID := hg.roomID
  rooms := hg.rooms
  mail p env henv := by
    rw [offered_deliver] at henv
    rcases List.mem_append.mp henv with henv | henv
    · exact hg.mail p env henv
    · exact hmail p env henv

theorem genuineMail_toOne (henv : GenuineMail (h.client c).id env) :
    ∀ p, ∀ env' ∈ toOne c env p, GenuineMail (h.client p).id env' := by
  intro p env' hmem
  obtain ⟨rfl, rfl⟩ := mem_toOne.mp hmem
  exact henv

theorem genuineMail_toRoom {m : GoMap ClientPtr} (henv : ∀ own, GenuineMail own env) :
    ∀ p, ∀ env' ∈ h.toRoom m env p, GenuineMail (h.client p).id env' := by
  intro p
  exact forall_toRoom (henv (h.client p).id) p

theorem genuineMail_toAll : ∀ p, ∀ env ∈ h.toAll w p, GenuineMail (h.client p).id env := by
  intro p
  exact forall_toAll (genuineMail_of_type "rooms" rfl (by decide)) p

theorem Genuine.updateNick (hg : Genuine h) (c : ClientPtr) {env : Envelope}
    (henv : Readable env.nick) : Genuine (h.updateNick c env) := by
  have hreg : ∀ p, (h.updateNick c env).Registered p → h.Registered p := by
    intro p
    rw [Registered, Registered, id_updateNick, updateNick_eq]
    exact fun hp => hp
  refine ⟨fun p hp => ?_, fun p hp => ?_, fun p hp hne => ?_, ?_, fun p env' henv' => ?_⟩
  · rw [id_updateNick]
    exact hg.id p (hreg p hp)
  · by_cases hpc : p = c
    · rw [Hub.updateNick]
      split
      · simp only [hpc, setClient, Function.update_self]
        exact henv
      · exact hg.nick p (hreg p hp)
    · rw [nick_updateNick_of_ne hpc]
      exact hg.nick p (hreg p hp)
  · rw [roomID_updateNick] at hne ⊢
    exact hg.roomID p (hreg p hp) hne
  · rw [updateNick_eq]
    exact hg.rooms
  · rw [id_updateNick]
    rw [updateNick_eq] at henv'
    exact hg.mail p env' henv'

/-- What a room becomes for the others when a member leaves it. -/
theorem Genuine.leftBehind (hi : h.Inv) (hg : Genuine h) {rid : String} {r : RoomPtr}
    (hr : h.rooms.get rid = some r) {room' : Room} (hleft : h.LeftBehind c (h.room r) room') :
    GenuineRoom room' := by
  have hrest := (hg.rooms r (hi.rooms_ok hr).lt).left (h.client c).id
  obtain ⟨id, name, hostID, hostNick, locked, createdAt, peers⟩ := room'
  obtain ⟨rfl, rfl, rfl, rfl, rfl, hhost⟩ := hleft
  rcases hhost with ⟨-, rfl, rfl⟩ | ⟨-, next, hget, -, rfl, rfl⟩
  · exact hrest
  · have hnext : h.Registered next := by
      obtain ⟨-, hget⟩ := FMap.get_of_get_delete hget
      obtain ⟨hget, -⟩ := ((hi.rooms_ok hr).peers_iff _ _).mp hget
      exact hget
    exact ⟨⟨hrest.id, hrest.name, hg.id next hnext, (hg.nick next hnext).1, hrest.peers⟩,
      hrest.readableName, hg.nick next hnext⟩

/-- Leaving takes a member out of its room, may give the room another host, and tells the others. -/
theorem Genuine.leaveRoomLocked (hi : h.Inv) (hg : Genuine h) (hc : h.Registered c) :
    Genuine (h.leaveRoomLocked w c) := by
  obtain ⟨-, hl⟩ := hi.leaveRoomLocked (w := w) hc
  have hreg : ∀ {p}, (h.leaveRoomLocked w c).Registered p → h.Registered p := hl.registered.mp
  have hnicks : ∀ p, ((h.leaveRoomLocked w c).client p).nick = (h.client p).nick := by
    intro p
    rcases leaveRoomLocked_cases (w := w) (c := c) (fun rid r hr => hi.room_keyed hr) with
      ⟨-, heq⟩ | ⟨-, -, heq⟩ | ⟨r, -, -, -, heq⟩ | ⟨r, room', -, -, -, -, heq⟩ <;> rw [heq]
    · exact nick_setRoomID c p ""
    · exact nick_setRoomID c p ""
    · exact nick_setRoomID c p ""
  refine ⟨fun p hp => ?_, fun p hp => ?_, fun p hp hne => ?_, ?_, fun p env henv => ?_⟩
  · rw [hl.id]
    exact hg.id p (hreg hp)
  · rw [hnicks]
    exact hg.nick p (hreg hp)
  · have hpc : p ≠ c := by
      rintro rfl
      exact hne hl.roomID
    rw [hl.roomID_of_ne p hpc] at hne ⊢
    exact hg.roomID p (hreg hp) hne
  · rcases leaveRoomLocked_cases (w := w) (c := c) (fun rid r hr => hi.room_keyed hr) with
      ⟨-, heq⟩ | ⟨-, -, heq⟩ | ⟨r, -, hr, -, heq⟩ | ⟨r, room', -, hr, -, hleft, heq⟩ <;> rw [heq]
    · exact hg.rooms
    · exact hg.rooms
    · exact genuineRoom_update hg.rooms ((hg.rooms r (hi.rooms_ok hr).lt).left _) rfl rfl
    · exact genuineRoom_update hg.rooms (hg.leftBehind hi hr hleft) rfl rfl
  · rw [hl.id]
    rw [hi.offered_leaveRoomLocked hc] at henv
    rcases List.mem_append.mp henv with henv | henv
    · exact hg.mail p env henv
    · obtain ⟨hmate, rfl⟩ := mem_toRoommates.mp henv
      exact genuineMail_of_room (show "peer_left" ∈ roomTypes by decide)
        (hg.roomID c hc hmate.2.2.1) (hg.id c hc)

theorem Genuine.vacated (hi : h.Inv) (hg : Genuine h) (hc : h.Registered c) {env : Envelope}
    (henv : Readable env.nick) : Genuine (h.vacated w c env) :=
  (hg.leaveRoomLocked hi hc).updateNick c henv

/-- A client is put into a room with a generated id. -/
theorem Genuine.setRoomID (hg : Genuine h) {rid : String} (hrid : Generated "room" rid) :
    Genuine (h.setRoomID c rid) := by
  have hreg : ∀ p, (h.setRoomID c rid).Registered p → h.Registered p := by
    intro p
    rw [Registered, Registered, id_setRoomID, clients_setRoomID]
    exact fun hp => hp
  refine ⟨fun p hp => ?_, fun p hp => ?_, fun p hp hne => ?_, hg.rooms, fun p env henv => ?_⟩
  · rw [id_setRoomID]
    exact hg.id p (hreg p hp)
  · rw [nick_setRoomID]
    exact hg.nick p (hreg p hp)
  · by_cases hpc : p = c
    · rw [hpc, roomID_setRoomID]
      exact hrid
    · rw [roomID_setRoomID_of_ne hpc] at hne ⊢
      exact hg.roomID p (hreg p hp) hne
  · rw [id_setRoomID]
    exact hg.mail p env henv

/-- The room that is founded. -/
theorem genuineRoom_newRoom (hg : Genuine h) (hc : h.Registered c) {env : Envelope}
    (hhex : Hex w.randomHex) (hname : Readable (roomName env)) :
    GenuineRoom (h.newRoom w c env) := by
  have hkeys : ∀ k ∈ ((∅ : GoMap ClientPtr).put (h.client c).id c).keys, Generated "peer" k := by
    intro k hk
    rcases FMap.mem_keys_put.mp hk with rfl | hk
    · exact hg.id c hc
    · exact absurd hk (by simp [FMap.mem_keys])
  refine ⟨⟨⟨w.randomHex, hhex, rfl⟩, hname.1, hg.id c hc, (hg.nick c hc).1, fun p hp => ?_⟩,
    hname, hg.nick c hc⟩
  refine hkeys p.1 ?_
  rw [← FMap.map_fst_entries]
  exact List.mem_map_of_mem hp

theorem Genuine.created (hi : h.Inv) (hg : Genuine h) (hc : h.Registered c)
    (he : GenuineEvent (.handle c env w)) :
    GenuineRoom ((h.vacated w c env).newRoom w c env) ∧ Genuine (h.created w c env) := by
  obtain ⟨hhex, hnick, hname⟩ := he
  obtain ⟨-, hl⟩ := hi.vacated (w := w) hc env
  have hgv := hg.vacated (w := w) hi hc hnick
  have hroom := genuineRoom_newRoom hgv (hl.registered.mpr hc) hhex hname
  have hset := hgv.setRoomID (c := c) hroom.id
  refine ⟨hroom, hset.id, hset.nick, hset.roomID, fun r hr => ?_, hset.mail⟩
  simp only [Hub.created, founded] at hr ⊢
  by_cases hrr : r = (h.vacated w c env).nextRoom
  · rw [hrr, Function.update_self]
    exact hroom
  · rw [Function.update_of_ne hrr]
    exact hgv.rooms r (lt_of_le_of_ne (Nat.lt_succ_iff.mp hr) hrr)

theorem Genuine.joined (hi : h.Inv) (hg : Genuine h) (hc : h.Registered c)
    (he : GenuineEvent (.handle c env w)) {r : RoomPtr} (hr : h.rooms.get env.roomID = some r) :
    GenuineRoom ((h.joined w c env r).room r) ∧ Genuine (h.joined w c env r) := by
  obtain ⟨hiv, hl⟩ := hi.vacated (w := w) hc env
  have hgv := hg.vacated (w := w) hi hc he.2.1
  have hlt : r < (h.vacated w c env).nextRoom := hl.nextRoom ▸ (hi.rooms_ok hr).lt
  have hold := hgv.rooms r hlt
  have hset := hgv.setRoomID (c := c) hold.id
  have hroom : GenuineRoom ((h.joined w c env r).room r) := by
    simp only [Hub.joined, admitted, Function.update_self]
    refine hold.setPeers fun k hk => ?_
    rcases FMap.mem_keys_put.mp hk with rfl | hk
    · exact hgv.id c (hl.registered.mpr hc)
    · exact hold.keys k hk
  refine ⟨hroom, hset.id, hset.nick, hset.roomID, ?_, hset.mail⟩
  refine genuineRoom_update (r := r) hgv.rooms hroom ?_ rfl
  simp only [Hub.joined, admitted, Function.update_self]

theorem Genuine.handled (hi : h.Inv) (hg : Genuine h) (hc : h.Registered c)
    (he : GenuineEvent (.handle c env w)) {h' : Hub} (hh : Handled w h c env h') : Genuine h' := by
  -- A room that is named is a room's id, and the sender's own id goes with every copy.
  have hcopy : ∀ env' : Envelope, env'.type ∈ roomTypes → (h.client c).roomID ≠ "" →
      env'.roomID = (h.client c).roomID → env'.peerID = (h.client c).id →
      ∀ own, GenuineMail own env' := by
    intro env' htype hnamed hrid hid own
    refine genuineMail_of_room htype ?_ ?_
    · rw [hrid]
      exact hg.roomID c hc hnamed
    · rw [hid]
      exact hg.id c hc
  cases hh with
  | create =>
    obtain ⟨hroom, hgc⟩ := hg.created hi hc he
    have hfounded : (newRoom w (h.vacated w c env) c env).peers.keys =
        [((h.created w c env).client c).id] := by
      have hid : ((h.created w c env).client c).id = ((h.vacated w c env).client c).id :=
        id_setRoomID c c _
      rw [hid]
      rfl
    exact (hgc.deliver (genuineMail_toOne
      (genuineMail_of_answer (Or.inl rfl) w hroom fun _ => hfounded))).deliver genuineMail_toAll
  | @join r _ hr hlen =>
    obtain ⟨hroom, hgj⟩ := hg.joined hi hc he hr
    have hnotice : ∀ own, GenuineMail own (peerJoined w (h.joined w c env r) c
        ((h.joined w c env r).room r).id env) := fun own =>
      genuineMail_of_room (show "peer_joined" ∈ roomTypes by decide) hroom.id
        (hgj.id c (hi.registered_joined hc env r))
    have hanswer : GenuineMail ((h.joined w c env r).client c).id
        (joinedRoom w ((h.joined w c env r).room r)) :=
      genuineMail_of_answer (Or.inr rfl) w hroom fun hcreated => absurd hcreated (by decide)
    exact ((hgj.deliver (genuineMail_toOne hanswer)).deliver
      (genuineMail_toRoom hnotice)).deliver genuineMail_toAll
  | leave => exact (hg.leaveRoomLocked hi hc).deliver genuineMail_toAll
  | hello =>
    exact ((hg.updateNick c he.2.1).deliver
      (genuineMail_toOne (genuineMail_of_type "hello" rfl (by decide)))).deliver
      (genuineMail_toOne (genuineMail_of_type "rooms" rfl (by decide)))
  | listRooms => exact hg.deliver (genuineMail_toOne (genuineMail_of_type "rooms" rfl (by decide)))
  | route htype hroutes =>
    exact hg.deliver (genuineMail_toOne
      (hcopy (h.stamp w c env) (mem_roomTypes_of_ice htype).1 hroutes.2.1 rfl rfl _))
  | unavailable =>
    exact hg.deliver (genuineMail_toOne (genuineMail_of_type "error" rfl (by decide)))
  | status htype hr =>
    exact hg.deliver (genuineMail_toRoom
      (hcopy _ (mem_roomTypes_of_status htype).1 (hi.rooms_ok hr).named rfl rfl))
  | voice _ hr =>
    exact hg.deliver (genuineMail_toRoom
      (hcopy _ (show "voice_frame" ∈ roomTypes by decide) (hi.rooms_ok hr).named rfl rfl))
  | silent => exact hg
  | reply _ _ _ hanswer =>
    refine hg.deliver (genuineMail_toOne ?_)
    rcases hanswer with hanswer | hanswer <;> exact genuineMail_of_type _ hanswer (by decide)

theorem Genuine.addClient (hg : Genuine h) {id nick : String} {cap : ℕ}
    (he : GenuineEvent (.addClient id nick cap)) :
    Genuine ((h.newClient id nick cap).addClient h.nextClient) := by
  have hother : ∀ {p}, p ≠ h.nextClient →
      ((h.newClient id nick cap).addClient h.nextClient).client p = h.client p :=
    fun hp => Function.update_of_ne hp _ _
  have hself : ((h.newClient id nick cap).addClient h.nextClient).client h.nextClient =
      ⟨id, nick, ""⟩ := Function.update_self ..
  have hreg : ∀ {p}, p ≠ h.nextClient →
      ((h.newClient id nick cap).addClient h.nextClient).Registered p → h.Registered p := by
    intro p hp hr
    have hclients : ((h.newClient id nick cap).addClient h.nextClient).clients =
        h.clients.put id h.nextClient := by simp [newClient, Hub.addClient]
    rw [Registered, hother hp, hclients, FMap.get_put] at hr
    split at hr
    · exact absurd (Option.some.inj hr).symm hp
    · exact hr
  refine ⟨fun p hr => ?_, fun p hr => ?_, fun p hr hne => ?_, hg.rooms, fun p env henv => ?_⟩
  · by_cases hp : p = h.nextClient
    · rw [hp, hself]
      exact he.1
    · rw [hother hp]
      exact hg.id p (hreg hp hr)
  · by_cases hp : p = h.nextClient
    · rw [hp, hself]
      exact he.2
    · rw [hother hp]
      exact hg.nick p (hreg hp hr)
  · by_cases hp : p = h.nextClient
    · rw [hp, hself] at hne
      exact absurd rfl hne
    · rw [hother hp] at hne ⊢
      exact hg.roomID p (hreg hp hr) hne
  · by_cases hp : p = h.nextClient
    · have hsend : ((h.newClient id nick cap).addClient h.nextClient).send h.nextClient =
          SendQueue.make cap := Function.update_self ..
      rw [hp, hsend, SendQueue.offered_make] at henv
      exact absurd henv List.not_mem_nil
    · have hsend : ((h.newClient id nick cap).addClient h.nextClient).send p = h.send p :=
        Function.update_of_ne hp _ _
      rw [hsend] at henv
      rw [hother hp]
      exact hg.mail p env henv

theorem Genuine.removeClient (hi : h.Inv) (hg : Genuine h) (hc : h.Registered c) :
    Genuine (h.removeClient w c) := by
  obtain ⟨hclient, hclients⟩ := hi.removeClient_tables (w := w) c
  have hreg : ∀ {p}, (h.removeClient w c).Registered p → h.Registered p := by
    intro p hr
    rw [Registered, hclient, hclients] at hr
    exact (FMap.get_of_get_delete hr).2
  have hkeyed := hi.clients_keyed.delete (h.client c).id
  have hrooms : ∀ r < (h.removeClient w c).nextRoom, GenuineRoom ((h.removeClient w c).room r) := by
    rcases removeClient_cases (w := w) (c := c) (fun rid r hr => hi.room_keyed hr) with
      ⟨-, heq⟩ | ⟨-, -, heq⟩ | ⟨r, -, hr, -, heq⟩ | ⟨r, room', -, hr, -, hleft, heq⟩ <;> rw [heq]
    · exact hg.rooms
    · exact hg.rooms
    · rw [broadcastRoomsLocked_eq hkeyed]
      exact genuineRoom_update hg.rooms ((hg.rooms r (hi.rooms_ok hr).lt).left _) rfl rfl
    · rw [broadcastRoomsLocked_eq hkeyed]
      exact genuineRoom_update hg.rooms (hg.leftBehind hi hr hleft) rfl rfl
  refine ⟨fun p hp => ?_, fun p hp => ?_, fun p hp hne => ?_, hrooms, fun p env henv => ?_⟩
  · rw [hclient]
    exact hg.id p (hreg hp)
  · rw [hclient]
    exact hg.nick p (hreg hp)
  · rw [hclient] at hne ⊢
    exact hg.roomID p (hreg hp) hne
  · obtain ⟨l, hl, hoff⟩ := hi.offered_removeClient (w := w) hc p
    rw [hclient]
    rw [hoff] at henv
    rcases List.mem_append.mp henv with henv | henv
    · exact hg.mail p env henv
    · rcases List.mem_append.mp henv with henv | henv
      · obtain ⟨hmate, rfl⟩ := mem_toRoommates.mp henv
        exact genuineMail_of_room (show "peer_left" ∈ roomTypes by decide)
          (hg.roomID c hc hmate.2.2.1) (hg.id c hc)
      · exact genuineMail_of_type "rooms" (hl env henv) (by decide)

/-! ### Runs -/

theorem Genuine.after (hi : h.Inv) (hg : Genuine h) {e : Event} (he : h.Enabled e)
    (hge : GenuineEvent e) : Genuine (h.after e) := by
  cases e with
  | addClient id nick cap => exact hg.addClient hge
  | handle c env w => exact hg.handled hi he.1 hge (handle_handled hi he.1 env)
  | invalidJson c w =>
    rw [Hub.after, enqueue_eq]
    exact hg.deliver (genuineMail_toOne (genuineMail_of_type "error" rfl (by decide)))
  | removeClient c w => exact hg.removeClient hi he
  | writeLoop c =>
    refine ⟨hg.id, hg.nick, hg.roomID, hg.rooms, fun p env henv => hg.mail p env ?_⟩
    by_cases hpc : p = c
    · subst hpc
      simpa [Hub.after] using henv
    · simpa [Hub.after, hpc] using henv

/-- **Genuine runs.** Whatever clients do with readable nicks and room names, everything that is
queued has generated ids, and every list of members comes with a room whose texts are readable. -/
theorem genuine_of_run {t : List (Hub × Event)} (hrun : machine.Run t h)
    (ht : ∀ x ∈ t, GenuineEvent x.2) : Genuine h := by
  refine (@Machine.Run.invariant_of_good _ _ _ (fun h => h.Inv ∧ Genuine h)
    (fun _ e => GenuineEvent e) ?_ ?_ t h hrun ht).2
  · rintro _ rfl
    exact ⟨inv_newHub, genuine_newHub⟩
  · rintro h e _ ⟨hi, hg⟩ hge ⟨he, rfl⟩
    exact ⟨hi.after he, hg.after hi he hge⟩

end Protocol

end TarkovVoice

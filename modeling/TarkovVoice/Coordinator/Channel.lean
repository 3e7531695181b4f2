import TarkovVoice.Coordinator.Forwarding
import TarkovVoice.Coordinator.HostNick
import TarkovVoice.Coordinator.Lifecycle

/-!
# A room is a channel

What is said in a room does not depend on who listens. Statuses, voice frames and the notices that
somebody has joined or left are said once, in the order of the events, and a member hears all of it
but what is about itself. So as long as two members stay, they hear the same in the same order, and
what one of them says the other hears once and in the order in which it was said.

What is heard is what a client's queue is offered. A queue that is full drops what it is offered.

## Main definitions

* `Hub.said` — what an event says in a room
* `Hub.heard` — what a list of envelopes says about the room of its reader

## Main results

* `Hub.Inv.stays` — what a member keeps that does not depart
* `Hub.room_channel` — members hear what is said
-/

namespace TarkovVoice

namespace Coordinator

namespace Hub

variable {w : Ambient} {h h' : Hub} {c q : ClientPtr} {env : Envelope} {rid : String}

/-! ### What is said -/

/-- The types of envelopes that everybody in a room gets, but for the one they are about. -/
def castTypes : List String :=
  ["mute_status", "peer_status", "voice_frame", "peer_joined", "peer_left"]

/-- What a list of envelopes says to everybody in a room. -/
def heard (l : List Envelope) : List Envelope := l.filter fun env => env.type ∈ castTypes

/-- A join that is not refused: the room is there, and has a place left. -/
def accepts (h : Hub) (env : Envelope) : Bool :=
  (h.rooms.get env.roomID).any fun r => (h.room r).peers.len < maxPeersPerRoom

/-- What is said if the client says that it is in the room. -/
def saidBy (h : Hub) (rid : String) (c : ClientPtr) (env : Envelope) : List Envelope :=
  if (h.client c).roomID = rid then [env] else []

/-- What an event says in the room `rid`: who leaves it and who joins it, and the statuses and
acceptable voice frames of its members. -/
def said (h : Hub) (rid : String) : Event → List Envelope
  | .handle c env w =>
    if env.type = "create_room" ∨ env.type = "leave_room" then
      h.saidBy rid c (h.peerLeft w c rid)
    else if env.type = "join_room" then
      if h.accepts env then
        h.saidBy rid c (h.peerLeft w c rid) ++
          if env.roomID = rid then [(h.updateNick c env).peerJoined w c rid env] else []
      else []
    else if IsStatus env.type then h.saidBy rid c (h.stamp w c env)
    else if env.type = "voice_frame" ∧ env.payload ≠ [] ∧
        env.payload.length ≤ maxVoicePayloadBytes then
      h.saidBy rid c { h.stamp w c env with type := "voice_frame", targetPeerID := "" }
    else []
  | .removeClient c w => h.saidBy rid c (h.peerLeft w c rid)
  | .addClient _ _ _ | .invalidJson _ _ | .writeLoop _ => []

/-- What the events of a path say in the room `rid`. -/
def saidOn (rid : String) (t : List (Hub × Event)) : List Envelope :=
  t.flatMap fun x => x.1.said rid x.2

/-- All but what is about `k`. -/
def besides (k : String) (l : List Envelope) : List Envelope := l.filter fun env => env.peerID ≠ k

theorem heard_append (l l' : List Envelope) : heard (l ++ l') = heard l ++ heard l' :=
  List.filter_append ..

theorem besides_append (k : String) (l l' : List Envelope) :
    besides k (l ++ l') = besides k l ++ besides k l' :=
  List.filter_append ..

theorem heard_eq_nil {l : List Envelope} (h : ∀ env ∈ l, env.type ∉ castTypes) : heard l = [] :=
  List.filter_eq_nil_iff.mpr fun env henv => by simpa using h env henv

theorem heard_toOne (htype : env.type ∉ castTypes) : heard (toOne c env q) = [] :=
  heard_eq_nil (forall_toOne htype q)

theorem heard_toAll : heard (h.toAll w q) = [] :=
  heard_eq_nil (forall_toAll (show "rooms" ∉ castTypes by decide) q)

/-- **What the roommates of a client are told** is said in its room, and heard by all but itself.
Whoever is in another room, or in none, hears nothing of it. -/
theorem heard_toRoommates (hc : h.Registered c) (hq : h.Registered q)
    (hroom : (h.client q).roomID = rid) (hnamed : rid ≠ "") (htype : env.type ∈ castTypes)
    (hid : env.peerID = (h.client c).id) :
    heard (h.toRoommates c env q) = besides (h.client q).id (h.saidBy rid c env) := by
  have hself : env.peerID = (h.client q).id ↔ q = c := by
    rw [hid]
    exact ⟨fun heq => hc.eq_of_id hq heq.symm, fun heq => by rw [heq]⟩
  rw [toRoommates, saidBy]
  by_cases hin : (h.client c).roomID = rid
  · rw [if_pos hin]
    by_cases hqc : q = c
    · have hnot : ¬ h.Roommate c q := fun hmate => hmate.1 hqc
      rw [if_neg hnot]
      simp [heard, besides, hself.mpr hqc]
    · have hmate : h.Roommate c q := ⟨hqc, hq, hin ▸ hnamed, hroom.trans hin.symm⟩
      rw [if_pos hmate]
      simp [heard, besides, htype, mt hself.mp hqc]
  · have hnot : ¬ h.Roommate c q := fun hmate => hin (hmate.2.2.2.symm.trans hroom)
    rw [if_neg hnot, if_neg hin]
    rfl

/-! ### Staying -/

theorem Inv.clients_handled (hi : h.Inv) (hc : h.Registered c) (hh : Handled w h c env h') :
    h'.clients = h.clients := by
  cases hh with
  | create => exact (hi.vacated (w := w) hc env).2.clients
  | join => exact (hi.vacated (w := w) hc env).2.clients
  | leave => exact (hi.leaveRoomLocked hc).2.clients
  | hello =>
    show (h.updateNick c env).clients = h.clients
    rw [updateNick_eq]
  | listRooms | route | unavailable | status | voice | silent | reply => rfl

theorem Inv.roomID_handled (hi : h.Inv) (hc : h.Registered c) (hh : Handled w h c env h')
    (hother : q = c → env.type ∉ ["create_room", "join_room", "leave_room"]) :
    (h'.client q).roomID = (h.client q).roomID := by
  have hl := (hi.vacated (w := w) hc env).2
  have hne : ∀ type ∈ ["create_room", "join_room", "leave_room"], env.type = type → q ≠ c :=
    fun type hmem htype hqc => hother hqc (htype ▸ hmem)
  cases hh with
  | create htype =>
    have hqc := hne _ (by decide) htype
    exact (roomID_setRoomID_of_ne hqc _).trans (hl.roomID_of_ne q hqc)
  | join htype =>
    have hqc := hne _ (by decide) htype
    exact (roomID_setRoomID_of_ne hqc _).trans (hl.roomID_of_ne q hqc)
  | leave htype => exact (hi.leaveRoomLocked hc).2.roomID_of_ne q (hne _ (by decide) htype)
  | hello => exact roomID_updateNick c q env
  | listRooms | route | unavailable | status | voice | silent | reply => rfl

/-- A client stays registered, under its id, until its connection ends. No message, its own or
another's, changes that. -/
theorem Inv.registered_after (hi : h.Inv) {e : Event} (he : h.Enabled e) (hq : h.Registered q)
    (hnot : ∀ w, e ≠ .removeClient q w) :
    (h.after e).Registered q ∧ ((h.after e).client q).id = (h.client q).id := by
  cases e with
  | addClient id nick cap =>
    have hlt : q < h.nextClient := hi.client_lt hq
    have hsame : ((h.newClient id nick cap).addClient h.nextClient).client q = h.client q :=
      Function.update_of_ne (Nat.ne_of_lt hlt) _ _
    refine ⟨?_, congrArg Client.id hsame⟩
    have hclients : ((h.newClient id nick cap).addClient h.nextClient).clients =
        h.clients.put id h.nextClient := by simp [newClient, Hub.addClient]
    rw [Hub.after, Registered, hsame, hclients, FMap.get_put_of_ne _ (he q hlt)]
    exact hq
  | handle c env w =>
    have hh := handle_handled (w := w) hi he.1 env
    have hid := hh.id hi he.1 q
    refine ⟨?_, hid⟩
    rw [Hub.after, Registered, hid, hi.clients_handled he.1 hh]
    exact hq
  | invalidJson c w => exact ⟨hq, rfl⟩
  | removeClient c w =>
    obtain ⟨hclient, hclients⟩ := hi.removeClient_tables (w := w) c
    have hne : (h.client q).id ≠ (h.client c).id := fun heq =>
      hnot w (by rw [he.eq_of_id hq heq])
    rw [Hub.after, Registered, hclient, hclients, FMap.get_delete_of_ne _ hne]
    exact ⟨hq, rfl⟩
  | writeLoop c => exact ⟨hq, rfl⟩

theorem Inv.roomID_after (hi : h.Inv) {e : Event} (he : h.Enabled e) (hq : h.Registered q)
    (hnot : ¬ h.Departs (h.client q).id e) :
    ((h.after e).client q).roomID = (h.client q).roomID := by
  cases e with
  | addClient id nick cap =>
    have hlt : q < h.nextClient := hi.client_lt hq
    exact congrArg Client.roomID (Function.update_of_ne (Nat.ne_of_lt hlt) _ _)
  | handle c env w =>
    exact hi.roomID_handled he.1 (handle_handled hi he.1 env) fun hqc htype =>
      hnot ⟨by rw [hqc], htype⟩
  | removeClient c w => rw [Hub.after, (hi.removeClient_tables (w := w) c).1]
  | invalidJson | writeLoop => rfl

/-- `q` is in the room `rid`, which is there. By the membership invariant it is then one of the
room's peers. -/
structure Sits (h : Hub) (rid : String) (q : ClientPtr) : Prop where
  registered : h.Registered q
  roomID : (h.client q).roomID = rid
  there : ∃ r, h.rooms.get rid = some r

theorem Sits.place (hs : h.Sits rid q) : h.place (h.client q).id = some rid :=
  place_eq_some.mpr ⟨⟨q, hs.registered, hs.roomID⟩, hs.there⟩

theorem Sits.named (hi : h.Inv) (hs : h.Sits rid q) : rid ≠ "" := by
  obtain ⟨r, hr⟩ := hs.there
  exact (hi.rooms_ok hr).named

/-- **A member that does not depart stays**, and so does its room, its id and its place in
the room. -/
theorem Inv.stays (hi : h.Inv) {e : Event} (he : h.Enabled e) (hs : h.Sits rid q)
    (hnot : ¬ h.Departs (h.client q).id e) :
    (h.after e).Sits rid q ∧ ((h.after e).client q).id = (h.client q).id := by
  have hremove : ∀ w, e ≠ .removeClient q w := by
    rintro w rfl
    exact hnot rfl
  obtain ⟨hreg, hid⟩ := hi.registered_after he hs.registered hremove
  obtain ⟨t, u, hpath, hlabels, hu⟩ := hi.follows_after he hi.standsFor
  have hleave : .leave (h.client q).id ∉ t.map Prod.snd := by
    rw [hlabels]
    exact fun hmem => hnot (departs_of_leave_mem hmem)
  have hplace := Registry.stays hpath hleave hs.place
  rw [hu.place] at hplace
  have hroom := hi.roomID_after he hs.registered hnot
  exact ⟨⟨hreg, hroom.trans hs.roomID, (place_eq_some.mp hplace).2⟩, hid⟩

/-! ### One event -/

theorem nick_leaveRoomLocked (hi : h.Inv) (c q : ClientPtr) :
    ((h.leaveRoomLocked w c).client q).nick = (h.client q).nick := by
  rcases leaveRoomLocked_cases (w := w) (c := c) (fun rid r hr => hi.room_keyed hr) with
    ⟨-, heq⟩ | ⟨-, -, heq⟩ | ⟨r₀, -, -, -, heq⟩ | ⟨r₀, room', -, -, -, -, heq⟩ <;> rw [heq]
  · exact nick_setRoomID c q ""
  · exact nick_setRoomID c q ""
  · exact nick_setRoomID c q ""

theorem nick_vacated (hi : h.Inv) (c : ClientPtr) (env : Envelope) :
    ((h.vacated w c env).client c).nick = ((h.updateNick c env).client c).nick := by
  by_cases hnick : env.nick = ""
  · have hsame : ∀ h : Hub, ((h.updateNick c env).client c).nick = (h.client c).nick := fun h =>
      nick_updateNick_of_same (.inl hnick) c
    rw [vacated, hsame, hsame, nick_leaveRoomLocked hi]
  · rw [vacated, nick_updateNick_self hnick, nick_updateNick_self hnick]

/-- Leaving is said, whatever else the client does next. If it has left nothing, nothing is said. -/
theorem Inv.heard_left (hi : h.Inv) (hc : h.Registered c) (hs : h.Sits rid q) :
    heard (h.toRoommates c (h.peerLeft w c (h.client c).roomID) q) =
      besides (h.client q).id (h.saidBy rid c (h.peerLeft w c rid)) := by
  rw [heard_toRoommates hc hs.registered hs.roomID (hs.named hi)
    (show "peer_left" ∈ castTypes by decide) rfl]
  by_cases hin : (h.client c).roomID = rid
  · rw [hin]
  · rw [saidBy, saidBy, if_neg hin, if_neg hin]

/-- A broadcast about its sender is said in the sender's room. It goes to the peers of the room, who
are those that say they are in it. -/
theorem Inv.heard_broadcast (hi : h.Inv) (hc : h.Registered c) (hs : h.Sits rid q)
    {copy : Envelope} (htype : copy.type ∈ castTypes) (hid : copy.peerID = (h.client c).id)
    {r : RoomPtr} (hr : h.rooms.get (h.client c).roomID = some r) :
    heard (h.news (h.broadcastLocked w copy r) q) =
      besides (h.client q).id (h.saidBy rid c copy) := by
  have hclosed : copy.type ≠ "room_closed" := fun heq =>
    absurd (heq ▸ htype) (by decide)
  rw [broadcastLocked_eq (hi.room_keyed hr), news_of_offered (offered_deliver _ q),
    toRoom_eq hc (hi.rooms_ok hr).named (hi.room_occupies hr) hid hclosed]
  exact heard_toRoommates hc hs.registered hs.roomID (hs.named hi) htype hid

/-- A client whose room is gone says nothing to anybody who is in a room. -/
theorem Sits.saidBy_eq_nil (hs : h.Sits rid q) (hgone : h.rooms.get (h.client c).roomID = none)
    (env : Envelope) : h.saidBy rid c env = [] := by
  refine if_neg ?_
  rintro rfl
  obtain ⟨r, hr⟩ := hs.there
  exact absurd (hr.symm.trans hgone) (Option.some_ne_none r)

theorem Inv.heard_joined (hi : h.Inv) (hc : h.Registered c) (hs : h.Sits rid q) (hqc : q ≠ c)
    {r : RoomPtr} (hr : h.rooms.get env.roomID = some r) :
    heard ((h.joined w c env r).toRoommates c (peerJoined w (h.joined w c env r) c
        ((h.joined w c env r).room r).id env) q) =
      besides (h.client q).id
        (if env.roomID = rid then [(h.updateNick c env).peerJoined w c rid env] else []) := by
  obtain ⟨-, hl⟩ := hi.vacated (w := w) hc env
  have hid : ((h.joined w c env r).client q).id = (h.client q).id := id_joined.trans (hl.id q)
  have hreg : (h.joined w c env r).Registered q := by
    rw [Registered, hid]
    exact (congrArg (FMap.get · (h.client q).id) hl.clients).trans hs.registered
  have hroom : ((h.joined w c env r).client q).roomID = rid :=
    ((roomID_setRoomID_of_ne hqc _).trans (hl.roomID_of_ne q hqc)).trans hs.roomID
  rw [heard_toRoommates (hi.registered_joined hc env r) hreg hroom (hs.named hi)
    (show "peer_joined" ∈ castTypes by decide) rfl, hid, saidBy, hi.roomID_joined hc hr,
    hi.id_room_joined hc hr]
  by_cases hin : env.roomID = rid
  · have hnick : ((h.joined w c env r).client c).nick = ((h.updateNick c env).client c).nick :=
      (nick_setRoomID c c _).trans (nick_vacated hi c env)
    have hown : ((h.joined w c env r).client c).id = ((h.updateNick c env).client c).id :=
      id_joined.trans ((hl.id c).trans (id_updateNick c c env).symm)
    rw [if_pos hin, if_pos hin, peerJoined, peerJoined, hnick, hown, hin]
  · rw [if_neg hin, if_neg hin]

/-- A message that says nothing in a room: a greeting, a request for the rooms, a signal, a
heartbeat, or one of no known type. -/
theorem Inv.heard_quiet (hi : h.Inv) (hc : h.Registered c) (htype : env.type ∉
      ["create_room", "join_room", "leave_room", "mute_status", "peer_status", "voice_frame"]) :
    heard (h.news (h.handle w c env) q) = [] := by
  have hh := handle_handled (w := w) hi hc env
  generalize h.handle w c env = h' at hh
  simp only [List.mem_cons, List.not_mem_nil, or_false, not_or] at htype
  obtain ⟨hcreate, hjoin, hleave, hmute, hpeer, hvoice⟩ := htype
  have hone : ∀ {p : ClientPtr} {answer : Envelope}, answer.type ∉ castTypes →
      heard (h.news (h.deliver (toOne p answer)) q) = [] := by
    intro p answer hanswer
    rw [news_of_offered (offered_deliver _ q)]
    exact heard_toOne hanswer
  cases hh with
  | create heq => exact absurd heq hcreate
  | join heq => exact absurd heq hjoin
  | leave heq => exact absurd heq hleave
  | hello =>
    have hoff : ((((h.updateNick c env).deliver
        (toOne c (helloEnvelope w (h.updateNick c env) c))).deliver
        (toOne c ((h.updateNick c env).roomsEnvelope w))).send q).offered =
        (h.send q).offered ++ (toOne c (helloEnvelope w (h.updateNick c env) c) q ++
          toOne c ((h.updateNick c env).roomsEnvelope w) q) := by
      rw [offered_deliver, offered_deliver, updateNick_eq, List.append_assoc]
    rw [news_of_offered hoff, heard_append,
      heard_toOne (by decide : "hello" ∉ castTypes), heard_toOne (by decide : "rooms" ∉ castTypes)]
    rfl
  | listRooms => exact hone (by decide : "rooms" ∉ castTypes)
  | route hice =>
    refine hone ?_
    show env.type ∉ castTypes
    rcases hice with hice | hice | hice <;> rw [hice] <;> decide
  | unavailable => exact hone (by decide : "error" ∉ castTypes)
  | status heq => exact absurd heq (not_or.mpr ⟨hmute, hpeer⟩)
  | voice heq => exact absurd heq hvoice
  | silent heq => exact absurd heq (not_or.mpr ⟨not_or.mpr ⟨hmute, hpeer⟩, hvoice⟩)
  | reply _ _ _ hanswer =>
    refine hone ?_
    rcases hanswer with hanswer | hanswer <;> rw [hanswer] <;> decide

/-! ### What the handlers offer -/

theorem Inv.offered_createRoom (hi : h.Inv) (hc : h.Registered c) (env : Envelope)
    (q : ClientPtr) : ((h.createRoom w c env).send q).offered = (h.send q).offered ++
      (h.toRoommates c (h.peerLeft w c (h.client c).roomID) q ++
        (toOne c (roomCreated w ((h.vacated w c env).newRoom w c env)) q ++
          (h.created w c env).toAll w q)) := by
  have hkeyed : (h.created w c env).Keyed (h.created w c env).clients := fun k p hp =>
    (id_setRoomID c p _).trans ((hi.vacated (w := w) hc env).1.clients_keyed hp)
  have hsend : ((h.created w c env).send q).offered = _ := hi.offered_vacated hc env q
  rw [createRoom_eq, enqueue_eq]
  refine (broadcastRoomsLocked_eq (h := (h.created w c env).deliver _) hkeyed).symm ▸ ?_
  rw [offered_deliver, offered_deliver, hsend, List.append_assoc, List.append_assoc]
  rfl

theorem Inv.offered_leaveRoom (hi : h.Inv) (hc : h.Registered c) (q : ClientPtr) :
    ((h.leaveRoom w c).send q).offered = (h.send q).offered ++
      (h.toRoommates c (h.peerLeft w c (h.client c).roomID) q ++
        (h.leaveRoomLocked w c).toAll w q) := by
  rw [leaveRoom, broadcastRoomsLocked_eq (hi.leaveRoomLocked hc).1.clients_keyed,
    offered_deliver, hi.offered_leaveRoomLocked hc, List.append_assoc]

theorem Inv.offered_joinRoom (hi : h.Inv) (hc : h.Registered c) {r : RoomPtr}
    (hr : h.rooms.get env.roomID = some r) (hlen : (h.room r).peers.len < maxPeersPerRoom)
    (q : ClientPtr) : ((h.joinRoom w c env).send q).offered = (h.send q).offered ++
      (h.toRoommates c (h.peerLeft w c (h.client c).roomID) q ++
        (toOne c (joinedRoom w ((h.joined w c env r).room r)) q ++
          ((h.joined w c env r).toRoommates c (peerJoined w (h.joined w c env r) c
            ((h.joined w c env r).room r).id env) q ++ (h.joined w c env r).toAll w q))) := by
  have hsend : ((h.joined w c env r).send q).offered = _ := hi.offered_vacated hc env q
  rw [hi.joinRoom_delivers hc hr hlen, offered_deliver, offered_deliver, offered_deliver, hsend,
    hi.toRoom_joined hc hr hlen]
  simp only [List.append_assoc]

theorem accepts_eq_true : h.accepts env = true ↔
    ∃ r, h.rooms.get env.roomID = some r ∧ (h.room r).peers.len < maxPeersPerRoom := by
  rw [accepts, Option.any_eq_true]
  simp only [decide_eq_true_eq]

/-- A join that is refused is answered with one of two errors, and changes nothing else. -/
theorem joinRoom_of_not_accepts (hnot : ¬ h.accepts env = true) :
    ∃ text ∈ ["room not found", "room is full"],
      h.joinRoom w c env = h.deliver (toOne c (errorEnvelope w text)) := by
  cases hr : h.rooms.get env.roomID with
  | none =>
    refine ⟨"room not found", by decide, ?_⟩
    simp only [joinRoom, hr]
    exact enqueue_eq c _
  | some r =>
    have hfull : maxPeersPerRoom ≤ (h.room r).peers.len := by
      by_contra hlen
      exact hnot (accepts_eq_true.mpr ⟨r, hr, not_le.mp hlen⟩)
    refine ⟨"room is full", by decide, ?_⟩
    simp only [joinRoom, hr, if_pos hfull]
    exact enqueue_eq c _

/-! ### Events -/

theorem Inv.heard_create (hi : h.Inv) (hc : h.Registered c) (hs : h.Sits rid q)
    (htype : env.type = "create_room") :
    heard (h.news (h.handle w c env) q) =
      besides (h.client q).id (h.saidBy rid c (h.peerLeft w c rid)) := by
  have hhandle : h.handle w c env = h.createRoom w c env := by simp only [handle, htype]
  rw [hhandle, news_of_offered (hi.offered_createRoom hc env q), heard_append, heard_append,
    hi.heard_left hc hs, heard_toOne (show "room_created" ∉ castTypes by decide), heard_toAll,
    List.append_nil, List.append_nil]

theorem Inv.heard_leave (hi : h.Inv) (hc : h.Registered c) (hs : h.Sits rid q)
    (htype : env.type = "leave_room") :
    heard (h.news (h.handle w c env) q) =
      besides (h.client q).id (h.saidBy rid c (h.peerLeft w c rid)) := by
  have hhandle : h.handle w c env = h.leaveRoom w c := by simp only [handle, htype]
  rw [hhandle, news_of_offered (hi.offered_leaveRoom hc q), heard_append, hi.heard_left hc hs,
    heard_toAll, List.append_nil]

theorem Inv.heard_join (hi : h.Inv) (hc : h.Registered c) (hs : h.Sits rid q) (hqc : q ≠ c)
    (htype : env.type = "join_room") :
    heard (h.news (h.handle w c env) q) = besides (h.client q).id
      (if h.accepts env then
        h.saidBy rid c (h.peerLeft w c rid) ++
          if env.roomID = rid then [(h.updateNick c env).peerJoined w c rid env] else []
      else []) := by
  have hhandle : h.handle w c env = h.joinRoom w c env := by simp only [handle, htype]
  rw [hhandle]
  by_cases haccepts : h.accepts env = true
  · obtain ⟨r, hr, hlen⟩ := accepts_eq_true.mp haccepts
    rw [if_pos haccepts, news_of_offered (hi.offered_joinRoom hc hr hlen q), heard_append,
      heard_append, heard_append, hi.heard_left hc hs,
      heard_toOne (show "joined_room" ∉ castTypes by decide), hi.heard_joined hc hs hqc hr,
      heard_toAll, List.nil_append, List.append_nil, besides_append]
  · obtain ⟨text, -, heq⟩ := joinRoom_of_not_accepts (w := w) (c := c) haccepts
    rw [if_neg haccepts, heq, news_of_offered (offered_deliver _ q)]
    exact heard_toOne (show "error" ∉ castTypes by decide)

theorem Inv.heard_status (hi : h.Inv) (hc : h.Registered c) (hs : h.Sits rid q)
    (htype : IsStatus env.type) :
    heard (h.news (h.handle w c env) q) =
      besides (h.client q).id (h.saidBy rid c (h.stamp w c env)) := by
  have hhandle : h.handle w c env = h.broadcastPeerStatus w c env := by
    rcases htype with htype | htype <;> simp only [handle, htype]
  have hcast : (h.stamp w c env).type ∈ castTypes := by
    show env.type ∈ castTypes
    rcases htype with htype | htype <;> rw [htype] <;> decide
  rw [hhandle]
  cases hr : h.rooms.get (h.client c).roomID with
  | none =>
    simp only [broadcastPeerStatus, hr]
    rw [news_self, hs.saidBy_eq_nil hr]
    rfl
  | some r =>
    simp only [broadcastPeerStatus, hr]
    exact hi.heard_broadcast hc hs hcast rfl hr

theorem Inv.heard_voice (hi : h.Inv) (hc : h.Registered c) (hs : h.Sits rid q)
    (htype : env.type = "voice_frame") :
    heard (h.news (h.handle w c env) q) = besides (h.client q).id
      (if env.payload ≠ [] ∧ env.payload.length ≤ maxVoicePayloadBytes then
        h.saidBy rid c { h.stamp w c env with type := "voice_frame", targetPeerID := "" }
      else []) := by
  have hhandle : h.handle w c env = h.broadcastVoiceFrame w c env := by simp only [handle, htype]
  have hsize : (env.payload ≠ [] ∧ env.payload.length ≤ maxVoicePayloadBytes) ↔
      ¬ (env.payload.length = 0 ∨ maxVoicePayloadBytes < env.payload.length) := by
    rw [not_or, not_lt, List.length_eq_zero_iff]
  rw [hhandle]
  cases hr : h.rooms.get (h.client c).roomID with
  | none =>
    simp only [broadcastVoiceFrame, hr]
    rw [news_self, hs.saidBy_eq_nil hr, ite_self]
    rfl
  | some r =>
    simp only [broadcastVoiceFrame, hr]
    by_cases hgood : env.payload ≠ [] ∧ env.payload.length ≤ maxVoicePayloadBytes
    · rw [if_pos hgood, if_neg (hsize.mp hgood)]
      exact hi.heard_broadcast hc hs (show "voice_frame" ∈ castTypes by decide) rfl hr
    · rw [if_neg hgood, if_pos (not_not.mp (mt hsize.mpr hgood)), news_self]
      rfl

/-- **One event.** A member that does not depart hears what is said, but for what is about
itself. -/
theorem Inv.heard_after (hi : h.Inv) {e : Event} (he : h.Enabled e) (hs : h.Sits rid q)
    (hnot : ¬ h.Departs (h.client q).id e) :
    heard (h.news (h.after e) q) = besides (h.client q).id (h.said rid e) := by
  cases e with
  | addClient id nick cap =>
    rw [news_addClient]
    rfl
  | handle c env w =>
    rw [Hub.after, said]
    by_cases hgone : env.type = "create_room" ∨ env.type = "leave_room"
    · rw [if_pos hgone]
      rcases hgone with htype | htype
      · exact hi.heard_create he.1 hs htype
      · exact hi.heard_leave he.1 hs htype
    rw [if_neg hgone]
    by_cases hjoin : env.type = "join_room"
    · have hqc : q ≠ c := by
        rintro rfl
        exact hnot ⟨rfl, by rw [hjoin]; decide⟩
      rw [if_pos hjoin]
      exact hi.heard_join he.1 hs hqc hjoin
    rw [if_neg hjoin]
    by_cases hstatus : IsStatus env.type
    · rw [if_pos hstatus]
      exact hi.heard_status he.1 hs hstatus
    rw [if_neg hstatus]
    by_cases hvoice : env.type = "voice_frame"
    · rw [hi.heard_voice he.1 hs hvoice]
      simp only [hvoice, true_and]
    · have hnone : ¬ (env.type = "voice_frame" ∧ env.payload ≠ [] ∧
          env.payload.length ≤ maxVoicePayloadBytes) := fun hall => hvoice hall.1
      rw [if_neg hnone]
      refine hi.heard_quiet he.1 ?_
      simp only [List.mem_cons, List.not_mem_nil, or_false, not_or]
      exact ⟨(not_or.mp hgone).1, hjoin, (not_or.mp hgone).2, (not_or.mp hstatus).1,
        (not_or.mp hstatus).2, hvoice⟩
  | invalidJson c w =>
    rw [Hub.after, enqueue_eq, news_of_offered (offered_deliver _ q),
      heard_toOne (show "error" ∉ castTypes by decide)]
    rfl
  | removeClient c w =>
    obtain ⟨l, hrooms, hoff⟩ := hi.offered_removeClient (w := w) he q
    have hl : heard l = [] := heard_eq_nil fun env henv => by
      rw [hrooms env henv]
      decide
    rw [Hub.after, news_of_offered hoff, heard_append, hl, List.append_nil]
    exact hi.heard_left he hs
  | writeLoop c =>
    rw [news_writeLoop]
    rfl

/-! ### Paths -/

/-- What a queue is offered is kept in its history, and so is what it takes of it. -/
def Grows (h h' : Hub) (q : ClientPtr) : Prop :=
  ∃ l l', l'.Sublist l ∧ (h'.send q).offered = (h.send q).offered ++ l ∧
    (h'.send q).queued = (h.send q).queued ++ l'

theorem grows_of_send (hsend : (h'.send q).offered = (h.send q).offered)
    (hqueued : (h'.send q).queued = (h.send q).queued) : h.Grows h' q :=
  ⟨[], [], .slnil, by rw [hsend, List.append_nil], by rw [hqueued, List.append_nil]⟩

theorem Inv.grows_after (hi : h.Inv) {e : Event} (he : h.Enabled e) (hq : h.Registered q) :
    h.Grows (h.after e) q := by
  cases e with
  | addClient id nick cap =>
    have hne : q ≠ h.nextClient := Nat.ne_of_lt (hi.client_lt hq)
    have hsend : ((h.newClient id nick cap).addClient h.nextClient).send q = h.send q :=
      Function.update_of_ne hne _ _
    exact grows_of_send (congrArg SendQueue.offered hsend) (congrArg SendQueue.queued hsend)
  | handle c env w => exact hi.extends_handled (handle_handled hi he.1 env) q
  | invalidJson c w =>
    rw [Hub.after, enqueue_eq]
    exact (extends_of_send rfl).deliver _ q
  | removeClient c w => exact hi.extends_removeClient c q
  | writeLoop c =>
    by_cases hqc : q = c
    · subst hqc
      exact grows_of_send (by simp [Hub.after]) (by simp [Hub.after])
    · exact grows_of_send (by simp [Hub.after, hqc]) (by simp [Hub.after, hqc])

/-- A queue that was never full holds all that it was offered, from any time on. -/
theorem Grows.accepted_eq_news (hg : h.Grows h' q) (hfull : (h'.send q).NeverFull) :
    h.accepted h' q = h.news h' q := by
  obtain ⟨l, l', hsub, hoff, hqueued⟩ := hg
  have hall : (h.send q).queued ++ l' = (h.send q).offered ++ l := by
    rw [← hoff, ← hqueued]
    exact hfull
  have hlen := congrArg List.length hall
  have hbefore := (h.send q).sublist.length_le
  have hafter := hsub.length_le
  simp only [List.length_append] at hlen
  have hl : l' = l := hsub.eq_of_length (by omega)
  rw [Hub.accepted, news, hqueued, hoff, List.drop_left, List.drop_left, hl]

theorem Grows.news_trans {u : Hub} (hg : h.Grows u q) (hg' : u.Grows h' q) :
    h.Grows h' q ∧ h.news h' q = h.news u q ++ u.news h' q := by
  obtain ⟨l₁, l₁', hsub₁, hoff₁, hqueued₁⟩ := hg
  obtain ⟨l₂, l₂', hsub₂, hoff₂, hqueued₂⟩ := hg'
  have hoff : (h'.send q).offered = (h.send q).offered ++ (l₁ ++ l₂) := by
    rw [hoff₂, hoff₁, List.append_assoc]
  refine ⟨⟨l₁ ++ l₂, l₁' ++ l₂', hsub₁.append hsub₂, hoff, ?_⟩, ?_⟩
  · rw [hqueued₂, hqueued₁, List.append_assoc]
  · rw [news_of_offered hoff, news_of_offered hoff₁, news_of_offered hoff₂]

/-- What a member that stays has heard along a path: what was said in its room, in order, but for
what is about itself. This is kept by every step in which it stays. -/
structure Listens (h h' : Hub) (rid : String) (q : ClientPtr) (t : List (Hub × Event)) : Prop where
  sits : h'.Sits rid q
  id : (h'.client q).id = (h.client q).id
  grows : h.Grows h' q
  heard : heard (h.news h' q) = besides (h.client q).id (saidOn rid t)

/-- **Staying and listening.** The induction is on the path, from its end: until the last event the
client has not left, so it still sits in the room and hears what that event says. -/
theorem Sits.listens (hreach : machine.Reachable h) (hs : h.Sits rid q) {t : List (Hub × Event)}
    (hpath : machine.Path h t h') :
    (∀ x ∈ t, ¬ x.1.Departs (h.client q).id x.2) → h.Listens h' rid q t := by
  obtain ⟨t₀, hrun⟩ := hreach
  induction hpath with
  | nil => exact fun _ => ⟨hs, rfl, grows_of_send rfl rfl, by rw [news_self]; rfl⟩
  | @snoc t u v e hpath hstep ih =>
    intro hstay
    obtain ⟨he, rfl⟩ := hstep
    have hl := ih fun x hx => hstay x (List.mem_append_left _ hx)
    have hi := inv_of_reachable ⟨_, hrun.append_path hpath⟩
    have hnot : ¬ u.Departs (u.client q).id e := by
      rw [hl.id]
      exact hstay (u, e) (List.mem_append_right _ (List.mem_singleton_self _))
    obtain ⟨hsits, hid⟩ := hi.stays he hl.sits hnot
    have hheard := hi.heard_after he hl.sits hnot
    obtain ⟨hgrows, hnews⟩ := hl.grows.news_trans (hi.grows_after he hl.sits.registered)
    refine ⟨hsits, hid.trans hl.id, hgrows, ?_⟩
    rw [hnews, heard_append, hl.heard, hheard, hl.id, saidOn, saidOn, List.flatMap_append,
      List.flatMap_singleton, besides_append]

theorem Inv.sits_of_isMember (hi : h.Inv) (hq : h.IsMember rid q) : h.Sits rid q := by
  obtain ⟨hreg, hroom⟩ := hi.roomID_of_isMember hq
  obtain ⟨r, hr, -⟩ := hq
  exact ⟨hreg, hroom, r, hr⟩

/-- **A room is a channel.** From any reachable hub on, whatever happens: a member that does not
ask for anything else or lose its connection is offered exactly what is said in its room, in the
order in which it is said and once each, except what is about itself, and if its queue was never
full that is what the queue took. So any two such members hear the same about all others, in the
same order. -/
theorem room_channel (hreach : machine.Reachable h) {t : List (Hub × Event)}
    (hpath : machine.Path h t h') :
    (∀ q, h.IsMember rid q → (∀ x ∈ t, ¬ x.1.Departs (h.client q).id x.2) →
      heard (h.news h' q) = besides (h.client q).id (saidOn rid t) ∧
        ((h'.send q).NeverFull → h.accepted h' q = h.news h' q)) ∧
    ∀ q q', h.IsMember rid q → h.IsMember rid q' →
      (∀ x ∈ t, ¬ x.1.Departs (h.client q).id x.2) →
      (∀ x ∈ t, ¬ x.1.Departs (h.client q').id x.2) →
      besides (h.client q').id (heard (h.news h' q)) =
        besides (h.client q).id (heard (h.news h' q')) := by
  have hi := inv_of_reachable hreach
  have hlistens : ∀ q, h.IsMember rid q → (∀ x ∈ t, ¬ x.1.Departs (h.client q).id x.2) →
      h.Listens h' rid q t := fun q hq hstay =>
    (hi.sits_of_isMember hq).listens hreach hpath hstay
  refine ⟨fun q hq hstay => ?_, fun q q' hq hq' hstay hstay' => ?_⟩
  · have hl := hlistens q hq hstay
    exact ⟨hl.heard, hl.grows.accepted_eq_news⟩
  · rw [(hlistens q hq hstay).heard, (hlistens q' hq' hstay').heard, besides, besides, besides,
      besides, List.filter_comm]

/-- The guest of `shared` tells its status. -/
def guestStatus : Event :=
  .handle 1 { type := "peer_status", payload := [123, 125] } (Ambient.plain 30 "a3")

theorem room_channel_shared :
    heard (shared.news (shared.after guestStatus) 0) = [{
      type := "peer_status", roomID := "room_a1", peerID := "peer_2", nick := "Bo"
      payload := [123, 125], sentAt := 30 }] := by
  have he : shared.Enabled guestStatus := And.intro (by decide) (by decide)
  have hpath : machine.Path shared [(shared, guestStatus)] (shared.after guestStatus) :=
    Machine.Path.single ⟨he, rfl⟩
  have hstay : ∀ x ∈ [(shared, guestStatus)], ¬ x.1.Departs (shared.client 0).id x.2 := by
    intro x hx
    rw [List.mem_singleton.mp hx]
    exact fun hdeparts => absurd hdeparts.1 (by decide)
  have hmember : shared.IsMember "room_a1" 0 := ⟨0, by decide, by decide⟩
  rw [((room_channel shared_reachable hpath).1 0 hmember hstay).1]
  decide

end Hub

end Coordinator

end TarkovVoice

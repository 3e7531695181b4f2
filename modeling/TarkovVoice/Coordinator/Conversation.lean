import TarkovVoice.Coordinator.Forwarding
import TarkovVoice.Coordinator.History
import TarkovVoice.Transcript

/-!
# What a client is told, in order

The envelopes that are queued for a client are a conversation. A message about a room is about the
room the client was last told it has entered. A voice frame, a status, an ICE message or a notice
that somebody has left is about a peer that the envelopes before it have introduced, and a notice
that somebody has joined is about one that they have not.

So nobody hears from a stranger, in whatever order the handlers of the others run. Both facts are
read off the hub: the peers a client has been told of are the occupants of its room (`Told`), and
the room it has been told of is the one in its own record (`Placed`).

## Main definitions

* `entered` — the room an envelope history says its reader is in
* `Sensible` — what a client may be told after what it has been told before
* `Hub.Placed`, `Hub.Conversing`

## Main results

* `Hub.conversing_after` — every event continues every conversation
* `Hub.queue_conversation` — the queue of every client is a conversation
-/

namespace TarkovVoice

namespace Coordinator

/-- The types that say which room a client has entered. -/
def Enters (type : String) : Prop := type = "room_created" ∨ type = "joined_room"

instance (type : String) : Decidable (Enters type) := inferInstanceAs (Decidable (_ ∨ _))

/-- The room that an envelope history says its reader has entered last, if any. Leaving is not
confirmed, so it does not show here. -/
def entered (l : List Envelope) : Option String :=
  l.foldl (fun rid env => if Enters env.type then some env.roomID else rid) none

/-- The types that are about nobody else, or come with a list. -/
def plainTypes : List String :=
  ["hello", "rooms", "room_created", "joined_room", "heartbeat_ack", "error"]

/-- The types that are about one peer in the room of the reader. -/
def roomTypes : List String :=
  ["ice_offer", "ice_answer", "ice_candidate", "mute_status", "peer_status", "voice_frame",
    "peer_joined", "peer_left"]

/-- What a client may be told after `before`: a message of a known type; if it is about a peer, with
the room that `before` has put the reader into; and about a peer that is in that room for all the
reader knows, or joins it just now. -/
structure Sensible (before : List Envelope) (env : Envelope) : Prop where
  type : env.type ∈ plainTypes ++ roomTypes
  room : env.type ∈ roomTypes → entered before = some env.roomID
  peer : env.type ∈ roomTypes → (env.peerID ∈ replay before ↔ env.type ≠ "peer_joined")

section Histories

variable {l l' : List Envelope} {env : Envelope}

theorem entered_append_of_not (h : ∀ env ∈ l', ¬ Enters env.type) :
    entered (l ++ l') = entered l := by
  rw [entered, entered, List.foldl_append]
  generalize List.foldl _ none l = rid
  induction l' with
  | nil => rfl
  | cons env l' ih =>
    rw [List.foldl_cons, if_neg (h env List.mem_cons_self)]
    exact ih fun env' h' => h env' (List.mem_cons_of_mem _ h')

theorem entered_append_singleton (h : Enters env.type) :
    entered (l ++ [env]) = some env.roomID := by
  rw [entered, List.foldl_append, List.foldl_cons, List.foldl_nil, if_pos h]

theorem sensible_of_plain (h : env.type ∈ plainTypes) : Sensible l env := by
  have hdisjoint : ∀ type ∈ plainTypes, type ∉ roomTypes := by decide
  refine ⟨List.mem_append_left _ h, fun hroom => ?_, fun hroom => ?_⟩
  · exact absurd hroom (hdisjoint _ h)
  · exact absurd hroom (hdisjoint _ h)

theorem sensible_of_type (type : String) (htype : env.type = type) (h : type ∈ plainTypes) :
    Sensible l env := sensible_of_plain (htype ▸ h)

/-- Envelopes that come with a list, or are about nobody else, fit anywhere, whatever was said
before. -/
theorem justified_of_plain {P : List Envelope} (h : ∀ env ∈ l, env.type ∈ plainTypes) :
    Justified (fun before => Sensible (P ++ before)) l :=
  justified_of_forall fun env henv _ => sensible_of_plain (h env henv)

end Histories

namespace Hub

variable {w : Ambient} {h : Hub} {c p q : ClientPtr} {env : Envelope}

/-! ### The room in one's own record -/

/-- Every registered client that says it is in a room has been told so, and has been told of no
other room since. -/
def Placed (h : Hub) : Prop :=
  ∀ ⦃p⦄, h.Registered p → (h.client p).roomID ≠ "" →
    entered (h.send p).offered = some (h.client p).roomID

theorem placed_newHub : newHub.Placed := by
  intro p hp
  simp [Registered, newHub] at hp

theorem Placed.deliver (hpl : h.Placed) {mail : Mail}
    (hmail : ∀ p, ∀ env ∈ mail p, ¬ Enters env.type) : (h.deliver mail).Placed := by
  intro p hp hnamed
  rw [offered_deliver, entered_append_of_not (hmail p)]
  exact hpl hp hnamed

/-- `Placed` is kept by a step that moves nobody and confirms no entry. -/
theorem Placed.transfer {h' : Hub} (hpl : h.Placed) (hreg : h'.Registered p → h.Registered p)
    (hroom : (h'.client p).roomID = (h.client p).roomID) {l : List Envelope}
    (hl : ∀ env ∈ l, ¬ Enters env.type) (hoff : (h'.send p).offered = (h.send p).offered ++ l)
    (hp : h'.Registered p) (hnamed : (h'.client p).roomID ≠ "") :
    entered (h'.send p).offered = some (h'.client p).roomID := by
  rw [hroom] at hnamed ⊢
  rw [hoff, entered_append_of_not hl]
  exact hpl (hreg hp) hnamed

theorem not_enters_toRoommates {left : Envelope} (htype : left.type = "peer_left") :
    ∀ p, ∀ env ∈ h.toRoommates c left p, ¬ Enters env.type :=
  forall_toRoommates (show ¬ Enters left.type by rw [htype]; decide)

theorem Placed.updateNick (hpl : h.Placed) (c : ClientPtr) (env : Envelope) :
    (h.updateNick c env).Placed := by
  have hsend : (h.updateNick c env).send = h.send := by rw [updateNick_eq]
  have hclients : (h.updateNick c env).clients = h.clients := by rw [updateNick_eq]
  intro p hp hnamed
  refine hpl.transfer ?_ (roomID_updateNick c p env) (l := []) (by simp) (by rw [hsend]; simp)
    hp hnamed
  rw [Registered, Registered, hclients, id_updateNick]
  exact id

theorem Placed.leaveRoomLocked (hi : h.Inv) (hpl : h.Placed) (hc : h.Registered c) :
    (h.leaveRoomLocked w c).Placed := by
  obtain ⟨-, hl⟩ := hi.leaveRoomLocked (w := w) hc
  intro p hp hnamed
  have hpc : p ≠ c := by
    rintro rfl
    exact hnamed hl.roomID
  exact hpl.transfer hl.registered.mp (hl.roomID_of_ne p hpc) (not_enters_toRoommates rfl p)
    (hi.offered_leaveRoomLocked hc p) hp hnamed

theorem Placed.vacated (hi : h.Inv) (hpl : h.Placed) (hc : h.Registered c) (env : Envelope) :
    (h.vacated w c env).Placed :=
  (hpl.leaveRoomLocked hi hc).updateNick c env

/-- A client that enters a room is told so, and nobody else moves. So what it was told last is where
it is. -/
theorem Placed.setRoomID (hpl : h.Placed) {h' : Hub} {answer : Envelope}
    (hclients : h'.clients = h.clients) (hid : ∀ p, (h'.client p).id = (h.client p).id)
    (hroom : ∀ p, p ≠ c → (h'.client p).roomID = (h.client p).roomID) (hsend : h'.send = h.send)
    (htype : Enters answer.type) (hnew : (h'.client c).roomID = answer.roomID) :
    (h'.deliver (toOne c answer)).Placed := by
  intro p hp hnamed
  rw [client_deliver] at hnamed ⊢
  by_cases hpc : p = c
  · subst hpc
    rw [offered_deliver, toOne, if_pos rfl, entered_append_singleton htype, hnew]
  · have hreg : (h'.deliver (toOne c answer)).Registered p → h.Registered p := by
      rw [registered_deliver, Registered, Registered, hclients, hid]
      exact id
    refine hpl.transfer hreg (hroom p hpc) (l := []) (by simp) ?_ hp hnamed
    rw [offered_deliver, toOne, if_neg hpc, hsend]

theorem Placed.created (hi : h.Inv) (hpl : h.Placed) (hc : h.Registered c) (env : Envelope) :
    ((h.created w c env).deliver
      (toOne c (roomCreated w ((h.vacated w c env).newRoom w c env)))).Placed :=
  (hpl.vacated hi hc env).setRoomID rfl (fun p => id_setRoomID c p _)
    (fun _ hp => roomID_setRoomID_of_ne hp _) rfl (Or.inl rfl) (roomID_setRoomID c _)

theorem Placed.joined (hi : h.Inv) (hpl : h.Placed) (hc : h.Registered c) {r : RoomPtr}
    (hr : h.rooms.get env.roomID = some r) :
    ((h.joined w c env r).deliver
      (toOne c (joinedRoom w ((h.joined w c env r).room r)))).Placed := by
  refine (hpl.vacated (w := w) hi hc env).setRoomID rfl (fun p => id_joined)
    (fun _ hp => roomID_setRoomID_of_ne hp _) rfl (Or.inr rfl) ?_
  rw [hi.roomID_joined hc hr]
  exact (hi.id_room_joined hc hr).symm

theorem not_enters_toAll : ∀ p, ∀ env ∈ h.toAll w p, ¬ Enters env.type :=
  forall_toAll (show ¬ Enters "rooms" by decide)

theorem not_enters_stamp (htype : IsIce env.type ∨ IsStatus env.type) :
    ¬ Enters (h.stamp w c env).type := by
  show ¬ Enters env.type
  rcases htype with (h | h | h) | h | h <;> rw [h] <;> decide

theorem Placed.handled (hi : h.Inv) (hpl : h.Placed) (hc : h.Registered c) {h' : Hub}
    (hh : Handled w h c env h') : h'.Placed := by
  cases hh with
  | create => exact (hpl.created hi hc env).deliver not_enters_toAll
  | join _ hr _ =>
    have hnotice : ∀ h' rid, ¬ Enters (peerJoined w h' c rid env).type := fun _ _ =>
      show ¬ Enters "peer_joined" by decide
    exact ((hpl.joined hi hc hr).deliver (forall_toRoom (hnotice _ _))).deliver
      not_enters_toAll
  | leave => exact (hpl.leaveRoomLocked hi hc).deliver not_enters_toAll
  | hello =>
    exact ((hpl.updateNick c env).deliver
      (forall_toOne (show ¬ Enters "hello" by decide))).deliver
      (forall_toOne (show ¬ Enters "rooms" by decide))
  | listRooms => exact hpl.deliver (forall_toOne (show ¬ Enters "rooms" by decide))
  | route htype => exact hpl.deliver (forall_toOne (not_enters_stamp (Or.inl htype)))
  | unavailable => exact hpl.deliver (forall_toOne (show ¬ Enters "error" by decide))
  | status htype => exact hpl.deliver (forall_toRoom (not_enters_stamp (Or.inr htype)))
  | voice => exact hpl.deliver (forall_toRoom (show ¬ Enters "voice_frame" by decide))
  | silent => exact hpl
  | reply _ _ _ hanswer =>
    refine hpl.deliver (forall_toOne ?_)
    rcases hanswer with hanswer | hanswer <;> rw [hanswer] <;> decide

/-! ### Conversations -/

/-- What every client was told makes sense to it, whether its queue took it or not. -/
def Conversing (h : Hub) : Prop := ∀ p, Justified Sensible (h.send p).offered

theorem conversing_newHub : newHub.Conversing := fun _ => justified_nil

/-- What a step offers continues the conversations. -/
def Continues (h : Hub) (mail : Mail) : Prop :=
  ∀ p, Justified (fun before => Sensible ((h.send p).offered ++ before)) (mail p)

theorem Conversing.extend (hcon : h.Conversing) {h' : Hub} {mail : Mail}
    (hmail : h.Continues mail)
    (hoff : ∀ p, (h'.send p).offered = (h.send p).offered ++ mail p) : h'.Conversing := by
  intro p
  rw [hoff]
  exact justified_append.mpr ⟨hcon p, hmail p⟩

theorem Conversing.deliver (hcon : h.Conversing) {mail : Mail} (hmail : h.Continues mail) :
    (h.deliver mail).Conversing := hcon.extend hmail (offered_deliver mail)

/-- What goes to some clients, and makes sense to each of them, continues the conversations of all:
the others are told nothing. -/
theorem continues_of_one {mail : Mail} (env : Envelope)
    (hmail : ∀ p, mail p = [] ∨ mail p = [env] ∧ Sensible (h.send p).offered env) :
    h.Continues mail := by
  intro p
  rcases hmail p with hnone | ⟨hone, hsense⟩
  · rw [hnone]
    exact justified_nil
  · rw [hone, justified_singleton, List.append_nil]
    exact hsense

theorem continues_toOne (hsense : Sensible (h.send c).offered env) :
    h.Continues (toOne c env) := by
  refine continues_of_one env fun p => ?_
  by_cases hp : p = c
  · exact Or.inr ⟨by rw [toOne, if_pos hp], hp ▸ hsense⟩
  · exact Or.inl (by rw [toOne, if_neg hp])

theorem continues_toAll : h.Continues (toAll w h) := fun _ =>
  justified_of_plain fun env henv => by
    rw [(mem_toAll.mp henv).2]
    exact show "rooms" ∈ plainTypes by decide

theorem continues_toRoommates (hsense : ∀ p, h.Roommate c p → Sensible (h.send p).offered env) :
    h.Continues (h.toRoommates c env) := by
  refine continues_of_one env fun p => ?_
  by_cases hp : h.Roommate c p
  · exact Or.inr ⟨by rw [toRoommates, if_pos hp], hsense p hp⟩
  · exact Or.inl (by rw [toRoommates, if_neg hp])

/-- Both know of each other that they are in one room. The one was told of the other when it
entered, or when the other did. -/
theorem sensible_of_occupies (hpl : h.Placed) (ht : h.Told) (hc : h.Registered c)
    (hp : h.Registered p) (hnamed : (h.client p).roomID ≠ "")
    (hroom : (h.client c).roomID = (h.client p).roomID) (htype : env.type ∈ roomTypes)
    (hnot : env.type ≠ "peer_joined") (hrid : env.roomID = (h.client c).roomID)
    (hid : env.peerID = (h.client c).id) : Sensible (h.send p).offered env := by
  refine ⟨List.mem_append_right _ htype, fun _ => ?_, fun _ => iff_of_true ?_ hnot⟩
  · rw [hpl hp hnamed, hrid, hroom]
  · rw [hid]
    exact (ht hp hnamed _).mpr ⟨c, hc, hroom⟩

/-- Those who stay are told that somebody they know has left their room. It is the one envelope that
takes away from what they know. -/
theorem continues_left (hpl : h.Placed) (ht : h.Told) (hc : h.Registered c) :
    h.Continues (h.toRoommates c (h.peerLeft w c (h.client c).roomID)) := by
  refine continues_toRoommates fun p hmate => ?_
  obtain ⟨-, hreg, hnamed, hroom⟩ := hmate
  refine sensible_of_occupies hpl ht hc hreg (by rw [hroom]; exact hnamed) hroom.symm ?_ ?_
    rfl rfl
  · exact show "peer_left" ∈ roomTypes by decide
  · exact show "peer_left" ≠ "peer_joined" by decide

theorem Conversing.vacated (hi : h.Inv) (hpl : h.Placed) (ht : h.Told) (hcon : h.Conversing)
    (hc : h.Registered c) (env : Envelope) : (h.vacated w c env).Conversing :=
  hcon.extend (continues_left hpl ht hc) (hi.offered_vacated hc env)

theorem Conversing.leaveRoomLocked (hi : h.Inv) (hpl : h.Placed) (ht : h.Told)
    (hcon : h.Conversing) (hc : h.Registered c) : (h.leaveRoomLocked w c).Conversing :=
  hcon.extend (continues_left hpl ht hc) (hi.offered_leaveRoomLocked hc)

/-- The confirmation of a join, and what the new roommates are told. -/
theorem Conversing.joined (hi : h.Inv) (hpl : h.Placed) (ht : h.Told) (hcon : h.Conversing)
    (hc : h.Registered c) {r : RoomPtr} (hr : h.rooms.get env.roomID = some r)
    (hlen : (h.room r).peers.len < maxPeersPerRoom) :
    (((h.joined w c env r).deliver
      (toOne c (joinedRoom w ((h.joined w c env r).room r)))).deliver
      ((h.joined w c env r).toRoom ((h.joined w c env r).room r).peers
        (peerJoined w (h.joined w c env r) c
          ((h.joined w c env r).room r).id env))).Conversing := by
  obtain ⟨hiv, hl⟩ := hi.vacated (w := w) hc env
  have hplv := hpl.vacated (w := w) hi hc env
  have htv := ht.vacated (w := w) hi hc env
  have hroom := hi.roomID_joined (w := w) hc hr
  have hentered : ((h.joined w c env r).deliver
      (toOne c (joinedRoom w ((h.joined w c env r).room r)))).Conversing :=
    Conversing.deliver (h := h.joined w c env r) (hcon.vacated hi hpl ht hc env)
      (continues_toOne (sensible_of_type "joined_room" rfl (by decide)))
  rw [hi.toRoom_joined hc hr hlen]
  refine hentered.deliver (continues_of_one (peerJoined w (h.joined w c env r) c
    ((h.joined w c env r).room r).id env) fun p => ?_)
  by_cases hmate : (h.joined w c env r).Roommate c p
  · refine Or.inr ⟨by rw [toRoommates, if_pos hmate], ?_⟩
    obtain ⟨hpc, hreg, hnamed, hsame⟩ := hmate
    have hold : ((h.joined w c env r).client p).roomID = ((h.vacated w c env).client p).roomID :=
      roomID_setRoomID_of_ne hpc _
    have hregv : (h.vacated w c env).Registered p := by
      rw [Registered, ← id_joined (r := r)]
      exact hreg
    rw [← hsame, hold] at hnamed
    have hbefore : (((h.joined w c env r).deliver
        (toOne c (joinedRoom w ((h.joined w c env r).room r)))).send p).offered =
          ((h.vacated w c env).send p).offered := by
      rw [offered_deliver, toOne, if_neg hpc, List.append_nil]
      rfl
    rw [hbefore]
    refine ⟨show "peer_joined" ∈ plainTypes ++ roomTypes by decide, fun _ => ?_, fun _ => ?_⟩
    · rw [hplv hregv hnamed, ← hold, hsame, hroom]
      exact congrArg some (hi.id_room_joined hc hr).symm
    · -- The newcomer was in no room when the others were last told who is in theirs.
      refine iff_of_false (fun hknown => ?_) fun hne => hne rfl
      obtain ⟨q, hget, hin⟩ := (htv hregv hnamed _).mp hknown
      have hqc : (h.vacated w c env).clients.get ((h.vacated w c env).client c).id = some c :=
        hl.registered.mpr hc
      have hid : (peerJoined w (h.joined w c env r) c ((h.joined w c env r).room r).id env).peerID =
          ((h.vacated w c env).client c).id := id_joined
      rw [hid, hqc] at hget
      obtain rfl := Option.some.inj hget
      exact hnamed (hin.symm.trans hl.roomID)
  · exact Or.inl (by rw [toRoommates, if_neg hmate])

theorem mem_roomTypes_of_ice (htype : IsIce env.type) :
    env.type ∈ roomTypes ∧ env.type ≠ "peer_joined" := by
  rcases htype with h | h | h <;> rw [h] <;> decide

theorem mem_roomTypes_of_status (htype : IsStatus env.type) :
    env.type ∈ roomTypes ∧ env.type ≠ "peer_joined" := by
  rcases htype with h | h <;> rw [h] <;> decide

/-- What goes to the peers of a member's room under the member's name makes sense to them. A notice
of a join is excepted: it is about somebody new. -/
theorem continues_toRoom (hi : h.Inv) (hpl : h.Placed) (ht : h.Told) (hc : h.Registered c)
    {r : RoomPtr} (hr : h.rooms.get (h.client c).roomID = some r)
    (htype : env.type ∈ roomTypes) (hnot : env.type ≠ "peer_joined")
    (hrid : env.roomID = (h.client c).roomID) (hid : env.peerID = (h.client c).id) :
    h.Continues (h.toRoom (h.room r).peers env) := by
  have hok := hi.rooms_ok hr
  refine continues_of_one env fun p => ?_
  by_cases hp : h.Hears (h.room r).peers env p
  · refine Or.inr ⟨by rw [toRoom, if_pos hp], ?_⟩
    obtain ⟨hget, hroom⟩ := (hok.peers_iff _ _).mp hp.1
    exact sensible_of_occupies hpl ht hc hget (hroom ▸ hok.named) hroom.symm htype hnot hrid hid
  · exact Or.inl (by rw [toRoom, if_neg hp])

theorem Conversing.handled (hi : h.Inv) (hpl : h.Placed) (ht : h.Told) (hcon : h.Conversing)
    (hc : h.Registered c) {h' : Hub} (hh : Handled w h c env h') : h'.Conversing := by
  cases hh with
  | create =>
    have hfounded : (h.created w c env).Conversing := hcon.vacated hi hpl ht hc env
    exact (hfounded.deliver (continues_toOne
      (sensible_of_type "room_created" rfl (by decide)))).deliver continues_toAll
  | join _ hr hlen => exact (hcon.joined hi hpl ht hc hr hlen).deliver continues_toAll
  | leave => exact (hcon.leaveRoomLocked hi hpl ht hc).deliver continues_toAll
  | hello =>
    have hrenamed : (h.updateNick c env).Conversing := by
      rw [updateNick_eq]
      exact hcon
    exact (hrenamed.deliver (continues_toOne (sensible_of_type "hello" rfl (by decide)))).deliver
      (continues_toOne (sensible_of_type "rooms" rfl (by decide)))
  | listRooms =>
    exact hcon.deliver (continues_toOne (sensible_of_type "rooms" rfl (by decide)))
  | @route target htype hroutes =>
    obtain ⟨hget, hnamed, hsame⟩ := hroutes
    obtain ⟨hmem, hnot⟩ := mem_roomTypes_of_ice htype
    exact hcon.deliver (continues_toOne (sensible_of_occupies hpl ht hc (hi.registered hget)
      (hsame ▸ hnamed) hsame.symm hmem hnot rfl rfl))
  | unavailable =>
    exact hcon.deliver (continues_toOne (sensible_of_type "error" rfl (by decide)))
  | status htype hr =>
    obtain ⟨hmem, hnot⟩ := mem_roomTypes_of_status htype
    exact hcon.deliver (continues_toRoom hi hpl ht hc hr hmem hnot rfl rfl)
  | voice _ hr =>
    exact hcon.deliver (continues_toRoom hi hpl ht hc hr (show "voice_frame" ∈ roomTypes by decide)
      (show "voice_frame" ≠ "peer_joined" by decide) rfl rfl)
  | silent => exact hcon
  | reply _ _ _ hanswer =>
    refine hcon.deliver (continues_toOne (sensible_of_plain ?_))
    rcases hanswer with hanswer | hanswer <;> rw [hanswer] <;> decide

/-! ### Runs -/

theorem Placed.addClient (hpl : h.Placed) {id nick : String} {cap : ℕ} :
    ((h.newClient id nick cap).addClient h.nextClient).Placed := by
  intro p hp hnamed
  have hpn : p ≠ h.nextClient := by
    rintro rfl
    simp [newClient, Hub.addClient] at hnamed
  have hclient : ((h.newClient id nick cap).addClient h.nextClient).client p = h.client p :=
    Function.update_of_ne hpn _ _
  have hsend : ((h.newClient id nick cap).addClient h.nextClient).send p = h.send p :=
    Function.update_of_ne hpn _ _
  refine hpl.transfer ?_ (congrArg Client.roomID hclient) (l := []) (by simp) (by simp [hsend])
    hp hnamed
  intro hreg
  have hclients : ((h.newClient id nick cap).addClient h.nextClient).clients =
      h.clients.put id h.nextClient := by simp [newClient, Hub.addClient]
  rw [Registered, hclient, hclients, FMap.get_put] at hreg
  split at hreg
  · exact absurd (Option.some.inj hreg).symm hpn
  · exact hreg

theorem Conversing.addClient (hcon : h.Conversing) {id nick : String} {cap : ℕ} :
    ((h.newClient id nick cap).addClient h.nextClient).Conversing := by
  intro p
  by_cases hpn : p = h.nextClient
  · subst hpn
    have hsend : ((h.newClient id nick cap).addClient h.nextClient).send h.nextClient =
        SendQueue.make cap := Function.update_self ..
    rw [hsend, SendQueue.offered_make]
    exact justified_nil
  · have hsend : ((h.newClient id nick cap).addClient h.nextClient).send p = h.send p :=
      Function.update_of_ne hpn _ _
    rw [hsend]
    exact hcon p

theorem Placed.removeClient (hi : h.Inv) (hpl : h.Placed) (hc : h.Registered c) :
    (h.removeClient w c).Placed := by
  obtain ⟨hclient, hclients⟩ := hi.removeClient_tables (w := w) c
  intro p hp hnamed
  obtain ⟨l, hrooms, hoff⟩ := hi.offered_removeClient (w := w) hc p
  refine hpl.transfer ?_ (congrArg (fun f => (f p).roomID) hclient) ?_ hoff hp hnamed
  · intro hreg
    rw [Registered, hclient, hclients] at hreg
    exact (FMap.get_of_get_delete hreg).2
  · intro env henv
    rcases List.mem_append.mp henv with henv | henv
    · exact not_enters_toRoommates rfl p env henv
    · rw [hrooms env henv]
      decide

theorem Conversing.removeClient (hi : h.Inv) (hpl : h.Placed) (ht : h.Told) (hcon : h.Conversing)
    (hc : h.Registered c) : (h.removeClient w c).Conversing := by
  intro p
  obtain ⟨l, hrooms, hoff⟩ := hi.offered_removeClient (w := w) hc p
  have hleft := justified_append.mpr ⟨hcon p, continues_left (w := w) hpl ht hc p⟩
  rw [hoff, ← List.append_assoc]
  refine justified_append.mpr ⟨hleft, justified_of_plain fun env henv => ?_⟩
  rw [hrooms env henv]
  decide

/-- **Every event continues every conversation**: what it puts into a queue makes sense after what
was put there before. -/
theorem conversing_after (hi : h.Inv) (hpl : h.Placed) (ht : h.Told) (hcon : h.Conversing)
    {e : Event} (he : h.Enabled e) : (h.after e).Placed ∧ (h.after e).Conversing := by
  cases e with
  | addClient id nick cap => exact ⟨hpl.addClient, hcon.addClient⟩
  | handle c env w =>
    have hh := handle_handled (w := w) hi he.1 env
    exact ⟨hpl.handled hi he.1 hh, hcon.handled hi hpl ht he.1 hh⟩
  | invalidJson c w =>
    rw [Hub.after, enqueue_eq]
    exact ⟨hpl.deliver (forall_toOne (show ¬ Enters "error" by decide)),
      hcon.deliver (continues_toOne (sensible_of_type "error" rfl (by decide)))⟩
  | removeClient c w => exact ⟨hpl.removeClient hi he, hcon.removeClient hi hpl ht he⟩
  | writeLoop c =>
    have hoff : ∀ p, ((h.after (.writeLoop c)).send p).offered = (h.send p).offered := by
      intro p
      by_cases hpc : p = c
      · subst hpc
        simp [Hub.after]
      · simp [Hub.after, hpc]
    refine ⟨fun p hp hnamed => ?_, fun p => ?_⟩
    · rw [hoff]
      exact hpl hp hnamed
    · rw [hoff]
      exact hcon p

theorem conversing_of_reachable (hreach : machine.Reachable h) : h.Placed ∧ h.Conversing := by
  refine (hreach.invariant (I := fun h => h.Inv ∧ h.Told ∧ h.Placed ∧ h.Conversing) ?_ ?_).2.2
  · rintro _ rfl
    exact ⟨inv_newHub, told_newHub, placed_newHub, conversing_newHub⟩
  · rintro h e _ ⟨hi, ht, hpl, hcon⟩ ⟨he, rfl⟩
    exact ⟨hi.after he, told_after hi ht he, conversing_after hi hpl ht hcon he⟩

/-- **The queue of every client is a conversation.** In every reachable hub, for every client whose
queue never overflowed: every message it was sent is of a known type; one about a peer names the
room the client was last told it has entered, and a peer it has been told of, unless it tells that
the peer has joined, and then one it has not been told of. -/
theorem queue_conversation (hreach : machine.Reachable h) (hfull : (h.send p).NeverFull) :
    Justified Sensible (h.send p).queued := by
  rw [show (h.send p).queued = (h.send p).offered from hfull]
  exact (conversing_of_reachable hreach).2 p

/-- A guest's status reaches the host, who was told of the guest before. -/
theorem queue_conversation_shared :
    Justified Sensible ((shared.after
      (.handle 1 { type := "peer_status" } (Ambient.plain 30 "a3"))).send 0).queued := by
  have hreach := reachable_after shared_reachable
    (e := .handle 1 { type := "peer_status" } (Ambient.plain 30 "a3"))
    (And.intro (by decide) (by decide))
  exact queue_conversation hreach (show _ = _ by decide)

end Hub

end Coordinator

end TarkovVoice

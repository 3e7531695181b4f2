import TarkovVoice.Coordinator.Mail
import Mathlib.Data.Finset.Erase
import Mathlib.Data.Finset.Insert
import Mathlib.Data.Finset.Dedup

/-!
# What a member has been told

A member learns who is in its room from the envelopes queued for it: `room_created` and
`joined_room` carry the whole list, `peer_joined` and `peer_left` change it by one. `replay` is
what it makes of them, and this file shows that it is always right.

The invariant is about everybody that says it is in a room, stranded or not: the ids it has
collected are those of the registered clients that say they are in the same room. It is stated
about what was offered to the queue. As long as the queue has not overflowed, that is also what
was queued.

## Main definitions

* `replay` — the set of peers an envelope history amounts to
* `Hub.Told` — every client in a room has been told who else is

## Main results

* `Hub.told_after` — every event keeps everybody informed
* `Hub.replay_eq_peers` — replaying a member's queue gives the room's peers
-/

namespace TarkovVoice

namespace Coordinator

/-! ### Replaying -/

/-- What one envelope does to a client's set of peers: entering a room replaces it, and news of one
peer changes it by that peer. Every other envelope leaves it as it is. -/
def replayStep (known : Finset String) (env : Envelope) : Finset String :=
  if env.type = "room_created" ∨ env.type = "joined_room" then
    (env.room.elim [] RoomSnapshot.peers).toFinset
  else if env.type = "peer_joined" then insert env.peerID known
  else if env.type = "peer_left" then known.erase env.peerID
  else known

/-- The set of peers after a history of envelopes. -/
def replay (l : List Envelope) : Finset String := l.foldl replayStep ∅

/-- The types `replay` ignores. -/
def QuietType (type : String) : Prop :=
  type ≠ "room_created" ∧ type ≠ "joined_room" ∧ type ≠ "peer_joined" ∧ type ≠ "peer_left"

instance (type : String) : Decidable (QuietType type) :=
  inferInstanceAs (Decidable (_ ∧ _ ∧ _ ∧ _))

/-- An envelope `replay` ignores. -/
def Quiet (env : Envelope) : Prop := QuietType env.type

theorem replay_append (l l' : List Envelope) :
    replay (l ++ l') = l'.foldl replayStep (replay l) := List.foldl_append ..

theorem replayStep_of_quiet {env : Envelope} (hq : Quiet env) (known : Finset String) :
    replayStep known env = known := by
  obtain ⟨hcreated, hjoined, hin, hout⟩ := hq
  rw [replayStep, if_neg (not_or.mpr ⟨hcreated, hjoined⟩), if_neg hin, if_neg hout]

theorem replay_append_quiet {l l' : List Envelope} (hq : ∀ env ∈ l', Quiet env) :
    replay (l ++ l') = replay l := by
  rw [replay_append]
  generalize replay l = known
  induction l' with
  | nil => rfl
  | cons env l' ih =>
    rw [List.foldl_cons, replayStep_of_quiet (hq env (List.mem_cons_self ..))]
    exact ih fun env' h => hq env' (List.mem_cons_of_mem _ h)

namespace Hub

variable {w : Ambient} {h : Hub} {c p : ClientPtr} {env : Envelope}

theorem quiet_of_type {env : Envelope} (type : String) (htype : env.type = type)
    (hq : QuietType type) : Quiet env := by
  rw [Quiet, htype]
  exact hq

theorem quiet_of_ice {env : Envelope} (htype : IsIce env.type) : Quiet env := by
  rcases htype with htype | htype | htype <;> exact quiet_of_type _ htype (by decide)

theorem quiet_of_status {env : Envelope} (htype : IsStatus env.type) : Quiet env := by
  rcases htype with htype | htype <;> exact quiet_of_type _ htype (by decide)

/-! ### The invariant -/

/-- Every registered client that says it is in a room has been told who says the same, itself
included, and of nobody else. This is about what was offered to its queue; what the queue took is
the same if it was never full. -/
def Told (h : Hub) : Prop :=
  ∀ ⦃p⦄, h.Registered p → (h.client p).roomID ≠ "" → ∀ k,
    k ∈ replay (h.send p).offered ↔ ∃ q, h.Occupies (h.client p).roomID k q

theorem told_newHub : newHub.Told := by
  intro p hp
  simp [Registered, newHub] at hp

/-- `Told` is kept when a client's record, its room's occupants and what it replays are. -/
theorem Told.transfer {h' : Hub} (ht : h.Told) (hreg : h'.Registered p → h.Registered p)
    (hroom : (h'.client p).roomID = (h.client p).roomID)
    (hocc : ∀ k q, h'.Occupies (h.client p).roomID k q ↔ h.Occupies (h.client p).roomID k q)
    (hreplay : replay (h'.send p).offered = replay (h.send p).offered) (hp : h'.Registered p)
    (hnamed : (h'.client p).roomID ≠ "") (k : String) :
    k ∈ replay (h'.send p).offered ↔ ∃ q, h'.Occupies (h'.client p).roomID k q := by
  rw [hroom] at hnamed ⊢
  simp only [hreplay, hocc]
  exact ht (hreg hp) hnamed k

theorem Told.deliver (ht : h.Told) {mail : Mail} (hq : ∀ p, ∀ env ∈ mail p, Quiet env) :
    (h.deliver mail).Told := by
  intro p hp hnamed k
  rw [offered_deliver, replay_append_quiet (hq p)]
  exact ht hp hnamed k

theorem Told.updateNick (ht : h.Told) (c : ClientPtr) (env : Envelope) :
    (h.updateNick c env).Told := by
  have hsend : (h.updateNick c env).send = h.send := by rw [updateNick_eq]
  have hclients : (h.updateNick c env).clients = h.clients := by rw [updateNick_eq]
  intro p hp hnamed k
  refine ht.transfer ?_ (roomID_updateNick c p env) ?_ (by rw [hsend]) hp hnamed k
  · rw [Registered, Registered, hclients, id_updateNick]
    exact id
  · intro k q
    rw [Occupies, Occupies, hclients, roomID_updateNick]

/-- A client is dropped from its roommates' sets when it leaves, and its room's occupants are
the same but for it. -/
theorem Told.of_left (hi : h.Inv) (ht : h.Told) (hc : h.Registered c) {h' : Hub}
    {l : List Envelope} (hl : ∀ env ∈ l, Quiet env) {left : Envelope}
    (htype : left.type = "peer_left") (hid : left.peerID = (h.client c).id) (hpc : p ≠ c)
    (hreg : h.Registered p) (hnamed : (h.client p).roomID ≠ "")
    (hocc : ∀ k q, h'.Occupies (h.client p).roomID k q ↔
      q ≠ c ∧ h.Occupies (h.client p).roomID k q)
    (hoff : (h'.send p).offered = (h.send p).offered ++ (h.toRoommates c left p ++ l))
    (k : String) :
    k ∈ replay (h'.send p).offered ↔ ∃ q, h'.Occupies (h.client p).roomID k q := by
  rw [hoff, ← List.append_assoc, replay_append_quiet hl]
  simp only [hocc]
  have hold := ht hreg hnamed k
  by_cases hmate : h.Roommate c p
  · have hstep : ∀ known, replayStep known left = known.erase (h.client c).id := by
      intro known
      rw [replayStep, htype, hid]
      simp
    rw [toRoommates, if_pos hmate, replay_append, List.foldl_cons, List.foldl_nil, hstep,
      Finset.mem_erase, hold]
    constructor
    · rintro ⟨hk, q, hq⟩
      refine ⟨q, ?_, hq⟩
      rintro rfl
      exact hk (hi.clients_keyed hq.1).symm
    · rintro ⟨q, hqc, hq⟩
      exact ⟨fun hk => hqc (hc.eq_of_id hq.1 hk), q, hq⟩
  · rw [toRoommates, if_neg hmate, List.append_nil, hold]
    refine exists_congr fun q => ⟨fun hq => ⟨?_, hq⟩, And.right⟩
    rintro rfl
    exact hmate ⟨hpc, hreg, by rw [hq.2]; exact hnamed, hq.2.symm⟩

theorem Told.leaveRoomLocked (hi : h.Inv) (ht : h.Told) (hc : h.Registered c) :
    (h.leaveRoomLocked w c).Told := by
  obtain ⟨-, hl⟩ := hi.leaveRoomLocked (w := w) hc
  intro p hp hnamed k
  have hpc : p ≠ c := by
    rintro rfl
    exact hnamed hl.roomID
  rw [hl.roomID_of_ne p hpc] at hnamed ⊢
  refine ht.of_left hi hc (l := []) (by simp) rfl rfl hpc (hl.registered.mp hp) hnamed ?_
    ((hi.offered_leaveRoomLocked hc p).trans (by rw [List.append_nil])) k
  intro k q
  rw [Occupies, Occupies, hl.clients]
  by_cases hqc : q = c
  · subst hqc
    simp [hl.roomID, hnamed.symm]
  · rw [hl.roomID_of_ne q hqc]
    simp [hqc]

theorem Told.removeClient (hi : h.Inv) (ht : h.Told) (hc : h.Registered c) :
    (h.removeClient w c).Told := by
  obtain ⟨hclient, hclients⟩ := hi.removeClient_tables (w := w) c
  have hreg : ∀ {k p}, (h.removeClient w c).clients.get k = some p ↔
      p ≠ c ∧ h.clients.get k = some p := by
    intro k p
    rw [hclients]
    constructor
    · intro hp
      obtain ⟨hne, hget⟩ := FMap.get_of_get_delete hp
      refine ⟨?_, hget⟩
      rintro rfl
      exact hne (hi.clients_keyed hget).symm
    · rintro ⟨hpc, hp⟩
      rw [FMap.get_delete_of_ne _ fun hk => hpc (hc.eq_of_id hp hk), hp]
  intro p hp hnamed k
  obtain ⟨hpc, hp⟩ := hreg.mp hp
  obtain ⟨l, hrooms, hoff⟩ := hi.offered_removeClient (w := w) hc p
  rw [hclient] at hp hnamed ⊢
  refine ht.of_left hi hc (fun env henv => quiet_of_type "rooms" (hrooms env henv) (by decide))
    rfl rfl hpc hp hnamed (fun k q => ?_) hoff k
  rw [Occupies, hreg, hclient, and_assoc, Occupies]

/-! ### Entering -/

theorem mem_snapshot_peers {room : Room} {k : String} :
    k ∈ (room.snapshot w true).peers ↔ ∃ p, room.peers.get k = some p := by
  rw [Room.snapshot, if_pos rfl, ← FMap.mem_keys, ← FMap.map_fst_entries]
  exact ((w.range_perm _).map _).mem_iff

/-- A client that has just been sent the list of its room's peers. -/
theorem mem_replay_of_list {l l' : List Envelope} {room : Room} {listed : Envelope}
    (htype : listed.type = "room_created" ∨ listed.type = "joined_room")
    (hroom : listed.room = some (room.snapshot w true)) (hq : ∀ env ∈ l', Quiet env) (k : String) :
    k ∈ replay (l ++ listed :: l') ↔ ∃ p, room.peers.get k = some p := by
  have hsplit : l ++ listed :: l' = (l ++ [listed]) ++ l' := by simp
  rw [hsplit, replay_append_quiet hq, replay_append, List.foldl_cons, List.foldl_nil, replayStep,
    if_pos htype, hroom, List.mem_toFinset]
  exact mem_snapshot_peers

theorem Told.vacated (hi : h.Inv) (ht : h.Told) (hc : h.Registered c) (env : Envelope) :
    (h.vacated w c env).Told :=
  (ht.leaveRoomLocked hi hc).updateNick c env

theorem Told.created (hi : h.Inv) (ht : h.Told) (hc : h.Registered c) (env : Envelope)
    (hfresh : ∀ r < h.nextRoom, (h.room r).id ≠ "room_" ++ w.randomHex) :
    ((h.created w c env).deliver
      (toOne c (roomCreated w ((h.vacated w c env).newRoom w c env)))).Told := by
  obtain ⟨hiv, hl⟩ := hi.vacated (w := w) hc env
  have hir : (h.created w c env).Inv := hi.founded hc env hfresh
  have hroom : ((h.created w c env).client c).roomID = "room_" ++ w.randomHex :=
    roomID_setRoomID c _
  intro p hp hnamed k
  rw [client_deliver] at hnamed ⊢
  rw [offered_deliver]
  by_cases hpc : p = c
  · subst hpc
    have hget : (h.created w p env).rooms.get ("room_" ++ w.randomHex) =
        some (h.vacated w p env).nextRoom := FMap.get_put_self _ _ _
    have hpeers : ((h.created w p env).room (h.vacated w p env).nextRoom).peers =
        ((h.vacated w p env).newRoom w p env).peers := by
      simp only [Hub.created, founded, Function.update_self]
    have hiff := (hir.rooms_ok hget).peers_iff k
    rw [toOne, if_pos rfl, mem_replay_of_list (Or.inl rfl) rfl (by simp), ← hpeers, hroom]
    exact exists_congr hiff
  · have hsame : ((h.created w c env).client p).roomID = ((h.vacated w c env).client p).roomID :=
      roomID_setRoomID_of_ne hpc _
    rw [toOne, if_neg hpc, List.append_nil]
    have hreg : (h.vacated w c env).Registered p := by
      rw [Registered, ← id_setRoomID c p ((h.vacated w c env).newRoom w c env).id]
      exact hp
    have hother : "room_" ++ w.randomHex ≠ ((h.vacated w c env).client p).roomID := by
      intro hid
      obtain ⟨r, hlt, hr⟩ := hiv.used (hsame ▸ hnamed) hreg.occupies
      refine hfresh r (hl.nextRoom ▸ hlt) ?_
      rw [← hl.room_id r, hr, hid]
    refine (ht.vacated hi hc env).transfer (fun _ => hreg) hsame (fun k q => ?_) rfl hp hnamed k
    refine occupies_setRoomID_of_ne (h := h.vacated w c env) hother ?_
    rw [hl.roomID]
    exact (hsame ▸ hnamed).symm

theorem Told.joined (hi : h.Inv) (ht : h.Told) (hc : h.Registered c) {r : RoomPtr}
    (hr : h.rooms.get env.roomID = some r) (hlen : (h.room r).peers.len < maxPeersPerRoom) :
    (((h.joined w c env r).deliver
      (toOne c (joinedRoom w ((h.joined w c env r).room r)))).deliver
      ((h.joined w c env r).toRoom ((h.joined w c env r).room r).peers
        (peerJoined w (h.joined w c env r) c ((h.joined w c env r).room r).id env))).Told := by
  obtain ⟨hiv, hl⟩ := hi.vacated (w := w) hc env
  have htv := ht.vacated (w := w) hi hc env
  have hpeers := hi.joined_occupies (w := w) hc hr hlen
  have hroom := hi.roomID_joined (w := w) hc hr
  have hreg := hi.registered_joined (w := w) hc env r
  intro p hp hnamed k
  rw [client_deliver, client_deliver] at hnamed ⊢
  rw [offered_deliver, offered_deliver, hi.toRoom_joined hc hr hlen]
  by_cases hpc : p = c
  · subst hpc
    have hself : ¬ (h.joined w p env r).Roommate p p := fun hmate => hmate.1 rfl
    rw [toRoommates, if_neg hself, List.append_nil, toOne, if_pos rfl,
      mem_replay_of_list (Or.inr rfl) rfl (by simp), hroom]
    exact exists_congr (hpeers k)
  · have hsame : ((h.joined w c env r).client p).roomID = ((h.vacated w c env).client p).roomID :=
      roomID_setRoomID_of_ne hpc _
    have hregp : (h.vacated w c env).Registered p := by
      rw [Registered, ← id_joined (r := r)]
      exact hp
    rw [toOne, if_neg hpc, List.append_nil, hsame]
    rw [hsame] at hnamed
    have hold : k ∈ replay ((h.joined w c env r).send p).offered ↔ _ := htv hregp hnamed k
    have hocc := fun q =>
      hi.occupies_joined (w := w) hc hr ((h.vacated w c env).client p).roomID k q
    have hstay : ∀ {q}, (h.vacated w c env).Occupies ((h.vacated w c env).client p).roomID k q →
        q ≠ c := by
      rintro q hq rfl
      exact hnamed (hq.2.symm.trans hl.roomID)
    by_cases hmate : (h.joined w c env r).Roommate c p
    · have hstep : ∀ known, replayStep known (peerJoined w (h.joined w c env r) c
          ((h.joined w c env r).room r).id env) = insert (h.client c).id known := by
        intro known
        simp [replayStep, peerJoined, id_joined, hl.id]
      have hin : env.roomID = ((h.vacated w c env).client p).roomID := by
        rw [← hsame, hmate.2.2.2, hroom]
      rw [toRoommates, if_pos hmate, replay_append, List.foldl_cons, List.foldl_nil, hstep,
        Finset.mem_insert, hold]
      constructor
      · rintro (rfl | ⟨q, hq⟩)
        · exact ⟨c, (hocc c).mpr (Or.inl ⟨rfl, hl.id c ▸ hl.registered.mpr hc, hin⟩)⟩
        · exact ⟨q, (hocc q).mpr (Or.inr ⟨hstay hq, hq⟩)⟩
      · rintro ⟨q, hq⟩
        rcases (hocc q).mp hq with ⟨-, hget, -⟩ | ⟨-, hq⟩
        · exact Or.inl ((hiv.clients_keyed hget).symm.trans (hl.id c))
        · exact Or.inr ⟨q, hq⟩
    · have hout : env.roomID ≠ ((h.vacated w c env).client p).roomID := by
        intro hin
        refine hmate ⟨hpc, hp, ?_, ?_⟩
        · rw [hroom]
          exact (hi.rooms_ok hr).named
        · rw [hsame, hroom, hin]
      rw [toRoommates, if_neg hmate, List.append_nil, hold]
      constructor
      · rintro ⟨q, hq⟩
        exact ⟨q, (hocc q).mpr (Or.inr ⟨hstay hq, hq⟩)⟩
      · rintro ⟨q, hq⟩
        rcases (hocc q).mp hq with ⟨-, -, hin⟩ | ⟨-, hq⟩
        · exact absurd hin hout
        · exact ⟨q, hq⟩

/-! ### Runs -/

theorem quiet_toAll : ∀ p, ∀ env ∈ h.toAll w p, Quiet env :=
  forall_toAll (quiet_of_type "rooms" rfl (by decide))

theorem Told.handled (hi : h.Inv) (ht : h.Told) (hc : h.Registered c)
    (hfresh : ∀ r < h.nextRoom, (h.room r).id ≠ "room_" ++ w.randomHex) {h' : Hub}
    (hh : Handled w h c env h') : h'.Told := by
  cases hh with
  | create => exact (ht.created hi hc env hfresh).deliver quiet_toAll
  | join _ hr hlen => exact (ht.joined hi hc hr hlen).deliver quiet_toAll
  | leave => exact (ht.leaveRoomLocked hi hc).deliver quiet_toAll
  | hello =>
    have hhello : Quiet (helloEnvelope w (h.updateNick c env) c) :=
      quiet_of_type "hello" rfl (by decide)
    exact ((ht.updateNick c env).deliver (forall_toOne hhello)).deliver
      (forall_toOne (quiet_of_type "rooms" rfl (by decide)))
  | listRooms => exact ht.deliver (forall_toOne (quiet_of_type "rooms" rfl (by decide)))
  | route htype =>
    have hcopy : Quiet (h.stamp w c env) := quiet_of_ice htype
    exact ht.deliver (forall_toOne hcopy)
  | unavailable => exact ht.deliver (forall_toOne (quiet_of_type "error" rfl (by decide)))
  | status htype =>
    have hcopy : Quiet (h.stamp w c env) := quiet_of_status htype
    exact ht.deliver (forall_toRoom hcopy)
  | voice => exact ht.deliver (forall_toRoom (quiet_of_type "voice_frame" rfl (by decide)))
  | silent => exact ht
  | reply _ _ _ hanswer =>
    refine ht.deliver (forall_toOne ?_)
    rcases hanswer with hanswer | hanswer <;> exact quiet_of_type _ hanswer (by decide)

theorem Told.addClient (hi : h.Inv) (ht : h.Told) {id nick : String} {cap : ℕ}
    (hfresh : ∀ p < h.nextClient, (h.client p).id ≠ id) :
    ((h.newClient id nick cap).addClient h.nextClient).Told := by
  intro p hp hnamed k
  have hpn : p ≠ h.nextClient := by
    rintro rfl
    simp [newClient, Hub.addClient] at hnamed
  have hclient : ∀ {q}, q ≠ h.nextClient →
      ((h.newClient id nick cap).addClient h.nextClient).client q = h.client q :=
    fun hq => Function.update_of_ne hq _ _
  have hclients : ((h.newClient id nick cap).addClient h.nextClient).clients =
      h.clients.put id h.nextClient := by
    simp [newClient, Hub.addClient]
  have hget : ∀ {k q}, ((h.newClient id nick cap).addClient h.nextClient).clients.get k = some q →
      q ≠ h.nextClient → h.clients.get k = some q := by
    intro k q hq hqn
    rw [hclients, FMap.get_put] at hq
    split at hq
    · exact absurd (Option.some.inj hq).symm hqn
    · exact hq
  refine ht.transfer ?_ (congrArg Client.roomID (hclient hpn)) (fun k q => ?_) ?_ hp hnamed k
  · intro hp
    rw [Registered, hclient hpn] at hp
    exact hget hp hpn
  · rw [hclient hpn] at hnamed
    constructor
    · rintro ⟨hq, hroom⟩
      have hqn : q ≠ h.nextClient := by
        rintro rfl
        exact hnamed (hroom.symm.trans (by simp [newClient, Hub.addClient]))
      exact ⟨hget hq hqn, by rw [← hclient hqn, hroom]⟩
    · rintro ⟨hq, hroom⟩
      have hqn : q ≠ h.nextClient := Nat.ne_of_lt (hi.client_lt hq)
      refine ⟨?_, by rw [hclient hqn, hroom]⟩
      rw [hclients, FMap.get_put_of_ne _ ?_, hq]
      rintro rfl
      exact hfresh q (hi.client_lt hq) (hi.clients_keyed hq)
  · have hsend : ((h.newClient id nick cap).addClient h.nextClient).send p = h.send p :=
      Function.update_of_ne hpn _ _
    rw [hsend]

/-- **Every event keeps everybody informed**: who is in a client's room is what its queue's history
amounts to. -/
theorem told_after (hi : h.Inv) (ht : h.Told) {e : Event} (he : h.Enabled e) :
    (h.after e).Told := by
  cases e with
  | addClient id nick cap => exact ht.addClient hi he
  | handle c env w => exact ht.handled hi he.1 he.2 (handle_handled hi he.1 env)
  | invalidJson c w =>
    rw [Hub.after, enqueue_eq]
    exact ht.deliver (forall_toOne (quiet_of_type "error" rfl (by decide)))
  | removeClient c w => exact ht.removeClient hi he
  | writeLoop c =>
    intro p hp hnamed k
    have hsame : replay ((h.after (.writeLoop c)).send p).offered = replay (h.send p).offered := by
      by_cases hpc : p = c
      · subst hpc
        simp [Hub.after]
      · simp [Hub.after, hpc]
    have hreg : (h.after (.writeLoop c)).Registered p → h.Registered p := id
    exact ht.transfer hreg rfl (fun _ _ => Iff.rfl) hsame hp hnamed k

theorem told_of_reachable (hreach : machine.Reachable h) : h.Told := by
  refine (hreach.invariant (I := fun h => h.Inv ∧ h.Told) ?_ ?_).2
  · rintro _ rfl
    exact ⟨inv_newHub, told_newHub⟩
  · rintro h e _ ⟨hi, ht⟩ ⟨he, rfl⟩
    exact ⟨hi.after he, told_after hi ht he⟩

/-- **Replaying a member's queue gives the room's peers.** In every reachable hub, for every room
and every member whose queue never overflowed, the ids one gets by replaying the queue are the keys
of the room's `peers`. Nothing else is assumed, and the queue may have been read in part or not at
all. -/
theorem replay_eq_peers (hreach : machine.Reachable h) {rid : String} {r : RoomPtr}
    (hr : h.rooms.get rid = some r) {k : String} (hmem : (h.room r).peers.get k = some c)
    (hfull : (h.send c).NeverFull) :
    replay (h.send c).queued = (h.room r).peers.keys.toFinset := by
  have hi := inv_of_reachable hreach
  have hok := hi.rooms_ok hr
  obtain ⟨hget, hroom⟩ := (hok.peers_iff k c).mp hmem
  ext k'
  rw [hfull, List.mem_toFinset, FMap.mem_keys,
    told_of_reachable hreach (hi.registered hget) (hroom ▸ hok.named) k', hroom]
  exact exists_congr fun q => (hok.peers_iff k' q).symm

/-- The host heard of the second member by `peer_joined`. -/
theorem replay_eq_peers_shared :
    replay (shared.send 0).queued = (shared.room 0).peers.keys.toFinset ∧
      (shared.room 0).peers.keys = ["peer_2", "peer_1"] := by
  have hroom : shared.rooms.get "room_a1" = some 0 := by decide
  have hmember : (shared.room 0).peers.get "peer_1" = some 0 := by decide
  have hfull : (shared.send 0).queued = (shared.send 0).offered := by decide
  exact ⟨replay_eq_peers shared_reachable hroom hmember hfull, by decide⟩

end Hub

end Coordinator

end TarkovVoice

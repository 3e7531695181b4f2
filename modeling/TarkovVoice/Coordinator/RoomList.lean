import TarkovVoice.Coordinator.History

/-!
# The room list

Clients outside a room know the rooms from `rooms` envelopes alone. One is sent on request, and
`broadcastRoomsLocked` sends one to everybody at the end of every operation that may have changed
a room. The operations have early returns, and those send nothing.

A step from a hub either leaves the public description of the rooms as it was, and whatever lists
it sends are right, or it ends by sending every registered client the new list (`Published`). So
the last list a client was sent is always the current one.

## Main definitions

* `lastRooms` — the last room list of a history
* `Hub.Public`, `Hub.Describes` — the snapshots of the rooms that exist, and a list of them
* `Hub.Announces`, `Hub.Published`

## Main results

* `Hub.published_after` — every step publishes what it changes
* `Hub.last_rooms_current`
-/

namespace TarkovVoice

namespace Coordinator

/-- The last `rooms` envelope of a history. -/
def lastRooms (l : List Envelope) : Option Envelope :=
  (l.filter fun env => env.type = "rooms").getLast?

theorem lastRooms_append (l l' : List Envelope) :
    lastRooms (l ++ l') = (lastRooms l').or (lastRooms l) := by
  rw [lastRooms, List.filter_append, List.getLast?_append]
  rfl

theorem lastRooms_append_singleton (l : List Envelope) {env : Envelope}
    (htype : env.type = "rooms") :
    lastRooms (l ++ [env]) = some env := by
  rw [lastRooms_append]
  simp [lastRooms, htype]

theorem of_lastRooms_eq_some {l : List Envelope} {env : Envelope} (hlast : lastRooms l = some env) :
    env ∈ l ∧ env.type = "rooms" := by
  have hmem := List.mem_filter.mp (List.mem_of_getLast? hlast)
  exact ⟨hmem.1, of_decide_eq_true hmem.2⟩

namespace Hub

variable {w : Ambient} {h h' : Hub} {c q : ClientPtr} {env : Envelope}

/-! ### What is public -/

/-- `s` is the public snapshot of a room that exists, which leaves out the ids of the members. -/
def Public (h : Hub) (s : RoomSnapshot) : Prop :=
  ∃ w rid r, h.rooms.get rid = some r ∧ s = (h.room r).snapshot w false

/-- The room list in `env` is, as a set, the public snapshots of the rooms that exist. Its order is
that in which Go ranges over the map, and means nothing. -/
def Describes (h : Hub) (env : Envelope) : Prop := ∀ s, s ∈ env.rooms ↔ h.Public s

theorem describes_roomsEnvelope (w : Ambient) (h : Hub) : h.Describes (h.roomsEnvelope w) := by
  intro s
  rw [roomsEnvelope, roomSnapshotsLocked, List.mem_map]
  constructor
  · rintro ⟨⟨rid, r⟩, he, rfl⟩
    exact ⟨w, rid, r, FMap.mem_entries.mp ((w.range_perm _).mem_iff.mp he), rfl⟩
  · rintro ⟨w', rid, r, hr, rfl⟩
    exact ⟨(rid, r), (w.range_perm _).mem_iff.mpr (FMap.mem_entries.mpr hr), rfl⟩

theorem Describes.of_public (hd : h.Describes env) (hpub : ∀ s, h'.Public s ↔ h.Public s) :
    h'.Describes env := by
  intro s
  rw [hpub, hd]

/-! ### One step -/

/-- Every client that is registered afterwards is sent the new list, as the last thing of the
step. -/
def Announces (h h' : Hub) : Prop :=
  ∀ q, h'.Registered q → ∃ l env, (h'.send q).offered = (h.send q).offered ++ l ++ [env] ∧
    env.type = "rooms" ∧ h'.Describes env

/-- Nothing public changes, and the lists that are sent are right. A client that was not registered
before has not been sent anything yet. -/
def Unchanged (h h' : Hub) : Prop :=
  (∀ s, h'.Public s ↔ h.Public s) ∧
    ∀ q, h'.Registered q → (h'.send q).offered = [] ∨
      (h.Registered q ∧ ∃ l, (h'.send q).offered = (h.send q).offered ++ l ∧
        ∀ env ∈ l, env.type = "rooms" → h'.Describes env)

/-- What every step does: either everybody is sent the new list, or the old one is still right. -/
def Published (h h' : Hub) : Prop := h.Announces h' ∨ h.Unchanged h'

/-- An operation that ends with a broadcast of the room list. -/
theorem Extends.announces (hx : h.Extends h') : h.Announces (h'.deliver (h'.toAll w)) := by
  intro q hq
  obtain ⟨l, -, -, hoff, -⟩ := hx q
  refine ⟨l, h'.roomsEnvelope w, ?_, rfl, describes_roomsEnvelope w h'⟩
  have hget : h'.clients.get (h'.client q).id = some q := hq
  rw [offered_deliver, hoff, toAll, if_pos hget]

/-- An operation that writes no room and only sends mail. -/
theorem unchanged_of_mail (mail : Mail) (hrooms : h'.rooms = h.rooms) (hroom : h'.room = h.room)
    (hreg : ∀ q, h'.Registered q → h.Registered q)
    (hoff : ∀ q, (h'.send q).offered = (h.send q).offered ++ mail q)
    (hmail : ∀ q, ∀ env ∈ mail q, env.type = "rooms" → h.Describes env) : h.Unchanged h' := by
  have hpub : ∀ s, h'.Public s ↔ h.Public s := by
    intro s
    rw [Public, Public, hrooms, hroom]
  refine ⟨hpub, fun q hq => Or.inr ⟨hreg q hq, mail q, hoff q, fun env henv htype => ?_⟩⟩
  exact (hmail q env henv htype).of_public hpub

theorem unchanged_deliver {mail : Mail}
    (hmail : ∀ q, ∀ env ∈ mail q, env.type = "rooms" → h.Describes env) :
    h.Unchanged (h.deliver mail) :=
  unchanged_of_mail mail rfl rfl (fun _ hq => hq) (offered_deliver mail) hmail

/-- Mail without a room list. -/
theorem unchanged_of_other {mail : Mail} (htype : ∀ q, ∀ env ∈ mail q, env.type ≠ "rooms") :
    h.Unchanged (h.deliver mail) :=
  unchanged_deliver fun q env henv hrooms => absurd hrooms (htype q env henv)

/-- A greeting may change a nick, and answers with the current list. -/
theorem unchanged_hello (w : Ambient) (h : Hub) (c : ClientPtr) (env : Envelope) :
    h.Unchanged (((h.updateNick c env).deliver
      (toOne c (helloEnvelope w (h.updateNick c env) c))).deliver
        (toOne c ((h.updateNick c env).roomsEnvelope w))) := by
  have heq := updateNick_eq (h := h) c env
  have hrooms : (h.updateNick c env).rooms = h.rooms := by rw [heq]
  have hroom : (h.updateNick c env).room = h.room := by rw [heq]
  have hsend : (h.updateNick c env).send = h.send := by rw [heq]
  have hlist : (h.updateNick c env).roomsEnvelope w = h.roomsEnvelope w := by
    rw [roomsEnvelope, roomsEnvelope, roomSnapshotsLocked, roomSnapshotsLocked, hrooms, hroom]
  refine unchanged_of_mail (fun q =>
    toOne c (helloEnvelope w (h.updateNick c env) c) q ++
      toOne c ((h.updateNick c env).roomsEnvelope w) q) hrooms hroom ?_ ?_ ?_
  · intro q hq
    have hclients : (h.updateNick c env).clients = h.clients := by rw [heq]
    rw [Registered, clients_deliver, clients_deliver, client_deliver, client_deliver, hclients,
      id_updateNick] at hq
    exact hq
  · intro q
    rw [offered_deliver, offered_deliver, hsend, List.append_assoc]
  · intro q env' henv htype
    rcases List.mem_append.mp henv with henv | henv
    · rw [(mem_toOne.mp henv).2] at htype
      exact absurd htype (by simp [helloEnvelope])
    · rw [(mem_toOne.mp henv).2, hlist]
      exact describes_roomsEnvelope w h

theorem Inv.published_handled (hi : h.Inv) (hh : Handled w h c env h') : h.Published h' := by
  cases hh with
  | create =>
    exact Or.inl (Extends.announces (Extends.deliver (hi.extends_vacated c env) _))
  | join =>
    exact Or.inl (Extends.announces
      (Extends.deliver (Extends.deliver (hi.extends_vacated c env) _) _))
  | leave => exact Or.inl (Extends.announces (hi.extends_leaveRoomLocked c))
  | hello => exact Or.inr (unchanged_hello w h c env)
  | listRooms =>
    refine Or.inr (unchanged_deliver fun q env' henv _ => ?_)
    rw [(mem_toOne.mp henv).2]
    exact describes_roomsEnvelope w h
  | route htype =>
    refine Or.inr (unchanged_of_other (forall_toOne ?_))
    rcases htype with htype | htype | htype <;> simp [stamp, htype]
  | unavailable => exact Or.inr (unchanged_of_other (forall_toOne (by simp [errorEnvelope])))
  | status htype =>
    refine Or.inr (unchanged_of_other (forall_toRoom ?_))
    rcases htype with htype | htype <;> simp [stamp, htype]
  | voice => exact Or.inr (unchanged_of_other (forall_toRoom (by simp)))
  | silent =>
    exact Or.inr ⟨fun _ => Iff.rfl, fun q hq => Or.inr ⟨hq, [], (List.append_nil _).symm, by simp⟩⟩
  | reply _ _ _ hanswer =>
    refine Or.inr (unchanged_of_other (forall_toOne ?_))
    rcases hanswer with hanswer | hanswer <;> simp [hanswer]

/-- A client that had no room to leave disconnects, and nobody is told. -/
theorem unchanged_forget (h : Hub) (c : ClientPtr) :
    h.Unchanged { h with clients := h.clients.delete (h.client c).id } :=
  unchanged_of_mail (fun _ => []) rfl rfl (fun _ hq => (FMap.get_of_get_delete hq).2)
    (fun _ => (List.append_nil _).symm) (by simp)

theorem Inv.published_removeClient (hi : h.Inv) (c : ClientPtr) :
    h.Published (h.removeClient w c) := by
  have hkeyed := hi.clients_keyed.delete (h.client c).id
  rcases removeClient_cases (w := w) (c := c) (fun rid r hr => hi.room_keyed hr) with
    ⟨-, heq⟩ | ⟨-, -, heq⟩ | ⟨r, -, -, -, heq⟩ | ⟨r, room', -, -, -, -, heq⟩ <;> rw [heq]
  · exact Or.inr (unchanged_forget h c)
  · exact Or.inr (unchanged_forget h c)
  · rw [broadcastRoomsLocked_eq hkeyed]
    exact Or.inl (Extends.announces (extends_of_send rfl))
  · rw [broadcastRoomsLocked_eq hkeyed]
    exact Or.inl (Extends.announces ((extends_of_send rfl).deliver _))

/-- A client that has just connected has been sent nothing. -/
theorem unchanged_addClient (h : Hub) (id nick : String) (cap : ℕ) :
    h.Unchanged ((h.newClient id nick cap).addClient h.nextClient) := by
  refine ⟨fun _ => Iff.rfl, fun q hq => ?_⟩
  by_cases hqn : q = h.nextClient
  · subst hqn
    exact Or.inl (by simp [newClient, Hub.addClient])
  · have hclient : ((h.newClient id nick cap).addClient h.nextClient).client q = h.client q :=
      Function.update_of_ne hqn _ _
    have hsend : ((h.newClient id nick cap).addClient h.nextClient).send q = h.send q :=
      Function.update_of_ne hqn _ _
    refine Or.inr ⟨?_, [], by rw [hsend, List.append_nil], by simp⟩
    have hclients : ((h.newClient id nick cap).addClient h.nextClient).clients =
        h.clients.put id h.nextClient := by
      simp [newClient, Hub.addClient]
    rw [Registered, hclient, hclients, FMap.get_put] at hq
    split at hq
    · exact absurd (Option.some.inj hq).symm hqn
    · exact hq

/-- **Every step publishes what it changes**: either nothing public changes, or everybody registered
is sent the new list last. -/
theorem Inv.published_after (hi : h.Inv) {e : Event} (he : h.Enabled e) :
    h.Published (h.after e) := by
  cases e with
  | addClient id nick cap => exact Or.inr (unchanged_addClient h id nick cap)
  | handle c env w => exact hi.published_handled (handle_handled hi he.1 env)
  | invalidJson c w =>
    rw [Hub.after, enqueue_eq]
    exact Or.inr (unchanged_of_other (forall_toOne (by simp)))
  | removeClient c w => exact hi.published_removeClient c
  | writeLoop c =>
    refine Or.inr (unchanged_of_mail (fun _ => []) rfl rfl (fun _ hq => hq) ?_ (by simp))
    intro q
    by_cases hq : q = c
    · subst hq
      simp [Hub.after]
    · simp [Hub.after, hq]

/-! ### Runs -/

/-- The last list that was meant for a registered client describes the rooms. This is about what was
offered; the queue took it if it was never full. -/
def Listed (h : Hub) : Prop :=
  ∀ ⦃q env⦄, h.Registered q → lastRooms (h.send q).offered = some env → h.Describes env

theorem Listed.published (hl : h.Listed) (hp : h.Published h') : h'.Listed := by
  intro q env hq hlast
  rcases hp with hann | ⟨hpub, hsame⟩
  · obtain ⟨l, last, hoff, htype, hdesc⟩ := hann q hq
    rw [hoff, lastRooms_append_singleton _ htype] at hlast
    rwa [← Option.some.inj hlast]
  · rcases hsame q hq with hnone | ⟨hreg, l, hoff, hright⟩
    · rw [hnone] at hlast
      exact absurd hlast (by simp [lastRooms])
    · rw [hoff, lastRooms_append] at hlast
      rcases hl' : lastRooms l with _ | env'
      · rw [hl', Option.none_or] at hlast
        exact (hl hreg hlast).of_public hpub
      · rw [hl', Option.some_or] at hlast
        obtain ⟨hmem, htype⟩ := of_lastRooms_eq_some hl'
        rw [← Option.some.inj hlast]
        exact hright env' hmem htype

theorem listed_of_reachable (hreach : machine.Reachable h) : h.Listed := by
  refine (hreach.invariant (I := fun h => h.Inv ∧ h.Listed) ?_ ?_).2
  · rintro _ rfl
    exact ⟨inv_newHub, fun q _ _ hlast => by simp [newHub, lastRooms] at hlast⟩
  · rintro h e _ ⟨hi, hl⟩ ⟨he, rfl⟩
    exact ⟨hi.after he, hl.published (hi.published_after he)⟩

/-- **The last list a client was sent is the current one.** In every reachable hub, for every
registered client whose queue never overflowed and that was sent a list at all; and no step changes
what is public without sending every registered client the new list as its last envelope. Public is
all that the snapshot of a room says, but for the ids of its members. -/
theorem last_rooms_current (hreach : machine.Reachable h) :
    (∀ c env, h.Registered c → (h.send c).NeverFull → lastRooms (h.send c).queued = some env →
      ∀ s, s ∈ env.rooms ↔ h.Public s) ∧
    ∀ e, h.Enabled e → (∀ s, (h.after e).Public s ↔ h.Public s) ∨
      ∀ q, (h.after e).Registered q → ∃ l env,
        ((h.after e).send q).offered = (h.send q).offered ++ l ++ [env] ∧ env.type = "rooms" ∧
          ∀ s, s ∈ env.rooms ↔ (h.after e).Public s := by
  refine ⟨fun c env hc hfull hlast => ?_, fun e he => ?_⟩
  · have hqueued : (h.send c).queued = (h.send c).offered := hfull
    rw [hqueued] at hlast
    exact listed_of_reachable hreach hc hlast
  · rcases (inv_of_reachable hreach).published_after he with hann | ⟨hpub, -⟩
    · exact Or.inr hann
    · exact Or.inl hpub

/-- What the host of `shared` was sent last. -/
def sharedList : Envelope where
  type := "rooms"
  rooms := [{
    id := "room_a1"
    name := "Squad room"
    hostPeerID := "peer_1"
    hostNick := "Ana"
    peerCount := 2
    maxPeers := 5
    createdAtUnixMs := 10 }]
  sentAt := 20

theorem last_rooms_current_shared : lastRooms (shared.send 0).queued = some sharedList ∧
    ∀ s, s ∈ sharedList.rooms ↔ shared.Public s :=
  ⟨by decide, (last_rooms_current shared_reachable).1 0 sharedList (by decide) (by decide : _ = _)
    (by decide)⟩

end Hub

end Coordinator

end TarkovVoice

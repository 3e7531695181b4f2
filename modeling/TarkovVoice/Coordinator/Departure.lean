import TarkovVoice.Coordinator.Stranding
import TarkovVoice.Coordinator.History
import Mathlib.Data.List.Forall2

/-!
# The two ways out

A client leaves its room by asking to, or by losing its connection. The source has the steps
twice: `leaveRoom` clears the client's `roomID`, then does them and broadcasts the rooms;
`removeClient` first takes the client out of `h.clients`, then does them and broadcasts the rooms.

Up to the clock and the order in which maps are visited, both come to the same. `Alike` says when
two envelopes do. Queues that have accepted equally many envelopes go on doing so, full or not,
when they are offered envelopes that are alike.

## Main definitions

* `Alike` — envelopes that agree but for the time and the order of a room list
* `Hub.leaveThenDelete`

## Main results

* `SendQueue.queued_offerAll_alike` — what two queues accept of mail that is alike
* `Hub.LeftBehind.unique` — a departure leaves one room behind
* `Hub.removeClient_like_leaveRoom`
-/

namespace TarkovVoice

namespace Coordinator

/-- The two envelopes differ at most in `sentAt` and in the order of `rooms`. Both depend on when
the step is taken: the one on the clock, the other on the order in which Go ranges over a map. -/
def Alike (env env' : Envelope) : Prop :=
  { env with sentAt := 0, rooms := [] } = { env' with sentAt := 0, rooms := [] } ∧
    env.rooms.Perm env'.rooms

theorem Alike.refl (env : Envelope) : Alike env env := ⟨rfl, List.Perm.refl _⟩

namespace SendQueue

/-- **Queues that are equally full accept the same of mail that is alike.** -/
theorem queued_offerAll_alike {l l' : List Envelope} (hl : List.Forall₂ Alike l l') :
    ∀ {q q' : SendQueue}, q.cap = q'.cap → q.taken = q'.taken →
      q.queued.length = q'.queued.length → ∃ k k', List.Forall₂ Alike k k' ∧
        (q.offerAll l).queued = q.queued ++ k ∧ (q'.offerAll l').queued = q'.queued ++ k' := by
  induction hl with
  | nil =>
    intro q q' _ _ _
    exact ⟨[], [], .nil, (List.append_nil _).symm, (List.append_nil _).symm⟩
  | @cons env env' l l' halike _ ih =>
    intro q q' hcap htaken hlen
    have hpending : q.pending.length = q'.pending.length := by
      simp only [pending, List.length_drop, htaken, hlen]
    have hstep : q.offerAll (env :: l) = (q.offer env).offerAll l := rfl
    have hstep' : q'.offerAll (env' :: l') = (q'.offer env').offerAll l' := rfl
    rw [hstep, hstep']
    by_cases hroom : q.pending.length < q.cap
    · have hroom' : q'.pending.length < q'.cap := by omega
      simp only [offer, if_pos hroom, if_pos hroom']
      obtain ⟨k, k', hk, hq, hq'⟩ := @ih
        { q with
          offered := q.offered ++ [env]
          queued := q.queued ++ [env]
          sublist := q.sublist.append_right _ }
        { q' with
          offered := q'.offered ++ [env']
          queued := q'.queued ++ [env']
          sublist := q'.sublist.append_right _ } hcap htaken (by simp [hlen])
      exact ⟨env :: k, env' :: k', .cons halike hk, by simp [hq], by simp [hq']⟩
    · have hroom' : ¬ q'.pending.length < q'.cap := by omega
      simp only [offer, if_neg hroom, if_neg hroom']
      exact ih hcap htaken hlen

end SendQueue

namespace Hub

variable {w w' : Ambient} {h : Hub} {c q : ClientPtr}

/-! ### What is left behind -/

/-- **A departure leaves one room behind**: the same, whichever way the client departs. -/
theorem LeftBehind.unique {old new new' : Room} (hl : h.LeftBehind c old new)
    (hl' : h.LeftBehind c old new') : new = new' := by
  obtain ⟨hid, hname, hlocked, hcreated, hpeers, hhost⟩ := hl
  obtain ⟨hid', hname', hlocked', hcreated', hpeers', hhost'⟩ := hl'
  have hsame : new.hostID = new'.hostID ∧ new.hostNick = new'.hostNick := by
    rcases hhost with ⟨hne, hold, hnick⟩ | ⟨heq, next, hget, hleast, hnew, hnick⟩
    · rcases hhost' with ⟨-, hold', hnick'⟩ | ⟨heq', -⟩
      · exact ⟨hold.trans hold'.symm, hnick.trans hnick'.symm⟩
      · exact absurd heq' hne
    · rcases hhost' with ⟨hne', -⟩ | ⟨-, next', hget', hleast', hnew', hnick'⟩
      · exact absurd heq hne'
      · have hkeys : new.peers = new'.peers := hpeers.trans hpeers'.symm
        have hid : (h.client next).id = (h.client next').id :=
          le_antisymm (hleast _ (hkeys ▸ FMap.mem_keys.mpr ⟨_, hget'⟩))
            (hleast' _ (hkeys ▸ FMap.mem_keys.mpr ⟨_, hget⟩))
        have hptr : next = next' := by
          rw [hkeys, hid, hget'] at hget
          exact (Option.some.inj hget).symm
        subst hptr
        exact ⟨hnew.trans hnew'.symm, hnick.trans hnick'.symm⟩
  obtain ⟨id, name, hostID, hostNick, locked, createdAt, peers⟩ := new
  obtain ⟨id', name', hostID', hostNick', locked', createdAt', peers'⟩ := new'
  simp only at hid hname hlocked hcreated hpeers hid' hname' hlocked' hcreated' hpeers' hsame
  rw [Room.mk.injEq]
  exact ⟨hid.trans hid'.symm, hname.trans hname'.symm, hsame.1, hsame.2,
    hlocked.trans hlocked'.symm, hcreated.trans hcreated'.symm, hpeers.trans hpeers'.symm⟩

/-! ### The same mail -/

/-- `h.leaveRoom(c)`, then `delete(h.clients, c.id)`. -/
def leaveThenDelete (w : Ambient) (h : Hub) (c : ClientPtr) : Hub :=
  { h.leaveRoom w c with
    clients := (h.leaveRoom w c).clients.delete ((h.leaveRoom w c).client c).id }

/-- Two hubs with the same rooms send room lists that are alike. -/
theorem alike_roomsEnvelope {h' : Hub} (hrooms : h.rooms = h'.rooms) (hroom : h.room = h'.room) :
    Alike (h.roomsEnvelope w) (h'.roomsEnvelope w') := by
  refine ⟨rfl, ?_⟩
  have hperm : (w.range h'.rooms.entries).Perm (w'.range h'.rooms.entries) :=
    (w.range_perm _).trans (w'.range_perm _).symm
  rw [roomsEnvelope, roomsEnvelope, roomSnapshotsLocked, roomSnapshotsLocked, hrooms, hroom]
  exact hperm.map _

/-- `c` apart, whoever is registered hears of the rooms, with `c` in `h.clients` or without. -/
theorem forall₂_toAll (hq : q ≠ c) (hc : h.Registered c) {h₁ h₂ : Hub}
    (hclients₁ : h₁.clients = h.clients.delete (h.client c).id)
    (hclients₂ : h₂.clients = h.clients) (hid₁ : (h₁.client q).id = (h.client q).id)
    (hid₂ : (h₂.client q).id = (h.client q).id) (hrooms : h₁.rooms = h₂.rooms)
    (hroom : h₁.room = h₂.room) :
    List.Forall₂ Alike (h₁.toAll w q) (h₂.toAll w' q) := by
  have hiff : h₁.clients.get (h₁.client q).id = some q ↔
      h₂.clients.get (h₂.client q).id = some q := by
    rw [hclients₁, hclients₂, hid₁, hid₂]
    constructor
    · exact fun hget => (FMap.get_of_get_delete hget).2
    · intro hget
      rw [FMap.get_delete_of_ne _ fun hid => hq (hc.eq_of_id hget hid), hget]
  by_cases hget : h₁.clients.get (h₁.client q).id = some q
  · rw [toAll, if_pos hget, toAll, if_pos (hiff.mp hget)]
    exact .cons (alike_roomsEnvelope hrooms hroom) .nil
  · rw [toAll, if_neg hget, toAll, if_neg fun hget' => hget (hiff.mpr hget')]
    exact .nil

/-- The peers of a room hear the same of a departure, at whatever time. -/
theorem forall₂_toRoom (m : GoMap ClientPtr) (rid : String) (q : ClientPtr) :
    List.Forall₂ Alike (h.toRoom m (h.peerLeft w c rid) q)
      (h.toRoom m (h.peerLeft w' c rid) q) := by
  by_cases hears : h.Hears m (h.peerLeft w c rid) q
  · have hears' : h.Hears m (h.peerLeft w' c rid) q := hears
    rw [toRoom, if_pos hears, toRoom, if_pos hears']
    exact .cons ⟨rfl, List.Perm.refl _⟩ .nil
  · have hears' : ¬ h.Hears m (h.peerLeft w' c rid) q := hears
    rw [toRoom, if_neg hears, toRoom, if_neg hears']
    exact .nil

/-! ### Both ways out -/

/-- What both ways out amount to: one write to the rooms, and mail that is alike. The record of the
client that goes is left out, since nobody reads it any more. -/
structure SameDeparture (h h₁ h₂ : Hub) (c : ClientPtr) : Prop where
  rooms : h₁.rooms = h₂.rooms
  room : h₁.room = h₂.room
  clients : h₁.clients = h₂.clients
  client : ∀ q, q ≠ c → h₁.client q = h₂.client q
  mail : ∀ q, q ≠ c → ∃ l l', List.Forall₂ Alike l l' ∧
    h₁.send q = (h.send q).offerAll l ∧ h₂.send q = (h.send q).offerAll l'

theorem client_setRoomID_of_ne (hq : q ≠ c) (rid : String) :
    (h.setRoomID c rid).client q = h.client q := Function.update_of_ne hq _ _

/-- Both ways out end with the room list, which goes to the same clients. -/
theorem sameDeparture_of_broadcast (hc : h.Registered c) {h₁ h₂ : Hub}
    (hclients₁ : h₁.clients = h.clients.delete (h.client c).id) (hclient₁ : h₁.client = h.client)
    (hclients₂ : h₂.clients = h.clients) (hid₂ : ∀ q, (h₂.client q).id = (h.client q).id)
    (hclient₂ : ∀ q, q ≠ c → h₂.client q = h.client q) (hrooms : h₁.rooms = h₂.rooms)
    (hroom : h₁.room = h₂.room)
    (hmail : ∀ q, ∃ l l', List.Forall₂ Alike l l' ∧
      h₁.send q = (h.send q).offerAll l ∧ h₂.send q = (h.send q).offerAll l') :
    h.SameDeparture (h₁.deliver (h₁.toAll w))
      { h₂.deliver (h₂.toAll w') with clients := h₂.clients.delete (h₂.client c).id } c := by
  refine ⟨hrooms, hroom, ?_, fun q hq => ?_, fun q hq => ?_⟩
  · rw [clients_deliver, hclients₁, hclients₂, hid₂]
  · rw [client_deliver, hclient₁, client_deliver, hclient₂ q hq]
  · obtain ⟨l, l', hl, hsend₁, hsend₂⟩ := hmail q
    have htoAll : List.Forall₂ Alike (h₁.toAll w q) (h₂.toAll w' q) :=
      forall₂_toAll hq hc hclients₁ hclients₂ (by rw [hclient₁]) (hid₂ q) hrooms hroom
    refine ⟨l ++ h₁.toAll w q, l' ++ h₂.toAll w' q, List.rel_append hl htoAll, ?_, ?_⟩
    · rw [SendQueue.offerAll_append, ← hsend₁]
      rfl
    · rw [SendQueue.offerAll_append, ← hsend₂]
      rfl

theorem Inv.sameDeparture (hi : h.Inv) (hc : h.Registered c) {r : RoomPtr}
    (hr : h.rooms.get (h.client c).roomID = some r) :
    h.SameDeparture (h.removeClient w c) (h.leaveThenDelete w' c) c := by
  have hkeyed := hi.clients_keyed.delete (h.client c).id
  have hleft := (hi.leaveRoomLocked (w := w') hc).1.clients_keyed
  have hnamed := (hi.rooms_ok hr).named
  have hid := fun q => id_setRoomID (h := h) c q ""
  have hclient := fun q (hq : q ≠ c) => client_setRoomID_of_ne (h := h) hq ""
  rw [leaveThenDelete, leaveRoom, broadcastRoomsLocked_eq hleft, clients_deliver, client_deliver]
  rcases removeClient_cases (w := w) (c := c) (fun rid r hr => hi.room_keyed hr) with
    ⟨hnone, -⟩ | ⟨-, hgone, -⟩ | ⟨r₁, -, hr₁, hlast, heq⟩ | ⟨r₁, room₁, -, hr₁, hlen, hl₁, heq⟩
  · exact absurd hnone hnamed
  · exact absurd (hr.symm.trans hgone) (by simp)
  · obtain rfl := Option.some.inj (hr.symm.trans hr₁)
    rcases leaveRoomLocked_cases (w := w') (c := c) (fun rid r hr => hi.room_keyed hr) with
      ⟨hnone, -⟩ | ⟨-, hgone, -⟩ | ⟨r₂, -, hr₂, -, heq'⟩ | ⟨r₂, room₂, -, hr₂, hlen, -, -⟩
    · exact absurd hnone hnamed
    · exact absurd (hr.symm.trans hgone) (by simp)
    · obtain rfl := Option.some.inj (hr.symm.trans hr₂)
      rw [heq, heq', broadcastRoomsLocked_eq hkeyed]
      exact sameDeparture_of_broadcast hc rfl rfl rfl hid hclient rfl rfl
        fun q => ⟨[], [], .nil, rfl, rfl⟩
    · obtain rfl := Option.some.inj (hr.symm.trans hr₂)
      exact absurd hlast hlen
  · obtain rfl := Option.some.inj (hr.symm.trans hr₁)
    rcases leaveRoomLocked_cases (w := w') (c := c) (fun rid r hr => hi.room_keyed hr) with
      ⟨hnone, -⟩ | ⟨-, hgone, -⟩ | ⟨r₂, -, hr₂, hlast, -⟩ | ⟨r₂, room₂, -, hr₂, -, hl₂, heq'⟩
    · exact absurd hnone hnamed
    · exact absurd (hr.symm.trans hgone) (by simp)
    · obtain rfl := Option.some.inj (hr.symm.trans hr₂)
      exact absurd hlast hlen
    · obtain rfl := Option.some.inj (hr.symm.trans hr₂)
      obtain rfl := hl₁.unique hl₂
      rw [heq, heq', broadcastRoomsLocked_eq hkeyed]
      exact sameDeparture_of_broadcast hc rfl rfl rfl hid hclient rfl rfl
        fun q => ⟨_, _, forall₂_toRoom room₁.peers (h.room r).id q, rfl, rfl⟩

/-- **Losing the connection is leaving and being deleted.** In every reachable hub, for every
member of a room: the rooms, `h.clients` and the other clients' records come out the same, and
what is appended to the queue of every other client, full or not, is the same up to the time and
the order of the room list. -/
theorem removeClient_like_leaveRoom (hreach : machine.Reachable h) {rid : String}
    (hmem : h.IsMember rid c) (w w' : Ambient) :
    (h.removeClient w c).rooms = (h.leaveThenDelete w' c).rooms ∧
    (h.removeClient w c).room = (h.leaveThenDelete w' c).room ∧
    (h.removeClient w c).clients = (h.leaveThenDelete w' c).clients ∧
    ∀ q, q ≠ c → (h.removeClient w c).client q = (h.leaveThenDelete w' c).client q ∧
      ∃ l l', List.Forall₂ Alike l l' ∧
        ((h.removeClient w c).send q).queued = (h.send q).queued ++ l ∧
        ((h.leaveThenDelete w' c).send q).queued = (h.send q).queued ++ l' := by
  have hi := inv_of_reachable hreach
  obtain ⟨r, hr, hseat⟩ := hmem
  obtain ⟨hc, hroom⟩ := ((hi.rooms_ok hr).peers_iff _ _).mp hseat
  have hsame : h.SameDeparture (h.removeClient w c) (h.leaveThenDelete w' c) c :=
    hi.sameDeparture hc (hroom ▸ hr)
  refine ⟨hsame.rooms, hsame.room, hsame.clients, fun q hq => ⟨hsame.client q hq, ?_⟩⟩
  obtain ⟨l, l', hl, hsend, hsend'⟩ := hsame.mail q hq
  rw [hsend, hsend']
  exact SendQueue.queued_offerAll_alike hl rfl rfl rfl

/-- The host of `shared` drops out: the other member is the host of what is left. -/
theorem removeClient_like_leaveRoom_shared :
    (shared.removeClient (Ambient.plain 30 "") 0).room =
      (shared.leaveThenDelete (Ambient.plain 40 "") 0).room ∧
    ((shared.removeClient (Ambient.plain 30 "") 0).room 0).hostID = "peer_2" :=
  ⟨(@removeClient_like_leaveRoom shared 0 shared_reachable "room_a1" ⟨0, by decide, by decide⟩
    (Ambient.plain 30 "") (Ambient.plain 40 "")).2.1, by decide⟩

end Hub

end Coordinator

end TarkovVoice

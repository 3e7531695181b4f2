import TarkovVoice.Coordinator.Hub

/-!
# What the hub's operations change

Each operation of `Hub.lean` is a handful of memory writes followed by broadcasts, and a
broadcast is a loop. This file computes the loops away. A `Mail` says what is offered to each
client's queue, in order, and `deliver` offers it. Under the hypothesis that a map is keyed by
the ids of the clients it holds, a broadcast is one delivery and nothing else, and leaving a room
is one write to that room, at most one to `h.rooms`, and one delivery.

Everything downstream reasons about these equations and never about a `foldl`.

## Main definitions

* `Mail`, `Hub.deliver`, `Hub.toOne`, `Hub.toRoom`, `Hub.toAll`

## Main results

* `Hub.broadcastLocked_eq`, `Hub.broadcastRoomsLocked_eq` — broadcasts as deliveries
* `Hub.departRoom_of_last`, `Hub.departRoom_of_others` — the two ways out of a room
* `Hub.leaveRoomLocked_cases` — everything `leaveRoomLocked` can do
-/

namespace TarkovVoice

namespace Coordinator

/-! ### Send queues -/

namespace SendQueue

@[simp] theorem offered_offer (q : SendQueue) (env : Envelope) :
    (q.offer env).offered = q.offered ++ [env] := by
  unfold offer
  split <;> rfl

/-- An offer appends the envelope or drops it. -/
theorem queued_offer (q : SendQueue) (env : Envelope) :
    ∃ l, l.Sublist [env] ∧ (q.offer env).queued = q.queued ++ l := by
  unfold offer
  split
  · exact ⟨[env], List.Sublist.refl _, rfl⟩
  · exact ⟨[], List.nil_sublist _, by simp⟩

/-- Offer a list of envelopes, in order. -/
def offerAll (q : SendQueue) (l : List Envelope) : SendQueue := l.foldl offer q

@[simp] theorem offerAll_nil (q : SendQueue) : q.offerAll [] = q := rfl

@[simp] theorem offerAll_singleton (q : SendQueue) (env : Envelope) :
    q.offerAll [env] = q.offer env := rfl

theorem offerAll_append (q : SendQueue) (l l' : List Envelope) :
    q.offerAll (l ++ l') = (q.offerAll l).offerAll l' := List.foldl_append ..

@[simp] theorem offered_offerAll (q : SendQueue) (l : List Envelope) :
    (q.offerAll l).offered = q.offered ++ l := by
  induction l generalizing q with
  | nil => simp
  | cons env l ih =>
    have hstep : q.offerAll (env :: l) = (q.offer env).offerAll l := rfl
    rw [hstep, ih, offered_offer, List.append_assoc, List.singleton_append]

theorem queued_offerAll (q : SendQueue) (l : List Envelope) :
    ∃ l', l'.Sublist l ∧ (q.offerAll l).queued = q.queued ++ l' := by
  induction l generalizing q with
  | nil => exact ⟨[], List.Sublist.refl _, by simp⟩
  | cons env l ih =>
    have hstep : q.offerAll (env :: l) = (q.offer env).offerAll l := rfl
    obtain ⟨m, hm, hqueued⟩ := ih (q.offer env)
    obtain ⟨m', hm', hoffer⟩ := q.queued_offer env
    refine ⟨m' ++ m, List.Sublist.append hm' hm, ?_⟩
    rw [hstep, hqueued, hoffer, List.append_assoc]

@[simp] theorem offered_take (q : SendQueue) : q.take.offered = q.offered := rfl

@[simp] theorem queued_take (q : SendQueue) : q.take.queued = q.queued := rfl

@[simp] theorem offered_make (cap : ℕ) : (make cap).offered = [] := rfl

end SendQueue

/-- What is offered to each client's queue, in order. -/
abbrev Mail := ClientPtr → List Envelope

namespace Hub

variable {w : Ambient} {h : Hub}

/-- Every client a map holds is stored under its own id. -/
def Keyed (h : Hub) (m : GoMap ClientPtr) : Prop :=
  ∀ ⦃k p⦄, m.get k = some p → (h.client p).id = k

theorem Keyed.delete {m : GoMap ClientPtr} (hm : h.Keyed m) (k : String) :
    h.Keyed (m.delete k) := by
  intro k' p hp
  exact hm (FMap.get_of_get_delete hp).2

/-! ### Deliveries -/

/-- Offer each client its mail. -/
def deliver (h : Hub) (mail : Mail) : Hub :=
  { h with send := fun q => (h.send q).offerAll (mail q) }

@[simp] theorem rooms_deliver (mail : Mail) : (h.deliver mail).rooms = h.rooms := rfl

@[simp] theorem clients_deliver (mail : Mail) : (h.deliver mail).clients = h.clients := rfl

@[simp] theorem room_deliver (mail : Mail) : (h.deliver mail).room = h.room := rfl

@[simp] theorem client_deliver (mail : Mail) : (h.deliver mail).client = h.client := rfl

@[simp] theorem nextRoom_deliver (mail : Mail) : (h.deliver mail).nextRoom = h.nextRoom := rfl

@[simp] theorem nextClient_deliver (mail : Mail) :
    (h.deliver mail).nextClient = h.nextClient := rfl

@[simp] theorem registered_deliver (mail : Mail) {c : ClientPtr} :
    (h.deliver mail).Registered c ↔ h.Registered c := Iff.rfl

@[simp] theorem offered_deliver (mail : Mail) (q : ClientPtr) :
    ((h.deliver mail).send q).offered = (h.send q).offered ++ mail q :=
  SendQueue.offered_offerAll _ _

/-- Mail for one client only. -/
def toOne (c : ClientPtr) (env : Envelope) : Mail := fun q => if q = c then [env] else []

theorem enqueue_eq (c : ClientPtr) (env : Envelope) :
    h.enqueue c env = h.deliver (toOne c env) := by
  rw [enqueue, deliver, mk.injEq]
  refine ⟨rfl, rfl, rfl, rfl, ?_, rfl, rfl⟩
  funext q
  by_cases hq : q = c
  · subst hq
    simp [toOne]
  · simp [toOne, hq]

/-! ### Broadcasts -/

/-- Enqueue one envelope for a list of clients. -/
def enqueueEach (h : Hub) (l : List ClientPtr) (env : Envelope) : Hub :=
  l.foldl (fun h q => h.enqueue q env) h

/-- Only the queues of the listed clients change, and each changes once. -/
theorem enqueueEach_eq (env : Envelope) : ∀ {l : List ClientPtr} {h : Hub}, l.Nodup →
    h.enqueueEach l env = h.deliver fun q => if q ∈ l then [env] else [] := by
  intro l
  induction l with
  | nil => intro h _; simp [enqueueEach, deliver]
  | cons p l ih =>
    intro h hnd
    obtain ⟨hp, hl⟩ := List.nodup_cons.mp hnd
    have hstep : h.enqueueEach (p :: l) env = (h.enqueue p env).enqueueEach l env := rfl
    rw [hstep, ih hl]
    simp only [enqueue, deliver, mk.injEq, true_and, and_true]
    funext q
    by_cases hq : q = p
    · subst hq
      simp [hp]
    · simp [hq]

/-- The clients in a map, in the order `range` visits them. -/
def values (w : Ambient) (m : GoMap ClientPtr) : List ClientPtr :=
  (w.range m.entries).map Prod.snd

theorem mem_values {m : GoMap ClientPtr} (hm : h.Keyed m) {q : ClientPtr} :
    q ∈ values w m ↔ m.get (h.client q).id = some q := by
  constructor
  · intro hq
    obtain ⟨e, he, rfl⟩ := List.mem_map.mp hq
    have hlook : m.get e.1 = some e.2 := FMap.mem_entries.mp ((w.range_perm _).mem_iff.mp he)
    rwa [hm hlook]
  · intro hq
    have hmem := FMap.mem_entries.mpr hq
    exact List.mem_map.mpr ⟨_, (w.range_perm _).mem_iff.mpr hmem, rfl⟩

theorem values_nodup {m : GoMap ClientPtr} (hm : h.Keyed m) : (values w m).Nodup := by
  have hnd : (w.range m.entries).Nodup := (w.range_perm _).nodup_iff.mpr m.entries_nodup
  refine hnd.map_on fun e he e' he' heq => ?_
  have hlook : ∀ {e : String × ClientPtr}, e ∈ w.range m.entries → (h.client e.2).id = e.1 :=
    fun he => hm (FMap.mem_entries.mp ((w.range_perm _).mem_iff.mp he))
  exact Prod.ext (by rw [← hlook he, ← hlook he', heq]) heq

/-- Whether a broadcast of `env` to the peers in `m` reaches `q`: nobody is told about himself,
unless the room is closed. -/
def Hears (h : Hub) (m : GoMap ClientPtr) (env : Envelope) (q : ClientPtr) : Prop :=
  m.get (h.client q).id = some q ∧
    ((h.client q).id ≠ env.peerID ∨ env.type = "room_closed")

instance (m : GoMap ClientPtr) (env : Envelope) (q : ClientPtr) : Decidable (h.Hears m env q) :=
  inferInstanceAs (Decidable (_ ∧ _))

/-- Mail for the peers in `m`. -/
def toRoom (h : Hub) (m : GoMap ClientPtr) (env : Envelope) : Mail :=
  fun q => if h.Hears m env q then [env] else []

/-- The room list for everybody. -/
def toAll (w : Ambient) (h : Hub) : Mail :=
  fun q => if h.clients.get (h.client q).id = some q then [h.roomsEnvelope w] else []

/-- **A room broadcast is one delivery.** The order in which the map is ranged over makes no
difference, since each member has a queue of its own. -/
theorem broadcastLocked_eq {env : Envelope} {r : RoomPtr} (hm : h.Keyed (h.room r).peers) :
    h.broadcastLocked w env r = h.deliver (h.toRoom (h.room r).peers env) := by
  have hfold : ∀ (l : List (String × ClientPtr)) (h' : Hub), (∀ e ∈ l, (h.client e.2).id = e.1) →
      l.foldl (fun h p => if p.1 = env.peerID ∧ env.type ≠ "room_closed" then h
        else h.enqueue p.2 env) h' =
      h'.enqueueEach ((l.map Prod.snd).filter
        fun q => (h.client q).id ≠ env.peerID ∨ env.type = "room_closed") env := by
    intro l
    induction l with
    | nil => intro h' _; rfl
    | cons e l ih =>
      intro h' hkey
      have he : (h.client e.2).id = e.1 := hkey e (List.mem_cons_self ..)
      rw [List.foldl_cons, ih _ fun e' he' => hkey e' (List.mem_cons_of_mem _ he'),
        List.map_cons, List.filter_cons, he]
      by_cases hskip : e.1 = env.peerID ∧ env.type ≠ "room_closed"
      · simp [hskip]
      · have hkeep : e.1 ≠ env.peerID ∨ env.type = "room_closed" := by
          by_contra hc
          exact hskip (by simpa [not_or] using hc)
        rw [if_neg hskip, if_pos (by simpa using hkeep)]
        rfl
  have hkey : ∀ e ∈ w.range (h.room r).peers.entries, (h.client e.2).id = e.1 := fun e he =>
    hm (FMap.mem_entries.mp ((w.range_perm _).mem_iff.mp he))
  have hvalues : (w.range (h.room r).peers.entries).map Prod.snd = values w (h.room r).peers :=
    rfl
  rw [broadcastLocked, hfold _ h hkey, hvalues, enqueueEach_eq env ((values_nodup hm).filter _)]
  simp only [List.mem_filter, mem_values hm, decide_eq_true_eq]
  rfl

/-- **A broadcast of the room list is one delivery**, to every registered client, whether it is in a
room or not. -/
theorem broadcastRoomsLocked_eq (hm : h.Keyed h.clients) :
    h.broadcastRoomsLocked w = h.deliver (h.toAll w) := by
  have hfold : h.broadcastRoomsLocked w =
      h.enqueueEach (values w h.clients) (h.roomsEnvelope w) := by
    rw [broadcastRoomsLocked, enqueueEach, values, List.foldl_map]
  rw [hfold, enqueueEach_eq _ (values_nodup hm)]
  simp only [mem_values hm]
  rfl

/-! ### Leaving a room -/

/-- What a room becomes for the others when `c` leaves it: the member is gone, and if it was the
host, the member with the least id is the host now. -/
structure LeftBehind (h : Hub) (c : ClientPtr) (old new : Room) : Prop where
  id : new.id = old.id
  name : new.name = old.name
  locked : new.locked = old.locked
  createdAt : new.createdAt = old.createdAt
  peers : new.peers = old.peers.delete (h.client c).id
  host : (old.hostID ≠ (h.client c).id ∧ new.hostID = old.hostID ∧ new.hostNick = old.hostNick) ∨
    (old.hostID = (h.client c).id ∧ ∃ next, new.peers.get (h.client next).id = some next ∧
      (∀ k ∈ new.peers.keys, (h.client next).id ≤ k) ∧
      new.hostID = (h.client next).id ∧ new.hostNick = (h.client next).nick)

/-- Promotion finds the member with the least id. -/
theorem promoteRoomHost_eq {r : RoomPtr} (hm : h.Keyed (h.room r).peers)
    (hpos : (h.room r).peers.len ≠ 0) :
    ∃ next, (h.room r).peers.get (h.client next).id = some next ∧
      (∀ k ∈ (h.room r).peers.keys, (h.client next).id ≤ k) ∧
      h.promoteRoomHost r = h.setRoom r
        { h.room r with hostID := (h.client next).id, hostNick := (h.client next).nick } := by
  have hperm := List.perm_insertionSort (· ≤ ·) (h.room r).peers.keys
  have hsorted := List.pairwise_insertionSort (· ≤ ·) (h.room r).peers.keys
  rcases hsort : (h.room r).peers.keys.insertionSort (· ≤ ·) with _ | ⟨id, ids⟩
  · rw [hsort] at hperm
    have hnil := List.nil_perm.mp hperm
    exact absurd (by rw [FMap.len, hnil, List.length_nil]) hpos
  · rw [hsort] at hperm hsorted
    obtain ⟨next, hnext⟩ := FMap.mem_keys.mp (hperm.mem_iff.mp (List.mem_cons_self ..))
    have hkey : (h.client next).id = id := hm hnext
    refine ⟨next, by rw [hkey, hnext], fun k hk => ?_, ?_⟩
    · rcases List.mem_cons.mp (hperm.mem_iff.mpr hk) with rfl | hk
      · exact le_of_eq hkey
      · exact hkey ▸ List.rel_of_pairwise_cons hsorted hk
    · simp only [promoteRoomHost, hsort, List.head?_cons, hnext]

/-- Nobody is left: the room closes, and nobody is told. -/
theorem departRoom_of_last {c : ClientPtr} {r : RoomPtr}
    (hlast : ((h.room r).peers.delete (h.client c).id).len = 0) :
    h.departRoom w c r =
      { h with
        rooms := h.rooms.delete (h.room r).id
        room := Function.update h.room r
          { h.room r with peers := (h.room r).peers.delete (h.client c).id } } := by
  have hnone := FMap.len_eq_zero_iff.mp hlast
  rw [departRoom]
  simp only [setRoom, Function.update_self, if_pos hlast]
  rw [broadcastLocked_eq fun k p hp => by simp [hnone] at hp]
  simp [deliver, toRoom, Hears, hnone]

/-- The envelope that tells a room `c` has left. -/
def peerLeft (w : Ambient) (h : Hub) (c : ClientPtr) (rid : String) : Envelope :=
  { type := "peer_left"
    roomID := rid
    peerID := (h.client c).id
    nick := (h.client c).nick
    sentAt := w.now }

/-- Somebody is left: the room changes and everybody in it is told. -/
theorem departRoom_of_others {c : ClientPtr} {r : RoomPtr} (hm : h.Keyed (h.room r).peers)
    (hothers : ((h.room r).peers.delete (h.client c).id).len ≠ 0) :
    ∃ room', h.LeftBehind c (h.room r) room' ∧
      h.departRoom w c r =
        { h with room := Function.update h.room r room' }.deliver
          (h.toRoom room'.peers (h.peerLeft w c (h.room r).id)) := by
  have hm' := hm.delete (h.client c).id
  rw [departRoom]
  simp only [setRoom, Function.update_self, if_neg hothers]
  by_cases hhost : (h.room r).hostID = (h.client c).id
  · obtain ⟨next, hnext, hleast, heq⟩ := promoteRoomHost_eq
      (h := h.setRoom r { h.room r with peers := (h.room r).peers.delete (h.client c).id }) (r := r)
      (by simpa [setRoom, Keyed] using hm') (by simpa [setRoom] using hothers)
    simp only [setRoom, Function.update_self, Function.update_idem] at hnext hleast heq
    refine ⟨{ h.room r with
        peers := (h.room r).peers.delete (h.client c).id
        hostID := (h.client next).id
        hostNick := (h.client next).nick },
      ⟨rfl, rfl, rfl, rfl, rfl, Or.inr ⟨hhost, next, hnext, hleast, rfl, rfl⟩⟩, ?_⟩
    rw [if_pos hhost, heq, broadcastLocked_eq (by simpa [Keyed] using hm')]
    simp [deliver, toRoom, Hears, peerLeft]
  · refine ⟨{ h.room r with peers := (h.room r).peers.delete (h.client c).id },
      ⟨rfl, rfl, rfl, rfl, rfl, Or.inl ⟨hhost, rfl, rfl⟩⟩, ?_⟩
    rw [if_neg hhost, broadcastLocked_eq (by simpa [Keyed] using hm')]
    simp [deliver, toRoom, Hears, peerLeft]

/-! ### Writing one client's fields -/

@[simp] theorem rooms_setRoomID (c : ClientPtr) (rid : String) :
    (h.setRoomID c rid).rooms = h.rooms := rfl

@[simp] theorem room_setRoomID (c : ClientPtr) (rid : String) :
    (h.setRoomID c rid).room = h.room := rfl

@[simp] theorem send_setRoomID (c : ClientPtr) (rid : String) :
    (h.setRoomID c rid).send = h.send := rfl

@[simp] theorem clients_setRoomID (c : ClientPtr) (rid : String) :
    (h.setRoomID c rid).clients = h.clients := rfl

@[simp] theorem nextRoom_setRoomID (c : ClientPtr) (rid : String) :
    (h.setRoomID c rid).nextRoom = h.nextRoom := rfl

@[simp] theorem nextClient_setRoomID (c : ClientPtr) (rid : String) :
    (h.setRoomID c rid).nextClient = h.nextClient := rfl

@[simp] theorem id_setRoomID (c q : ClientPtr) (rid : String) :
    ((h.setRoomID c rid).client q).id = (h.client q).id := by
  by_cases hq : q = c <;> simp [setRoomID, setClient, hq]

@[simp] theorem nick_setRoomID (c q : ClientPtr) (rid : String) :
    ((h.setRoomID c rid).client q).nick = (h.client q).nick := by
  by_cases hq : q = c <;> simp [setRoomID, setClient, hq]

@[simp] theorem roomID_setRoomID (c : ClientPtr) (rid : String) :
    ((h.setRoomID c rid).client c).roomID = rid := by
  simp [setRoomID, setClient]

theorem roomID_setRoomID_of_ne {c q : ClientPtr} (hq : q ≠ c) (rid : String) :
    ((h.setRoomID c rid).client q).roomID = (h.client q).roomID := by
  simp [setRoomID, setClient, hq]

@[simp] theorem id_updateNick (c q : ClientPtr) (env : Envelope) :
    ((h.updateNick c env).client q).id = (h.client q).id := by
  unfold updateNick
  split
  · by_cases hq : q = c <;> simp [setClient, hq]
  · rfl

@[simp] theorem roomID_updateNick (c q : ClientPtr) (env : Envelope) :
    ((h.updateNick c env).client q).roomID = (h.client q).roomID := by
  unfold updateNick
  split
  · by_cases hq : q = c <;> simp [setClient, hq]
  · rfl

theorem nick_updateNick_of_ne {c q : ClientPtr} (hq : q ≠ c) (env : Envelope) :
    ((h.updateNick c env).client q).nick = (h.client q).nick := by
  unfold updateNick
  split
  · simp [setClient, hq]
  · rfl

/-- `updateNick` writes nothing but nicks. -/
theorem updateNick_eq (c : ClientPtr) (env : Envelope) :
    h.updateNick c env = { h with client := (h.updateNick c env).client } := by
  unfold updateNick
  split <;> rfl

@[simp] theorem keyed_setRoomID {c : ClientPtr} {rid : String} {m : GoMap ClientPtr} :
    (h.setRoomID c rid).Keyed m ↔ h.Keyed m := by
  simp [Keyed]

/-- **Everything `leaveRoomLocked` can do**, and when: nothing, clear the record, close the room, or
leave a room behind with a host. -/
theorem leaveRoomLocked_cases {c : ClientPtr}
    (hm : ∀ rid r, h.rooms.get rid = some r → h.Keyed (h.room r).peers) :
    ((h.client c).roomID = "" ∧ h.leaveRoomLocked w c = h) ∨
    ((h.client c).roomID ≠ "" ∧ h.rooms.get (h.client c).roomID = none ∧
      h.leaveRoomLocked w c = h.setRoomID c "") ∨
    (∃ r, (h.client c).roomID ≠ "" ∧ h.rooms.get (h.client c).roomID = some r ∧
      ((h.room r).peers.delete (h.client c).id).len = 0 ∧
      h.leaveRoomLocked w c =
        { h.setRoomID c "" with
          rooms := h.rooms.delete (h.room r).id
          room := Function.update h.room r
            { h.room r with peers := (h.room r).peers.delete (h.client c).id } }) ∨
    (∃ r room', (h.client c).roomID ≠ "" ∧ h.rooms.get (h.client c).roomID = some r ∧
      ((h.room r).peers.delete (h.client c).id).len ≠ 0 ∧
      h.LeftBehind c (h.room r) room' ∧
      h.leaveRoomLocked w c =
        { h.setRoomID c "" with room := Function.update h.room r room' }.deliver
          (h.toRoom room'.peers (h.peerLeft w c (h.room r).id))) := by
  by_cases hnone : (h.client c).roomID = ""
  · exact Or.inl ⟨hnone, by rw [leaveRoomLocked, if_pos hnone]⟩
  · refine Or.inr ?_
    rcases hfound : h.rooms.get (h.client c).roomID with _ | r
    · refine Or.inl ⟨hnone, rfl, ?_⟩
      simp only [leaveRoomLocked, if_neg hnone, hfound]
    · have hkeyed : (h.setRoomID c "").Keyed ((h.setRoomID c "").room r).peers := by
        simpa using hm _ _ hfound
      have hleave : h.leaveRoomLocked w c = (h.setRoomID c "").departRoom w c r := by
        simp only [leaveRoomLocked, if_neg hnone, hfound]
      by_cases hlen : ((h.room r).peers.delete (h.client c).id).len = 0
      · refine Or.inr (Or.inl ⟨r, hnone, rfl, hlen, ?_⟩)
        rw [hleave, departRoom_of_last (by simpa using hlen)]
        simp [setRoomID, setClient]
      · obtain ⟨room', hleft, heq⟩ := departRoom_of_others (w := w) (c := c) hkeyed
          (by simpa using hlen)
        refine Or.inr (Or.inr ⟨r, room', hnone, rfl, hlen, ?_, ?_⟩)
        · obtain ⟨hid, hname, hlocked, hcreated, hpeers, hhost⟩ := hleft
          exact ⟨hid, hname, hlocked, hcreated, by simpa using hpeers, by simpa using hhost⟩
        · rw [hleave, heq]
          simp [deliver, toRoom, Hears, peerLeft]

/-- **Everything `removeClient` can do**, and when. It differs from leaving in that the client is
unregistered and keeps its record. -/
theorem removeClient_cases {c : ClientPtr}
    (hm : ∀ rid r, h.rooms.get rid = some r → h.Keyed (h.room r).peers) :
    ((h.client c).roomID = "" ∧
      h.removeClient w c = { h with clients := h.clients.delete (h.client c).id }) ∨
    ((h.client c).roomID ≠ "" ∧ h.rooms.get (h.client c).roomID = none ∧
      h.removeClient w c = { h with clients := h.clients.delete (h.client c).id }) ∨
    (∃ r, (h.client c).roomID ≠ "" ∧ h.rooms.get (h.client c).roomID = some r ∧
      ((h.room r).peers.delete (h.client c).id).len = 0 ∧
      h.removeClient w c = broadcastRoomsLocked w
        { h with
          clients := h.clients.delete (h.client c).id
          rooms := h.rooms.delete (h.room r).id
          room := Function.update h.room r
            { h.room r with peers := (h.room r).peers.delete (h.client c).id } }) ∨
    (∃ r room', (h.client c).roomID ≠ "" ∧ h.rooms.get (h.client c).roomID = some r ∧
      ((h.room r).peers.delete (h.client c).id).len ≠ 0 ∧
      h.LeftBehind c (h.room r) room' ∧
      h.removeClient w c = broadcastRoomsLocked w
        ({ h with
          clients := h.clients.delete (h.client c).id
          room := Function.update h.room r room' }.deliver
          (h.toRoom room'.peers (h.peerLeft w c (h.room r).id)))) := by
  by_cases hnone : (h.client c).roomID = ""
  · exact Or.inl ⟨hnone, by simp only [removeClient, if_pos hnone]⟩
  · refine Or.inr ?_
    rcases hfound : h.rooms.get (h.client c).roomID with _ | r
    · refine Or.inl ⟨hnone, rfl, ?_⟩
      simp only [removeClient, if_neg hnone, hfound]
    · have hremove : h.removeClient w c =
          (departRoom w { h with clients := h.clients.delete (h.client c).id } c
            r).broadcastRoomsLocked w := by
        simp only [removeClient, if_neg hnone, hfound]
      rw [hremove]
      by_cases hlen : ((h.room r).peers.delete (h.client c).id).len = 0
      · refine Or.inr (Or.inl ⟨r, hnone, rfl, hlen, ?_⟩)
        rw [departRoom_of_last (h := { h with clients := h.clients.delete (h.client c).id }) hlen]
      · obtain ⟨room', hl, heq⟩ := departRoom_of_others (w := w) (c := c) (r := r)
          (h := { h with clients := h.clients.delete (h.client c).id }) (hm _ _ hfound) hlen
        have hl' : h.LeftBehind c (h.room r) room' :=
          ⟨hl.id, hl.name, hl.locked, hl.createdAt, hl.peers, hl.host⟩
        refine Or.inr (Or.inr ⟨r, room', hnone, rfl, hlen, hl', ?_⟩)
        rw [heq]
        rfl

/-! ### Entering a room -/

/-- The guard around the implicit leave changes nothing. -/
theorem leave_if (w : Ambient) (h : Hub) (c : ClientPtr) :
    (if (h.client c).roomID ≠ "" then h.leaveRoomLocked w c else h) = h.leaveRoomLocked w c := by
  split
  · rfl
  · next hnone => rw [leaveRoomLocked, if_pos (not_not.mp hnone)]

/-- The hub as `createRoom` and `joinRoom` have it after the implicit leave. -/
def vacated (w : Ambient) (h : Hub) (c : ClientPtr) (env : Envelope) : Hub :=
  (h.leaveRoomLocked w c).updateNick c env

/-- `c` is in a room that did not exist before, at a fresh address, and is entered in the table of
rooms. -/
def founded (h : Hub) (c : ClientPtr) (room : Room) : Hub :=
  { h.setRoomID c room.id with
    room := Function.update h.room h.nextRoom room
    rooms := h.rooms.put room.id h.nextRoom
    nextRoom := h.nextRoom + 1 }

/-- `c` is in the room at `r`, whether or not that room is still in `h.rooms`. -/
def admitted (h : Hub) (c : ClientPtr) (r : RoomPtr) : Hub :=
  { h.setRoomID c (h.room r).id with
    room := Function.update h.room r
      { h.room r with peers := (h.room r).peers.put (h.client c).id c } }

/-- The envelope that confirms `createRoom`. -/
def roomCreated (w : Ambient) (room : Room) : Envelope :=
  { type := "room_created", roomID := room.id, room := some (room.snapshot w true),
    sentAt := w.now }

/-- The envelope that confirms `joinRoom`. -/
def joinedRoom (w : Ambient) (room : Room) : Envelope :=
  { type := "joined_room", roomID := room.id, room := some (room.snapshot w true),
    sentAt := w.now }

/-- The envelope that tells a room `c` has joined. -/
def peerJoined (w : Ambient) (h : Hub) (c : ClientPtr) (rid : String) (env : Envelope) : Envelope :=
  { type := "peer_joined"
    roomID := rid
    peerID := (h.client c).id
    nick := (h.client c).nick
    payload := env.payload
    sentAt := w.now }

theorem createRoom_eq (w : Ambient) (h : Hub) (c : ClientPtr) (env : Envelope) :
    h.createRoom w c env =
      (((h.vacated w c env).founded c ((h.vacated w c env).newRoom w c env)).enqueue c
        (roomCreated w ((h.vacated w c env).newRoom w c env))).broadcastRoomsLocked w := by
  rw [createRoom, leave_if]
  rfl

/-- A join that is answered with `joined_room`. -/
theorem joinRoom_eq {c : ClientPtr} {env : Envelope} {r : RoomPtr}
    (hr : h.rooms.get env.roomID = some r) (hlen : (h.room r).peers.len < maxPeersPerRoom) :
    h.joinRoom w c env =
      ((((h.vacated w c env).admitted c r).enqueue c
        (joinedRoom w (((h.vacated w c env).admitted c r).room r))).broadcastLocked w
        (peerJoined w ((h.vacated w c env).admitted c r) c
          (((h.vacated w c env).admitted c r).room r).id env) r).broadcastRoomsLocked w := by
  simp only [joinRoom, hr, if_neg (Nat.not_le.mpr hlen), leave_if]
  simp only [setRoom, Function.update_self]
  rfl

end Hub

end Coordinator

end TarkovVoice

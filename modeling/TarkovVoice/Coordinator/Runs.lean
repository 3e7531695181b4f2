import TarkovVoice.Coordinator.Membership

/-!
# Runs of the hub

What one message does, said once, and what therefore holds after any number of them.

`Handled` lists everything `handle` can do, as one change of the tables followed by deliveries.
Every later result about messages is a case analysis over it, and none of them looks at the
source of an operation again.

## Main results

* `Hub.handle_handled` — the list is complete
* `Hub.Inv.handled`, `Hub.Inv.after`, `Hub.inv_of_reachable` — the invariant over runs
* `Hub.rooms_in_order` — the rooms of every reachable hub
-/

namespace TarkovVoice

namespace Coordinator

namespace Hub

variable {w : Ambient} {h : Hub} {c : ClientPtr} {env : Envelope}

/-! ### One message -/

/-- The hub right after `createRoom` has put `c` into its new room. -/
def created (w : Ambient) (h : Hub) (c : ClientPtr) (env : Envelope) : Hub :=
  (h.vacated w c env).founded c ((h.vacated w c env).newRoom w c env)

/-- The hub right after `joinRoom` has put `c` into the room at `r`. -/
def joined (w : Ambient) (h : Hub) (c : ClientPtr) (env : Envelope) (r : RoomPtr) : Hub :=
  (h.vacated w c env).admitted c r

/-- An error for the sender. -/
def errorEnvelope (w : Ambient) (error : String) : Envelope :=
  { type := "error", error := error, sentAt := w.now }

/-- The answer to `hello`. -/
def helloEnvelope (w : Ambient) (h : Hub) (c : ClientPtr) : Envelope :=
  { type := "hello", peerID := (h.client c).id, sentAt := w.now }

/-- The three types `routeToPeer` forwards. -/
def IsIce (type : String) : Prop :=
  type = "ice_offer" ∨ type = "ice_answer" ∨ type = "ice_candidate"

/-- The two types `broadcastPeerStatus` forwards. -/
def IsStatus (type : String) : Prop := type = "mute_status" ∨ type = "peer_status"

instance (type : String) : Decidable (IsIce type) := inferInstanceAs (Decidable (_ ∨ _))

instance (type : String) : Decidable (IsStatus type) := inferInstanceAs (Decidable (_ ∨ _))

/-- `routeToPeer` finds `target` and lets the envelope through. -/
def Routes (h : Hub) (c : ClientPtr) (env : Envelope) (target : ClientPtr) : Prop :=
  h.clients.get env.targetPeerID = some target ∧ (h.client c).roomID ≠ "" ∧
    (h.client target).roomID = (h.client c).roomID

/-- **Everything `handle` can do**, one constructor for each way through its cases: what the message
must be like, and the hub that comes out, with the mail as a function of who gets it. -/
inductive Handled (w : Ambient) (h : Hub) (c : ClientPtr) (env : Envelope) : Hub → Prop
  | create : env.type = "create_room" → Handled w h c env
      (((h.created w c env).deliver
        (toOne c (roomCreated w ((h.vacated w c env).newRoom w c env)))).deliver
        ((h.created w c env).toAll w))
  | join {r : RoomPtr} : env.type = "join_room" → h.rooms.get env.roomID = some r →
      (h.room r).peers.len < maxPeersPerRoom → Handled w h c env
      ((((h.joined w c env r).deliver
        (toOne c (joinedRoom w ((h.joined w c env r).room r)))).deliver
        ((h.joined w c env r).toRoom ((h.joined w c env r).room r).peers
          (peerJoined w (h.joined w c env r) c ((h.joined w c env r).room r).id env))).deliver
        ((h.joined w c env r).toAll w))
  | leave : env.type = "leave_room" → Handled w h c env
      ((h.leaveRoomLocked w c).deliver ((h.leaveRoomLocked w c).toAll w))
  | hello : env.type = "hello" → Handled w h c env
      (((h.updateNick c env).deliver (toOne c (helloEnvelope w (h.updateNick c env) c))).deliver
        (toOne c ((h.updateNick c env).roomsEnvelope w)))
  | listRooms : env.type = "list_rooms" → Handled w h c env
      (h.deliver (toOne c (h.roomsEnvelope w)))
  | route {target : ClientPtr} : IsIce env.type → h.Routes c env target → Handled w h c env
      (h.deliver (toOne target (h.stamp w c env)))
  | unavailable : IsIce env.type → (∀ target, ¬ h.Routes c env target) → Handled w h c env
      (h.deliver (toOne c (errorEnvelope w "target peer unavailable")))
  | status {r : RoomPtr} : IsStatus env.type → h.rooms.get (h.client c).roomID = some r →
      Handled w h c env (h.deliver (h.toRoom (h.room r).peers (h.stamp w c env)))
  | voice {r : RoomPtr} : env.type = "voice_frame" → h.rooms.get (h.client c).roomID = some r →
      Handled w h c env (h.deliver (h.toRoom (h.room r).peers
        { h.stamp w c env with type := "voice_frame", targetPeerID := "" }))
  | silent : IsStatus env.type ∨ env.type = "voice_frame" → Handled w h c env h
  | reply {answer : Envelope} : ¬ IsIce env.type → ¬ IsStatus env.type →
      env.type ≠ "voice_frame" → answer.type = "heartbeat_ack" ∨ answer.type = "error" →
      Handled w h c env (h.deliver (toOne c answer))

theorem handled_createRoom (hi : h.Inv) (hc : h.Registered c) (htype : env.type = "create_room") :
    Handled w h c env (h.createRoom w c env) := by
  have hkeyed : (h.created w c env).Keyed (h.created w c env).clients := fun k p hp =>
    (id_setRoomID c p _).trans ((hi.vacated (w := w) hc env).1.clients_keyed hp)
  rw [createRoom_eq, enqueue_eq]
  exact (broadcastRoomsLocked_eq (h := (h.created w c env).deliver _) hkeyed).symm ▸ .create htype

/-- An answered join, as deliveries. -/
theorem Inv.joinRoom_delivers (hi : h.Inv) (hc : h.Registered c) {r : RoomPtr}
    (hr : h.rooms.get env.roomID = some r) (hlen : (h.room r).peers.len < maxPeersPerRoom) :
    h.joinRoom w c env =
      (((h.joined w c env r).deliver
        (toOne c (joinedRoom w ((h.joined w c env r).room r)))).deliver
        ((h.joined w c env r).toRoom ((h.joined w c env r).room r).peers
          (peerJoined w (h.joined w c env r) c ((h.joined w c env r).room r).id env))).deliver
        ((h.joined w c env r).toAll w) := by
  have hroom := hi.admitted_keyed (w := w) hc env hr
  have hclients := (hi.admitted (w := w) hc hr hlen).clients_keyed
  have hcast : ((h.joined w c env r).deliver
      (toOne c (joinedRoom w ((h.joined w c env r).room r)))).broadcastLocked w
        (peerJoined w (h.joined w c env r) c ((h.joined w c env r).room r).id env) r = _ :=
    broadcastLocked_eq hroom
  rw [joined] at hcast
  rw [joinRoom_eq hr hlen, enqueue_eq, hcast]
  exact broadcastRoomsLocked_eq (h := Hub.deliver (Hub.deliver (h.joined w c env r) _) _) hclients

theorem handled_joinRoom (hi : h.Inv) (hc : h.Registered c) (htype : env.type = "join_room") :
    Handled w h c env (h.joinRoom w c env) := by
  have hrest : ¬ IsIce env.type ∧ ¬ IsStatus env.type ∧ env.type ≠ "voice_frame" := by
    rw [htype]
    decide
  obtain ⟨hice, hstatus, hvoice⟩ := hrest
  rcases hr : h.rooms.get env.roomID with _ | r
  · simp only [joinRoom, hr, enqueue_eq]
    exact .reply hice hstatus hvoice (Or.inr rfl)
  · by_cases hlen : (h.room r).peers.len < maxPeersPerRoom
    · rw [hi.joinRoom_delivers hc hr hlen]
      exact .join htype hr hlen
    · simp only [joinRoom, hr, if_pos (Nat.not_lt.mp hlen), enqueue_eq]
      exact .reply hice hstatus hvoice (Or.inr rfl)

/-- `routeToPeer` forwards one copy or answers with one error. -/
theorem routeToPeer_cases (w : Ambient) (h : Hub) (c : ClientPtr) (env : Envelope) :
    (∃ target, h.Routes c env target ∧
      h.routeToPeer w c env = h.deliver (toOne target (h.stamp w c env))) ∨
    ((∀ target, ¬ h.Routes c env target) ∧
      h.routeToPeer w c env =
        h.deliver (toOne c (errorEnvelope w "target peer unavailable"))) := by
  rcases htarget : h.clients.get env.targetPeerID with _ | target
  · simp only [routeToPeer, htarget, enqueue_eq]
    refine Or.inr ⟨fun target hroutes => ?_, rfl⟩
    exact absurd (hroutes.1.symm.trans htarget) (by simp)
  · by_cases hroom : (h.client c).roomID = "" ∨ (h.client target).roomID ≠ (h.client c).roomID
    · simp only [routeToPeer, htarget, if_pos hroom, enqueue_eq]
      refine Or.inr ⟨fun target' hroutes => ?_, rfl⟩
      obtain rfl := Option.some.inj (htarget.symm.trans hroutes.1)
      exact hroom.elim hroutes.2.1 fun hne => hne hroutes.2.2
    · simp only [routeToPeer, htarget, if_neg hroom, enqueue_eq]
      obtain ⟨hnamed, hsame⟩ := not_or.mp hroom
      exact Or.inl ⟨target, ⟨htarget, hnamed, not_not.mp hsame⟩, rfl⟩

theorem handled_routeToPeer (htype : IsIce env.type) :
    Handled w h c env (h.routeToPeer w c env) := by
  rcases routeToPeer_cases w h c env with ⟨target, hroutes, heq⟩ | ⟨hnone, heq⟩ <;> rw [heq]
  · exact .route htype hroutes
  · exact .unavailable htype hnone

theorem handled_broadcastPeerStatus (hi : h.Inv) (htype : IsStatus env.type) :
    Handled w h c env (h.broadcastPeerStatus w c env) := by
  rcases hr : h.rooms.get (h.client c).roomID with _ | r
  · simp only [broadcastPeerStatus, hr]
    exact .silent (Or.inl htype)
  · simp only [broadcastPeerStatus, hr]
    rw [broadcastLocked_eq (hi.room_keyed hr)]
    exact .status htype hr

theorem handled_broadcastVoiceFrame (hi : h.Inv) (htype : env.type = "voice_frame") :
    Handled w h c env (h.broadcastVoiceFrame w c env) := by
  rcases hr : h.rooms.get (h.client c).roomID with _ | r
  · simp only [broadcastVoiceFrame, hr]
    exact .silent (Or.inr htype)
  · simp only [broadcastVoiceFrame, hr]
    split
    · exact .silent (Or.inr htype)
    · rw [broadcastLocked_eq (hi.room_keyed hr)]
      exact .voice htype hr

/-- **The list is complete.** Every message that is handled does one of the things that `Handled`
lists. -/
theorem handle_handled (hi : h.Inv) (hc : h.Registered c) (env : Envelope) :
    Handled w h c env (h.handle w c env) := by
  unfold Hub.handle
  split
  case h_1 htype =>
    simp only [sendRooms, enqueue_eq]
    exact .hello htype
  case h_2 htype =>
    rw [sendRooms, enqueue_eq]
    exact .listRooms htype
  case h_3 htype => exact handled_createRoom hi hc htype
  case h_4 htype => exact handled_joinRoom hi hc htype
  case h_5 htype =>
    have hkeyed := (hi.leaveRoomLocked (w := w) hc).1.clients_keyed
    rw [leaveRoom, broadcastRoomsLocked_eq hkeyed]
    exact .leave htype
  case h_6 htype => exact handled_routeToPeer (Or.inl htype)
  case h_7 htype => exact handled_routeToPeer (Or.inr (Or.inl htype))
  case h_8 htype => exact handled_routeToPeer (Or.inr (Or.inr htype))
  case h_9 htype => exact handled_broadcastPeerStatus hi (Or.inl htype)
  case h_10 htype => exact handled_broadcastPeerStatus hi (Or.inr htype)
  case h_11 htype => exact handled_broadcastVoiceFrame hi htype
  case h_12 htype =>
    rw [enqueue_eq]
    refine .reply ?_ ?_ ?_ (Or.inl rfl) <;> rw [htype] <;> decide
  case h_13 hhello hlist hcreate hjoin hleave hoffer hanswer hcandidate hmute hpeer hvoice hbeat =>
    rw [enqueue_eq]
    refine .reply ?_ ?_ hvoice (Or.inr rfl)
    · rintro (h | h | h)
      · exact hoffer h
      · exact hanswer h
      · exact hcandidate h
    · rintro (h | h)
      · exact hmute h
      · exact hpeer h

/-! ### The invariant over runs -/

theorem Inv.deliver (hi : h.Inv) (mail : Mail) : (h.deliver mail).Inv := hi.send _

theorem Inv.handled (hi : h.Inv) (hc : h.Registered c)
    (hfresh : ∀ r < h.nextRoom, (h.room r).id ≠ "room_" ++ w.randomHex) {h' : Hub}
    (hh : Handled w h c env h') : h'.Inv := by
  cases hh with
  | create => exact ((hi.founded hc env hfresh).deliver _).deliver _
  | join _ hr hlen => exact (((hi.admitted hc hr hlen).deliver _).deliver _).deliver _
  | leave => exact (hi.leaveRoomLocked hc).1.deliver _
  | hello => exact ((hi.updateNick c env).deliver _).deliver _
  | silent => exact hi
  | listRooms | route | unavailable | status | voice | reply => exact hi.deliver _

theorem Inv.after (hi : h.Inv) {e : Event} (he : h.Enabled e) : (h.after e).Inv := by
  cases e with
  | addClient id nick cap => exact hi.addClient he
  | handle c env w => exact hi.handled he.1 he.2 (handle_handled hi he.1 env)
  | invalidJson c w => exact hi.enqueue c _
  | removeClient c w => exact hi.removeClient he
  | writeLoop c => exact hi.send _

theorem inv_of_reachable (hr : machine.Reachable h) : h.Inv := by
  refine hr.invariant ?_ ?_
  · rintro _ rfl
    exact inv_newHub
  · rintro h e _ hi ⟨he, rfl⟩
    exact hi.after he

/-! ### A run -/

instance : Decidable (h.Registered c) := inferInstanceAs (Decidable (_ = _))

/-- One client is connected. -/
def connected : Hub := newHub.after (.addClient "peer_1" "Ana" 64)

/-- It has created a room. -/
def hosting : Hub :=
  connected.after (.handle 0 { type := "create_room" } (Ambient.plain 10 "a1"))

theorem reachable_after (hreach : machine.Reachable h) {e : Event} (he : h.Enabled e) :
    machine.Reachable (h.after e) :=
  hreach.step ⟨he, rfl⟩

/-- The run so far. -/
theorem hosting_run : machine.Run
    [(newHub, .addClient "peer_1" "Ana" 64),
      (connected, .handle 0 { type := "create_room" } (Ambient.plain 10 "a1"))] hosting := by
  have hconnected : machine.Run [(newHub, .addClient "peer_1" "Ana" 64)] connected :=
    Machine.Run.snoc (t := []) (.start rfl) ⟨fun _ hc => absurd hc (Nat.not_lt_zero _), rfl⟩
  exact hconnected.snoc ⟨And.intro (by decide) (by decide), rfl⟩

theorem hosting_reachable : machine.Reachable hosting := ⟨_, hosting_run⟩

/-- A second client has joined the room of `hosting`. -/
def shared : Hub :=
  (hosting.after (.addClient "peer_2" "Bo" 64)).after
    (.handle 1 { type := "join_room", roomID := "room_a1" } (Ambient.plain 20 "a2"))

theorem shared_reachable : machine.Reachable shared := by
  have hconnected : machine.Reachable (hosting.after (.addClient "peer_2" "Bo" 64)) :=
    reachable_after hosting_reachable (by decide : ∀ c < 1, (hosting.client c).id ≠ "peer_2")
  exact reachable_after hconnected (And.intro (by decide) (by decide))

/-- A third client has created a room of its own. -/
def crowded : Hub :=
  (shared.after (.addClient "peer_3" "Cy" 64)).after
    (.handle 2 { type := "create_room" } (Ambient.plain 30 "b2"))

theorem crowded_reachable : machine.Reachable crowded := by
  have hconnected : machine.Reachable (shared.after (.addClient "peer_3" "Cy" 64)) :=
    reachable_after shared_reachable (by decide : ∀ c < 2, (shared.client c).id ≠ "peer_3")
  exact reachable_after hconnected (And.intro (by decide) (by decide))

/-! ### The rooms -/

/-- **The rooms of every reachable hub are in order.** Each is stored under its own id, has
between one and five members and its host among them; its members are registered and say they
are in it; nobody is a member of two rooms; and without clients there are no rooms. -/
theorem rooms_in_order (hreach : machine.Reachable h) :
    (∀ rid r, h.rooms.get rid = some r →
      (h.room r).id = rid ∧
      1 ≤ (h.room r).peers.len ∧ (h.room r).peers.len ≤ maxPeersPerRoom ∧
      (h.room r).hostID ∈ (h.room r).peers.keys ∧
      ∀ k p, (h.room r).peers.get k = some p →
        (h.client p).id = k ∧ h.clients.get k = some p ∧ (h.client p).roomID = rid) ∧
    (∀ rid rid' r r' k k' p, h.rooms.get rid = some r → h.rooms.get rid' = some r' →
      (h.room r).peers.get k = some p → (h.room r').peers.get k' = some p → rid = rid') ∧
    (h.clients.len = 0 → h.rooms.len = 0) := by
  have hi := inv_of_reachable hreach
  refine ⟨fun rid r hr => ?_, fun rid rid' r r' k k' p hr hr' hp hp' => ?_, fun hnone => ?_⟩
  · have hok := hi.rooms_ok hr
    obtain ⟨host, hhost⟩ := hok.host
    refine ⟨hok.id, ?_, hok.peers_le, FMap.mem_keys.mpr ⟨host, hhost⟩, fun k p hp => ?_⟩
    · by_contra hlen
      have hempty := FMap.len_eq_zero_iff.mp (by omega : (h.room r).peers.len = 0)
      rw [hempty] at hhost
      exact absurd hhost (by simp)
    · obtain ⟨hget, hroom⟩ := (hok.peers_iff k p).mp hp
      exact ⟨hi.clients_keyed hget, hget, hroom⟩
  · have hin := ((hi.rooms_ok hr).peers_iff k p).mp hp
    have hin' := ((hi.rooms_ok hr').peers_iff k' p).mp hp'
    exact hin.2.symm.trans hin'.2
  · refine FMap.len_eq_zero_iff.mpr fun rid => ?_
    rcases hr : h.rooms.get rid with _ | r
    · rfl
    · obtain ⟨host, hhost⟩ := (hi.rooms_ok hr).host
      have hget := (((hi.rooms_ok hr).peers_iff _ _).mp hhost).1
      rw [FMap.len_eq_zero_iff.mp hnone] at hget
      exact absurd hget (by simp)

/-- Two members and their host in the one room, and nobody of them in the other. -/
theorem rooms_in_order_crowded :
    (crowded.room 0).peers.keys = ["peer_2", "peer_1"] ∧
      (crowded.room 0).hostID ∈ (crowded.room 0).peers.keys ∧
      (crowded.client 1).roomID = "room_a1" ∧ (crowded.client 2).roomID = "room_b2" ∧
      ∀ k, (crowded.room 1).peers.get k ≠ some 1 := by
  obtain ⟨hrooms, honce, -⟩ := rooms_in_order crowded_reachable
  obtain ⟨-, -, -, hhost, hfirst⟩ := hrooms "room_a1" 0 (by decide)
  obtain ⟨-, -, -, -, hsecond⟩ := hrooms "room_b2" 1 (by decide)
  have hguest : (crowded.room 0).peers.get "peer_2" = some 1 := by decide
  refine ⟨by decide, hhost, (hfirst "peer_2" 1 hguest).2.2, (hsecond "peer_3" 2 (by decide)).2.2,
    fun k hk => ?_⟩
  have hsame := honce "room_a1" "room_b2" 0 1 "peer_2" k 1 (by decide) (by decide) hguest hk
  exact absurd hsame (by decide)

end Hub

end Coordinator

end TarkovVoice

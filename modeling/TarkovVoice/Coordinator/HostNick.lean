import TarkovVoice.Coordinator.Runs

/-!
# The nick a room advertises

A room keeps a copy of its host's nick. `createRoom` and `promoteRoomHost` make the copy;
`createRoom`, `joinRoom` and `hello` write the nick it is a copy of. The first two of these write
it for a client that has just left its room and hosts nothing, so the copy stays true. `hello`
writes it for a client that may be sitting in the room it hosts, and leaves the copy alone.

## Main definitions

* `Hub.HostShown`, `Hub.HostsShown`, `Hub.RenamesHost`

## Main results

* `Hub.hostsShown_after_iff` — what one step does to `HostsShown`
* `Hub.hosts_shown_iff` — when a run keeps it
* `Hub.renamed_not_shown` — a run that does not
-/

namespace TarkovVoice

namespace Coordinator

namespace Hub

variable {w : Ambient} {h h' : Hub} {c : ClientPtr} {r : RoomPtr} {env : Envelope}

/-- The member of the room at `r` whose id is `HostID` has the nick in `HostNick`. -/
def HostShown (h : Hub) (r : RoomPtr) : Prop :=
  ∃ p, (h.room r).peers.get (h.room r).hostID = some p ∧
    (h.client p).nick = (h.room r).hostNick

/-- Every room in `h.rooms` advertises its host by the nick that the host's own record has. -/
def HostsShown (h : Hub) : Prop := ∀ rid r, h.rooms.get rid = some r → h.HostShown r

@[simp] theorem hostsShown_deliver (mail : Mail) : (h.deliver mail).HostsShown ↔ h.HostsShown :=
  Iff.rfl

/-- A client gives itself another nick by `hello` while it hosts the room it is in. -/
def RenamesHost (h : Hub) : Event → Prop
  | .handle c env _ => env.type = "hello" ∧ env.nick ≠ "" ∧ env.nick ≠ (h.client c).nick ∧
      ∃ r, h.rooms.get (h.client c).roomID = some r ∧ (h.room r).hostID = (h.client c).id
  | _ => False

/-! ### Nicks -/

theorem nick_updateNick_self (hne : env.nick ≠ "") :
    ((h.updateNick c env).client c).nick = env.nick := by
  simp [updateNick, hne, setClient]

/-- An empty nick, or the one the client has, changes nothing. -/
theorem nick_updateNick_of_same (hsame : env.nick = "" ∨ env.nick = (h.client c).nick)
    (q : ClientPtr) : ((h.updateNick c env).client q).nick = (h.client q).nick := by
  by_cases hq : q = c
  · subst hq
    by_cases hne : env.nick = ""
    · rw [updateNick, if_neg (not_not.mpr hne)]
    · rw [nick_updateNick_self hne]
      exact hsame.resolve_left hne
  · exact nick_updateNick_of_ne hq env

/-- A room keeps advertising its host when neither it nor the host's nick changes. -/
theorem HostShown.frame (hs : h.HostShown r) (hroom : h'.room r = h.room r)
    (hnick : ∀ p, (h.client p).id = (h.room r).hostID →
      (h.room r).peers.get (h.room r).hostID = some p → (h'.client p).nick = (h.client p).nick)
    (hkeyed : h.Keyed (h.room r).peers) : h'.HostShown r := by
  obtain ⟨p, hp, hshown⟩ := hs
  refine ⟨p, by rw [hroom, hp], ?_⟩
  rw [hnick p (hkeyed hp) hp, hroom, hshown]

/-- A client that hosts no room may rename itself. -/
theorem Inv.hostsShown_updateNick (hi : h.Inv) (hs : h.HostsShown)
    (hguest : ∀ rid r, h.rooms.get rid = some r → (h.room r).hostID ≠ (h.client c).id) :
    (h.updateNick c env).HostsShown := by
  rw [updateNick_eq]
  intro rid r hr
  refine (hs rid r hr).frame rfl (fun p hid _ => ?_) (hi.room_keyed hr)
  refine nick_updateNick_of_ne ?_ env
  rintro rfl
  exact hguest rid r hr hid.symm

/-- A host is a member, so the room it hosts is the one it says it is in. -/
theorem Inv.roomID_of_hostID (hi : h.Inv) (hc : h.Registered c) {rid : String}
    (hr : h.rooms.get rid = some r) (hid : (h.room r).hostID = (h.client c).id) :
    (h.client c).roomID = rid := by
  have hok := hi.rooms_ok hr
  obtain ⟨p, hp⟩ := hok.host
  obtain ⟨hget, hprid⟩ := (hok.peers_iff _ _).mp hp
  obtain rfl := hc.eq_of_id hget hid
  exact hprid

/-- A client in no room hosts none. -/
theorem Inv.hostID_ne (hi : h.Inv) (hc : h.Registered c) (hnone : (h.client c).roomID = "")
    {rid : String} (hr : h.rooms.get rid = some r) : (h.room r).hostID ≠ (h.client c).id :=
  fun hid => (hi.rooms_ok hr).named ((hi.roomID_of_hostID hc hr hid).symm.trans hnone)

/-! ### Leaving and entering -/

/-- A room that `c` left behind advertises the host it has now. -/
theorem HostShown.leftBehind (hs : h.HostShown r) (hl : h.LeftBehind c (h.room r) (h'.room r))
    (hnick : ∀ p, (h'.client p).nick = (h.client p).nick) : h'.HostShown r := by
  rcases hl.host with ⟨hne, hid, hcopy⟩ | ⟨-, next, hnext, -, hid, hcopy⟩
  · obtain ⟨p, hp, hshown⟩ := hs
    refine ⟨p, ?_, by rw [hnick, hcopy, hshown]⟩
    rw [hl.peers, hid, FMap.get_delete_of_ne _ hne, hp]
  · exact ⟨next, by rw [hid, hnext], by rw [hnick, hcopy]⟩

/-- What leaving does to the rooms that are still there afterwards. -/
theorem Inv.hostsShown_of_departed (hi : h.Inv) (hs : h.HostsShown)
    (hnick : ∀ p, (h'.client p).nick = (h.client p).nick)
    (hrooms : ∀ {rid r}, h'.rooms.get rid = some r → h.rooms.get rid = some r ∧
      (h'.room r = h.room r ∨ h.LeftBehind c (h.room r) (h'.room r))) : h'.HostsShown := by
  intro rid r hr'
  obtain ⟨hr, hsame | hl⟩ := hrooms hr'
  · exact (hs rid r hr).frame hsame (fun p _ _ => hnick p) (hi.room_keyed hr)
  · exact (hs rid r hr).leftBehind hl hnick

/-- Deleting a room and rewriting it leaves the others as they are. -/
theorem Inv.departed_of_delete (hi : h.Inv) {rid rid' : String} {r' : RoomPtr} {room' : Room}
    (hr : h.rooms.get rid = some r)
    (hr' : (h.rooms.delete (h.room r).id).get rid' = some r') :
    h.rooms.get rid' = some r' ∧ (Function.update h.room r room' r' = h.room r' ∨
      h.LeftBehind c (h.room r') (Function.update h.room r room' r')) := by
  rw [(hi.rooms_ok hr).id] at hr'
  obtain ⟨hne, hget⟩ := FMap.get_of_get_delete hr'
  refine ⟨hget, Or.inl (Function.update_of_ne ?_ _ _)⟩
  rintro rfl
  exact hne (hi.rooms_inj hget hr)

theorem departed_of_update {room' : Room} (hl : h.LeftBehind c (h.room r) room') (r' : RoomPtr) :
    Function.update h.room r room' r' = h.room r' ∨
      h.LeftBehind c (h.room r') (Function.update h.room r room' r') := by
  by_cases hptr : r' = r
  · subst hptr
    rw [Function.update_self]
    exact Or.inr hl
  · exact Or.inl (Function.update_of_ne hptr _ _)

theorem Inv.hostsShown_leaveRoomLocked (hi : h.Inv) (hs : h.HostsShown) :
    (h.leaveRoomLocked w c).HostsShown := by
  have hnick := fun p => nick_setRoomID (h := h) c p ""
  rcases leaveRoomLocked_cases (w := w) (c := c) (fun rid r hr => hi.room_keyed hr) with
    ⟨-, heq⟩ | ⟨-, -, heq⟩ | ⟨r, -, hr, -, heq⟩ | ⟨r, room', -, hr, -, hl, heq⟩ <;>
    rw [heq]
  · exact hs
  · exact hi.hostsShown_of_departed (c := c) hs hnick fun hr' => ⟨hr', Or.inl rfl⟩
  · exact hi.hostsShown_of_departed (c := c) hs hnick fun hr' => hi.departed_of_delete hr hr'
  · exact hi.hostsShown_of_departed (c := c) hs hnick fun hr' => ⟨hr', departed_of_update hl _⟩

theorem Inv.hostsShown_removeClient (hi : h.Inv) (hs : h.HostsShown) :
    (h.removeClient w c).HostsShown := by
  have hkeyed := hi.clients_keyed.delete (h.client c).id
  have hnick := fun p => Eq.refl (h.client p).nick
  rcases removeClient_cases (w := w) (c := c) (fun rid r hr => hi.room_keyed hr) with
    ⟨-, heq⟩ | ⟨-, -, heq⟩ | ⟨r, -, hr, -, heq⟩ | ⟨r, room', -, hr, -, hl, heq⟩ <;>
    rw [heq]
  · exact hs
  · exact hs
  · rw [broadcastRoomsLocked_eq hkeyed]
    exact hi.hostsShown_of_departed (c := c) hs hnick fun hr' => hi.departed_of_delete hr hr'
  · rw [broadcastRoomsLocked_eq hkeyed]
    exact hi.hostsShown_of_departed (c := c) hs hnick fun hr' => ⟨hr', departed_of_update hl _⟩

/-- The rename in `createRoom` and `joinRoom` comes after the leave. -/
theorem Inv.hostsShown_vacated (hi : h.Inv) (hc : h.Registered c) (hs : h.HostsShown) :
    (h.vacated w c env).HostsShown := by
  obtain ⟨hi', hl⟩ := hi.leaveRoomLocked (w := w) hc
  exact hi'.hostsShown_updateNick (hi.hostsShown_leaveRoomLocked hs)
    fun rid r hr => hi'.hostID_ne (hl.registered.mpr hc) hl.roomID hr

/-- A new room advertises the client that created it. -/
theorem Inv.hostsShown_created (hi : h.Inv) (hc : h.Registered c) (hs : h.HostsShown) :
    (h.created w c env).HostsShown := by
  obtain ⟨hi', -⟩ := hi.vacated (w := w) hc env
  have hs' : (h.vacated w c env).HostsShown := hi.hostsShown_vacated hc hs
  intro rid r hr
  have hr : ((h.vacated w c env).rooms.put ("room_" ++ w.randomHex)
      (h.vacated w c env).nextRoom).get rid = some r := hr
  rw [FMap.get_put] at hr
  split at hr
  · obtain rfl := Option.some.inj hr
    refine ⟨c, ?_, ?_⟩
    · simp [created, Hub.founded, newRoom]
    · simp [created, Hub.founded, newRoom, setRoomID, setClient]
  · have hptr : r ≠ (h.vacated w c env).nextRoom := Nat.ne_of_lt (hi'.rooms_ok hr).lt
    exact (hs' rid r hr).frame (Function.update_of_ne hptr _ _)
      (fun p _ _ => nick_setRoomID c p _) (hi'.room_keyed hr)

/-- Whoever joins a room does not become its host. -/
theorem Inv.hostsShown_joined (hi : h.Inv) (hc : h.Registered c) (hs : h.HostsShown) :
    (h.joined w c env r).HostsShown := by
  obtain ⟨hi', hl⟩ := hi.vacated (w := w) hc env
  have hs' : (h.vacated w c env).HostsShown := hi.hostsShown_vacated hc hs
  intro rid r' hr
  have hr : (h.vacated w c env).rooms.get rid = some r' := hr
  by_cases hptr : r' = r
  · subst hptr
    obtain ⟨p, hp, hshown⟩ := hs' rid r' hr
    have hguest := hi'.hostID_ne (hl.registered.mpr hc) hl.roomID hr
    refine ⟨p, ?_, ?_⟩ <;> simp only [joined, Hub.admitted, Function.update_self]
    · rw [FMap.get_put_of_ne _ hguest, hp]
    · exact (nick_setRoomID c p _).trans hshown
  · exact (hs' rid r' hr).frame (Function.update_of_ne hptr _ _)
      (fun p _ _ => nick_setRoomID c p _) (hi'.room_keyed hr)

/-! ### One step -/

/-- `hello` is the one message that can make a copy stale. -/
theorem Inv.hostsShown_hello_iff (hi : h.Inv) (hs : h.HostsShown) (hc : h.Registered c)
    (htype : env.type = "hello") :
    (h.updateNick c env).HostsShown ↔ ¬ h.RenamesHost (.handle c env w) := by
  constructor
  · rintro hs' ⟨-, hne, hother, r, hr, hhost⟩
    -- the host is `c` itself: its nick changes and the copy does not
    have hseat := hi.seated hc hr
    obtain ⟨p, hp, hshown⟩ := hs _ r hr
    obtain ⟨p', hp', hshown'⟩ := hs' _ r (by rw [updateNick_eq]; exact hr)
    have hroom : (h.updateNick c env).room r = h.room r := by rw [updateNick_eq]
    rw [hroom, hhost, hseat] at hp'
    rw [hhost, hseat] at hp
    obtain rfl := Option.some.inj hp
    obtain rfl := Option.some.inj hp'
    rw [nick_updateNick_self hne, hroom, ← hshown] at hshown'
    exact hother hshown'
  · intro hkeep
    by_cases hsame : env.nick = "" ∨ env.nick = (h.client c).nick
    · rw [updateNick_eq]
      exact fun rid r hr => (hs rid r hr).frame rfl
        (fun p _ _ => nick_updateNick_of_same hsame p) (hi.room_keyed hr)
    · obtain ⟨hne, hother⟩ := not_or.mp hsame
      refine hi.hostsShown_updateNick hs fun rid r hr hid => ?_
      refine hkeep ⟨htype, hne, hother, r, ?_, hid⟩
      rw [hi.roomID_of_hostID hc hr hid, hr]

/-- No other message does. -/
theorem Inv.hostsShown_of_handled (hi : h.Inv) (hs : h.HostsShown) (hc : h.Registered c)
    (hother : env.type ≠ "hello") (hh : Handled w h c env h') : h'.HostsShown := by
  cases hh with
  | create =>
    simp only [hostsShown_deliver]
    exact hi.hostsShown_created hc hs
  | join =>
    simp only [hostsShown_deliver]
    exact hi.hostsShown_joined hc hs
  | leave =>
    simp only [hostsShown_deliver]
    exact hi.hostsShown_leaveRoomLocked hs
  | hello htype => exact absurd htype hother
  | silent => exact hs
  | listRooms | route | unavailable | status | voice | reply =>
    simp only [hostsShown_deliver]
    exact hs

/-- A new client sits in no room. -/
theorem Inv.hostsShown_addClient (hi : h.Inv) (hs : h.HostsShown) (id nick : String) (cap : ℕ) :
    ((h.newClient id nick cap).addClient h.nextClient).HostsShown := by
  intro rid r hr
  have hok := hi.rooms_ok (r := r) hr
  refine (hs rid r hr).frame rfl (fun p _ hp => ?_) (hi.room_keyed hr)
  have hlt := hi.client_lt ((hok.peers_iff _ p).mp hp).1
  exact congrArg Client.nick (Function.update_of_ne (Nat.ne_of_lt hlt) _ _)

/-- **One step keeps the rooms advertising their hosts unless it renames a host**, and then it does
not keep it. -/
theorem hostsShown_after_iff (hi : h.Inv) (hs : h.HostsShown) {e : Event} (he : h.Enabled e) :
    (h.after e).HostsShown ↔ ¬ h.RenamesHost e := by
  cases e with
  | addClient peerID nick cap =>
    exact iff_of_true (hi.hostsShown_addClient hs peerID nick cap) id
  | handle c env w =>
    by_cases htype : env.type = "hello"
    · have hafter : h.after (.handle c env w) = ((h.updateNick c env).deliver
          (toOne c (helloEnvelope w (h.updateNick c env) c))).deliver
            (toOne c ((h.updateNick c env).roomsEnvelope w)) := by
        simp only [Hub.after, Hub.handle, htype, sendRooms, enqueue_eq]
        rfl
      rw [hafter, hostsShown_deliver, hostsShown_deliver]
      exact hi.hostsShown_hello_iff hs he.1 htype
    · exact iff_of_true (hi.hostsShown_of_handled hs he.1 htype (handle_handled hi he.1 env))
        fun hrename => htype hrename.1
  | invalidJson c w => exact iff_of_true hs id
  | removeClient c w => exact iff_of_true (hi.hostsShown_removeClient hs) id
  | writeLoop c => exact iff_of_true hs id

/-! ### Runs -/

theorem hostsShown_newHub : newHub.HostsShown := by
  intro rid r hr
  simp [newHub] at hr

/-- **Rooms advertise their hosts exactly when no host renames itself.** A run keeps the `HostNick`
of every room in step with its host's nick, in every state it visits, as long as no step of it is a
`hello` that gives another nick to the host of the room it is in, and no longer. A nick that comes
with `create_room` or `join_room` does no harm. -/
theorem hosts_shown_iff {t : List (Hub × Event)} (hrun : machine.Run t h) :
    ((∀ x ∈ t, x.1.HostsShown) ∧ h.HostsShown) ↔ ∀ x ∈ t, ¬ x.1.RenamesHost x.2 := by
  have hinit : ∀ h, machine.init h → h.HostsShown := by
    rintro _ rfl
    exact hostsShown_newHub
  have hstep : ∀ h e h', machine.Reachable h → h.HostsShown → machine.step h e h' →
      (h'.HostsShown ↔ ¬ h.RenamesHost e) := by
    rintro h e _ hreach hs ⟨he, rfl⟩
    exact hostsShown_after_iff (inv_of_reachable hreach) hs he
  exact hrun.visited_iff (P := HostsShown) hinit hstep

theorem hosts_shown_iff_hosting : hosting.HostsShown := by
  refine ((hosts_shown_iff hosting_run).mpr fun x hx => ?_).2
  rcases List.mem_cons.mp hx with rfl | hx
  · exact id
  · rw [List.mem_singleton.mp hx]
    rintro ⟨htype, -⟩
    exact absurd htype (by decide)

/-- The host of `hosting`, who was `Ana`, says that it is `Bea`. -/
def renamed : Hub :=
  hosting.after (.handle 0 { type := "hello", nick := "Bea" } (Ambient.plain 20 "a2"))

/-- **A reachable hub whose room still advertises the old nick.** Its host has said hello under
another one. -/
theorem renamed_not_shown : machine.Reachable renamed ∧ ¬ renamed.HostsShown := by
  refine ⟨reachable_after hosting_reachable (And.intro (by decide) (by decide)), fun hs => ?_⟩
  obtain ⟨p, hp, hnick⟩ := hs "room_a1" 0 (by decide)
  have hseat : (renamed.room 0).peers.get (renamed.room 0).hostID = some 0 := by decide
  obtain rfl := Option.some.inj (hp.symm.trans hseat)
  exact absurd hnick (by decide)

end Hub

end Coordinator

end TarkovVoice

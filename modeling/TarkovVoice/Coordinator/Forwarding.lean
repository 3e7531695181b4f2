import TarkovVoice.Coordinator.Stranding

/-!
# What reaches others

A client controls every field of the envelopes it sends. This file says what of that reaches
anybody else: six types of envelopes are forwarded, inside the sender's room and under the
sender's own id, nick and room, and everything else others receive is built by the hub. A notice
that somebody joined or left is only ever queued in a step in which that client did.

One step falls outside. `routeToPeer` compares two `roomID`s and does not ask whether the room is
there, so a stranded client can route an envelope to itself.

## Main definitions

* `Hub.SameRoom`, `Hub.FromSender`, `Hub.JoinedIn`, `Hub.LeftIn`
* `Hub.Trustworthy` — everything a step may queue
* `Hub.RoutesToSelfStranded` — the exception

## Main results

* `Hub.Handled.notice` — everything one message can queue for anybody
* `Hub.trustworthy_iff` — a step is trustworthy unless it is the exception
* `Hub.stranded_routes_to_self` — a run that reaches the exception
-/

namespace TarkovVoice

namespace Coordinator

namespace Hub

variable {w : Ambient} {h : Hub} {c q : ClientPtr} {env : Envelope}

/-! ### What is promised -/

/-- Both are members of one room of the hub. That two clients say so of themselves is not enough,
since the room may be gone. -/
def SameRoom (h : Hub) (c q : ClientPtr) : Prop := ∃ rid, h.IsMember rid c ∧ h.IsMember rid q

/-- The envelope carries the id, nick and room of `c` as the hub knows them, whatever the client
wrote into these fields. -/
def FromSender (h : Hub) (c : ClientPtr) (copy : Envelope) : Prop :=
  copy.peerID = (h.client c).id ∧ copy.nick = (h.client c).nick ∧
    copy.roomID = (h.client c).roomID

/-- The six types that are forwarded: signals to one peer, statuses and frames to the room. -/
def IsForwarded (type : String) : Prop := IsIce type ∨ IsStatus type ∨ type = "voice_frame"

instance (type : String) : Decidable (IsForwarded type) :=
  inferInstanceAs (Decidable (_ ∨ _ ∨ _))

/-- `c` asks to join `rid` in this step, and is a member of it afterwards. -/
def JoinedIn (h : Hub) (e : Event) (c : ClientPtr) (rid : String) : Prop :=
  (∃ env w, e = .handle c env w ∧ env.type = "join_room" ∧ env.roomID = rid) ∧
    (h.after e).IsMember rid c

/-- `c` is a member of `rid` before this step, and afterwards it is not, or has joined again. -/
def LeftIn (h : Hub) (e : Event) (c : ClientPtr) (rid : String) : Prop :=
  h.IsMember rid c ∧ (¬ (h.after e).IsMember rid c ∨ h.JoinedIn e c rid)

/-- Statuses and voice go to the other members of the sender's room, to each at most once, under the
sender's name and to nobody else. A target that the envelope names makes no difference. -/
def CastFairly (h h' : Hub) (c : ClientPtr) (type : String) : Prop :=
  ∀ q, (h.news h' q).length ≤ 1 ∧
    ∀ copy ∈ h.news h' q, q ≠ c ∧ h.SameRoom c q ∧ copy.type = type ∧ h.FromSender c copy

/-- The rest goes to the target alone, if it is in the sender's room, under the sender's name; and
is otherwise answered with one error, and goes to nobody. -/
def RoutesFairly (h h' : Hub) (c : ClientPtr) (env : Envelope) : Prop :=
  (∃ target copy, h.clients.get env.targetPeerID = some target ∧ h.SameRoom c target ∧
    copy.type = env.type ∧ h.FromSender c copy ∧ h.news h' = toOne target copy) ∨
  ((∀ target, h.clients.get env.targetPeerID = some target → ¬ h.SameRoom c target) ∧
    ∃ answer : Envelope, answer.type = "error" ∧ h.news h' = toOne c answer)

/-- **Everything a step may queue.** -/
structure Trustworthy (h : Hub) (e : Event) : Prop where
  /-- A channel takes what it is offered, or drops it when it is full. -/
  accepted : ∀ q, (h.accepted (h.after e) q).Sublist (h.news (h.after e) q)
  cast : ∀ c env w, e = .handle c env w → IsStatus env.type ∨ env.type = "voice_frame" →
    h.CastFairly (h.after e) c env.type
  route : ∀ c env w, e = .handle c env w → IsIce env.type → h.RoutesFairly (h.after e) c env
  joined : ∀ q, ∀ notice ∈ h.news (h.after e) q, notice.type = "peer_joined" →
    ∃ c, notice.peerID = (h.client c).id ∧ h.JoinedIn e c notice.roomID
  left : ∀ q, ∀ notice ∈ h.news (h.after e) q, notice.type = "peer_left" →
    ∃ c, notice.peerID = (h.client c).id ∧ h.LeftIn e c notice.roomID
  /-- What others receive is a forwarded copy or built by the hub. -/
  others : ∀ c env w, e = .handle c env w → ∀ q ≠ c, ∀ notice ∈ h.news (h.after e) q,
    (IsForwarded env.type ∧ notice.type = env.type ∧ h.FromSender c notice) ∨
    notice = (h.after e).roomsEnvelope w ∨
    notice = h.peerLeft w c (h.client c).roomID ∨
    notice = (h.after e).peerJoined w c env.roomID env

/-- A client whose room is no longer there routes an envelope to itself. This is the only way in
which an envelope is routed outside of a room. -/
def RoutesToSelfStranded (h : Hub) : Event → Prop
  | .handle c env _ => IsIce env.type ∧ h.clients.get env.targetPeerID = some c ∧
      (h.client c).roomID ≠ "" ∧ h.rooms.get (h.client c).roomID = none
  | _ => False

/-! ### Members -/

theorem Inv.roomID_of_isMember (hi : h.Inv) {rid : String} (hm : h.IsMember rid c) :
    h.Registered c ∧ (h.client c).roomID = rid := by
  obtain ⟨r, hr, hget⟩ := hm
  exact ((hi.rooms_ok hr).peers_iff _ _).mp hget

theorem Inv.isMember_of_live (hi : h.Inv) (hc : h.Registered c) {rid : String}
    (hroom : (h.client c).roomID = rid) (hlive : h.rooms.get rid ≠ none) : h.IsMember rid c := by
  subst hroom
  obtain ⟨r, hr⟩ := Option.ne_none_iff_exists'.mp hlive
  exact ⟨r, hr, hi.seated hc hr⟩

theorem Inv.live_of_roommate (hi : h.Inv) (hc : h.Registered c) (hmate : h.Roommate c q) :
    h.rooms.get (h.client c).roomID ≠ none := fun hgone => hi.no_roommate hc hgone hmate

/-- Roommates are members of one room. By their records they say so, and by the invariant the room
does too. -/
theorem Inv.sameRoom (hi : h.Inv) (hc : h.Registered c) (hmate : h.Roommate c q) :
    h.SameRoom c q := by
  have hlive := hi.live_of_roommate hc hmate
  exact ⟨_, hi.isMember_of_live hc rfl hlive, hi.isMember_of_live hmate.2.1 hmate.2.2.2 hlive⟩

/-- Whoever is in the same room as `c` is in the room `c` says it is in, which is there. -/
theorem Inv.of_sameRoom (hi : h.Inv) (hsame : h.SameRoom c q) :
    (h.client c).roomID ≠ "" ∧ (h.client q).roomID = (h.client c).roomID ∧
      h.rooms.get (h.client c).roomID ≠ none := by
  obtain ⟨rid, hc, hq⟩ := hsame
  obtain ⟨-, hc'⟩ := hi.roomID_of_isMember hc
  obtain ⟨-, hq'⟩ := hi.roomID_of_isMember hq
  obtain ⟨r, hr, -⟩ := hc
  rw [hc', hq', hr]
  exact ⟨(hi.rooms_ok hr).named, rfl, by simp⟩

/-! ### One message -/

/-- **Everything handling one message can queue for `q`**: one constructor for each kind of
envelope, with what is known when it is queued. -/
inductive Notice (w : Ambient) (h : Hub) (c : ClientPtr) (env : Envelope) (h' : Hub)
    (q : ClientPtr) : Envelope → Prop
  | left : h.Roommate c q → h.LeftIn (.handle c env w) c (h.client c).roomID →
      Notice w h c env h' q (h.peerLeft w c (h.client c).roomID)
  | joined : h.JoinedIn (.handle c env w) c env.roomID →
      Notice w h c env h' q (h'.peerJoined w c env.roomID env)
  | rooms : Notice w h c env h' q (h'.roomsEnvelope w)
  | answer {notice : Envelope} : q = c → notice.type ≠ "peer_joined" →
      notice.type ≠ "peer_left" → Notice w h c env h' q notice
  | copy {notice : Envelope} : IsForwarded env.type → notice.type = env.type →
      h.FromSender c notice → Notice w h c env h' q notice

theorem fromSender_stamp : h.FromSender c (h.stamp w c env) := ⟨rfl, rfl, rfl⟩

/-- The ids of two rooms of one run differ unless they are the same room. -/
theorem Inv.fresh_ne (hi : h.Inv) (hc : h.Registered c) (hnamed : (h.client c).roomID ≠ "")
    (hfresh : ∀ r < h.nextRoom, (h.room r).id ≠ "room_" ++ w.randomHex) :
    "room_" ++ w.randomHex ≠ (h.client c).roomID := by
  intro hid
  obtain ⟨r, hlt, hr⟩ := hi.used hnamed hc.occupies
  exact hfresh r hlt (hr.trans hid.symm)

/-- When somebody is told that `c` left, `c` left: it is in another room afterwards or in none, or
has joined the same room again. -/
theorem Inv.leftIn (hi : h.Inv) (he : h.Enabled (.handle c env w)) (hmate : h.Roommate c q)
    (hgo : ((h.after (.handle c env w)).client c).roomID ≠ (h.client c).roomID ∨
      h.JoinedIn (.handle c env w) c (h.client c).roomID) :
    h.LeftIn (.handle c env w) c (h.client c).roomID := by
  refine ⟨hi.isMember_of_live he.1 rfl (hi.live_of_roommate he.1 hmate), hgo.imp_left ?_⟩
  intro hne hmem
  exact hne ((hi.after he).roomID_of_isMember hmem).2

/-- Somebody who can hear that `c` leaves keeps the room there while `c` joins it again. -/
theorem Inv.joined_live (hi : h.Inv) (hc : h.Registered c) {r : RoomPtr}
    (hr : h.rooms.get env.roomID = some r) (hmate : h.Roommate c q)
    (hrid : env.roomID = (h.client c).roomID) :
    (h.joined w c env r).rooms.get env.roomID ≠ none := by
  obtain ⟨-, hl⟩ := hi.vacated (w := w) hc env
  rcases hl.survives hr with hlive | ⟨-, -, hlast⟩
  · have hlive : (h.joined w c env r).rooms.get env.roomID = some r := hlive
    simp [hlive]
  · exact absurd hmate (hi.no_roommate_of_last hc (hrid ▸ hr) hlast)

theorem Inv.notice_create (hi : h.Inv) (he : h.Enabled (.handle c env w)) {h' : Hub}
    (hh : h.handle w c env = h')
    (hh' : h' = ((h.created w c env).deliver
      (toOne c (roomCreated w ((h.vacated w c env).newRoom w c env)))).deliver
      ((h.created w c env).toAll w)) {notice : Envelope} (hn : notice ∈ h.news h' q) :
    Notice w h c env h' q notice := by
  have hroom : (h'.client c).roomID = "room_" ++ w.randomHex := by
    rw [hh']
    exact roomID_setRoomID c _
  have hoff : (h'.send q).offered = (h.send q).offered ++
      (h.toRoommates c (h.peerLeft w c (h.client c).roomID) q ++
        (toOne c (roomCreated w ((h.vacated w c env).newRoom w c env)) q ++
          (h.created w c env).toAll w q)) := by
    have hsend : ((h.created w c env).send q).offered = _ := hi.offered_vacated he.1 env q
    rw [hh', offered_deliver, offered_deliver, hsend, List.append_assoc, List.append_assoc]
  rw [news_of_offered hoff, List.mem_append, List.mem_append] at hn
  rcases hn with hn | hn | hn
  · obtain ⟨hmate, rfl⟩ := mem_toRoommates.mp hn
    refine .left hmate (hi.leftIn he hmate (Or.inl ?_))
    have hafter : h.after (.handle c env w) = h' := hh
    rw [hafter, hroom]
    exact hi.fresh_ne he.1 hmate.2.2.1 he.2
  · obtain ⟨rfl, rfl⟩ := mem_toOne.mp hn
    exact .answer rfl (by simp [roomCreated]) (by simp [roomCreated])
  · obtain ⟨-, rfl⟩ := mem_toAll.mp hn
    have hrooms : (h.created w c env).roomsEnvelope w = h'.roomsEnvelope w := by
      rw [hh']
      rfl
    rw [hrooms]
    exact .rooms

theorem Inv.notice_join (hi : h.Inv) (he : h.Enabled (.handle c env w))
    (htype : env.type = "join_room") {r : RoomPtr} (hr : h.rooms.get env.roomID = some r)
    (hlen : (h.room r).peers.len < maxPeersPerRoom) {h' : Hub} (hh : h.handle w c env = h')
    (hh' : h' = (((h.joined w c env r).deliver
        (toOne c (joinedRoom w ((h.joined w c env r).room r)))).deliver
        ((h.joined w c env r).toRoom ((h.joined w c env r).room r).peers
          (peerJoined w (h.joined w c env r) c ((h.joined w c env r).room r).id env))).deliver
        ((h.joined w c env r).toAll w)) {notice : Envelope} (hn : notice ∈ h.news h' q) :
    Notice w h c env h' q notice := by
  have hafter : h.after (.handle c env w) = h' := hh
  have hi' : h'.Inv := hafter ▸ hi.after he
  have hroom : (h'.client c).roomID = env.roomID := by
    simp only [hh', client_deliver]
    exact hi.roomID_joined he.1 hr
  have hreg : h'.Registered c := by
    simp only [hh', registered_deliver]
    exact hi.registered_joined he.1 env r
  have hjoined : h'.rooms.get env.roomID ≠ none →
      h.JoinedIn (.handle c env w) c env.roomID := fun hlive =>
    ⟨⟨env, w, rfl, htype, rfl⟩, hafter ▸ hi'.isMember_of_live hreg hroom hlive⟩
  have hoff : (h'.send q).offered = (h.send q).offered ++
      (h.toRoommates c (h.peerLeft w c (h.client c).roomID) q ++
        (toOne c (joinedRoom w ((h.joined w c env r).room r)) q ++
          ((h.joined w c env r).toRoommates c (peerJoined w (h.joined w c env r) c
            ((h.joined w c env r).room r).id env) q ++ (h.joined w c env r).toAll w q))) := by
    have hsend : ((h.joined w c env r).send q).offered = _ := hi.offered_vacated he.1 env q
    rw [hh', offered_deliver, offered_deliver, offered_deliver, hsend,
      hi.toRoom_joined he.1 hr hlen]
    simp only [List.append_assoc]
  rw [news_of_offered hoff, List.mem_append, List.mem_append, List.mem_append] at hn
  rcases hn with hn | hn | hn | hn
  · obtain ⟨hmate, rfl⟩ := mem_toRoommates.mp hn
    refine .left hmate (hi.leftIn he hmate ?_)
    by_cases hrid : env.roomID = (h.client c).roomID
    · refine Or.inr (hrid ▸ hjoined ?_)
      simp only [hh', rooms_deliver]
      exact hi.joined_live he.1 hr hmate hrid
    · exact Or.inl (by rw [hafter, hroom]; exact hrid)
  · obtain ⟨rfl, rfl⟩ := mem_toOne.mp hn
    exact .answer rfl (by simp [joinedRoom]) (by simp [joinedRoom])
  · obtain ⟨hmate, rfl⟩ := mem_toRoommates.mp hn
    have henv : peerJoined w (h.joined w c env r) c ((h.joined w c env r).room r).id env =
        h'.peerJoined w c env.roomID env := by
      rw [hi.id_room_joined he.1 hr, hh']
      rfl
    rw [henv]
    refine .joined (hjoined ?_)
    have hmate' : h'.Roommate c q := by
      rw [hh']
      exact hmate
    exact hroom ▸ hi'.live_of_roommate hreg hmate'
  · obtain ⟨-, rfl⟩ := mem_toAll.mp hn
    have hrooms : (h.joined w c env r).roomsEnvelope w = h'.roomsEnvelope w := by
      rw [hh']
      rfl
    rw [hrooms]
    exact .rooms

theorem Inv.notice_leave (hi : h.Inv) (he : h.Enabled (.handle c env w)) {h' : Hub}
    (hh : h.handle w c env = h')
    (hh' : h' = (h.leaveRoomLocked w c).deliver ((h.leaveRoomLocked w c).toAll w))
    {notice : Envelope} (hn : notice ∈ h.news h' q) : Notice w h c env h' q notice := by
  obtain ⟨-, hl⟩ := hi.leaveRoomLocked (w := w) he.1
  have hoff : (h'.send q).offered = (h.send q).offered ++
      (h.toRoommates c (h.peerLeft w c (h.client c).roomID) q ++
        (h.leaveRoomLocked w c).toAll w q) := by
    rw [hh', offered_deliver, hi.offered_leaveRoomLocked he.1, List.append_assoc]
  rw [news_of_offered hoff, List.mem_append] at hn
  rcases hn with hn | hn
  · obtain ⟨hmate, rfl⟩ := mem_toRoommates.mp hn
    refine .left hmate (hi.leftIn he hmate (Or.inl ?_))
    have hafter : h.after (.handle c env w) = h' := hh
    rw [hafter, hh', client_deliver, hl.roomID]
    exact hmate.2.2.1.symm
  · obtain ⟨-, rfl⟩ := mem_toAll.mp hn
    have hrooms : (h.leaveRoomLocked w c).roomsEnvelope w = h'.roomsEnvelope w := by
      rw [hh']
      rfl
    rw [hrooms]
    exact .rooms

theorem handle_notice (hi : h.Inv) (he : h.Enabled (.handle c env w)) {notice : Envelope}
    (hn : notice ∈ h.news (h.handle w c env) q) :
    Notice w h c env (h.handle w c env) q notice := by
  have hh := handle_handled (w := w) hi he.1 env
  generalize hgen : h.handle w c env = h' at hh hn ⊢
  have hanswer : ∀ {answer : Envelope}, answer.type ≠ "peer_joined" → answer.type ≠ "peer_left" →
      notice ∈ toOne c answer q → Notice w h c env h' q notice := by
    intro answer hin hout hmem
    obtain ⟨rfl, rfl⟩ := mem_toOne.mp hmem
    exact .answer rfl hin hout
  cases hh with
  | create => exact hi.notice_create he hgen rfl hn
  | join htype hr hlen => exact hi.notice_join he htype hr hlen hgen rfl hn
  | leave => exact hi.notice_leave he hgen rfl hn
  | hello =>
    have hsend : ((h.updateNick c env).send q).offered = (h.send q).offered := by
      rw [updateNick_eq]
    rw [news_of_offered (by rw [offered_deliver, offered_deliver, hsend, List.append_assoc]),
      List.mem_append] at hn
    exact hn.elim (hanswer (by simp [helloEnvelope]) (by simp [helloEnvelope]))
      (hanswer (by simp [roomsEnvelope]) (by simp [roomsEnvelope]))
  | listRooms =>
    rw [news_of_offered (offered_deliver _ _)] at hn
    exact hanswer (by simp [roomsEnvelope]) (by simp [roomsEnvelope]) hn
  | route htype hroutes =>
    rw [news_of_offered (offered_deliver _ _)] at hn
    rw [(mem_toOne.mp hn).2]
    exact .copy (Or.inl htype) rfl fromSender_stamp
  | unavailable =>
    rw [news_of_offered (offered_deliver _ _)] at hn
    exact hanswer (by simp [errorEnvelope]) (by simp [errorEnvelope]) hn
  | status htype =>
    rw [news_of_offered (offered_deliver _ _)] at hn
    rw [(mem_toRoom.mp hn).2]
    exact .copy (Or.inr (Or.inl htype)) rfl fromSender_stamp
  | voice htype =>
    rw [news_of_offered (offered_deliver _ _)] at hn
    rw [(mem_toRoom.mp hn).2]
    exact .copy (Or.inr (Or.inr htype)) htype.symm ⟨rfl, rfl, rfl⟩
  | silent =>
    rw [news_self] at hn
    exact absurd hn (by simp)
  | reply _ _ _ htype =>
    rw [news_of_offered (offered_deliver _ _)] at hn
    refine hanswer ?_ ?_ hn <;>
    · rcases htype with htype | htype <;> rw [htype] <;> decide

/-! ### Forwarding -/

theorem castFairly_self (type : String) : h.CastFairly h c type := by
  intro q
  rw [news_self]
  exact ⟨Nat.zero_le _, by simp⟩

/-- A broadcast of `c`'s own envelope stays in the room and is queued once for each of the others,
and not for `c`. -/
theorem Inv.castFairly (hi : h.Inv) (hc : h.Registered c) {r : RoomPtr}
    (hr : h.rooms.get (h.client c).roomID = some r) {copy : Envelope}
    (hfrom : h.FromSender c copy) (htype : copy.type ≠ "room_closed") :
    h.CastFairly (h.broadcastLocked w copy r) c copy.type := by
  intro q
  rw [broadcastLocked_eq (hi.room_keyed hr), news_of_offered (offered_deliver _ _),
    toRoom_eq hc (hi.rooms_ok hr).named (hi.room_occupies hr) hfrom.1 htype]
  constructor
  · rw [toRoommates]
    split <;> simp
  · intro copy' hmem
    obtain ⟨hmate, rfl⟩ := mem_toRoommates.mp hmem
    exact ⟨hmate.1, hi.sameRoom hc hmate, rfl, hfrom⟩

theorem Inv.castFairly_status (hi : h.Inv) (hc : h.Registered c) (htype : IsStatus env.type) :
    h.CastFairly (h.handle w c env) c env.type := by
  have heq : h.handle w c env = h.broadcastPeerStatus w c env := by
    rcases htype with htype | htype <;> simp only [Hub.handle, htype]
  have hclosed : (h.stamp w c env).type ≠ "room_closed" := by
    rw [stamp]
    rcases htype with htype | htype <;> rw [htype] <;> decide
  rw [heq]
  rcases hr : h.rooms.get (h.client c).roomID with _ | r
  · simp only [broadcastPeerStatus, hr]
    exact castFairly_self _
  · simp only [broadcastPeerStatus, hr]
    exact hi.castFairly hc hr fromSender_stamp hclosed

theorem Inv.castFairly_voice (hi : h.Inv) (hc : h.Registered c) (htype : env.type = "voice_frame") :
    h.CastFairly (h.handle w c env) c env.type := by
  have heq : h.handle w c env = h.broadcastVoiceFrame w c env := by
    simp only [Hub.handle, htype]
  rw [heq]
  rcases hr : h.rooms.get (h.client c).roomID with _ | r
  · simp only [broadcastVoiceFrame, hr]
    exact castFairly_self _
  · simp only [broadcastVoiceFrame, hr]
    split
    · exact castFairly_self _
    · have hfrom : h.FromSender c
          { h.stamp w c env with type := "voice_frame", targetPeerID := "" } := ⟨rfl, rfl, rfl⟩
      rw [htype]
      exact hi.castFairly hc hr hfrom (by simp)

/-- The code lets an envelope through whenever the two are in the same room. So no signal is refused
that should pass. -/
theorem Inv.routes_of_sameRoom (hi : h.Inv) {target : ClientPtr}
    (htarget : h.clients.get env.targetPeerID = some target) (hsame : h.SameRoom c target) :
    h.Routes c env target := by
  obtain ⟨hnamed, hroom, -⟩ := hi.of_sameRoom hsame
  exact ⟨htarget, hnamed, hroom⟩

/-- And whenever it does, they are, or the target is the sender and its room is gone. -/
theorem Inv.sameRoom_of_routes (hi : h.Inv) (hc : h.Registered c) {target : ClientPtr}
    (hroutes : h.Routes c env target)
    (hgone : ¬ (target = c ∧ h.rooms.get (h.client c).roomID = none)) : h.SameRoom c target := by
  obtain ⟨htarget, hnamed, hroom⟩ := hroutes
  have hreg := hi.registered htarget
  by_cases htc : target = c
  · subst htc
    have hmem := hi.isMember_of_live hc rfl fun hdead => hgone ⟨rfl, hdead⟩
    exact ⟨_, hmem, hmem⟩
  · exact hi.sameRoom hc ⟨htc, hreg, hnamed, hroom⟩

theorem news_toOne {env' : Envelope} : h.news (h.deliver (toOne c env')) = toOne c env' := by
  funext q
  exact news_of_offered (offered_deliver _ _)

/-- **Routing is fair unless a stranded client routes to itself.** Fair means that an envelope
passes exactly between members of one room, and otherwise an error comes back. -/
theorem Inv.routesFairly_iff (hi : h.Inv) (hc : h.Registered c) (htype : IsIce env.type) :
    h.RoutesFairly (h.handle w c env) c env ↔ ¬ h.RoutesToSelfStranded (.handle c env w) := by
  have heq : h.handle w c env = h.routeToPeer w c env := by
    rcases htype with htype | htype | htype <;> simp only [Hub.handle, htype]
  rw [heq]
  rcases routeToPeer_cases w h c env with ⟨target, hroutes, heq⟩ | ⟨hnone, heq⟩ <;> rw [heq]
  · constructor
    · rintro hfair ⟨-, hself, hnamed, hgone⟩
      obtain rfl := Option.some.inj (hself.symm.trans hroutes.1)
      rcases hfair with ⟨target, -, htarget, hsame, -⟩ | ⟨-, answer, hanswer, hnews⟩
      · exact (hi.of_sameRoom hsame).2.2 hgone
      · rw [news_toOne] at hnews
        have hcopy : h.stamp w c env = answer := by
          simpa [toOne] using congrFun hnews c
        rw [← hcopy, stamp] at hanswer
        rcases htype with htype | htype | htype <;> rw [htype] at hanswer <;>
          exact absurd hanswer (by decide)
    · intro hself
      refine Or.inl ⟨target, h.stamp w c env, hroutes.1, ?_, rfl, fromSender_stamp, news_toOne⟩
      refine hi.sameRoom_of_routes hc hroutes ?_
      rintro ⟨rfl, hgone⟩
      exact hself ⟨htype, hroutes.1, hroutes.2.1, hgone⟩
  · constructor
    · rintro - ⟨-, hself, hnamed, -⟩
      exact hnone c ⟨hself, hnamed, rfl⟩
    · intro _
      refine Or.inr ⟨fun target htarget hsame => ?_, _, rfl, news_toOne⟩
      exact hnone target (hi.routes_of_sameRoom htarget hsame)

/-! ### Steps -/

theorem Inv.notice_removeClient (hi : h.Inv) (hc : h.Registered c) {notice : Envelope}
    (hn : notice ∈ h.news (h.removeClient w c) q) :
    (notice = h.peerLeft w c (h.client c).roomID ∧
      h.LeftIn (.removeClient c w) c (h.client c).roomID) ∨ notice.type = "rooms" := by
  obtain ⟨l, hrooms, hoff⟩ := hi.offered_removeClient (w := w) hc q
  rw [news_of_offered hoff, List.mem_append] at hn
  rcases hn with hn | hn
  · obtain ⟨hmate, rfl⟩ := mem_toRoommates.mp hn
    refine Or.inl ⟨rfl, hi.isMember_of_live hc rfl (hi.live_of_roommate hc hmate), Or.inl ?_⟩
    intro hmem
    have hreg := (hi.removeClient (w := w) hc).roomID_of_isMember hmem
    obtain ⟨hclient, hclients⟩ := hi.removeClient_tables (w := w) c
    have hgone := hreg.1
    rw [Registered, hclient, hclients, FMap.get_delete_self] at hgone
    exact absurd hgone (by simp)
  · exact Or.inr (hrooms notice hn)

/-- Connecting and reading tell nobody anything. -/
theorem news_addClient {id nick : String} {cap : ℕ} :
    h.news (h.after (.addClient id nick cap)) q = [] := by
  by_cases hq : q = h.nextClient
  · subst hq
    simp [news, Hub.after, newClient, addClient]
  · simp [news, Hub.after, newClient, addClient, hq]

theorem news_writeLoop : h.news (h.after (.writeLoop c)) q = [] := by
  by_cases hq : q = c
  · subst hq
    simp [news, Hub.after]
  · simp [news, Hub.after, hq]

theorem news_invalidJson {notice : Envelope}
    (hn : notice ∈ h.news (h.after (.invalidJson c w)) q) : notice.type = "error" := by
  rw [Hub.after, enqueue_eq, news_of_offered (offered_deliver _ _)] at hn
  rw [(mem_toOne.mp hn).2]

theorem Handled.id {h' : Hub} (hi : h.Inv) (hc : h.Registered c) (hh : Handled w h c env h')
    (p : ClientPtr) : (h'.client p).id = (h.client p).id := by
  cases hh with
  | create => exact (id_setRoomID c p _).trans ((hi.vacated (w := w) hc env).2.id p)
  | join => exact (id_setRoomID c p _).trans ((hi.vacated (w := w) hc env).2.id p)
  | leave => exact (hi.leaveRoomLocked (w := w) hc).2.id p
  | hello => exact id_updateNick c p env
  | silent | listRooms | route | unavailable | status | voice | reply => rfl

theorem Notice.of_joined {h' : Hub} {notice : Envelope} (hn : Notice w h c env h' q notice)
    (hid : (h'.client c).id = (h.client c).id) (htype : notice.type = "peer_joined") :
    notice.peerID = (h.client c).id ∧ h.JoinedIn (.handle c env w) c notice.roomID := by
  cases hn with
  | left => simp [peerLeft] at htype
  | joined hin => exact ⟨hid, hin⟩
  | rooms => simp [roomsEnvelope] at htype
  | answer _ hne => exact absurd htype hne
  | copy hfwd hcopy =>
    rw [← hcopy, htype] at hfwd
    exact absurd hfwd (by decide)

theorem Notice.of_left {h' : Hub} {notice : Envelope} (hn : Notice w h c env h' q notice)
    (htype : notice.type = "peer_left") :
    notice.peerID = (h.client c).id ∧ h.LeftIn (.handle c env w) c notice.roomID := by
  cases hn with
  | left _ hout => exact ⟨rfl, hout⟩
  | joined => simp [peerJoined] at htype
  | rooms => simp [roomsEnvelope] at htype
  | answer _ _ hne => exact absurd htype hne
  | copy hfwd hcopy =>
    rw [← hcopy, htype] at hfwd
    exact absurd hfwd (by decide)

theorem Notice.of_other {h' : Hub} {notice : Envelope} (hn : Notice w h c env h' q notice)
    (hq : q ≠ c) :
    (IsForwarded env.type ∧ notice.type = env.type ∧ h.FromSender c notice) ∨
      notice = h'.roomsEnvelope w ∨ notice = h.peerLeft w c (h.client c).roomID ∨
      notice = h'.peerJoined w c env.roomID env := by
  cases hn with
  | left => exact Or.inr (Or.inr (Or.inl rfl))
  | joined => exact Or.inr (Or.inr (Or.inr rfl))
  | rooms => exact Or.inr (Or.inl rfl)
  | answer hself => exact absurd hself hq
  | copy hfwd hcopy hfrom => exact Or.inl ⟨hfwd, hcopy, hfrom⟩

theorem Inv.accepted_sublist (hi : h.Inv) {e : Event} (he : h.Enabled e) (q : ClientPtr) :
    (h.accepted (h.after e) q).Sublist (h.news (h.after e) q) := by
  cases e with
  | addClient id nick cap =>
    by_cases hq : q = h.nextClient
    · subst hq
      simp [Hub.accepted, Hub.after, newClient, Hub.addClient, SendQueue.make]
    · simp [Hub.accepted, Hub.after, newClient, Hub.addClient, hq]
  | handle c env w => exact (hi.extends_handled (handle_handled hi he.1 env)).accepted q
  | invalidJson c w =>
    rw [Hub.after, enqueue_eq]
    exact ((extends_of_send rfl).deliver _).accepted q
  | removeClient c w => exact (hi.extends_removeClient c).accepted q
  | writeLoop c =>
    by_cases hq : q = c
    · subst hq
      simp [Hub.accepted, Hub.after]
    · simp [Hub.accepted, Hub.after, hq]

/-- Notices of joins and leaves are true: what they say has happened in this very step. -/
theorem Inv.notices_true (hi : h.Inv) {e : Event} (he : h.Enabled e) {notice : Envelope}
    (hn : notice ∈ h.news (h.after e) q) :
    (notice.type = "peer_joined" →
      ∃ c, notice.peerID = (h.client c).id ∧ h.JoinedIn e c notice.roomID) ∧
    (notice.type = "peer_left" →
      ∃ c, notice.peerID = (h.client c).id ∧ h.LeftIn e c notice.roomID) := by
  have hother : notice.type = "error" ∨ notice.type = "rooms" →
      notice.type ≠ "peer_joined" ∧ notice.type ≠ "peer_left" := by
    rintro (htype | htype) <;> rw [htype] <;> decide
  cases e with
  | addClient id nick cap =>
    rw [news_addClient] at hn
    exact absurd hn (by simp)
  | handle c env w =>
    have hnotice := handle_notice hi he hn
    have hid := (handle_handled (w := w) hi he.1 env).id hi he.1 c
    exact ⟨fun htype => ⟨c, hnotice.of_joined hid htype⟩, fun htype => ⟨c, hnotice.of_left htype⟩⟩
  | invalidJson c w =>
    obtain ⟨hin, hout⟩ := hother (Or.inl (news_invalidJson hn))
    exact ⟨fun htype => absurd htype hin, fun htype => absurd htype hout⟩
  | removeClient c w =>
    rcases hi.notice_removeClient he hn with ⟨rfl, hout⟩ | htype
    · refine ⟨fun htype => ?_, fun _ => ⟨c, rfl, hout⟩⟩
      simp [peerLeft] at htype
    · obtain ⟨hin, hout⟩ := hother (Or.inr htype)
      exact ⟨fun htype => absurd htype hin, fun htype => absurd htype hout⟩
  | writeLoop c =>
    rw [news_writeLoop] at hn
    exact absurd hn (by simp)

/-- **A step is trustworthy unless a stranded client routes to itself in it.** In every reachable
hub, for every step that is possible there, whoever takes it and whatever a message says. A client
is stranded if its room went when it left it to join it again; then it is in the same room as itself
as far as `routeToPeer` can see. -/
theorem trustworthy_iff (hreach : machine.Reachable h) {e : Event} (he : h.Enabled e) :
    h.Trustworthy e ↔ ¬ h.RoutesToSelfStranded e := by
  have hi := inv_of_reachable hreach
  constructor
  · intro ht hself
    cases e with
    | handle c env w =>
      exact (hi.routesFairly_iff he.1 hself.1).mp (ht.route c env w rfl hself.1) hself
    | addClient | invalidJson | removeClient | writeLoop => exact hself
  · intro hself
    refine ⟨hi.accepted_sublist he, ?_, ?_, fun q notice hn => (hi.notices_true he hn).1,
      fun q notice hn => (hi.notices_true he hn).2, ?_⟩
    · rintro c env w rfl (htype | htype)
      · exact hi.castFairly_status he.1 htype
      · exact hi.castFairly_voice he.1 htype
    · rintro c env w rfl htype
      exact (hi.routesFairly_iff he.1 htype).mpr hself
    · rintro c env w rfl q hq notice hn
      exact (handle_notice hi he hn).of_other hq

/-- The room of `stranded` is gone, and its client sends an offer to itself. -/
def offerToSelf : Event :=
  .handle 0 { type := "ice_offer", targetPeerID := "peer_1" } (Ambient.plain 30 "a3")

theorem offerToSelf_enabled : stranded.Enabled offerToSelf :=
  And.intro (by decide) (by decide)

/-- The second member of `shared` speaks in the name of the host, and of another room. -/
def forgedFrame : Event :=
  .handle 1 { type := "voice_frame", roomID := "room_b2", peerID := "peer_1",
              targetPeerID := "peer_1", nick := "Ana", payload := [123, 125] }
    (Ambient.plain 30 "a3")

/-- The host is handed one frame, and it is the second member's. -/
theorem trustworthy_iff_shared :
    (shared.news (shared.after forgedFrame) 0).length = 1 ∧
      ∀ copy ∈ shared.news (shared.after forgedFrame) 0,
        copy.peerID = "peer_2" ∧ copy.nick = "Bo" ∧ copy.roomID = "room_a1" := by
  have he : shared.Enabled forgedFrame := And.intro (by decide) (by decide)
  have ht := (trustworthy_iff shared_reachable he).mpr fun hself => absurd hself.1 (by decide)
  have hcast := ht.cast 1 _ _ rfl (Or.inr rfl)
  exact ⟨by decide, fun copy hcopy => ((hcast 0).2 copy hcopy).2.2.2⟩

/-- **A stranded client that routes to itself.** The offer is queued for a client that is in no
room. -/
theorem stranded_routes_to_self : machine.Reachable stranded ∧ stranded.Enabled offerToSelf ∧
    ¬ stranded.SameRoom 0 0 ∧
    (stranded.news (stranded.after offerToSelf) 0).map Envelope.type = ["ice_offer"] ∧
    ¬ stranded.Trustworthy offerToSelf := by
  have hgone : stranded.rooms.get (stranded.client 0).roomID = none := by decide
  have hi := inv_of_reachable stranded_reachable
  refine ⟨stranded_reachable, offerToSelf_enabled, fun hsame => (hi.of_sameRoom hsame).2.2 hgone,
    by decide, fun ht => ?_⟩
  have hice : IsIce "ice_offer" := Or.inl rfl
  refine (hi.routesFairly_iff (w := Ambient.plain 30 "a3") offerToSelf_enabled.1 hice).mp
    (ht.route 0 _ _ rfl hice) ⟨hice, by decide, by decide, hgone⟩

end Hub

end Coordinator

end TarkovVoice

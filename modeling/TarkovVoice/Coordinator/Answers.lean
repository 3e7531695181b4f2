import TarkovVoice.Coordinator.Channel

/-!
# Requests and answers

Envelopes carry no number by which an answer could be told from another. What a client can rely on
is their order. Between the moment it is registered and the end of its connection, the envelopes of
its queue that answer somebody, and are neither lists of rooms nor about peers, answer the messages
that the coordinator has handled for it: the first the first, the second the second, and there are
none besides. Which messages are answered is a matter of their type, except that an ICE message is
answered only if it does not reach its target.

## Main definitions

* `Hub.Request`, `Hub.Answers` — what is asked, and what answers it
* `Hub.asks`, `Hub.answersOf`

## Main results

* `Hub.answers_in_order`
-/

namespace TarkovVoice

namespace Coordinator

namespace Hub

variable {w : Ambient} {h h' : Hub} {c q : ClientPtr} {env : Envelope}

/-- What `readLoop` reads from the connection of a client: a message, or a text that is no JSON of
the protocol, which is answered with an error at once. -/
inductive Request
  | message (env : Envelope)
  | invalidJson
  deriving DecidableEq

/-- The types `handle` knows. -/
def messageTypes : List String :=
  ["hello", "list_rooms", "create_room", "join_room", "leave_room", "ice_offer", "ice_answer",
    "ice_candidate", "mute_status", "peer_status", "voice_frame", "heartbeat"]

/-- The types of messages that are not answered, or with the list of rooms. -/
def quietTypes : List String :=
  ["list_rooms", "leave_room", "mute_status", "peer_status", "voice_frame"]

/-- The types of envelopes that answer a message. -/
def answerTypes : List String := ["hello", "room_created", "joined_room", "heartbeat_ack", "error"]

/-- The envelope answers the request of the client with the id `own`. Each kind of request has its
own kind of answer, and an answer says what it answers by its id, its room or its error text. -/
inductive Answers (own : String) : Request → Envelope → Prop
  | hello {env : Envelope} (w : Ambient) : env.type = "hello" →
      Answers own (.message env) { type := "hello", peerID := own, sentAt := w.now }
  | created {env : Envelope} (w : Ambient) (room : Room) : env.type = "create_room" →
      room.name = roomName env → room.hostID = own → room.peers.keys = [own] →
      Answers own (.message env) (roomCreated w room)
  | joined {env : Envelope} (w : Ambient) (room : Room) : env.type = "join_room" →
      room.id = env.roomID → own ∈ room.peers.keys →
      Answers own (.message env) (joinedRoom w room)
  | refused {env : Envelope} (w : Ambient) {text : String} : env.type = "join_room" →
      text ∈ ["room not found", "room is full"] →
      Answers own (.message env) (errorEnvelope w text)
  | unavailable {env : Envelope} (w : Ambient) : IsIce env.type →
      Answers own (.message env) (errorEnvelope w "target peer unavailable")
  | heartbeat {env : Envelope} (w : Ambient) : env.type = "heartbeat" →
      Answers own (.message env) { type := "heartbeat_ack", sentAt := w.now }
  | unknown {env : Envelope} (w : Ambient) : env.type ∉ messageTypes →
      Answers own (.message env) (errorEnvelope w "unknown message type")
  | invalidJson (w : Ambient) : Answers own .invalidJson (errorEnvelope w "invalid json")

/-- An ICE message reaches its target. -/
def reaches (h : Hub) (c : ClientPtr) (env : Envelope) : Bool :=
  (h.clients.get env.targetPeerID).any fun target =>
    (h.client c).roomID ≠ "" ∧ (h.client target).roomID = (h.client c).roomID

/-- A message is answered. -/
def isAnswered (h : Hub) (c : ClientPtr) (env : Envelope) : Bool :=
  env.type ∉ quietTypes ∧ ¬ (IsIce env.type ∧ h.reaches c env)

/-- What an event asks for a client that is to be answered: a message of its own that calls for an
answer, or a text of its own that is no message. -/
def asks (h : Hub) (q : ClientPtr) : Event → List Request
  | .handle c env _ => if c = q ∧ h.isAnswered c env then [.message env] else []
  | .invalidJson c _ => if c = q then [.invalidJson] else []
  | .addClient _ _ _ | .removeClient _ _ | .writeLoop _ => []

/-- What the events of a path ask. -/
def asksOn (q : ClientPtr) (t : List (Hub × Event)) : List Request :=
  t.flatMap fun x => x.1.asks q x.2

/-- The answers among some envelopes. -/
def answersOf (l : List Envelope) : List Envelope := l.filter fun env => env.type ∈ answerTypes

/-! ### What counts as an answer -/

theorem answersOf_append (l l' : List Envelope) :
    answersOf (l ++ l') = answersOf l ++ answersOf l' :=
  List.filter_append ..

theorem answersOf_eq_nil {l : List Envelope} (h : ∀ env ∈ l, env.type ∉ answerTypes) :
    answersOf l = [] :=
  List.filter_eq_nil_iff.mpr fun env henv => by simpa using h env henv

theorem answersOf_toOne (htype : env.type ∈ answerTypes) :
    answersOf (toOne c env q) = toOne c env q :=
  List.filter_eq_self.mpr (forall_toOne (decide_eq_true htype) q)

theorem answersOf_toOne_of_not (htype : env.type ∉ answerTypes) :
    answersOf (toOne c env q) = [] := answersOf_eq_nil (forall_toOne htype q)

theorem answersOf_toRoom {m : GoMap ClientPtr} (htype : env.type ∉ answerTypes) :
    answersOf (h.toRoom m env q) = [] := answersOf_eq_nil (forall_toRoom htype q)

theorem answersOf_toRoommates (htype : env.type ∉ answerTypes) :
    answersOf (h.toRoommates c env q) = [] := answersOf_eq_nil (forall_toRoommates htype q)

theorem answersOf_toAll : answersOf (h.toAll w q) = [] :=
  answersOf_eq_nil (forall_toAll (show "rooms" ∉ answerTypes by decide) q)

theorem reaches_eq_true : h.reaches c env = true ↔ ∃ target, h.Routes c env target := by
  rw [reaches, Option.any_eq_true]
  simp only [decide_eq_true_eq, Routes]

/-! ### One message -/

/-- One answer to the message, for the sender alone. What else the step tells others is no answer to
anything. -/
def OneAnswer (h : Hub) (c : ClientPtr) (env : Envelope) (h' : Hub) : Prop :=
  ∃ answer, Answers (h.client c).id (.message env) answer ∧
    ∀ q, answersOf (h.news h' q) = toOne c answer q

/-- No answer for anybody. -/
def NoAnswer (h h' : Hub) : Prop := ∀ q, answersOf (h.news h' q) = []

theorem oneAnswer_deliver {answer : Envelope}
    (hanswer : Answers (h.client c).id (.message env) answer) (htype : answer.type ∈ answerTypes) :
    h.OneAnswer c env (h.deliver (toOne c answer)) := by
  refine ⟨answer, hanswer, fun q => ?_⟩
  rw [news_of_offered (offered_deliver _ q)]
  exact answersOf_toOne htype

theorem Inv.oneAnswer_createRoom (hi : h.Inv) (hc : h.Registered c)
    (htype : env.type = "create_room") : h.OneAnswer c env (h.createRoom w c env) := by
  have hid := (hi.vacated (w := w) hc env).2.id c
  refine ⟨_, .created w ((h.vacated w c env).newRoom w c env) htype rfl hid ?_, fun q => ?_⟩
  · show ((∅ : GoMap ClientPtr).put ((h.vacated w c env).client c).id c).keys = [(h.client c).id]
    rw [hid]
    rfl
  · rw [news_of_offered (hi.offered_createRoom hc env q), answersOf_append, answersOf_append,
      answersOf_toRoommates (show "peer_left" ∉ answerTypes by decide),
      answersOf_toOne (show "room_created" ∈ answerTypes by decide), answersOf_toAll,
      List.nil_append, List.append_nil]

theorem Inv.oneAnswer_joinRoom (hi : h.Inv) (hc : h.Registered c)
    (htype : env.type = "join_room") : h.OneAnswer c env (h.joinRoom w c env) := by
  by_cases haccepts : h.accepts env = true
  · obtain ⟨r, hr, hlen⟩ := accepts_eq_true.mp haccepts
    refine ⟨_, .joined w ((h.joined w c env r).room r) htype (hi.id_room_joined hc hr) ?_,
      fun q => ?_⟩
    · have hid : ((h.joined w c env r).client c).id = (h.client c).id :=
        id_joined.trans ((hi.vacated (w := w) hc env).2.id c)
      refine FMap.mem_keys.mpr ⟨c, (hi.joined_occupies hc hr hlen _ c).mpr ⟨?_, ?_⟩⟩
      · rw [← hid]
        exact hi.registered_joined hc env r
      · exact hi.roomID_joined hc hr
    · rw [news_of_offered (hi.offered_joinRoom hc hr hlen q), answersOf_append, answersOf_append,
        answersOf_append, answersOf_toRoommates (show "peer_left" ∉ answerTypes by decide),
        answersOf_toOne (show "joined_room" ∈ answerTypes by decide),
        answersOf_toRoommates (show "peer_joined" ∉ answerTypes by decide), answersOf_toAll,
        List.nil_append, List.nil_append, List.append_nil]
  · obtain ⟨text, htext, heq⟩ := joinRoom_of_not_accepts (w := w) (c := c) haccepts
    rw [heq]
    exact oneAnswer_deliver (.refused w htype htext) (show "error" ∈ answerTypes by decide)

theorem not_mem_answerTypes_of_ice (htype : IsIce env.type) : env.type ∉ answerTypes := by
  rcases htype with htype | htype | htype <;> rw [htype] <;> decide

theorem not_mem_answerTypes_of_status (htype : IsStatus env.type) : env.type ∉ answerTypes := by
  rcases htype with htype | htype <;> rw [htype] <;> decide

/-- A status or a voice frame is answered to nobody. -/
theorem noAnswer_broadcastLocked (hi : h.Inv) {rid : String} {r : RoomPtr}
    (hr : h.rooms.get rid = some r) (htype : env.type ∉ answerTypes) :
    h.NoAnswer (h.broadcastLocked w env r) := by
  intro q
  rw [broadcastLocked_eq (hi.room_keyed hr), news_of_offered (offered_deliver _ q)]
  exact answersOf_toRoom htype

theorem noAnswer_self : h.NoAnswer h := by
  intro q
  rw [news_self]
  rfl

/-- An ICE message is answered or passed on. -/
theorem oneAnswer_routeToPeer (htype : IsIce env.type) (hnot : ¬ h.reaches c env = true) :
    h.OneAnswer c env (h.routeToPeer w c env) := by
  rcases routeToPeer_cases w h c env with ⟨target, hroutes, -⟩ | ⟨-, heq⟩
  · exact absurd (reaches_eq_true.mpr ⟨target, hroutes⟩) hnot
  · rw [heq]
    exact oneAnswer_deliver (.unavailable w htype) (show "error" ∈ answerTypes by decide)

theorem noAnswer_routeToPeer (htype : IsIce env.type) (hreaches : h.reaches c env = true) :
    h.NoAnswer (h.routeToPeer w c env) := by
  rcases routeToPeer_cases w h c env with ⟨target, -, heq⟩ | ⟨hnone, -⟩
  · intro q
    rw [heq, news_of_offered (offered_deliver _ q)]
    exact answersOf_toOne_of_not (not_mem_answerTypes_of_ice htype)
  · obtain ⟨target, hroutes⟩ := reaches_eq_true.mp hreaches
    exact absurd hroutes (hnone target)

theorem noAnswer_leaveRoom (hi : h.Inv) (hc : h.Registered c) : h.NoAnswer (h.leaveRoom w c) := by
  intro q
  rw [news_of_offered (hi.offered_leaveRoom hc q), answersOf_append,
    answersOf_toRoommates (show "peer_left" ∉ answerTypes by decide), answersOf_toAll]
  rfl

theorem noAnswer_broadcastPeerStatus (hi : h.Inv) (htype : IsStatus env.type) :
    h.NoAnswer (h.broadcastPeerStatus w c env) := by
  cases hr : h.rooms.get (h.client c).roomID with
  | none =>
    simp only [broadcastPeerStatus, hr]
    exact noAnswer_self
  | some r =>
    simp only [broadcastPeerStatus, hr]
    exact noAnswer_broadcastLocked hi hr (not_mem_answerTypes_of_status htype)

theorem noAnswer_broadcastVoiceFrame (hi : h.Inv) : h.NoAnswer (h.broadcastVoiceFrame w c env) := by
  cases hr : h.rooms.get (h.client c).roomID with
  | none =>
    simp only [broadcastVoiceFrame, hr]
    exact noAnswer_self
  | some r =>
    simp only [broadcastVoiceFrame, hr]
    split
    · exact noAnswer_self
    · exact noAnswer_broadcastLocked hi hr (show "voice_frame" ∉ answerTypes by decide)

theorem oneAnswer_hello (htype : env.type = "hello") :
    h.OneAnswer c env ((h.updateNick c env).enqueue c
      (helloEnvelope w (h.updateNick c env) c)|>.sendRooms w c) := by
  have hid : ((h.updateNick c env).client c).id = (h.client c).id := id_updateNick c c env
  refine ⟨helloEnvelope w (h.updateNick c env) c, ?_, fun q => ?_⟩
  · rw [helloEnvelope, hid]
    exact .hello w htype
  · have hsend : ((h.updateNick c env).send q).offered = (h.send q).offered := by
      rw [updateNick_eq]
    rw [sendRooms, enqueue_eq, enqueue_eq]
    rw [news_of_offered (by rw [offered_deliver, offered_deliver, hsend, List.append_assoc]),
      answersOf_append, answersOf_toOne (show "hello" ∈ answerTypes by decide),
      answersOf_toOne_of_not (show "rooms" ∉ answerTypes by decide), List.append_nil]

/-- **One message** is answered to its sender, once, or to nobody. Which of the two depends on the
message and the hub before it. -/
theorem Inv.answered (hi : h.Inv) (hc : h.Registered c) (env : Envelope) :
    (h.isAnswered c env = true ∧ h.OneAnswer c env (h.handle w c env)) ∨
      (h.isAnswered c env = false ∧ h.NoAnswer (h.handle w c env)) := by
  have hyes : env.type ∉ quietTypes → ¬ IsIce env.type → h.isAnswered c env = true :=
    fun hquiet hice => decide_eq_true ⟨hquiet, fun hboth => hice hboth.1⟩
  have hno : env.type ∈ quietTypes → h.isAnswered c env = false := fun hquiet =>
    decide_eq_false fun hboth => hboth.1 hquiet
  have hroute : IsIce env.type →
      (h.isAnswered c env = true ∧ h.OneAnswer c env (h.routeToPeer w c env)) ∨
        (h.isAnswered c env = false ∧ h.NoAnswer (h.routeToPeer w c env)) := by
    intro hice
    by_cases hreaches : h.reaches c env = true
    · exact .inr ⟨decide_eq_false fun hboth => hboth.2 ⟨hice, hreaches⟩,
        noAnswer_routeToPeer hice hreaches⟩
    · have hquiet : env.type ∉ quietTypes := by
        rcases hice with htype | htype | htype <;> rw [htype] <;> decide
      exact .inl ⟨decide_eq_true ⟨hquiet, fun hboth => hreaches hboth.2⟩,
        oneAnswer_routeToPeer hice hreaches⟩
  unfold handle
  split
  case h_1 htype => exact .inl ⟨hyes (by rw [htype]; decide) (by rw [htype]; decide),
      oneAnswer_hello htype⟩
  case h_2 htype =>
    refine .inr ⟨hno (by rw [htype]; decide), fun q => ?_⟩
    rw [sendRooms, enqueue_eq, news_of_offered (offered_deliver _ q)]
    exact answersOf_toOne_of_not (show "rooms" ∉ answerTypes by decide)
  case h_3 htype => exact .inl ⟨hyes (by rw [htype]; decide) (by rw [htype]; decide),
      hi.oneAnswer_createRoom hc htype⟩
  case h_4 htype => exact .inl ⟨hyes (by rw [htype]; decide) (by rw [htype]; decide),
      hi.oneAnswer_joinRoom hc htype⟩
  case h_5 htype => exact .inr ⟨hno (by rw [htype]; decide), noAnswer_leaveRoom hi hc⟩
  case h_6 htype => exact hroute (.inl htype)
  case h_7 htype => exact hroute (.inr (.inl htype))
  case h_8 htype => exact hroute (.inr (.inr htype))
  case h_9 htype => exact .inr ⟨hno (by rw [htype]; decide),
      noAnswer_broadcastPeerStatus hi (.inl htype)⟩
  case h_10 htype => exact .inr ⟨hno (by rw [htype]; decide),
      noAnswer_broadcastPeerStatus hi (.inr htype)⟩
  case h_11 htype => exact .inr ⟨hno (by rw [htype]; decide), noAnswer_broadcastVoiceFrame hi⟩
  case h_12 htype =>
    refine .inl ⟨hyes (by rw [htype]; decide) (by rw [htype]; decide), ?_⟩
    rw [enqueue_eq]
    exact oneAnswer_deliver (.heartbeat w htype) (show "heartbeat_ack" ∈ answerTypes by decide)
  case h_13 hhello hlist hcreate hjoin hleave hoffer hanswer hcandidate hmute hpeer hvoice hbeat =>
    have hunknown : env.type ∉ messageTypes := by
      simp only [messageTypes, List.mem_cons, List.not_mem_nil, or_false, not_or]
      exact ⟨hhello, hlist, hcreate, hjoin, hleave, hoffer, hanswer, hcandidate, hmute, hpeer,
        hvoice, hbeat⟩
    have hquiet : env.type ∉ quietTypes := fun hmem =>
      hunknown ((by decide : quietTypes ⊆ messageTypes) hmem)
    have hice : ¬ IsIce env.type := fun htype =>
      htype.elim hoffer fun htype => htype.elim hanswer hcandidate
    rw [enqueue_eq]
    exact .inl ⟨hyes hquiet hice,
      oneAnswer_deliver (.unknown w hunknown) (show "error" ∈ answerTypes by decide)⟩

/-! ### Paths -/

/-- **One event**, for a client whose connection it does not end: as many answers as it asks for, in
order, and each the right one. -/
theorem Inv.answers_after (hi : h.Inv) {e : Event} (he : h.Enabled e) (q : ClientPtr) :
    List.Forall₂ (Answers (h.client q).id) (h.asks q e) (answersOf (h.news (h.after e) q)) := by
  cases e with
  | addClient id nick cap =>
    rw [news_addClient]
    exact .nil
  | handle c env w =>
    rw [asks, Hub.after]
    rcases hi.answered (w := w) he.1 env with ⟨hyes, answer, hanswer, hnews⟩ | ⟨hno, hnews⟩
    · rw [hnews, toOne]
      by_cases hqc : q = c
      · subst hqc
        rw [if_pos rfl, if_pos ⟨rfl, hyes⟩]
        exact .cons hanswer .nil
      · rw [if_neg hqc, if_neg fun hboth => hqc hboth.1.symm]
        exact .nil
    · rw [hnews, if_neg fun hboth => absurd (hboth.2.symm.trans hno) Bool.noConfusion]
      exact .nil
  | invalidJson c w =>
    rw [asks, Hub.after, enqueue_eq, news_of_offered (offered_deliver _ q),
      answersOf_toOne (show "error" ∈ answerTypes by decide), toOne]
    by_cases hqc : q = c
    · subst hqc
      rw [if_pos rfl, if_pos rfl]
      exact .cons (.invalidJson w) .nil
    · rw [if_neg hqc, if_neg fun heq => hqc heq.symm]
      exact .nil
  | removeClient c w =>
    obtain ⟨l, hrooms, hoff⟩ := hi.offered_removeClient (w := w) he q
    have hl : answersOf l = [] := answersOf_eq_nil fun env henv => by
      rw [hrooms env henv]
      decide
    rw [Hub.after, news_of_offered hoff, answersOf_append,
      answersOf_toRoommates (show "peer_left" ∉ answerTypes by decide), hl]
    exact .nil
  | writeLoop c =>
    rw [news_writeLoop]
    exact .nil

/-- **Requests are answered in order.** From any reachable hub on, whatever happens, and until the
connection of a registered client ends: the envelopes offered to its queue that answer somebody are
as many as the messages handled for it that are to be answered, and the n-th answers the n-th. If
its queue was never full, it took all of them. -/
theorem answers_in_order (hreach : machine.Reachable h) {t : List (Hub × Event)}
    (hpath : machine.Path h t h') (hq : h.Registered q)
    (hlives : ∀ x ∈ t, ∀ w, x.2 ≠ .removeClient q w) :
    List.Forall₂ (Answers (h.client q).id) (asksOn q t) (answersOf (h.news h' q)) ∧
      ((h'.send q).NeverFull → h.accepted h' q = h.news h' q) := by
  suffices h'.Registered q ∧ (h'.client q).id = (h.client q).id ∧ h.Grows h' q ∧
      List.Forall₂ (Answers (h.client q).id) (asksOn q t) (answersOf (h.news h' q)) from
    ⟨this.2.2.2, this.2.2.1.accepted_eq_news⟩
  obtain ⟨t₀, hrun⟩ := hreach
  induction hpath with
  | nil =>
    refine ⟨hq, rfl, grows_of_send rfl rfl, ?_⟩
    rw [news_self]
    exact .nil
  | @snoc t u v e hpath hstep ih =>
    obtain ⟨he, rfl⟩ := hstep
    obtain ⟨hreg, hid, hgrows, hanswers⟩ := ih fun x hx => hlives x (List.mem_append_left _ hx)
    have hi := inv_of_reachable ⟨_, hrun.append_path hpath⟩
    have hnot : ∀ w, e ≠ .removeClient q w :=
      hlives (u, e) (List.mem_append_right _ (List.mem_singleton_self _))
    obtain ⟨hreg', hid'⟩ := hi.registered_after he hreg hnot
    obtain ⟨hgrows', hnews⟩ := hgrows.news_trans (hi.grows_after he hreg)
    refine ⟨hreg', hid'.trans hid, hgrows', ?_⟩
    have hlast := hi.answers_after he q
    rw [hid] at hlast
    rw [hnews, answersOf_append, asksOn, List.flatMap_append, List.flatMap_singleton]
    exact List.rel_append hanswers hlast

/-- The guest of `shared` asks for a room that is not there, and sends a heartbeat. -/
def strayRequest : Event :=
  .handle 1 { type := "join_room", roomID := "room_b2" } (Ambient.plain 30 "a3")

def heartbeat : Event := .handle 1 { type := "heartbeat" } (Ambient.plain 40 "a4")

theorem answers_in_order_shared :
    List.Forall₂ (Answers "peer_2")
      [.message { type := "join_room", roomID := "room_b2" }, .message { type := "heartbeat" }]
      (answersOf (shared.news ((shared.after strayRequest).after heartbeat) 1)) := by
  have he : shared.Enabled strayRequest := And.intro (by decide) (by decide)
  have he' : (shared.after strayRequest).Enabled heartbeat := And.intro (by decide) (by decide)
  have hpath : machine.Path shared [(shared, strayRequest), (shared.after strayRequest, heartbeat)]
      ((shared.after strayRequest).after heartbeat) :=
    (Machine.Path.single (M := machine) ⟨he, rfl⟩).snoc ⟨he', rfl⟩
  have hlives : ∀ x ∈ [(shared, strayRequest), (shared.after strayRequest, heartbeat)],
      ∀ w, x.2 ≠ .removeClient 1 w := by
    intro x hx w heq
    rcases List.mem_cons.mp hx with rfl | hx
    · exact absurd heq Event.noConfusion
    · rw [List.mem_singleton.mp hx] at heq
      exact absurd heq Event.noConfusion
  have hasks : asksOn 1 [(shared, strayRequest), (shared.after strayRequest, heartbeat)] =
      [.message { type := "join_room", roomID := "room_b2" },
        .message { type := "heartbeat" }] := by
    decide
  rw [← hasks]
  exact (answers_in_order shared_reachable hpath (by decide) hlives).1

end Hub

end Coordinator

end TarkovVoice

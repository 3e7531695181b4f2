import Mathlib.Data.Finset.Image
import TarkovVoice.Client.Roster
import TarkovVoice.Protocol.Genuine

/-!
# The session mirrors the room

A member's application learns who is in its room from the texts the coordinator sends it. This file
follows them all the way: from the envelopes that are queued for a member, over their texts, cut
into buffers and read by the receiving thread, to the events the main thread handles.

When everything has been read and handled, the session shows everybody in the room. It shows nobody
else if the member has entered only one room on its connection: the session is never told that those
it met in an earlier room are gone.

## Main definitions

* `showStep`, `shown` — what envelopes make of the participants a session shows
* `Mirrors` — the session shows the room

## Main results

* `rosterEvents_marshal` — the events of a text do what its envelope says
* `shown_replay` — what is shown, and what the envelopes amount to
* `session_mirrors_room` — the result, over the runs of the hub and of the client
-/

namespace TarkovVoice

namespace Protocol

open Net Coordinator Client
open Audio (Platform)

/-- What an envelope makes of the participants a session shows besides its own. -/
def showStep (own : String) (shown : Finset String) (env : Envelope) : Finset String :=
  if env.type = "joined_room" then
    shown ∪ (env.room.elim [] RoomSnapshot.peers).toFinset.erase own
  else if env.type = "peer_status" ∨ env.type = "peer_joined" then
    if env.peerID = own then shown else insert env.peerID shown
  else if env.type = "peer_left" then shown.erase env.peerID
  else shown

/-- The participants a session shows after a history of envelopes, which begins with nobody
shown. -/
def shown (own : String) (l : List Envelope) : Finset String := l.foldl (showStep own) ∅

/-! ### The events of a text -/

section Events

variable {now : ℕ} {text type : Bytes} {own : Bytes} {known : Finset Bytes} {event : Event}

/-- The events of a text are of its type, except for the answer to a greeting, whose event says that
the client is connected. -/
theorem type_of_mem_eventsOf (htype : extractJsonString text (utf8 "type") = some type) :
    ∀ e ∈ eventsOf now text, e.type = type ∨ e.type = utf8 "connected" := by
  have hnone : ∀ e ∈ ({} : SignalingClient).events, e.type = type ∨ e.type = utf8 "connected" :=
    fun e he => absurd he List.not_mem_nil
  have hone : ∀ {c : SignalingClient} {event : Event}, c.events = [] →
      event.type = type ∨ event.type = utf8 "connected" →
      ∀ e ∈ (c.queueEvent event).events, e.type = type ∨ e.type = utf8 "connected" := by
    intro c event hc hevent e he
    rw [SignalingClient.queueEvent, hc, List.nil_append, List.mem_singleton] at he
    exact he ▸ hevent
  -- the branches, one after the other
  have hbranch : ∀ {p : Prop} [Decidable p] {a b : SignalingClient},
      (∀ e ∈ a.events, e.type = type ∨ e.type = utf8 "connected") →
      (∀ e ∈ b.events, e.type = type ∨ e.type = utf8 "connected") →
      ∀ e ∈ (if p then a else b).events, e.type = type ∨ e.type = utf8 "connected" := by
    intro p _ a b ha hb
    by_cases hp : p
    · rw [if_pos hp]
      exact ha
    · rw [if_neg hp]
      exact hb
  rw [eventsOf, SignalingClient.handleServerMessage, htype, Option.getD_some]
  refine hbranch hnone (hbranch (hone rfl (.inr rfl)) (hbranch hnone (hbranch ?_ ?_)))
  · cases roomOfMessage text with
    | none => exact hnone
    | some room =>
      refine hone ?_ (.inl rfl)
      split <;> rfl
  · refine hbranch (hone rfl (.inl rfl)) (hbranch (hone rfl (.inl rfl)) (hbranch ?_ ?_))
    · exact hbranch (hone rfl (.inl rfl)) hnone
    · exact hbranch (hone rfl (.inl rfl)) (hbranch (hone rfl (.inl rfl)) hnone)

/-- A confirmation that one has joined a room comes as one event, with the room. -/
theorem eventsOf_joined (now : ℕ)
    (htype : extractJsonString text (utf8 "type") = some (utf8 "joined_room"))
    {room : RoomInfo} (hroom : roomOfMessage text = some room) :
    ∃ event : Event, eventsOf now text = [event] ∧ event.type = utf8 "joined_room" ∧
      event.room = room := by
  have hkinds : utf8 "joined_room" ∉ [[], utf8 "hello", utf8 "rooms", utf8 "room_created"] := by
    decide
  simp only [List.mem_cons, List.not_mem_nil, or_false, not_or] at hkinds
  refine ⟨{ type := utf8 "joined_room", peer := { lastSeen := now }, room }, ?_, rfl, rfl⟩
  simp only [eventsOf, SignalingClient.handleServerMessage, htype, Option.getD_some, hkinds,
    if_false, or_true, if_true, hroom, SignalingClient.queueEvent, List.nil_append]

/-- The types of messages about a peer's presence. -/
def presenceTypes : List String := ["peer_status", "peer_joined", "peer_left"]

/-- A message about a peer's presence comes as one event, with the peer's id. What it says of the
peer besides does not matter here. -/
theorem eventsOf_presence (now : ℕ) {type : String} (hmem : type ∈ presenceTypes)
    (htype : extractJsonString text (utf8 "type") = some (utf8 type)) {id : Bytes}
    (hid : extractJsonString text (utf8 "peerId") = some id) (hne : id ≠ []) :
    ∃ event : Event, eventsOf now text = [event] ∧ event.type = utf8 type ∧
      event.peer.id = id := by
  have hkinds : ∀ type ∈ presenceTypes,
      utf8 type ∉ [[], utf8 "hello", utf8 "rooms", utf8 "room_created", utf8 "joined_room"] := by
    decide
  have hpresence : ∀ type ∈ presenceTypes, utf8 type = utf8 "peer_status" ∨
      utf8 type = utf8 "peer_joined" ∨ utf8 type = utf8 "peer_left" := by decide
  have hkind := hkinds type hmem
  simp only [List.mem_cons, List.not_mem_nil, or_false, not_or] at hkind
  have hpeer : (parsePeerStatus now text).id = id := by rw [parsePeerStatus, hid, Option.getD_some]
  refine ⟨{ type := utf8 type, peer := parsePeerStatus now text }, ?_, rfl, hpeer⟩
  simp only [eventsOf, SignalingClient.handleServerMessage, htype, Option.getD_some, hkind,
    if_false, or_false, hpresence type hmem, if_true, hpeer, hne, SignalingClient.queueEvent,
    List.nil_append]

theorem rosterEvent_joined (h : event.type = utf8 "joined_room") :
    rosterEvent own known event =
      known ∪ event.room.peerIds.toFinset.filter fun k => k ≠ [] ∧ k ≠ own := by
  rw [rosterEvent, Event.toSignalingEvent, if_pos h]
  rfl

/-- What a message about a peer's presence makes of the participants. Whoever has left is taken out,
anybody else is added, and oneself is neither. -/
theorem rosterEvent_presence {type : String} (hmem : type ∈ presenceTypes)
    (h : event.type = utf8 type) (hid : event.peer.id ≠ []) :
    rosterEvent own known event =
      if type = "peer_left" then known.erase event.peer.id
      else if event.peer.id = own then known else insert event.peer.id known := by
  simp only [presenceTypes, List.mem_cons, List.not_mem_nil, or_false] at hmem
  rw [rosterEvent, Event.toSignalingEvent, h]
  rcases hmem with rfl | rfl | rfl
  · rw [if_neg (by decide), if_pos rfl, if_neg (by decide)]
    simp only [rosterStep, hid, false_or]
  · rw [if_neg (by decide), if_neg (by decide), if_pos rfl, if_neg (by decide)]
    simp only [rosterStep, hid, false_or]
  · rw [if_neg (by decide), if_neg (by decide), if_neg (by decide), if_neg (by decide),
      if_neg (by decide), if_neg (by decide), if_neg (by decide), if_pos rfl, if_pos rfl]
    simp only [rosterStep, hid, if_false]

/-- The types of the other events leave the participants alone: greetings, rooms, signals, frames
and errors. -/
theorem rosterEvent_of_not_mem
    (h : event.type ∉ [utf8 "joined_room", utf8 "peer_status", utf8 "peer_joined",
      utf8 "peer_left", utf8 "room_closed"]) : rosterEvent own known event = known := by
  simp only [List.mem_cons, List.not_mem_nil, or_false, not_or] at h
  obtain ⟨hjoinedRoom, hstatus, hjoined, hleft, hclosed⟩ := h
  rw [rosterEvent, Event.toSignalingEvent, if_neg hjoinedRoom, if_neg hstatus, if_neg hjoined,
    if_neg hleft, if_neg hclosed]
  split_ifs <;> rfl

theorem toSignalingEvent_ne_roomClosed (h : event.type ≠ utf8 "room_closed") :
    event.toSignalingEvent ≠ some .roomClosed := by
  rw [Event.toSignalingEvent, if_neg h]
  split_ifs <;> simp

end Events

/-! ### Envelopes and their events -/

section Envelopes

variable {own : String} {env : Envelope} (compact : Bytes → Bytes) (now : ℕ)

theorem GenuineMail.printable_type (h : GenuineMail own env) : Printable env.type := by
  have hall : ∀ type ∈ plainTypes ++ roomTypes, Printable type := by decide
  exact hall _ h.type

/-- **The peer a message is about.** Its id comes third, after the type and the room's id, so no
text of a user stands before it. -/
theorem GenuineMail.peerId_marshal (h : GenuineMail own env) (htype : env.type ∈ roomTypes) :
    extractJsonString (env.marshal compact) (utf8 "peerId") = some (utf8 env.peerID) := by
  obtain ⟨hroom, hpeer⟩ := h.ids htype
  have hkey : Word (utf8 "peerId") := by decide
  have hroomID : (env.roomID == "") = false := beq_eq_false_iff_ne.mpr hroom.ne_empty
  have hpeerID : (env.peerID == "") = false := beq_eq_false_iff_ne.mpr hpeer.ne_empty
  have hfirst : ∃ more, env.marshal compact = object
      ([(utf8 "type", .string (utf8 env.type)), (utf8 "roomId", .string (utf8 env.roomID)),
        (utf8 "peerId", .string (utf8 env.peerID))].map writeField ++ more) := by
    have hmembers :
        [(utf8 "type", .string (utf8 env.type)), (utf8 "roomId", .string (utf8 env.roomID)),
          (utf8 "peerId", .string (utf8 env.peerID))].map writeField =
        [member "type" (appendString env.type), member "roomId" (appendString env.roomID),
          member "peerId" (appendString env.peerID)] := by
      rw [member_string (by decide) h.printable_type,
        member_string (by decide) (hroom.printable (by decide)),
        member_string (by decide) (hpeer.printable (by decide))]
      rfl
    rw [hmembers]
    simp only [Envelope.marshal, omitEmpty, hroomID, hpeerID, List.append_assoc, List.cons_append,
      List.nil_append, Bool.false_eq_true, if_false]
    exact ⟨_, rfl⟩
  obtain ⟨more, hmarshal⟩ := hfirst
  obtain ⟨text, hobject, hfields⟩ := object_eq (utf8 "type", .string (utf8 env.type))
    [(utf8 "roomId", .string (utf8 env.roomID)), (utf8 "peerId", .string (utf8 env.peerID))] more
  have hread : readAt (utf8 "peerId")
      [(utf8 "type", .string (utf8 env.type)), (utf8 "roomId", .string (utf8 env.roomID)),
        (utf8 "peerId", .string (utf8 env.peerID))] =
      some [(utf8 "peerId", .string (utf8 env.peerID))] := by
    have hall : ∀ type ∈ roomTypes, ¬ Shadows (utf8 type) (utf8 "peerId") := by decide
    have htype : ¬ (Value.string (utf8 env.type)).Hides (utf8 "peerId") := hall _ htype
    have hid : ¬ (Value.string (utf8 env.roomID)).Hides (utf8 "peerId") :=
      hroom.not_shadows (by decide) hkey
    rw [readAt, if_neg (by decide), if_neg htype, readAt, if_neg (by decide), if_neg hid]
    exact if_pos rfl
  have hsound : SoundFields
      [(utf8 "type", .string (utf8 env.type)), (utf8 "roomId", .string (utf8 env.roomID)),
        (utf8 "peerId", .string (utf8 env.peerID))] := by
    simp only [SoundFields, List.forall_mem_cons, List.not_mem_nil, false_imp_iff, implies_true,
      and_true]
    exact ⟨⟨by decide, trivial⟩, ⟨by decide, trivial⟩, hkey, trivial⟩
  have hfind := findJsonValue_fields hkey hsound (stops_members more) hread
  rw [hfields, findJsonValue_cons (d := openBrace) (by decide) (by decide), ← hobject,
    ← hmarshal] at hfind
  rw [extractJsonString_of_find hfind, clean_utf8 (hpeer.printable (by decide))]

theorem injective_utf8 : Function.Injective utf8 := fun _ _ => utf8_injective

theorem utf8_ne_nil {s : String} (h : s ≠ "") : utf8 s ≠ [] := fun heq =>
  h (utf8_injective (heq.trans (show [] = utf8 "" by decide)))

/-- **The members of a room**, as they arrive: all of them, in the order in which the room was
written, however the room is called. -/
theorem GenuineRoom.peerIds_eq {room : Room} (h : GenuineRoom room) (w : Ambient) :
    (parseRoom (room.snapshot w true).marshal).peerIds = (room.snapshot w true).peers.map utf8 := by
  refine (h.held w true).peerIds_iff.mpr fun hshadows => ?_
  rcases hshadows with hname | hnick
  · exact absurd hname h.readableName.2
  · exact absurd hnick h.readableNick.2

/-- **The events of a text** do to the participants what the envelope says. The text is that of an
envelope of a genuine run, to the client `own`. -/
theorem rosterEvents_marshal (h : GenuineMail own env) (known : Finset String) :
    (eventsOf now (env.marshal compact)).foldl (rosterEvent (utf8 own)) (known.image utf8) =
      (showStep own known env).image utf8 := by
  have htype := type_marshal compact h.printable_type
  by_cases hjoined : env.type = "joined_room"
  · obtain ⟨w, room, hroom, henv, -⟩ := h.answer (.inr hjoined)
    rw [hjoined] at htype henv
    have hinfo := roomOfMessage_marshal compact (show Printable "joined_room" by decide) (by decide)
      w hroom.toKnown
    rw [← henv] at hinfo
    obtain ⟨event, hevents, hevent, hinfo⟩ := eventsOf_joined now htype hinfo
    have hpeers : env.room.elim [] RoomSnapshot.peers = (room.snapshot w true).peers := by
      rw [henv]
      rfl
    have hids := (hroom.held w true).peers
    rw [hevents, List.foldl_cons, List.foldl_nil, rosterEvent_joined hevent, hinfo,
      hroom.peerIds_eq, showStep, if_pos hjoined, hpeers, Finset.image_union]
    congr 1
    ext k
    simp only [Finset.mem_filter, List.mem_toFinset, List.mem_map, Finset.mem_image,
      Finset.mem_erase]
    constructor
    · rintro ⟨⟨p, hp, rfl⟩, -, hne⟩
      exact ⟨p, ⟨fun heq => hne (heq ▸ rfl), hp⟩, rfl⟩
    · rintro ⟨p, ⟨hne, hp⟩, rfl⟩
      exact ⟨⟨p, hp, rfl⟩, utf8_ne_nil (hids p hp).ne_empty, fun heq => hne (utf8_injective heq)⟩
  by_cases hpresence : env.type ∈ presenceTypes
  · have hroom : ∀ type ∈ presenceTypes, type ∈ roomTypes := by decide
    have hmem := hroom _ hpresence
    have hid := utf8_ne_nil (h.ids hmem).2.ne_empty
    obtain ⟨event, hevents, hevent, heq⟩ :=
      eventsOf_presence now hpresence htype (h.peerId_marshal compact hmem) hid
    rw [hevents, List.foldl_cons, List.foldl_nil,
      rosterEvent_presence hpresence hevent (heq ▸ hid), heq, showStep, if_neg hjoined]
    have hown : utf8 env.peerID = utf8 own ↔ env.peerID = own := injective_utf8.eq_iff
    simp only [presenceTypes, List.mem_cons, List.not_mem_nil, or_false] at hpresence
    rcases hpresence with hstatus | hother | hleft
    · have hstays : env.type ≠ "peer_left" := by rw [hstatus]; decide
      rw [if_neg hstays, if_pos (Or.inl hstatus), apply_ite (Finset.image utf8),
        Finset.image_insert]
      simp only [hown]
    · have hstays : env.type ≠ "peer_left" := by rw [hother]; decide
      rw [if_neg hstays, if_pos (Or.inr hother), apply_ite (Finset.image utf8), Finset.image_insert]
      simp only [hown]
    · rw [if_pos hleft, if_neg (by rw [hleft]; decide), if_pos hleft,
        Finset.image_erase injective_utf8]
  · -- The other types do not concern the participants.
    have hquiet : ∀ type ∈ plainTypes ++ roomTypes, type ≠ "joined_room" → type ∉ presenceTypes →
        utf8 type ∉ [utf8 "joined_room", utf8 "peer_status", utf8 "peer_joined",
          utf8 "peer_left", utf8 "room_closed"] := by decide
    have hfold : ∀ (events : List Event) (known : Finset Bytes),
        (∀ e ∈ events, e.type = utf8 env.type ∨ e.type = utf8 "connected") →
        events.foldl (rosterEvent (utf8 own)) known = known := by
      intro events
      induction events with
      | nil => exact fun _ _ => rfl
      | cons event events ih =>
        intro known hevents
        rw [List.foldl_cons, rosterEvent_of_not_mem, ih _ fun e he =>
          hevents e (List.mem_cons_of_mem _ he)]
        rcases hevents event List.mem_cons_self with hevent | hevent
        · rw [hevent]
          exact hquiet _ h.type hjoined hpresence
        · rw [hevent]
          decide
    simp only [presenceTypes, List.mem_cons, List.not_mem_nil, or_false, not_or] at hpresence
    rw [hfold _ _ (type_of_mem_eventsOf htype), showStep, if_neg hjoined,
      if_neg (not_or.mpr ⟨hpresence.1, hpresence.2.1⟩), if_neg hpresence.2.2]

/-- The coordinator never says that a room is closed. The client knows the message, and would leave
the room. -/
theorem GenuineMail.not_roomClosed (h : GenuineMail own env) :
    ∀ e ∈ eventsOf now (env.marshal compact), e.toSignalingEvent ≠ some .roomClosed := by
  intro e he
  have hall : ∀ type ∈ plainTypes ++ roomTypes, utf8 type ≠ utf8 "room_closed" := by decide
  refine toSignalingEvent_ne_roomClosed ?_
  rcases type_of_mem_eventsOf (type_marshal compact h.printable_type) e he with heq | heq
  · rw [heq]
    exact hall _ h.type
  · rw [heq]
    decide

end Envelopes

/-! ### Histories -/

section Histories

variable {own : String} {l : List Envelope}

/-- How often a client was told that it has entered a room. -/
def entries (l : List Envelope) : ℕ := l.countP fun env => decide (Enters env.type)

theorem entered_of_entries_eq_zero (h : entries l = 0) : entered l = none := by
  have hnone : ∀ env ∈ l, ¬ Enters env.type := by simpa [entries] using h
  exact entered_append_of_not (l := []) hnone

theorem entries_append_singleton (env : Envelope) :
    entries (l ++ [env]) = entries l + if Enters env.type then 1 else 0 := by
  rw [entries, List.countP_append, List.countP_singleton, ← entries]
  simp only [decide_eq_true_eq]

/-- What is shown, after a history of envelopes that make sense. Who was in a room before one
entered the next stays shown, so nobody else is promised only for the first. -/
structure ShownWell (own : String) (l : List Envelope) (shown : Finset String) : Prop where
  /-- Everybody the envelopes amount to is shown. -/
  all : (replay l).erase own ⊆ shown
  /-- Nobody is shown before one enters a room. -/
  none : entries l = 0 → shown = ∅
  /-- Nobody else is shown when one has entered a single room. -/
  only : entries l ≤ 1 → shown ⊆ (replay l).erase own

/-- What an envelope may say after others: it makes sense there, and is one of a genuine run. -/
def Expected (own : String) (before : List Envelope) (env : Envelope) : Prop :=
  Sensible before env ∧ GenuineMail own env

theorem replay_append_singleton (env : Envelope) :
    replay (l ++ [env]) = replayStep (replay l) env := by
  rw [replay_append, List.foldl_cons, List.foldl_nil]

section Step

variable {known : Finset String} {env : Envelope}

/-- Nobody has been spoken of before the first entry. What is about a peer in the reader's room
makes no sense without a room. -/
theorem entries_ne_zero (h : Sensible l env) (hmem : env.type ∈ roomTypes) : entries l ≠ 0 := by
  intro hzero
  have hsome := h.room hmem
  rw [entered_of_entries_eq_zero hzero] at hsome
  exact absurd hsome.symm (Option.some_ne_none _)

/-- The founder of a room is alone in it. So the client need not look for others in the
confirmation, and does not. -/
theorem GenuineMail.founded (h : GenuineMail own env) (hcreated : env.type = "room_created") :
    ∀ k ∈ env.room.elim [] RoomSnapshot.peers, k = own := by
  obtain ⟨w, room, -, henv, hkeys⟩ := h.answer (.inl hcreated)
  rw [henv]
  intro k hk
  have hkey : k ∈ room.peers.keys := FMap.mem_keys.mpr (Hub.mem_snapshot_peers.mp hk)
  rw [hkeys hcreated] at hkey
  exact List.mem_singleton.mp hkey

/-- Entering a room. It comes with its members, who are shown from then on. -/
theorem ShownWell.enter (h : ShownWell own l known) (hmail : GenuineMail own env)
    (henters : Enters env.type) : ShownWell own (l ++ [env]) (showStep own known env) := by
  have hcount : entries (l ++ [env]) = entries l + 1 := by
    rw [entries_append_singleton, if_pos henters]
  have hfirst : entries (l ++ [env]) ≤ 1 → known = ∅ := fun hle => h.none (by omega)
  have hreplay : replay (l ++ [env]) = (env.room.elim [] RoomSnapshot.peers).toFinset := by
    rw [replay_append_singleton, replayStep]
    exact if_pos henters
  rcases henters with hcreated | hjoined
  · have hstep : showStep own known env = known := by
      rw [showStep, hcreated]
      rfl
    rw [hstep]
    refine ⟨fun k hk => ?_, fun hzero => by omega, fun hle => ?_⟩
    · rw [hreplay, Finset.mem_erase, List.mem_toFinset] at hk
      exact absurd (hmail.founded hcreated k hk.2) hk.1
    · rw [hfirst hle]
      exact Finset.empty_subset _
  · rw [showStep, if_pos hjoined]
    refine ⟨?_, fun hzero => by omega, fun hle => ?_⟩
    · rw [hreplay]
      exact Finset.subset_union_right
    · rw [hreplay, hfirst hle, Finset.empty_union]

/-- Somebody joins, or shows its status, and has been introduced then. -/
theorem ShownWell.meet (h : ShownWell own l known) (hsense : Sensible l env)
    (hpresence : env.type = "peer_status" ∨ env.type = "peer_joined") :
    ShownWell own (l ++ [env]) (showStep own known env) := by
  have hkinds : ∀ type, type = "peer_status" ∨ type = "peer_joined" →
      ¬ Enters type ∧ type ≠ "joined_room" ∧ type ∈ roomTypes := by
    rintro type (rfl | rfl) <;> decide
  obtain ⟨hnot, hroom, hmem⟩ := hkinds _ hpresence
  have hcount : entries (l ++ [env]) = entries l := by
    rw [entries_append_singleton, if_neg hnot, Nat.add_zero]
  have hreplay : replay (l ++ [env]) = insert env.peerID (replay l) := by
    rw [replay_append_singleton, replayStep]
    refine (if_neg hnot).trans ?_
    rcases hpresence with hstatus | hjoined
    · have hknown := (hsense.peer hmem).mpr (by rw [hstatus]; decide)
      rw [hstatus, if_neg (by decide), if_neg (by decide), Finset.insert_eq_of_mem hknown]
    · rw [if_pos hjoined]
  have hothers : (replay (l ++ [env])).erase own =
      if env.peerID = own then (replay l).erase own
      else insert env.peerID ((replay l).erase own) := by
    rw [hreplay]
    split_ifs with hown
    · rw [hown, Finset.erase_insert_eq_erase]
    · rw [Finset.erase_insert_of_ne hown]
  rw [showStep, if_neg hroom, if_pos hpresence]
  refine ⟨?_, fun hzero => ?_, fun hle => ?_⟩
  · rw [hothers]
    split_ifs
    · exact h.all
    · exact Finset.insert_subset_insert _ h.all
  · exact absurd (hcount ▸ hzero) (entries_ne_zero hsense hmem)
  · rw [hothers]
    split_ifs
    · exact h.only (hcount ▸ hle)
    · exact Finset.insert_subset_insert _ (h.only (hcount ▸ hle))

/-- Somebody leaves, or nobody's presence changes. -/
theorem ShownWell.part (h : ShownWell own l known) (hnot : ¬ Enters env.type)
    (hpresence : ¬ (env.type = "peer_status" ∨ env.type = "peer_joined")) :
    ShownWell own (l ++ [env]) (showStep own known env) := by
  have hcount : entries (l ++ [env]) = entries l := by
    rw [entries_append_singleton, if_neg hnot, Nat.add_zero]
  have hreplay : replay (l ++ [env]) =
      if env.type = "peer_left" then (replay l).erase env.peerID else replay l := by
    rw [replay_append_singleton, replayStep]
    exact (if_neg hnot).trans (if_neg fun heq => hpresence (.inr heq))
  rw [showStep, if_neg fun heq => hnot (.inr heq), if_neg hpresence]
  refine ⟨?_, fun hzero => ?_, fun hle => ?_⟩ <;> by_cases hleft : env.type = "peer_left"
  · rw [hreplay, if_pos hleft, if_pos hleft, Finset.erase_right_comm]
    exact Finset.erase_subset_erase _ h.all
  · rw [hreplay, if_neg hleft, if_neg hleft]
    exact h.all
  · rw [if_pos hleft, h.none (hcount ▸ hzero), Finset.erase_empty]
  · rw [if_neg hleft, h.none (hcount ▸ hzero)]
  · rw [hreplay, if_pos hleft, if_pos hleft, Finset.erase_right_comm]
    exact Finset.erase_subset_erase _ (h.only (hcount ▸ hle))
  · rw [hreplay, if_neg hleft, if_neg hleft]
    exact h.only (hcount ▸ hle)

theorem ShownWell.step (h : ShownWell own l known) (henv : Expected own l env) :
    ShownWell own (l ++ [env]) (showStep own known env) := by
  by_cases henters : Enters env.type
  · exact h.enter henv.2 henters
  by_cases hpresence : env.type = "peer_status" ∨ env.type = "peer_joined"
  · exact h.meet henv.1 hpresence
  · exact h.part henters hpresence

end Step

/-- **What is shown after a history** that makes sense: everybody the history amounts to, and in a
first room nobody else. -/
theorem shown_replay (h : Justified (Expected own) l) : ShownWell own l (shown own l) := by
  refine h.foldl ⟨?_, fun _ => rfl, fun _ => Finset.empty_subset _⟩
    fun before env known henv hbefore => hbefore.step henv
  exact Finset.erase_subset _ _

end Histories

/-! ### Runs -/

section Runs

variable {α β : Type*} {platform : Platform α β} {isNumericHost : Bytes → Bool}

/-- The session shows the members of the room besides `own`, and nobody else. Its ids are the
room's, as bytes. -/
def Mirrors (room : Room) (own : String) (app : Application α β) : Prop :=
  ∀ k, k ∈ app.session.peers.keys ↔ ∃ peer ∈ room.peers.keys, peer ≠ own ∧ k = utf8 peer

/-- **The events of a history of texts** do to the participants what the envelopes say, one after
the other. The induction is on the envelopes. -/
theorem rosterEvents_texts (compact : Bytes → Bytes) {own : String} {l : List Envelope} :
    ∀ {messages : List Inbox.Framed} (known : Finset String),
      (∀ env ∈ l, GenuineMail own env) →
      messages.map Inbox.Framed.text = l.map (Envelope.marshal compact) →
      (messages.flatMap fun m => eventsOf m.now m.text).foldl (rosterEvent (utf8 own))
        (known.image utf8) = (l.foldl (showStep own) known).image utf8 := by
  induction l with
  | nil =>
    intro messages known _ htexts
    rw [List.map_nil, List.map_eq_nil_iff] at htexts
    rw [htexts]
    rfl
  | cons env l ih =>
    intro messages known hmail htexts
    obtain ⟨m, messages, rfl, htext, hrest⟩ := List.map_eq_cons_iff.mp htexts
    rw [List.flatMap_cons, List.foldl_append, htext,
      rosterEvents_marshal compact m.now (hmail env List.mem_cons_self), List.foldl_cons]
    exact ih _ (fun env' henv' => hmail env' (List.mem_cons_of_mem _ henv')) hrest

/-- **The session mirrors the room.** A member of a room runs the application. In the coordinator's
run the ids are made up and nicks and room names are readable, and the member's queue never
overflowed. Its receiving thread has read the text of everything that was queued for the member,
however the texts were cut into buffers, and the main thread has handled the events, whatever was
sent in between and whether or not sending failed. Then the session shows everybody in the room, and
nobody else if the member has entered only one room. -/
theorem session_mirrors_room {t : List (Hub × Hub.Event)} {h : Hub}
    (hrun : Hub.machine.Run t h) (ht : ∀ x ∈ t, GenuineEvent x.2) {rid : String} {r : RoomPtr}
    (hr : h.rooms.get rid = some r) {own : String} {c : ClientPtr}
    (hmem : (h.room r).peers.get own = some c) (hfull : (h.send c).NeverFull)
    (compact : Bytes → Bytes) {t' : List (Inbox α β × Inbox.Step α)} {s : Inbox α β}
    (hrun' : (Inbox.machine platform isNumericHost (Inbox.Alone (utf8 own))).Run t' s)
    (messages : List Inbox.Framed)
    (htexts : messages.map Inbox.Framed.text = (h.send c).queued.map (Envelope.marshal compact))
    (hread : (Inbox.reads t').filter Inbox.isText = messages.flatMap Inbox.Framed.buffers)
    (hhandled : s.signaling.events = []) :
    (∀ peer ∈ (h.room r).peers.keys, peer ≠ own → utf8 peer ∈ s.app.session.peers.keys) ∧
      (entries (h.send c).queued ≤ 1 → Mirrors (h.room r) own s.app) := by
  have hreach : Hub.machine.Reachable h := ⟨t, hrun⟩
  have hi := Hub.inv_of_reachable hreach
  have hok := hi.rooms_ok hr
  obtain ⟨hget, hroom⟩ := (hok.peers_iff own c).mp hmem
  have hid : (h.client c).id = own := hi.clients_keyed hget
  -- What is queued makes sense, and amounts to the members of the room.
  have hmail : ∀ env ∈ (h.send c).queued, GenuineMail own env := by
    rw [show (h.send c).queued = (h.send c).offered from hfull]
    exact hid ▸ (genuine_of_run hrun ht).mail c
  have hjustified : Justified (Expected own) (h.send c).queued := by
    have hconversing := (Hub.conversing_of_reachable hreach).2 c
    rw [show (h.send c).queued = (h.send c).offered from hfull] at hmail ⊢
    intro before env after heq
    exact ⟨hconversing before env after heq, hmail env (by rw [heq]; simp)⟩
  have hmembers : ∀ k, k ∈ replay (h.send c).queued ↔ k ∈ (h.room r).peers.keys := by
    intro k
    rw [hfull, FMap.mem_keys,
      Hub.told_of_reachable hreach (hi.registered hget) (hroom ▸ hok.named) k, hroom]
    exact exists_congr fun q => (hok.peers_iff k q).symm
  -- What is shown is what the events of its texts make of nobody.
  have hemitted := Inbox.queued_eq hrun' [] (hread.trans (List.append_nil _).symm)
  rw [hhandled, List.append_nil] at hemitted
  have hopen : ∀ e ∈ s.emitted, e.toSignalingEvent ≠ some .roomClosed := by
    intro e he
    rcases hemitted.mem_iff.mp he with he | he
    case inr =>
      rw [Inbox.toSignalingEvent_of_mem_failures he]
      exact (Option.some_ne_none _).symm
    obtain ⟨m, hm, he⟩ := List.mem_flatMap.mp he
    have htext : m.text ∈ (h.send c).queued.map (Envelope.marshal compact) :=
      htexts ▸ List.mem_map_of_mem hm
    obtain ⟨env, henv, heq⟩ := List.mem_map.mp htext
    rw [← heq] at he
    exact (hmail env henv).not_roomClosed compact m.now e he
  have hignored : ∀ e ∈ Inbox.failures t', ∀ known, rosterEvent (utf8 own) known e = known := by
    intro e he known
    rw [rosterEvent, Inbox.toSignalingEvent_of_mem_failures he]
  have hroster : s.app.roster = (shown own (h.send c).queued).image utf8 := by
    rw [(Inbox.roster_settled hrun' hopen).2, hemitted.foldl_left hignored,
      show (∅ : Finset Bytes) = (∅ : Finset String).image utf8 from rfl,
      rosterEvents_texts compact ∅ hmail htexts, shown]
  obtain ⟨hall, -, honly⟩ := shown_replay hjustified
  have hshown : ∀ peer ∈ (h.room r).peers.keys, peer ≠ own →
      peer ∈ shown own (h.send c).queued :=
    fun peer hpeer hne => hall (Finset.mem_erase.mpr ⟨hne, (hmembers peer).mpr hpeer⟩)
  refine ⟨fun peer hpeer hne => ?_, fun honce k => ?_⟩ <;>
    rw [← Application.mem_roster, hroster, Finset.mem_image]
  · exact ⟨peer, hshown peer hpeer hne, rfl⟩
  · constructor
    · rintro ⟨peer, hpeer, rfl⟩
      obtain ⟨hne, hmember⟩ := Finset.mem_erase.mp (honly honce hpeer)
      exact ⟨peer, (hmembers peer).mp hmember, hne, rfl⟩
    · rintro ⟨peer, hpeer, hne, rfl⟩
      exact ⟨peer, hshown peer hpeer hne, rfl⟩

/-! ### A host and its guest -/

/-- What happened until the second client had joined. -/
def sharedEvents : List Hub.Event :=
  [.addClient "peer_1" "Ana" 64, .handle 0 { type := "create_room" } (Ambient.plain 10 "a1"),
    .addClient "peer_2" "Bo" 64,
    .handle 1 { type := "join_room", roomID := "room_a1" } (Ambient.plain 20 "a2")]

theorem shared_run :
    Hub.machine.Run (Machine.trace Hub.after Hub.newHub sharedEvents) Hub.shared := by
  have hinit : Hub.machine.init Hub.newHub := rfl
  refine Machine.run_trace hinit ?_
  simp only [sharedEvents, Machine.forall_trace_cons, Machine.forall_trace_nil, and_true]
  refine ⟨fun _ hc => absurd hc (Nat.not_lt_zero _), And.intro (by decide) (by decide), ?_,
    And.intro (by decide) (by decide)⟩
  exact (by decide : ∀ c < 1, (Hub.hosting.client c).id ≠ "peer_2")

theorem shared_genuine :
    ∀ x ∈ Machine.trace Hub.after Hub.newHub sharedEvents, GenuineEvent x.2 := by
  simp only [sharedEvents, Machine.forall_trace_cons, Machine.forall_trace_nil, and_true]
  refine ⟨⟨⟨"1", by decide, rfl⟩, by decide⟩, ⟨by decide, by decide, by decide⟩,
    ⟨⟨"2", by decide, rfl⟩, by decide⟩, ⟨by decide, by decide, by decide⟩⟩

/-- The host, before it has read anything: it has created its room. -/
def hostInbox : Inbox Int16 Int16 where
  signaling := {}
  app :=
    { MainLoop.started with
      session := VoiceSession.createRoom 0 VoiceSession.smallRoom (utf8 "peer_1") (utf8 "Ana") }

/-- The texts of all that was queued for the host, each in one buffer. -/
def hostMessages : List Inbox.Framed :=
  (Hub.shared.send 0).queued.map fun env => ⟨[], 1, env.marshal id⟩

/-- They are read, and handled together. -/
def hostSteps : List (Inbox.Step Int16) :=
  hostMessages.map (fun m => .receive m.now (.buffer .utf8Message m.last)) ++ [.pump 2]

theorem session_mirrors_room_shared : Mirrors (Hub.shared.room 0) "peer_1"
    (hostSteps.foldl (Inbox.next MainLoop.deaf fun _ => true) hostInbox).app := by
  obtain ⟨a, b, c, d, hfour⟩ : ∃ a b c d, (Hub.shared.send 0).queued = [a, b, c, d] :=
    ⟨_, _, _, _, rfl⟩
  have hclient : (Inbox.machine MainLoop.deaf (fun _ => true) (Inbox.Alone (utf8 "peer_1"))).Run
      (Machine.trace (Inbox.next MainLoop.deaf fun _ => true) hostInbox hostSteps)
      (hostSteps.foldl (Inbox.next MainLoop.deaf fun _ => true) hostInbox) := by
    refine Machine.run_trace ⟨⟨rfl, rfl⟩, rfl, rfl, rfl⟩ ?_
    rw [hostSteps, hostMessages, hfour]
    simp only [List.map_cons, List.map_nil, List.cons_append, List.nil_append,
      Machine.forall_trace_cons, Machine.forall_trace_nil]
    exact ⟨rfl, rfl, rfl, rfl, trivial, trivial⟩
  refine (session_mirrors_room shared_run shared_genuine
    (show Hub.shared.rooms.get "room_a1" = some 0 by decide)
    (show (Hub.shared.room 0).peers.get "peer_1" = some 0 by decide)
    (show (Hub.shared.send 0).queued = (Hub.shared.send 0).offered by decide) id hclient
    hostMessages ?_ ?_ ?_).2 (by decide)
  · rw [hostMessages, List.map_map]
    rfl
  · rw [hostSteps, hostMessages, hfour]
    rfl
  · rw [hostSteps, List.foldl_append]
    rfl

end Runs

end Protocol

end TarkovVoice

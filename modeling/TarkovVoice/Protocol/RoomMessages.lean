import TarkovVoice.Coordinator.Effects
import TarkovVoice.Protocol.RoomObject

/-!
# Room messages from the coordinator to the client

The three messages that carry rooms, from the envelope the hub queues to what the client makes of
its text: `room_created` and `joined_room` with one room, `rooms` with all of them.

In a `rooms` message the first `"rooms"` is the message's type. The next colon after it is still
that of the member, so the list is found.

## Main results

* `roomOfMessage_marshal`, `parseRooms_marshal` — the client reads every room object it is sent
* `rooms_arrive_iff` — and reads it as it was written exactly when it is legible
-/

namespace TarkovVoice

namespace Protocol

open Net Coordinator

/-- The shape `roomCreated` and `joinedRoom` share. -/
def roomAnswer (type : String) (w : Ambient) (room : Room) : Envelope :=
  { type := type, roomID := room.id, room := some (room.snapshot w true), sentAt := w.now }

theorem roomCreated_eq (w : Ambient) (room : Room) :
    Hub.roomCreated w room = roomAnswer "room_created" w room := rfl

theorem joinedRoom_eq (w : Ambient) (room : Room) :
    Hub.joinedRoom w room = roomAnswer "joined_room" w room := rfl

/-- The `rooms` message about these rooms. -/
def roomsMessage (w : Ambient) (rooms : List Room) : Envelope :=
  { type := "rooms", rooms := rooms.map (·.snapshot w false), sentAt := w.now }

theorem roomsEnvelope_eq (w : Ambient) (h : Hub) :
    h.roomsEnvelope w = roomsMessage w ((w.range h.rooms.entries).map fun p => h.room p.2) := by
  rw [roomsMessage, List.map_map]
  rfl

/-- A room of the coordinator: any printable name and host's nick, and generated ids, any number of
them. -/
structure Known (room : Room) : Prop where
  id : Generated "room" room.id
  name : Printable room.name
  hostID : Generated "peer" room.hostID
  hostNick : Printable room.hostNick
  peers : ∀ p ∈ room.peers.entries, Generated "peer" p.1

theorem Known.held {room : Room} (h : Known room) (w : Ambient) (includePeers : Bool) :
    Held (room.snapshot w includePeers) := by
  refine ⟨h.id, h.name, h.hostID, h.hostNick, rfl, fun p hp => ?_⟩
  cases includePeers with
  | false => cases hp
  | true =>
    obtain ⟨e, he, rfl⟩ := List.mem_map.mp hp
    exact h.peers e ((w.range_perm _).mem_iff.mp he)

theorem Generated.ne_empty {kind id : String} (h : Generated kind id) : id ≠ "" := by
  obtain ⟨hex, -, hid⟩ := h.toList
  rintro rfl
  have hmem : '_' ∈ "".toList := by
    rw [hid]
    exact List.mem_append_left _ (List.mem_append_right _ (List.mem_singleton_self _))
  cases hmem

/-! ### Objects and their brackets -/

theorem Held.marshal_object {r : RoomSnapshot} (h : Held r) :
    ∃ items, r.marshal = object items ∧ ∀ item ∈ items,
      Closed openBrace closeBrace item ∧ Closed openBracket closeBracket item := by
  have hstring : ∀ {tag value : String}, Printable tag → Printable value →
      Closed openBrace closeBrace (member tag (appendString value)) ∧
        Closed openBracket closeBracket (member tag (appendString value)) :=
    fun htag hvalue => ⟨closed_member plain_brace htag (closed_appendString hvalue),
      closed_member plain_bracket htag (closed_appendString hvalue)⟩
  have hint : ∀ {tag : String} (z : ℤ), Printable tag →
      Closed openBrace closeBrace (member tag (appendInt z)) ∧
        Closed openBracket closeBracket (member tag (appendInt z)) :=
    fun z htag => ⟨closed_member plain_brace htag (closed_appendInt plain_brace z),
      closed_member plain_bracket htag (closed_appendInt plain_bracket z)⟩
  have hbool : ∀ {tag : String} (b : Bool), Printable tag →
      Closed openBrace closeBrace (member tag (appendBool b)) ∧
        Closed openBracket closeBracket (member tag (appendBool b)) :=
    fun b htag => ⟨closed_member plain_brace htag (closed_appendBool plain_brace b),
      closed_member plain_bracket htag (closed_appendBool plain_bracket b)⟩
  have hpeers : ∀ item ∈ omitEmpty r.peers.isEmpty "peers" (array (r.peers.map appendString)),
      Closed openBrace closeBrace item ∧ Closed openBracket closeBracket item := by
    intro item hitem
    rw [omitEmpty] at hitem
    split at hitem
    · cases hitem
    · rw [List.mem_singleton.mp hitem]
      obtain ⟨hbrace, hbracket⟩ := @closed_array (r.peers.map appendString)
        fun e he => by
          obtain ⟨p, hp, rfl⟩ := List.mem_map.mp he
          have hprintable := (h.peers p hp).printable (by decide)
          exact ⟨closed_appendString hprintable, closed_appendString hprintable⟩
      exact ⟨closed_member plain_brace (by decide) hbrace,
        closed_member plain_bracket (by decide) hbracket⟩
  refine ⟨_, rfl, List.forall_mem_append.mpr ⟨?_, hpeers⟩⟩
  simp only [List.forall_mem_cons, List.not_mem_nil, false_imp_iff, implies_true, and_true]
  exact ⟨hstring (by decide) (h.id.printable (by decide)), hstring (by decide) h.name,
    hstring (by decide) (h.hostPeerID.printable (by decide)), hstring (by decide) h.hostNick,
    hint _ (by decide), hint _ (by decide), hbool _ (by decide), hbool _ (by decide),
    hint _ (by decide)⟩

/-- The text of a room is a closed text between braces. -/
theorem Held.marshal_braces {r : RoomSnapshot} (h : Held r) :
    ∃ u, Closed openBrace closeBrace u ∧ r.marshal = openBrace :: (u ++ [closeBrace]) := by
  obtain ⟨items, hmarshal, hitems⟩ := h.marshal_object
  exact ⟨separated items, closed_separated plain_brace fun item hi => (hitems item hi).1, hmarshal⟩

theorem Held.marshal_closed {r : RoomSnapshot} (h : Held r) :
    Closed openBracket closeBracket r.marshal := by
  obtain ⟨items, hmarshal, hitems⟩ := h.marshal_object
  rw [hmarshal]
  exact closed_object fun item hi => (hitems item hi).2

/-! ### One room -/

/-- The text of an answer, by its members. -/
theorem marshal_roomAnswer (compact : Bytes → Bytes) {type : String} (htype : Printable type)
    (w : Ambient) {room : Room} (h : Known room) :
    ∃ text rest, (roomAnswer type w room).marshal compact = openBrace :: text ∧
      fields [(utf8 "type", .string (utf8 type)), (utf8 "roomId", .string (utf8 room.id))]
        (comma :: (quoted (utf8 "room") ++ colon :: ((room.snapshot w true).marshal ++ rest))) =
          comma :: text := by
  have hroomId : (room.id == "") = false := beq_eq_false_iff_ne.mpr h.id.ne_empty
  obtain ⟨text, hobject, hfields⟩ := object_eq (utf8 "type", .string (utf8 type))
    [(utf8 "roomId", .string (utf8 room.id))]
    (member "room" (room.snapshot w true).marshal ::
      omitEmpty (w.now == 0) "sentAt" (appendInt w.now))
  refine ⟨text, (omitEmpty (w.now == 0) "sentAt" (appendInt w.now)).flatMap (comma :: ·) ++
    [closeBrace], ?_, ?_⟩
  · rw [← hobject, List.map_cons, List.map_cons, List.map_nil,
      ← member_string (by decide) htype, ← member_string (by decide) (h.id.printable (by decide))]
    simp [Envelope.marshal, roomAnswer, omitEmpty, hroomId]
  · rw [← hfields, List.flatMap_cons, member, appendString_eq (by decide)]
    simp

theorem stops_comma (text : Bytes) : Stops (comma :: text) := by
  intro c hc
  cases hc
  decide

/-- **One room.** The client parses exactly the room's object. -/
theorem roomOfMessage_marshal (compact : Bytes → Bytes) {type : String} (htype : Printable type)
    (hroom : ¬ Shadows (utf8 type) (utf8 "room")) (w : Ambient) {room : Room} (h : Known room) :
    roomOfMessage ((roomAnswer type w room).marshal compact) =
      some (parseRoom (room.snapshot w true).marshal) := by
  have hkey : Word (utf8 "room") := by decide
  obtain ⟨text, rest, hmarshal, hfields⟩ := marshal_roomAnswer compact htype w h
  obtain ⟨u, hu, hobject⟩ := (h.held w true).marshal_braces
  have hsound : SoundFields
      [(utf8 "type", .string (utf8 type)), (utf8 "roomId", .string (utf8 room.id))] := by
    simp only [SoundFields, List.forall_mem_cons, List.not_mem_nil, false_imp_iff, implies_true,
      and_true]
    exact ⟨⟨by decide, trivial⟩, by decide, trivial⟩
  have hread : readAt (utf8 "room")
      [(utf8 "type", .string (utf8 type)), (utf8 "roomId", .string (utf8 room.id))] = none := by
    have hid : ¬ (Value.string (utf8 room.id)).Hides (utf8 "room") :=
      h.id.not_shadows (by decide) hkey
    have htype : ¬ (Value.string (utf8 type)).Hides (utf8 "room") := hroom
    rw [readAt, if_neg (by decide), if_neg htype, readAt, if_neg (by decide), if_neg hid]
    rfl
  have hhead : ∀ d ∈ ((room.snapshot w true).marshal ++ rest).head?, isspace d = false := by
    intro d hd
    rw [hobject] at hd
    cases hd
    rfl
  have hfind : findJsonValue ((roomAnswer type w room).marshal compact) (utf8 "room") =
      some (openBrace :: (u ++ closeBrace :: rest)) := by
    rw [hmarshal, findJsonValue_cons (d := comma) (by decide) (by decide), ← hfields,
      findJsonValue_fields_none hkey hsound (stops_comma _) hread,
      findJsonValue_member hkey (by decide) hhead, hobject]
    simp
  rw [roomOfMessage, extractBalancedValue_of_find brackets_brace hu hfind, ← hobject]
  rfl

theorem stops_members (more : List Bytes) :
    Stops (more.flatMap (comma :: ·) ++ [closeBrace]) := by
  cases more with
  | nil => exact fun c hc => by cases hc; rfl
  | cons item more =>
    rw [List.flatMap_cons, List.cons_append, List.cons_append]
    exact stops_comma _

/-- **The type of a message.** It is the first member of every envelope. -/
theorem type_marshal (compact : Bytes → Bytes) {env : Envelope} (h : Printable env.type) :
    extractJsonString (env.marshal compact) (utf8 "type") = some (utf8 env.type) := by
  have hfirst : ∃ more, env.marshal compact =
      object ([(utf8 "type", .string (utf8 env.type))].map writeField ++ more) := by
    rw [List.map_singleton, ← member_string (by decide) h]
    exact ⟨_, rfl⟩
  obtain ⟨more, hmarshal⟩ := hfirst
  obtain ⟨text, hobject, hfields⟩ := object_eq (utf8 "type", .string (utf8 env.type)) [] more
  have hfind : findJsonValue (env.marshal compact) (utf8 "type") =
      some (quoted (utf8 env.type) ++ fields [] (more.flatMap (comma :: ·) ++ [closeBrace])) := by
    have hread : readAt (utf8 "type") [(utf8 "type", .string (utf8 env.type))] =
        some [(utf8 "type", .string (utf8 env.type))] := if_pos rfl
    rw [hmarshal, hobject, findJsonValue_cons (d := comma) (by decide) (by decide), ← hfields]
    refine findJsonValue_fields (by decide) ?_ (stops_members more) hread
    rintro m hm
    rw [List.mem_singleton.mp hm]
    exact ⟨show Word (utf8 "type") by decide, trivial⟩
  rw [extractJsonString_of_find hfind, clean_utf8 h]

/-! ### All rooms -/

/-- Objects with commas before them are split apart. -/
theorem splitObjectLoop_list (items : List Bytes)
    (h : ∀ item ∈ items, ∃ u, Closed openBrace closeBrace u ∧
      item = openBrace :: (u ++ [closeBrace])) :
    splitObjectLoop (items.flatMap (comma :: ·) ++ [closeBracket]) 0 {} none = items := by
  induction items with
  | nil => rfl
  | cons item items ih =>
    obtain ⟨u, hu, hitem⟩ := h item (List.mem_cons_self ..)
    have hsplit : (item :: items).flatMap (comma :: ·) ++ [closeBracket] =
        comma :: (openBrace :: u ++
          closeBrace :: (items.flatMap (comma :: ·) ++ [closeBracket])) := by
      rw [List.flatMap_cons, hitem]
      simp
    rw [hsplit, splitObjectLoop_byte (by decide) (by decide) (by decide), splitObjectLoop_object hu,
      ih fun x hx => h x (List.mem_cons_of_mem _ hx), List.cons_append, hitem]

theorem splitObjectArray_array (items : List Bytes) (hne : items ≠ [])
    (h : ∀ item ∈ items, ∃ u, Closed openBrace closeBrace u ∧
      item = openBrace :: (u ++ [closeBrace])) :
    splitObjectArray (array items) = items := by
  have hskip : ∀ text, splitObjectLoop (comma :: text) 0 {} none = splitObjectLoop text 0 {} none :=
    splitObjectLoop_byte (by decide) (by decide) (by decide)
  show splitObjectLoop (openBracket :: (separated items ++ [closeBracket])) 0 {} none = items
  rw [splitObjectLoop_byte (by decide) (by decide) (by decide), ← hskip, ← List.cons_append,
    ← flatMap_separated items hne]
  exact splitObjectLoop_list items h

/-- What a search for the list finds in a `rooms` message. -/
theorem findJsonValue_rooms (compact : Bytes → Bytes) (w : Ambient) (rooms : List Room) :
    findJsonValue ((roomsMessage w rooms).marshal compact) (utf8 "rooms") =
      if rooms = [] then
        if w.now = 0 then none else some (appendInt w.now ++ [closeBrace])
      else some (array (rooms.map fun room => (room.snapshot w false).marshal) ++
        ((omitEmpty (w.now == 0) "sentAt" (appendInt w.now)).flatMap (comma :: ·) ++
          [closeBrace])) := by
  have hkey : Word (utf8 "rooms") := by decide
  have hnil : (rooms.map (·.snapshot w false)).isEmpty = rooms.isEmpty := List.isEmpty_map
  obtain ⟨text, hobject, hfields⟩ := object_eq (utf8 "type", .string (utf8 "rooms")) []
    (omitEmpty rooms.isEmpty "rooms"
      (array (rooms.map fun room => (room.snapshot w false).marshal)) ++
      omitEmpty (w.now == 0) "sentAt" (appendInt w.now))
  have hmarshal : (roomsMessage w rooms).marshal compact = openBrace :: text := by
    rw [← hobject, List.map_singleton, ← member_string (by decide) (by decide)]
    simp [Envelope.marshal, roomsMessage, omitEmpty, Function.comp_def]
  have hhides : (Value.string (utf8 "rooms")).Hides (utf8 "rooms") := Shadows.refl _
  rw [hmarshal, findJsonValue_cons (d := comma) (by decide) (by decide), ← hfields,
    findJsonValue_fields_cons hkey (by decide) (Value.sound_string _) (stops_members _),
    if_neg (by decide), if_pos hhides, fields]
  by_cases hempty : rooms = []
  · subst hempty
    by_cases hnow : w.now = 0
    · rw [if_pos rfl, if_pos hnow]
      simp only [hnow]
      rfl
    · have hhead : ∀ d ∈ (appendInt w.now ++ [closeBrace]).head?, isspace d = false :=
        (sound_appendInt w.now).head [closeBrace]
      rw [if_pos rfl, if_neg hnow, ← findColon_member (show Word (utf8 "sentAt") by decide) hhead]
      simp [omitEmpty, hnow, member, appendString_eq (show Printable "sentAt" by decide)]
  · have hhead : ∀ d ∈ (array (rooms.map fun room => (room.snapshot w false).marshal) ++
        ((omitEmpty (w.now == 0) "sentAt" (appendInt w.now)).flatMap (comma :: ·) ++
          [closeBrace])).head?, isspace d = false := by
      intro d hd
      cases hd
      rfl
    have hnonempty : rooms.isEmpty = false := by simpa using hempty
    rw [if_neg hempty, ← findColon_member hkey hhead, omitEmpty, hnonempty, if_neg (by decide),
      List.singleton_append, List.flatMap_cons, member, appendString_eq (by decide)]
    simp

theorem head_appendInt (z : ℤ) : ∃ c u, appendInt z = c :: u ∧ c ≠ openBracket := by
  cases z with
  | ofNat n =>
    obtain ⟨d, u, hdu, hd⟩ := exists_decimal_cons n
    refine ⟨d, u, hdu, ?_⟩
    rintro rfl
    exact absurd hd (by decide)
  | negSucc n => exact ⟨45, _, rfl, by decide⟩

/-- **All rooms.** The client parses exactly the rooms' objects, in order. -/
theorem parseRooms_marshal (compact : Bytes → Bytes) (w : Ambient) {rooms : List Room}
    (h : ∀ room ∈ rooms, Known room) :
    parseRooms ((roomsMessage w rooms).marshal compact) =
      rooms.map fun room => parseRoom (room.snapshot w false).marshal := by
  have hfind := findJsonValue_rooms compact w rooms
  by_cases hempty : rooms = []
  · have hnone : extractBalancedValue ((roomsMessage w rooms).marshal compact) (utf8 "rooms")
        openBracket closeBracket = none := by
      rw [extractBalancedValue, hfind, if_pos hempty]
      by_cases hnow : w.now = 0
      · rw [if_pos hnow]
      · obtain ⟨c, u, hcu, hc⟩ := head_appendInt w.now
        rw [if_neg hnow, hcu]
        exact if_neg hc
    rw [parseRooms, hnone, hempty]
    rfl
  · have hitems : ∀ item ∈ rooms.map fun room => (room.snapshot w false).marshal,
        ∃ u, Closed openBrace closeBrace u ∧ item = openBrace :: (u ++ [closeBrace]) := by
      intro item hitem
      obtain ⟨room, hroom, rfl⟩ := List.mem_map.mp hitem
      exact ((h room hroom).held w false).marshal_braces
    have hclosed : Closed openBracket closeBracket
        (separated (rooms.map fun room => (room.snapshot w false).marshal)) := by
      refine closed_separated plain_bracket fun item hitem => ?_
      obtain ⟨room, hroom, rfl⟩ := List.mem_map.mp hitem
      exact ((h room hroom).held w false).marshal_closed
    have hkept : ∀ room ∈ rooms,
        (!(parseRoom (room.snapshot w false).marshal).id.isEmpty) = true := by
      intro room hroom
      have hne : utf8 room.id ≠ [] := fun heq => (h room hroom).id.ne_empty (utf8_injective heq)
      have hid : (parseRoom (room.snapshot w false).marshal).id = utf8 room.id :=
        ((h room hroom).held w false).id_eq
      rw [hid]
      simpa using hne
    rw [if_neg hempty, array] at hfind
    have hvalue := extractBalancedValue_of_find brackets_bracket hclosed
      (hfind.trans (by simp; rfl))
    rw [parseRooms, hvalue]
    show ((splitObjectArray (array _)).map parseRoom).filter _ = _
    rw [splitObjectArray_array _ (by simpa using hempty) hitems, List.map_map,
      List.filter_eq_self.mpr]
    · rfl
    · intro info hinfo
      obtain ⟨room, hroom, rfl⟩ := List.mem_map.mp hinfo
      exact hkept room hroom

/-! ### What arrives -/

/-- The client takes the branch of the message's type and reads its room as it was written, all of
it that it shows. -/
def AnswerArrives (compact : Bytes → Bytes) (env : Envelope) : Prop :=
  extractJsonString (env.marshal compact) (utf8 "type") = some (utf8 env.type) ∧
    ∃ snapshot info, env.room = some snapshot ∧
      roomOfMessage (env.marshal compact) = some info ∧ Agrees info snapshot

/-- The client takes the branch of the message's type and reads its rooms as they were written: as
many, in their order, and each in all that it shows. -/
def RoomsArrive (compact : Bytes → Bytes) (env : Envelope) : Prop :=
  extractJsonString (env.marshal compact) (utf8 "type") = some (utf8 env.type) ∧
    List.Forall₂ Agrees (parseRooms (env.marshal compact)) env.rooms

theorem answerArrives_iff (compact : Bytes → Bytes) {type : String}
    (htype : type ∈ ["room_created", "joined_room"]) (w : Ambient) {room : Room} (h : Known room) :
    AnswerArrives compact (roomAnswer type w room) ↔ Legible (room.snapshot w true) := by
  obtain ⟨hprintable, hroom⟩ : Printable type ∧ ¬ Shadows (utf8 type) (utf8 "room") := by
    revert type
    decide
  have hbranch := @type_marshal compact (roomAnswer type w room) hprintable
  have hparse := roomOfMessage_marshal compact hprintable hroom w h
  rw [← (h.held w true).agrees_iff]
  constructor
  · rintro ⟨-, snapshot, info, hsnapshot, hinfo, hagrees⟩
    rw [hparse] at hinfo
    cases hsnapshot
    cases hinfo
    exact hagrees
  · exact fun hagrees => ⟨hbranch, _, _, rfl, hparse, hagrees⟩

theorem roomsArrive_iff (compact : Bytes → Bytes) (w : Ambient) {rooms : List Room}
    (h : ∀ room ∈ rooms, Known room) :
    RoomsArrive compact (roomsMessage w rooms) ↔
      ∀ room ∈ rooms, Legible (room.snapshot w false) := by
  have hprintable : Printable "rooms" := by decide
  have hbranch := @type_marshal compact (roomsMessage w rooms) hprintable
  rw [RoomsArrive, and_iff_right hbranch, parseRooms_marshal compact w h, List.forall₂_map_left_iff]
  show List.Forall₂ _ rooms (rooms.map (·.snapshot w false)) ↔ _
  rw [List.forall₂_map_right_iff, List.forall₂_same]
  exact forall₂_congr fun room hroom => ((h room hroom).held w false).agrees_iff

/-- **Rooms arrive exactly when they are legible.** For every room with generated ids and printable
texts: the client shows what `room_created` and `joined_room` say of it exactly if no key whose
value matters is hidden by its name or its host's nick. And a list of such rooms is shown exactly if
all of them are legible. -/
theorem rooms_arrive_iff (compact : Bytes → Bytes) (w : Ambient) :
    (∀ room, Known room →
      (AnswerArrives compact (Hub.roomCreated w room) ↔ Legible (room.snapshot w true)) ∧
      (AnswerArrives compact (Hub.joinedRoom w room) ↔ Legible (room.snapshot w true))) ∧
    ∀ rooms, (∀ room ∈ rooms, Known room) →
      (RoomsArrive compact (roomsMessage w rooms) ↔
        ∀ room ∈ rooms, Legible (room.snapshot w false)) := by
  refine ⟨fun room h => ⟨?_, ?_⟩, fun rooms h => roomsArrive_iff compact w h⟩
  · rw [roomCreated_eq]
    exact answerArrives_iff compact (by decide) w h
  · rw [joinedRoom_eq]
    exact answerArrives_iff compact (by decide) w h

/-! ### Two rooms -/

/-- A locked room with one member, under this name. -/
def roomNamed (name : String) : Room where
  id := "room_a1"
  name := name
  hostID := "peer_1"
  hostNick := "Ann"
  locked := true
  createdAt := 1000
  peers := (∅ : GoMap ClientPtr).put "peer_1" 0

theorem known_roomNamed {name : String} (hname : Printable name) : Known (roomNamed name) := by
  refine ⟨⟨"a1", by decide, rfl⟩, hname, ⟨"1", by decide, rfl⟩, show Printable "Ann" by decide,
    fun p hp => ?_⟩
  rw [List.mem_singleton.mp hp]
  exact ⟨"1", by decide, rfl⟩

theorem rooms_arrive_iff_squad :
    AnswerArrives id (Hub.roomCreated (Ambient.plain 5 "a1") (roomNamed "Squad")) ∧
      AnswerArrives id (Hub.joinedRoom (Ambient.plain 5 "a1") (roomNamed "Squad")) ∧
      RoomsArrive id (roomsMessage (Ambient.plain 5 "a1") [roomNamed "Squad"]) := by
  have hknown : Known (roomNamed "Squad") := known_roomNamed (by decide)
  have hname : ∀ key ∈ ["hostNick", "peerCount", "locked", "peers"],
      ¬ Shadows (utf8 "Squad") (utf8 key) := by decide
  have hnick : ∀ key ∈ ["maxPeers", "locked", "peers"], ¬ Shadows (utf8 "Ann") (utf8 key) := by
    decide
  have hlegible : ∀ includePeers,
      Legible ((roomNamed "Squad").snapshot (Ambient.plain 5 "a1") includePeers) := fun _ =>
    { hostNick := fun h => absurd h (hname "hostNick" (by decide))
      peerCount := fun h => absurd h (hname "peerCount" (by decide))
      maxPeers := fun h => absurd h (hnick "maxPeers" (by decide))
      locked := fun h => absurd h
        (not_or.mpr ⟨hname "locked" (by decide), hnick "locked" (by decide)⟩)
      peers := fun h => absurd h
        (not_or.mpr ⟨hname "peers" (by decide), hnick "peers" (by decide)⟩) }
  obtain ⟨hanswer, hrooms⟩ := rooms_arrive_iff id (Ambient.plain 5 "a1")
  refine ⟨(hanswer _ hknown).1.mpr (hlegible true), (hanswer _ hknown).2.mpr (hlegible true), ?_⟩
  refine (hrooms _ fun room hroom => ?_).mpr fun room hroom => ?_
  · rwa [List.mem_singleton.mp hroom]
  · rw [List.mem_singleton.mp hroom]
    exact hlegible false

/-- A room called `hostNick` is shown with its host's id for a nick: the first `"hostNick"` in the
text is the value of `name`. -/
theorem room_hostNick_misread :
    Known (roomNamed "hostNick") ∧
      ¬ AnswerArrives id (Hub.roomCreated (Ambient.plain 5 "a1") (roomNamed "hostNick")) ∧
      ¬ RoomsArrive id (roomsMessage (Ambient.plain 5 "a1") [roomNamed "hostNick"]) := by
  have hknown : Known (roomNamed "hostNick") := known_roomNamed (by decide)
  have hnot : ∀ includePeers,
      ¬ Legible ((roomNamed "hostNick").snapshot (Ambient.plain 5 "a1") includePeers) := by
    intro includePeers hlegible
    have hnick : "Ann" = "peer_1" := hlegible.hostNick (Shadows.refl _)
    exact absurd hnick (by decide)
  refine ⟨hknown, ?_, ?_⟩
  · rw [roomCreated_eq, answerArrives_iff id (by decide) _ hknown]
    exact hnot true
  · rw [roomsArrive_iff id _ (by simpa using hknown)]
    intro hall
    exact hnot false (hall _ (List.mem_singleton_self _))

end Protocol

end TarkovVoice

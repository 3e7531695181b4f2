import TarkovVoice.Client.SignalingClient
import TarkovVoice.Protocol.RoomMessages

/-!
# Forwarded messages

The text of an envelope that the coordinator passes on under the sender's id, room and nick, and
what the client's searches find in it.

The nick is the only text of a user before the payload, and the payload is the member right behind
it. So a nick that shadows `payload` sends the search for it to the next colon, which is that of
the payload itself.

## Main definitions

* `Forwarded` — the envelopes that are passed on

## Main results

* `Forwarded.stringAt` — the ids of room, sender and target are read as they were written
* `Forwarded.payload_eq` — the payload is cut out unchanged, whatever the nick
-/

namespace TarkovVoice

namespace Protocol

open Net Coordinator

/-! ### Searching past members -/

section Fields

variable {key rest : Bytes} {ms ms' : List Field}

/-- Members that neither are nor hide the key are passed. -/
theorem readAt_append (h : ∀ m ∈ ms, m.1 ≠ key ∧ ¬ m.2.Hides key) :
    readAt key (ms ++ ms') = readAt key ms' := by
  induction ms with
  | nil => rfl
  | cons m ms ih =>
    obtain ⟨name, value⟩ := m
    obtain ⟨hname, hvalue⟩ := h _ (List.mem_cons_self ..)
    rw [List.cons_append, readAt, if_neg hname, if_neg hvalue,
      ih fun m hm => h m (List.mem_cons_of_mem _ hm)]

/-- When the last member hides the key, the next colon is the one that counts. The search goes on in
the rest of the text, whatever that is. -/
theorem findJsonValue_fields_last (hkey : Word key) (hms : SoundFields ms) (hrest : Stops rest)
    (h : readAt key ms = some []) :
    findJsonValue (fields ms rest) key =
      (Search.find [colon] rest).map fun text => skipWhitespace (text.drop 1) := by
  induction ms with
  | nil => cases h
  | cons m ms ih =>
    obtain ⟨name, value⟩ := m
    obtain ⟨hname, hvalue⟩ := hms _ (List.mem_cons_self ..)
    have htail : SoundFields ms := fun x hx => hms x (List.mem_cons_of_mem _ hx)
    rw [findJsonValue_fields_cons hkey hname hvalue hrest]
    rw [readAt] at h
    by_cases hk : name = key
    · rw [if_pos hk] at h
      cases h
    rw [if_neg hk] at h ⊢
    split_ifs at h ⊢ with hv
    · cases h
      rfl
    · exact ih htail h

/-- A member behind others is found when none of them is of its name, and at most the last one
hides it. -/
theorem findJsonValue_behind (hkey : Word key) (hms : SoundFields ms)
    (h : readAt key ms = none ∨ readAt key ms = some []) {value : Bytes}
    (hvalue : ∀ d ∈ value.head?, isspace d = false) :
    findJsonValue (fields ms (comma :: (quoted key ++ colon :: value))) key = some value := by
  rcases h with h | h
  · rw [findJsonValue_fields_none hkey hms (stops_comma _) h]
    exact findJsonValue_member hkey (by decide) hvalue
  · rw [findJsonValue_fields_last hkey hms (stops_comma _) h]
    exact findColon_member hkey hvalue

/-! ### Objects of simple members -/

theorem endsNumber_closeBrace : EndsNumber [closeBrace] := by
  intro c hc
  cases hc
  decide

/-- Where a key leads in the text of an object. -/
theorem findJsonValue_object (hkey : Word key) (hms : SoundFields ms) {m : Field}
    (hread : readAt key ms = some (m :: ms')) :
    findJsonValue (object (ms.map writeField)) key =
      some (m.2.text ++ fields ms' [closeBrace]) := by
  cases ms with
  | nil => cases hread
  | cons first ms =>
    obtain ⟨text, hobject, hfields⟩ := object_eq first ms []
    rw [List.append_nil] at hobject
    rw [hobject, findJsonValue_cons (d := comma) (by decide) (by decide), ← hfields]
    exact findJsonValue_fields hkey hms (stops_members []) hread

theorem stringAt_object (hkey : Word key) (hms : SoundFields ms) {name s : Bytes}
    (hread : readAt key ms = some ((name, .string s) :: ms')) :
    extractJsonString (object (ms.map writeField)) key = some (s.map clean) :=
  extractJsonString_of_find (findJsonValue_object hkey hms hread)

theorem numberAt_object (hkey : Word key) (hms : SoundFields ms) {name : Bytes} {n : ℕ}
    (hread : readAt key ms = some ((name, .plain (decimal n)) :: ms')) :
    extractJsonNumber (object (ms.map writeField)) key = some (.finite n) :=
  extractJsonNumber_of_find (endsNumber_members endsNumber_closeBrace _)
    (findJsonValue_object hkey hms hread)

end Fields

/-! ### The envelopes -/

/-- The types of messages that carry a payload from one client to another. -/
def payloadTypes : List String := ["ice_offer", "ice_answer", "ice_candidate", "voice_frame"]

/-- An envelope the coordinator passes on from one client to others: ids it made itself, any
printable nick, and any payload that is not empty. -/
structure Forwarded (env : Envelope) : Prop where
  type : env.type ∈ payloadTypes
  roomID : Generated "room" env.roomID
  peerID : Generated "peer" env.peerID
  targetPeerID : env.targetPeerID = "" ∨ Generated "peer" env.targetPeerID
  nick : Printable env.nick
  room : env.room = none
  rooms : env.rooms = []
  payload : env.payload ≠ []

/-- The members in front of the nick. They are the type and ids, which are made by the coordinator
or were checked against its tables, so nothing in them is a user's text. -/
def idFields (env : Envelope) : List Field :=
  [ (utf8 "type", .string (utf8 env.type)),
    (utf8 "roomId", .string (utf8 env.roomID)),
    (utf8 "peerId", .string (utf8 env.peerID)) ] ++
  if env.targetPeerID = "" then [] else [(utf8 "targetPeerId", .string (utf8 env.targetPeerID))]

def nickFields (env : Envelope) : List Field :=
  if env.nick = "" then [] else [(utf8 "nick", .string (utf8 env.nick))]

/-- The text behind the payload: an error, if the sender has given one, and the time. The payload is
found before it. -/
def behindPayload (env : Envelope) : Bytes :=
  (omitEmpty (env.error == "") "error" (appendString env.error) ++
    omitEmpty (env.sentAt == 0) "sentAt" (appendInt env.sentAt)).flatMap (comma :: ·) ++
    [closeBrace]

namespace Forwarded

variable {env : Envelope} {key : Bytes} (compact : Bytes → Bytes)

theorem printable_type (h : Forwarded env) : Printable env.type := by
  have hall : ∀ type ∈ payloadTypes, Printable type := by decide
  exact hall _ h.type

/-- The text of such an envelope, by its members. -/
theorem marshal_eq (h : Forwarded env) :
    ∃ text, env.marshal compact = openBrace :: text ∧
      fields (idFields env ++ nickFields env) (comma :: (quoted (utf8 "payload") ++ colon ::
        (compact env.payload ++ behindPayload env))) = comma :: text := by
  obtain ⟨text, hobject, hfields⟩ := object_eq (utf8 "type", .string (utf8 env.type))
    ((idFields env).tail ++ nickFields env)
    (member "payload" (compact env.payload) ::
      (omitEmpty (env.error == "") "error" (appendString env.error) ++
        omitEmpty (env.sentAt == 0) "sentAt" (appendInt env.sentAt)))
  have hroomID : (env.roomID == "") = false := beq_eq_false_iff_ne.mpr h.roomID.ne_empty
  have hpeerID : (env.peerID == "") = false := beq_eq_false_iff_ne.mpr h.peerID.ne_empty
  have hpayload : env.payload.isEmpty = false := by simpa using h.payload
  have htarget : omitEmpty (env.targetPeerID == "") "targetPeerId"
      (appendString env.targetPeerID) =
        ((if env.targetPeerID = "" then []
          else [(utf8 "targetPeerId", .string (utf8 env.targetPeerID))]) : List Field).map
          writeField := by
    by_cases hempty : env.targetPeerID = ""
    · rw [if_pos hempty, hempty]
      rfl
    · have hid := h.targetPeerID.resolve_left hempty
      rw [if_neg hempty, List.map_singleton,
        ← member_string (by decide) (hid.printable (by decide)), omitEmpty,
        if_neg (by simpa using hempty)]
  have hnick : omitEmpty (env.nick == "") "nick" (appendString env.nick) =
      (nickFields env).map writeField := by
    rw [nickFields]
    by_cases hempty : env.nick = ""
    · rw [if_pos hempty, hempty]
      rfl
    · rw [if_neg hempty, List.map_singleton, ← member_string (by decide) h.nick, omitEmpty,
        if_neg (by simpa using hempty)]
  refine ⟨text, ?_, ?_⟩
  · rw [← hobject, idFields, List.cons_append, List.cons_append, List.tail_cons]
    simp only [List.map_cons, List.map_append, ← htarget, ← hnick, List.cons_append,
      List.nil_append, List.append_assoc]
    rw [← member_string (by decide) h.printable_type,
      ← member_string (by decide) (h.roomID.printable (by decide)),
      ← member_string (by decide) (h.peerID.printable (by decide))]
    simp [Envelope.marshal, omitEmpty, hroomID, hpeerID, hpayload, h.room, h.rooms]
  · rw [← hfields, List.flatMap_cons, member, appendString_eq (by decide)]
    simp [idFields, behindPayload]

theorem mem_idFields (h : Forwarded env) {m : Field} (hm : m ∈ idFields env) :
    ∃ name ∈ ["type", "roomId", "peerId", "targetPeerId"], ∃ s,
      m = (utf8 name, .string (utf8 s)) ∧
      (s ∈ payloadTypes ∨ ∃ kind ∈ ["room", "peer"], Generated kind s) := by
  rw [idFields] at hm
  rcases List.mem_append.mp hm with hm | hm
  · simp only [List.mem_cons, List.not_mem_nil, or_false] at hm
    rcases hm with rfl | rfl | rfl
    · exact ⟨"type", by decide, _, rfl, .inl h.type⟩
    · exact ⟨"roomId", by decide, _, rfl, .inr ⟨"room", by decide, h.roomID⟩⟩
    · exact ⟨"peerId", by decide, _, rfl, .inr ⟨"peer", by decide, h.peerID⟩⟩
  · split at hm
    · cases hm
    · rename_i hne
      rw [List.mem_singleton.mp hm]
      exact ⟨"targetPeerId", by decide, _, rfl,
        .inr ⟨"peer", by decide, h.targetPeerID.resolve_left hne⟩⟩

theorem mem_nickFields {m : Field} (hm : m ∈ nickFields env) :
    m = (utf8 "nick", .string (utf8 env.nick)) := by
  rw [nickFields] at hm
  split at hm
  · cases hm
  · exact List.mem_singleton.mp hm

theorem sound (h : Forwarded env) : SoundFields (idFields env ++ nickFields env) := by
  intro m hm
  rcases List.mem_append.mp hm with hm | hm
  · obtain ⟨name, hname, s, rfl, -⟩ := h.mem_idFields hm
    have hwords : ∀ name ∈ ["type", "roomId", "peerId", "targetPeerId"], Word (utf8 name) := by
      decide
    exact ⟨hwords name hname, Value.sound_string _⟩
  · rw [mem_nickFields hm]
    exact ⟨show Word (utf8 "nick") by decide, Value.sound_string _⟩

/-- No id hides a key of the protocol. An id has an underscore, so it is no key, and no quote, so it
does not end in a quote and a key. -/
theorem not_hides (h : Forwarded env) (hkey : Word key)
    (htype : ∀ type ∈ payloadTypes, ¬ Shadows (utf8 type) key) {m : Field}
    (hm : m ∈ idFields env) : ¬ m.2.Hides key := by
  obtain ⟨name, -, s, rfl, htext | ⟨kind, hkind, hid⟩⟩ := h.mem_idFields hm
  · exact htype s htext
  · have hquote : ∀ kind ∈ ["room", "peer"], quote ∉ utf8 kind := by decide
    exact hid.not_shadows (hquote kind hkind) hkey

/-! ### What is read -/

/-- A string in front of the nick is read as it was written. It stands behind members of other
names, none of which hides its key. -/
theorem stringAt (h : Forwarded env) (hkey : Word key)
    (htype : ∀ type ∈ payloadTypes, ¬ Shadows (utf8 type) key) {s : String} (hs : Printable s)
    (ms : List Field) {ms' : List Field} (hms : idFields env = ms ++ (key, .string (utf8 s)) :: ms')
    (hnames : ∀ m ∈ ms, m.1 ≠ key) :
    extractJsonString (env.marshal compact) key = some (utf8 s) := by
  obtain ⟨text, hmarshal, hfields⟩ := h.marshal_eq compact
  have hread : readAt key (idFields env ++ nickFields env) =
      some ((key, .string (utf8 s)) :: (ms' ++ nickFields env)) := by
    rw [hms, List.append_assoc, readAt_append]
    · exact if_pos rfl
    · intro m hm
      refine ⟨hnames m hm, h.not_hides hkey htype ?_⟩
      rw [hms]
      exact List.mem_append_left _ hm
  have hfind := findJsonValue_fields hkey h.sound
    (stops_comma (quoted (utf8 "payload") ++ colon :: (compact env.payload ++ behindPayload env)))
    hread
  rw [hfields, findJsonValue_cons (d := openBrace) (by decide) (by decide), ← hmarshal] at hfind
  rw [extractJsonString_of_find hfind, clean_utf8 hs]

theorem roomId_eq (h : Forwarded env) :
    extractJsonString (env.marshal compact) (utf8 "roomId") = some (utf8 env.roomID) :=
  h.stringAt compact (by decide) (by decide) (h.roomID.printable (by decide))
    [(utf8 "type", .string (utf8 env.type))] rfl (by simp; decide)

theorem peerId_eq (h : Forwarded env) :
    extractJsonString (env.marshal compact) (utf8 "peerId") = some (utf8 env.peerID) :=
  h.stringAt compact (by decide) (by decide) (h.peerID.printable (by decide))
    [(utf8 "type", .string (utf8 env.type)), (utf8 "roomId", .string (utf8 env.roomID))]
    rfl (by simp; decide)

theorem targetPeerId_eq (h : Forwarded env) (hne : env.targetPeerID ≠ "") :
    extractJsonString (env.marshal compact) (utf8 "targetPeerId") =
      some (utf8 env.targetPeerID) := by
  have hid := h.targetPeerID.resolve_left hne
  have hfields : idFields env =
      [(utf8 "type", .string (utf8 env.type)), (utf8 "roomId", .string (utf8 env.roomID)),
        (utf8 "peerId", .string (utf8 env.peerID))] ++
          (utf8 "targetPeerId", .string (utf8 env.targetPeerID)) :: [] := by
    rw [idFields, if_neg hne]
  exact h.stringAt compact (by decide) (by decide) (hid.printable (by decide)) _ hfields
    (by simp; decide)

/-- **The payload.** It is cut out as it was written, whatever the nick. Its brackets match outside
of strings; nothing else is asked of it. -/
theorem payload_eq (h : Forwarded env) {u : Bytes} (hu : Closed openBrace closeBrace u)
    (hpayload : compact env.payload = openBrace :: (u ++ [closeBrace])) :
    extractBalancedValue (env.marshal compact) (utf8 "payload") openBrace closeBrace =
      some (compact env.payload) := by
  have hkey : Word (utf8 "payload") := by decide
  obtain ⟨text, hmarshal, hfields⟩ := h.marshal_eq compact
  have hread : readAt (utf8 "payload") (idFields env ++ nickFields env) = none ∨
      readAt (utf8 "payload") (idFields env ++ nickFields env) = some [] := by
    rw [readAt_append, nickFields]
    · split
      · exact .inl rfl
      · rw [readAt, if_neg (by decide)]
        split
        · exact .inr rfl
        · exact .inl rfl
    · intro m hm
      refine ⟨?_, h.not_hides hkey (by decide) hm⟩
      obtain ⟨name, hname, s, rfl, -⟩ := h.mem_idFields hm
      have hnames : ∀ name ∈ ["type", "roomId", "peerId", "targetPeerId"],
          utf8 name ≠ utf8 "payload" := by decide
      exact hnames name hname
  have hhead : ∀ d ∈ (compact env.payload ++ behindPayload env).head?, isspace d = false := by
    intro d hd
    rw [hpayload] at hd
    cases hd
    rfl
  have hfind := findJsonValue_behind hkey h.sound hread hhead
  rw [hfields, findJsonValue_cons (d := openBrace) (by decide) (by decide), ← hmarshal, hpayload,
    List.cons_append, List.append_assoc] at hfind
  rw [extractBalancedValue_of_find brackets_brace hu hfind, hpayload]

end Forwarded

end Protocol

end TarkovVoice

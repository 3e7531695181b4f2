import TarkovVoice.Coordinator.Forwarding
import TarkovVoice.Coordinator.History
import TarkovVoice.Protocol.ClientTexts
import TarkovVoice.Protocol.Forwarded

/-!
# Relayed frames from client to client

A frame on its way through the coordinator: the text the sender writes, the copy the hub queues for
the other members of the room, and what a receiver makes of the copy's text.

Reading and compacting JSON is the business of the coordinator's library. Up to `2 ^ 53` every
integer is a `double`, so a capture time within that range is read exactly.

## Main definitions

* `voiceEnvelope` — the message as the coordinator reads it

## Main results

* `length_voicePayload_le` — the payload is never too large to be forwarded
* `voiceFrameOfMessage_marshal` — the receiver reads the sender's frame
* `voice_frame_relayed` — from one client to the other
-/

namespace TarkovVoice

namespace Protocol

open Net Coordinator Client
open Audio (EncodedVoiceFrame)

/-! ### The payload -/

/-- The members of the payload. -/
def voiceFields (frame : EncodedVoiceFrame) : List Field :=
  [ (utf8 "sequence", .plain (decimal frame.sequence.toNat)),
    (utf8 "captureUnixMs", .plain (decimal frame.captureUnixMs.toInt.toNat)),
    (utf8 "audio", .string (base64Encode frame.payload)) ]

variable {frame : EncodedVoiceFrame}

theorem escapeJson_base64Encode (bytes : Bytes) :
    escapeJson (base64Encode bytes) = base64Encode bytes := by
  have hbyte : ∀ c ∈ 61 :: alphabet, escapeByte c = [c] := by decide +kernel
  refine escapeJson_eq_self fun c hc => hbyte c ?_
  rcases mem_base64Encode hc with hc | rfl
  · exact List.mem_cons_of_mem _ hc
  · exact List.mem_cons_self ..

theorem clean_base64Encode (bytes : Bytes) :
    (base64Encode bytes).map clean = base64Encode bytes := by
  have hbyte : ∀ c ∈ 61 :: alphabet, clean c = c := by decide +kernel
  refine (List.map_congr_left fun c hc => hbyte c ?_).trans (List.map_id _)
  rcases mem_base64Encode hc with hc | rfl
  · exact List.mem_cons_of_mem _ hc
  · exact List.mem_cons_self ..

theorem integer_of_nonneg {z : ℤ} (h : 0 ≤ z) : integer z = decimal z.toNat := by
  cases z with
  | ofNat n => rfl
  | negSucc n => exact absurd h (by simp)

/-- The payload is an object of these members. -/
theorem voicePayload_eq (htime : 0 ≤ frame.captureUnixMs.toInt) :
    voicePayload frame = object ((voiceFields frame).map writeField) := by
  have hopen : utf8 "\x7b\"sequence\":" = openBrace :: (quoted (utf8 "sequence") ++ [colon]) := by
    decide
  have htime' : utf8 ",\"captureUnixMs\":" =
      comma :: (quoted (utf8 "captureUnixMs") ++ [colon]) := by decide
  have haudio : utf8 ",\"audio\":\"" = comma :: (quoted (utf8 "audio") ++ [colon, quote]) := by
    decide
  have hclose : utf8 "\"\x7d" = [quote, closeBrace] := by decide
  rw [voicePayload, hopen, htime', haudio, hclose, integer_of_nonneg htime]
  simp [object, separated, voiceFields, writeField, Value.text, quoted, escapeJson_base64Encode]

theorem closed_voiceFields (frame : EncodedVoiceFrame) :
    Closed openBrace closeBrace (separated ((voiceFields frame).map writeField)) := by
  refine closed_separated plain_brace fun item hitem => ?_
  obtain ⟨m, hm, rfl⟩ := List.mem_map.mp hitem
  refine closed_writeField plain_brace ?_
  simp only [voiceFields, List.mem_cons, List.not_mem_nil, or_false] at hm
  rcases hm with rfl | rfl | rfl
  · exact closed_decimal plain_brace _
  · exact closed_decimal plain_brace _
  · exact Closed.quoted _

theorem sound_voiceFields (frame : EncodedVoiceFrame) : SoundFields (voiceFields frame) := by
  simp only [SoundFields, voiceFields, List.forall_mem_cons, List.not_mem_nil, false_imp_iff,
    implies_true, and_true]
  exact ⟨⟨by decide, sound_decimal _⟩, ⟨by decide, sound_decimal _⟩, by decide, trivial⟩

/-- The payload as a value. -/
def voiceJson (frame : EncodedVoiceFrame) : JsonGrammar.Json :=
  .object (((voiceFields frame).map fieldEntry).map JsonGrammar.Entry.member)

/-- The payload can stand in a message. The capture time is not negative, so that it is written
without a sign. -/
theorem compact_voicePayload (htime : 0 ≤ frame.captureUnixMs.toInt) :
    JsonGrammar.Compact (voiceJson frame) (voicePayload frame) := by
  rw [voicePayload_eq htime]
  refine compact_fields (List.cons_ne_nil _ _) (fun m hm => (sound_voiceFields frame m hm).1) ?_
  simp only [voiceFields, List.forall_mem_cons, List.not_mem_nil, false_imp_iff, implies_true,
    and_true]
  exact ⟨isNumber_decimal _, isNumber_decimal _, trivial⟩

/-- Nothing in the payload changes when it is marshalled again. -/
theorem bare_voicePayload (htime : 0 ≤ frame.captureUnixMs.toInt) :
    ∀ c ∈ voicePayload frame, Bare c := by
  have hpieces : (∀ c ∈ utf8 "\x7b\"sequence\":", Bare c) ∧
      (∀ c ∈ utf8 ",\"captureUnixMs\":", Bare c) ∧ (∀ c ∈ utf8 ",\"audio\":\"", Bare c) ∧
      ∀ c ∈ utf8 "\"\x7d", Bare c := by decide +kernel
  have haudio : ∀ c ∈ base64Encode frame.payload, Bare c := by
    have hbyte : ∀ c ∈ 61 :: alphabet, Bare c := by decide +kernel
    intro c hc
    refine hbyte c ?_
    rcases mem_base64Encode hc with hc | rfl
    · exact List.mem_cons_of_mem _ hc
    · exact List.mem_cons_self ..
  obtain ⟨hopen, hcapture, htag, hclose⟩ := hpieces
  rw [voicePayload, integer_of_nonneg htime]
  simp only [List.forall_mem_append]
  exact ⟨⟨⟨⟨⟨⟨hopen, bare_decimal _⟩, hcapture⟩, bare_decimal _⟩, htag⟩, haudio⟩, hclose⟩

/-! ### Its length -/

theorem length_decimal_le (n : ℕ) : ∀ k, 0 < k → n < 10 ^ k → (decimal n).length ≤ k := by
  refine decimal_induction (P := fun n u => ∀ k, 0 < k → n < 10 ^ k → u.length ≤ k) ?_ ?_ n
  · intro d _ k hk _
    exact hk
  · intro n d u hn _ ih k hk hlt
    obtain ⟨k, rfl⟩ := Nat.exists_eq_succ_of_ne_zero (Nat.pos_iff_ne_zero.mp hk)
    rw [pow_succ] at hlt
    have hk' : 0 < k := by
      by_contra hzero
      have hzero : k = 0 := by omega
      rw [hzero] at hlt
      omega
    have := ih k hk' (by omega)
    simp
    omega

theorem length_base64Encode (bytes : Bytes) :
    (base64Encode bytes).length = (bytes.length + 2) / 3 * 4 := by
  induction bytes using base64Encode.induct with
  | case1 => rfl
  | case2 b0 => simp [base64Encode]
  | case3 b0 b1 => simp [base64Encode]
  | case4 b0 b1 b2 bytes ih =>
    simp only [base64Encode, List.length_cons, ih]
    omega

/-- **The payload is never too large to be forwarded.** The frame fits a datagram, and its time has
at most the 16 digits that a double holds exactly. -/
theorem length_voicePayload_le (hlen : frame.payload.length ≤ 1200)
    (htime : 0 ≤ frame.captureUnixMs.toInt) (hexact : frame.captureUnixMs.toInt ≤ 2 ^ 53) :
    (voicePayload frame).length ≤ maxVoicePayloadBytes := by
  have hsequence := length_decimal_le frame.sequence.toNat 10 (by omega)
    (by have := frame.sequence.toNat_lt; omega)
  have hcapture := length_decimal_le frame.captureUnixMs.toInt.toNat 16 (by omega) (by omega)
  have hpieces : (utf8 "\x7b\"sequence\":").length = 12 ∧ (utf8 ",\"captureUnixMs\":").length = 17 ∧
      (utf8 ",\"audio\":\"").length = 10 ∧ (utf8 "\"\x7d").length = 2 := by decide
  obtain ⟨h1, h2, h3, h4⟩ := hpieces
  rw [voicePayload, integer_of_nonneg htime]
  simp only [List.length_append, h1, h2, h3, h4, length_base64Encode, maxVoicePayloadBytes]
  omega

/-! ### Numbers -/

/-- A number that was written is converted back as it was. -/
theorem truncate_max_natCast (n : ℕ) : ((Number.finite n).max 0).truncate = n := by
  have hmax : (Number.finite n).max 0 = .finite n := by
    rw [Number.max]
    by_cases hn : (0 : ℚ) < n
    · exact if_pos hn
    · have hzero : (n : ℚ) = 0 := le_antisymm (not_lt.mp hn) (Nat.cast_nonneg n)
      rw [if_neg hn, hzero]
  rw [hmax, Number.truncate, if_pos (Nat.cast_nonneg n), Int.floor_natCast]

/-! ### On its way -/

/-- The message of a frame, as the coordinator reads it. -/
def voiceEnvelope (roomId : String) (frame : EncodedVoiceFrame) : Envelope :=
  { type := "voice_frame", roomID := roomId, payload := voicePayload frame }

/-- The copy that is queued for the others. -/
def voiceCopy (w : Ambient) (h : Hub) (c : ClientPtr) (env : Envelope) : Envelope :=
  { h.stamp w c env with type := "voice_frame", targetPeerID := "" }

variable {w : Ambient} {h : Hub} {c q : ClientPtr} {compact : Bytes → Bytes}

/-- **Forwarding.** A payload of the right size is queued once for everybody else in the room, under
the sender's id, nick and room. -/
theorem news_voice (hi : h.Inv) (hsame : h.SameRoom c q) (hqc : q ≠ c) {env : Envelope}
    (htype : env.type = "voice_frame") (hpos : env.payload ≠ [])
    (hlen : env.payload.length ≤ maxVoicePayloadBytes) :
    h.news (h.handle w c env) q = [voiceCopy w h c env] := by
  obtain ⟨hnamed, hroom, hlive⟩ := hi.of_sameRoom hsame
  obtain ⟨rid, hc, hq⟩ := hsame
  obtain ⟨hcreg, -⟩ := hi.roomID_of_isMember hc
  obtain ⟨hqreg, -⟩ := hi.roomID_of_isMember hq
  obtain ⟨r, hr⟩ := Option.ne_none_iff_exists'.mp hlive
  have hsize : ¬ (env.payload.length = 0 ∨ maxVoicePayloadBytes < env.payload.length) := by
    rw [List.length_eq_zero_iff]
    exact not_or.mpr ⟨hpos, Nat.not_lt.mpr hlen⟩
  have hhandle : h.handle w c env = h.broadcastLocked w (voiceCopy w h c env) r := by
    simp only [Hub.handle, htype, Hub.broadcastVoiceFrame, hr]
    exact if_neg hsize
  rw [hhandle, Hub.broadcastLocked_eq (hi.room_keyed hr),
    Hub.news_of_offered (Hub.offered_deliver _ _),
    Hub.toRoom_eq hcreg (hi.rooms_ok hr).named (hi.room_occupies hr) rfl (by simp [voiceCopy])]
  exact if_pos ⟨hqc, hqreg, hnamed, hroom⟩

/-- What the receiver reads in the copy: the frame, under the sender's id. The numbers are those
that a double holds exactly, and the bytes come back from base 64. -/
theorem voiceFrameOfMessage_marshal {env : Envelope} (henv : Forwarded env)
    (hpayload : env.payload = voicePayload frame)
    (hcompact : compact (voicePayload frame) = voicePayload frame)
    (htime : 0 ≤ frame.captureUnixMs.toInt) :
    voiceFrameOfMessage (env.marshal compact) = { frame with sourcePeerId := utf8 env.peerID } := by
  have hcut : extractBalancedValue (env.marshal compact) (utf8 "payload") openBrace closeBrace =
      some (voicePayload frame) := by
    rw [henv.payload_eq compact (closed_voiceFields frame), hpayload, hcompact]
    rw [hpayload, hcompact, voicePayload_eq htime, object]
    rfl
  have hsound := sound_voiceFields frame
  have hsequence : extractJsonNumber (voicePayload frame) (utf8 "sequence") =
      some (.finite frame.sequence.toNat) := by
    rw [voicePayload_eq htime]
    exact numberAt_object (by decide) hsound (if_pos rfl)
  have hcapture : extractJsonNumber (voicePayload frame) (utf8 "captureUnixMs") =
      some (.finite frame.captureUnixMs.toInt.toNat) := by
    have hread : readAt (utf8 "captureUnixMs") (voiceFields frame) =
        some ((voiceFields frame).drop 1) := rfl
    rw [voicePayload_eq htime]
    exact numberAt_object (by decide) hsound hread
  have haudio : extractJsonString (voicePayload frame) (utf8 "audio") =
      some (base64Encode frame.payload) := by
    have hread : readAt (utf8 "audio") (voiceFields frame) =
        some ((voiceFields frame).drop 2) := rfl
    rw [voicePayload_eq htime, stringAt_object (by decide) hsound hread, clean_base64Encode]
  have hnat : ((frame.captureUnixMs.toInt.toNat : ℕ) : ℤ) = frame.captureUnixMs.toInt :=
    Int.toNat_of_nonneg htime
  rw [voiceFrameOfMessage, hcut, henv.peerId_eq]
  simp only [Option.getD_some, hsequence, hcapture, haudio, Option.bind_some,
    base64Decode_base64Encode, truncate_max_natCast, Int.toNat_natCast, UInt32.ofNat_toNat, hnat,
    Int64.ofInt_toInt]

/-- The copy of a member's frame is one of the messages that are passed on. -/
theorem forwarded_voiceCopy {roomId : String} (hroom : Generated "room" (h.client c).roomID)
    (hid : Generated "peer" (h.client c).id) (hnick : Printable (h.client c).nick)
    (hne : voicePayload frame ≠ []) :
    Forwarded (voiceCopy w h c (voiceEnvelope roomId frame)) where
  type := show "voice_frame" ∈ payloadTypes by decide
  roomID := hroom
  peerID := hid
  targetPeerID := .inl rfl
  nick := hnick
  room := rfl
  rooms := rfl
  payload := hne

theorem voicePayload_ne_nil (frame : EncodedVoiceFrame) : voicePayload frame ≠ [] := by
  have hopen : utf8 "\x7b\"sequence\":" ≠ [] := by decide
  rw [voicePayload]
  simp [hopen]

/-- What the receiver does with a frame it reads: it queues one event with it. A frame without a
source or without bytes would be dropped. -/
theorem handleServerMessage_voice (receiver : SignalingClient) (now : ℕ) {text : Bytes}
    (htype : extractJsonString text (utf8 "type") = some (utf8 "voice_frame"))
    (hsource : (voiceFrameOfMessage text).sourcePeerId ≠ [])
    (hpayload : (voiceFrameOfMessage text).payload ≠ []) :
    receiver.handleServerMessage now text = receiver.queueEvent
      { type := utf8 "voice_frame", peer := { lastSeen := now },
        voiceFrame := voiceFrameOfMessage text } := by
  have hkinds : utf8 "voice_frame" ∉ [[], utf8 "hello", utf8 "rooms", utf8 "room_created",
      utf8 "joined_room", utf8 "peer_status", utf8 "peer_joined", utf8 "peer_left",
      utf8 "ice_offer", utf8 "ice_answer", utf8 "ice_candidate"] := by decide
  simp only [List.mem_cons, List.not_mem_nil, or_false, not_or] at hkinds
  simp only [SignalingClient.handleServerMessage, htype, Option.getD_some, hkinds, if_false,
    or_self, if_true, hsource, hpayload, ne_eq, not_false_eq_true, and_self]

/-- **A relayed frame arrives.** The coordinator reads the sender's text, whatever JSON library it
has that does what is documented of it; the hub queues one copy for everybody else in the room; and
of that copy's text a receiver makes one `voice_frame` event: the sender's frame, under the sender's
peer id. The ids are the coordinator's, the sender's nick may be any printable text, the payload has
between 1 and 1200 bytes, and the capture time must not be negative and be one that a `double` holds
exactly. -/
theorem voice_frame_relayed (hreach : Hub.machine.Reachable h) (hsame : h.SameRoom c q)
    (hqc : q ≠ c) (hroom : Generated "room" (h.client c).roomID)
    (hid : Generated "peer" (h.client c).id) (hnick : Printable (h.client c).nick)
    {sender : SignalingClient} (hconnected : sender.connected = true) {roomId : String}
    (hlive : Generated "room" roomId) (hpos : 1 ≤ frame.payload.length)
    (hlen : frame.payload.length ≤ 1200) (htime : 0 ≤ frame.captureUnixMs.toInt)
    (hexact : frame.captureUnixMs.toInt ≤ 2 ^ 53) (lib : JsonLibrary) :
    ∃ text env copy, sender.sendVoiceFrame (utf8 roomId) frame = some text ∧
      lib.unmarshal text = some env ∧ h.news (h.handle w c env) q = [copy] ∧
      ∀ (receiver : SignalingClient) (now : ℕ),
        receiver.handleServerMessage now (copy.marshal lib.compact) = receiver.queueEvent
          { type := utf8 "voice_frame", peer := { lastSeen := now },
            voiceFrame := { frame with sourcePeerId := utf8 (h.client c).id } } := by
  have hsent : sender.sendVoiceFrame (utf8 roomId) frame =
      some (voiceText (utf8 roomId) frame) := by
    have hname : utf8 roomId ≠ [] := fun heq => hlive.ne_empty (utf8_injective heq)
    have hpayload : frame.payload ≠ [] := List.ne_nil_of_length_pos hpos
    rw [SignalingClient.sendVoiceFrame, if_neg]
    simp [hconnected, hname, hpayload]
  have hread : lib.unmarshal (voiceText (utf8 roomId) frame) =
      some (voiceEnvelope roomId frame) := by
    rw [unmarshal_voiceText lib _ (compact_voicePayload htime) (within_fields 9998),
      text_clean lib (by decide), text_clean lib (hlive.printable (by decide)), voiceEnvelope]
  have hcompact : lib.compact (voicePayload frame) = voicePayload frame :=
    lib.compact_eq _ _ (compact_voicePayload htime).denotes (bare_voicePayload htime)
  have hcopy := @forwarded_voiceCopy frame w h c roomId hroom hid hnick
    (voicePayload_ne_nil frame)
  refine ⟨_, _, _, hsent, hread, news_voice (Hub.inv_of_reachable hreach) hsame hqc rfl
    (voicePayload_ne_nil frame) (length_voicePayload_le hlen htime hexact), ?_⟩
  intro receiver now
  have hframe := voiceFrameOfMessage_marshal hcopy rfl hcompact htime
  have hpeer : utf8 (h.client c).id ≠ [] := fun heq => hid.ne_empty (utf8_injective heq)
  rw [handleServerMessage_voice receiver now (type_marshal lib.compact hcopy.printable_type),
    hframe]
  · rfl
  · rw [hframe]
    exact hpeer
  · rw [hframe]
    exact List.ne_nil_of_length_pos hpos

/-- A frame of four bytes. -/
def shortFrame : EncodedVoiceFrame where
  sequence := 7
  captureUnixMs := 1700000000123
  payload := [1, 2, 3, 255]

theorem voice_frame_relayed_shared :
    ∃ env copy,
      JsonLibrary.minimal.unmarshal (voiceText (utf8 "room_a1") shortFrame) = some env ∧
      Hub.shared.news (Hub.shared.handle (Ambient.plain 30 "") 0 env) 1 = [copy] ∧
      (({} : SignalingClient).handleServerMessage 5
        (copy.marshal JsonLibrary.minimal.compact)).events.map Event.voiceFrame =
          [{ shortFrame with sourcePeerId := utf8 "peer_1" }] := by
  have hlive : Generated "room" "room_a1" := ⟨"a1", by decide, by decide⟩
  obtain ⟨text, env, copy, hsent, hread, hnews, hreceived⟩ := @voice_frame_relayed shortFrame
    (Ambient.plain 30 "") Hub.shared 0 1 Hub.shared_reachable
    ⟨"room_a1", ⟨0, by decide, by decide⟩, ⟨0, by decide, by decide⟩⟩ (by decide)
    hlive ⟨"1", by decide, by decide⟩ (by decide)
    { connected := true } rfl "room_a1" hlive (by decide) (by decide) (by decide) (by decide)
    JsonLibrary.minimal
  have htext : voiceText (utf8 "room_a1") shortFrame = text := Option.some.inj hsent
  rw [htext]
  refine ⟨env, copy, hread, hnews, ?_⟩
  rw [hreceived]
  rfl

end Protocol

end TarkovVoice

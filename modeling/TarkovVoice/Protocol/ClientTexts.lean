import TarkovVoice.Client.Requests
import TarkovVoice.Coordinator.Unmarshal
import TarkovVoice.Protocol.WireText

/-!
# What the coordinator reads in a client's texts

A client puts its messages together from literals and pieces, and the coordinator reads them with
its JSON library. Here the texts that carry a payload, those of `sendIce` and `sendVoiceFrame`, are
taken apart as the library takes them apart: they are objects of a type, ids, and the payload. What
the library is assumed to do with objects then says which envelope it reads.

The payloads are objects themselves, written without blanks and in plain ASCII, so marshalling them
again leaves them as they are.

## Main definitions

* `fieldEntry` — a simple member, as it is read
* `iceEntries`, `voiceEntries` — the members of the two messages

## Main results

* `compact_fields` — an object of simple members
* `unmarshal_iceText`, `unmarshal_voiceText`
-/

namespace TarkovVoice

namespace Protocol

open Net Coordinator Client
open Audio (EncodedVoiceFrame)
open JsonGrammar (Compact Entry IsName IsNumber Json Within compact_objectText objectText
  plain_entry)

/-! ### Simple members -/

/-- A simple member as it is read. A value that is no string is a number here. -/
def fieldEntry : Field → Entry
  | (name, .string s) => userEntry name s
  | (name, .plain u) => ⟨name, .number u, u⟩

/-- The value is a string or the text of a number. Members with such values can be told from the
text alone. -/
def IsSimple (m : Field) : Prop :=
  match m.2 with
  | .string _ => True
  | .plain u => IsNumber u

theorem isName_of_word {name : Bytes} (h : Word name) : IsName name := by
  have hbyte : ∀ c : UInt8, isalpha c = true → 0x20 ≤ c ∧ c ≠ quote ∧ c ≠ backslash :=
    forall_byte (by decide +kernel)
  exact fun c hc => hbyte c (h.2 c hc)

theorem separated_eq_joined (items : List Bytes) : separated items = JsonGrammar.joined items := by
  cases items <;> rfl

theorem writeField_eq {m : Field} (h : Word m.1) :
    writeField m = JsonGrammar.member (fieldEntry m).name (fieldEntry m).text := by
  obtain ⟨name, value⟩ := m
  cases value <;> simp [writeField, quoted_of_word h] <;> rfl

variable {ms : List Field}

/-- An object of simple members is the text of its entries. -/
theorem object_fields (h : ∀ m ∈ ms, Word m.1) :
    object (ms.map writeField) = objectText (ms.map fieldEntry) := by
  have hitems : ms.map writeField =
      (ms.map fieldEntry).map fun e => JsonGrammar.member e.name e.text := by
    rw [List.map_map]
    exact List.map_congr_left fun m hm => writeField_eq (h m hm)
  rw [object, separated_eq_joined, hitems]
  rfl

theorem plain_fieldEntry {m : Field} (hname : Word m.1) (h : IsSimple m) :
    (fieldEntry m).Plain := by
  obtain ⟨name, value⟩ := m
  cases value with
  | string s => exact plain_userEntry (isName_of_word hname) s
  | plain u => exact plain_entry (isName_of_word hname) (JsonGrammar.compact_number h)

/-- **An object of simple members** can stand inside of a value. It has at least one, its names are
words, and a value is a string or a number. -/
theorem compact_fields (hne : ms ≠ []) (hname : ∀ m ∈ ms, Word m.1) (h : ∀ m ∈ ms, IsSimple m) :
    Compact (.object ((ms.map fieldEntry).map Entry.member)) (object (ms.map writeField)) := by
  rw [object_fields hname]
  refine compact_objectText (fun hnil => hne (List.map_eq_nil_iff.mp hnil)) ?_
  exact List.forall_mem_map.mpr fun m hm => plain_fieldEntry (hname m hm) (h m hm)

/-- No brackets are nested in it. -/
theorem within_fields (n : ℕ) :
    Within (n + 1) (.object ((ms.map fieldEntry).map Entry.member)) := by
  refine .object ?_
  rw [List.map_map]
  refine List.forall_mem_map.mpr fun m _ => ?_
  obtain ⟨name, value⟩ := m
  cases value with
  | string s => exact .string
  | plain u => exact .number

theorem isNumber_decimal (n : ℕ) : IsNumber (decimal n) := isNumber_integer n

/-! ### Plain texts -/

theorem bare_decimal (n : ℕ) : ∀ c ∈ decimal n, Bare c := by
  have hbyte : ∀ c : UInt8, isdigit c = true → Bare c := forall_byte (by decide +kernel)
  exact fun c hc => hbyte c (decimal_isdigit n c hc)

theorem escapeJson_eq_self {s : Bytes} (h : ∀ c ∈ s, escapeByte c = [c]) : escapeJson s = s := by
  induction s with
  | nil => rfl
  | cons c s ih =>
    obtain ⟨hc, hs⟩ := List.forall_mem_cons.mp h
    rw [escapeJson_cons, hc, ih hs, List.singleton_append]

/-! ### The messages -/

/-- The members of the text of `sendIce`. -/
def iceEntries (message : IceMessage) (payload : Json) : List Entry :=
  [ userEntry (utf8 "type") message.type,
    userEntry (utf8 "roomId") message.roomId,
    userEntry (utf8 "targetPeerId") message.targetPeerId,
    ⟨utf8 "payload", payload, message.payloadJson⟩ ]

/-- The members of the text of `sendVoiceFrame`. -/
def voiceEntries (roomId : Bytes) (frame : EncodedVoiceFrame) (payload : Json) : List Entry :=
  [ userEntry (utf8 "type") (utf8 "voice_frame"),
    userEntry (utf8 "roomId") roomId,
    ⟨utf8 "payload", payload, voicePayload frame⟩ ]

theorem iceText_eq {message : IceMessage} (hne : message.payloadJson ≠ []) (payload : Json) :
    iceText message = objectText (iceEntries message payload) := by
  have hopen : utf8 "\x7b\"type\":\"" =
      openBrace :: quote :: (utf8 "type" ++ [quote, colon, quote]) := by decide
  have hroom : utf8 "\",\"roomId\":\"" = between (utf8 "roomId") := by decide
  have htarget : utf8 "\",\"targetPeerId\":\"" = between (utf8 "targetPeerId") := by decide
  have hpayload : utf8 "\",\"payload\":" =
      quote :: comma :: JsonGrammar.member (utf8 "payload") [] := by decide
  have hclose : utf8 "\x7d" = [closeBrace] := by decide
  rw [iceText, if_neg hne, hopen, hroom, htarget, hpayload, hclose, iceEntries, objectText_cons]
  simp only [userEntry, List.flatMap_cons, List.flatMap_nil, member_eq, quoted, between,
    List.cons_append, List.append_assoc, List.nil_append]

theorem voiceText_eq (roomId : Bytes) (frame : EncodedVoiceFrame) (payload : Json) :
    voiceText roomId frame = objectText (voiceEntries roomId frame payload) := by
  have hopen : utf8 "\x7b\"type\":\"voice_frame\",\"roomId\":\"" =
      openBrace :: quote :: (utf8 "type" ++ quote :: colon :: quote ::
        (escapeJson (utf8 "voice_frame") ++ between (utf8 "roomId"))) := by decide
  have hpayload : utf8 "\",\"payload\":" =
      quote :: comma :: JsonGrammar.member (utf8 "payload") [] := by decide
  have hclose : utf8 "\x7d" = [closeBrace] := by decide
  rw [voiceText, hopen, hpayload, hclose, voiceEntries, objectText_cons]
  simp only [userEntry, List.flatMap_cons, List.flatMap_nil, member_eq, quoted, between,
    List.cons_append, List.append_assoc, List.nil_append]

/-- What the library makes of the strings of a client: a printable one comes out as it was. -/
theorem text_clean (lib : JsonLibrary) {s : String} (h : Printable s) :
    lib.text ((utf8 s).map clean) = s := by
  rw [clean_utf8 h, lib.text_utf8]

/-- **The text of `sendIce`** is read as its type, its ids and its payload, if that is a value not
nested too deep. The payload stays the text it is. -/
theorem unmarshal_iceText (lib : JsonLibrary) {message : IceMessage} {payload : Json}
    (hpayload : Compact payload message.payloadJson) (hwithin : Within 9999 payload) :
    lib.unmarshal (iceText message) = some
      { type := lib.text (message.type.map clean)
        roomID := lib.text (message.roomId.map clean)
        targetPeerID := lib.text (message.targetPeerId.map clean)
        payload := message.payloadJson } := by
  have hne : message.payloadJson ≠ [] := by
    rintro hnil
    obtain ⟨c, hc, -⟩ := hpayload.head
    rw [hnil] at hc
    cases hc
  have hplain : ∀ e ∈ iceEntries message payload, e.Plain := by
    simp only [iceEntries, List.forall_mem_cons, List.not_mem_nil, false_imp_iff, implies_true,
      and_true]
    exact ⟨plain_userEntry (by decide) _, plain_userEntry (by decide) _,
      plain_userEntry (by decide) _, plain_entry (by decide) hpayload⟩
  have hnested : ∀ e ∈ iceEntries message payload, Within 9999 e.value := by
    simp only [iceEntries, List.forall_mem_cons, List.not_mem_nil, false_imp_iff, implies_true,
      and_true]
    exact ⟨.string, .string, .string, hwithin⟩
  rw [iceText_eq hne payload]
  exact lib.unmarshal_eq _ _ _ (JsonGrammar.isObjectOf_objectText (List.cons_ne_nil _ _) hplain)
    hnested rfl

/-- **The text of `sendVoiceFrame`** is read as its room id and its payload, which stays the text it
is. -/
theorem unmarshal_voiceText (lib : JsonLibrary) (roomId : Bytes) {frame : EncodedVoiceFrame}
    {payload : Json} (hpayload : Compact payload (voicePayload frame))
    (hwithin : Within 9999 payload) :
    lib.unmarshal (voiceText roomId frame) = some
      { type := lib.text ((utf8 "voice_frame").map clean)
        roomID := lib.text (roomId.map clean)
        payload := voicePayload frame } := by
  have hplain : ∀ e ∈ voiceEntries roomId frame payload, e.Plain := by
    simp only [voiceEntries, List.forall_mem_cons, List.not_mem_nil, false_imp_iff, implies_true,
      and_true]
    exact ⟨plain_userEntry (by decide) _, plain_userEntry (by decide) _,
      plain_entry (by decide) hpayload⟩
  have hnested : ∀ e ∈ voiceEntries roomId frame payload, Within 9999 e.value := by
    simp only [voiceEntries, List.forall_mem_cons, List.not_mem_nil, false_imp_iff, implies_true,
      and_true]
    exact ⟨.string, .string, hwithin⟩
  rw [voiceText_eq roomId frame payload]
  exact lib.unmarshal_eq _ _ _ (JsonGrammar.isObjectOf_objectText (List.cons_ne_nil _ _) hplain)
    hnested rfl

end Protocol

end TarkovVoice

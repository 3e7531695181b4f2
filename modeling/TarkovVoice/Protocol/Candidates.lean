import TarkovVoice.Coordinator.Forwarding
import TarkovVoice.Coordinator.History
import TarkovVoice.Protocol.ClientTexts
import TarkovVoice.Protocol.Forwarded

/-!
# Candidates from client to client

`makeLocalPayloadJson` and `parseCandidates` of the direct transport, and what lies between them:
the message `sendIce` builds, the copy the coordinator routes to the target, and the payload the
target cuts out of its text.

`DirectVoiceTransport.cpp` has its own copies of the functions in `Json`, which do the same.

## Main definitions

* `LocalCandidate` — the candidates `start` can produce

## Main results

* `parseCandidates_makeLocalPayloadJson` — a list of candidates is read as it was written
* `candidates_agree` — also at the other end of the way
-/

namespace TarkovVoice

namespace Protocol

open Net Coordinator Client
open DirectVoiceTransport (candidateJson makeLocalPayloadJson parseCandidate parseCandidates
  candidatePort)

/-- A candidate `start` can produce: one of its three types, an address in digits and dots, and the
port of a socket, which is not 0. -/
structure LocalCandidate (c : Candidate) : Prop where
  type : c.type ∈ [utf8 "host", utf8 "srflx", utf8 "public"]
  address_ne_nil : c.address ≠ []
  address : ∀ b ∈ c.address, isdigit b = true ∨ b = 46
  port : c.port ≠ 0

/-! ### One candidate -/

/-- The members of a candidate. -/
def candidateFields (c : Candidate) : List Field :=
  [ (utf8 "type", .string c.type),
    (utf8 "address", .string c.address),
    (utf8 "port", .plain (decimal c.port.toNat)) ]

theorem candidateJson_eq (c : Candidate) :
    candidateJson c = object ((candidateFields c).map writeField) := by
  have hopen : utf8 "\x7b\"type\":\"" = openBrace :: (quoted (utf8 "type") ++ [colon, quote]) := by
    decide
  have haddress : utf8 "\",\"address\":\"" =
      quote :: comma :: (quoted (utf8 "address") ++ [colon, quote]) := by decide
  have hport : utf8 "\",\"port\":" = quote :: comma :: (quoted (utf8 "port") ++ [colon]) := by
    decide
  have hclose : utf8 "\x7d" = [closeBrace] := by decide
  rw [candidateJson, hopen, haddress, hport, hclose]
  simp [object, separated, candidateFields, writeField, Value.text, quoted]

theorem sound_candidateFields (c : Candidate) : SoundFields (candidateFields c) := by
  simp only [SoundFields, candidateFields, List.forall_mem_cons, List.not_mem_nil, false_imp_iff,
    implies_true, and_true]
  exact ⟨⟨by decide, trivial⟩, ⟨by decide, trivial⟩, by decide, sound_decimal _⟩

theorem closed_candidateFields {o b : UInt8} (h : Plain o b) (c : Candidate) :
    ∀ item ∈ (candidateFields c).map writeField, Closed o b item := by
  intro item hitem
  obtain ⟨m, hm, rfl⟩ := List.mem_map.mp hitem
  refine closed_writeField h ?_
  simp only [candidateFields, List.mem_cons, List.not_mem_nil, or_false] at hm
  rcases hm with rfl | rfl | rfl
  · exact Closed.quoted _
  · exact Closed.quoted _
  · exact closed_decimal h _

/-- A port is converted back as it was: it is within the bounds that the conversion clamps to. -/
theorem candidatePort_natCast (port : UInt16) : candidatePort (.finite port.toNat) = port := by
  have hlt := port.toNat_lt
  have hneg : ¬ ((port.toNat : ℚ) < 0) := not_lt.mpr (Nat.cast_nonneg _)
  have hle : ¬ ((65535 : ℚ) < port.toNat) := by
    have : ((port.toNat : ℕ) : ℚ) ≤ ((65535 : ℕ) : ℚ) := Nat.cast_le.mpr (by omega)
    exact not_lt.mpr (by simpa using this)
  rw [candidatePort, if_neg hneg, if_neg hle, Int.floor_natCast, Int.toNat_natCast,
    UInt16.ofNat_toNat]

namespace LocalCandidate

variable {c : Candidate}

theorem not_shadows_type (h : LocalCandidate c) {key : Bytes}
    (hkey : key ∈ [utf8 "address", utf8 "port"]) : ¬ Shadows c.type key := by
  have hall : ∀ type ∈ [utf8 "host", utf8 "srflx", utf8 "public"],
      ∀ key ∈ [utf8 "address", utf8 "port"], ¬ Shadows type key := by decide
  exact hall _ h.type key hkey

/-- An address has no letters, and a key has nothing else. So no address hides a key. -/
theorem not_shadows_address (h : LocalCandidate c) {key : Bytes} (hkey : Word key) :
    ¬ Shadows c.address key := by
  have hbyte : ∀ b : UInt8, isdigit b = true ∨ b = 46 → b ≠ quote ∧ isalpha b = false :=
    forall_byte (by decide +kernel)
  have hquote : quote ∉ c.address := fun hmem => (hbyte _ (h.address _ hmem)).1 rfl
  rw [shadows_of_quote_notMem hquote]
  rintro rfl
  obtain ⟨b, address, hb⟩ := List.exists_cons_of_ne_nil h.address_ne_nil
  have hmem : b ∈ c.address := hb ▸ List.mem_cons_self ..
  have halpha := hkey.2 b hmem
  rw [(hbyte b (h.address b hmem)).2] at halpha
  cases halpha

theorem clean_type (h : LocalCandidate c) : c.type.map clean = c.type := by
  have hall : ∀ type ∈ [utf8 "host", utf8 "srflx", utf8 "public"], type.map clean = type := by
    decide
  exact hall _ h.type

theorem clean_address (h : LocalCandidate c) : c.address.map clean = c.address := by
  have hbyte : ∀ b : UInt8, isdigit b = true ∨ b = 46 → clean b = b :=
    forall_byte (by decide +kernel)
  exact (List.map_congr_left fun b hb => hbyte b (h.address b hb)).trans (List.map_id _)

/-- **One candidate** is read as it was written, type, address and port, if it is one that `start`
can produce. -/
theorem parseCandidate_candidateJson (h : LocalCandidate c) :
    parseCandidate (candidateJson c) = some c := by
  have hsound := sound_candidateFields c
  have htype : extractJsonString (candidateJson c) (utf8 "type") = some c.type := by
    rw [candidateJson_eq, stringAt_object (by decide) hsound (if_pos rfl), h.clean_type]
  have haddress : extractJsonString (candidateJson c) (utf8 "address") = some c.address := by
    have hread : readAt (utf8 "address") (candidateFields c) =
        some ((candidateFields c).drop 1) := by
      have htype : ¬ (Value.string c.type).Hides (utf8 "address") :=
        h.not_shadows_type (by decide)
      rw [candidateFields, readAt, if_neg (by decide), if_neg htype]
      exact if_pos rfl
    rw [candidateJson_eq, stringAt_object (by decide) hsound hread, h.clean_address]
  have hport : extractJsonNumber (candidateJson c) (utf8 "port") =
      some (.finite c.port.toNat) := by
    have hread : readAt (utf8 "port") (candidateFields c) = some ((candidateFields c).drop 2) := by
      have htype : ¬ (Value.string c.type).Hides (utf8 "port") := h.not_shadows_type (by decide)
      have haddress : ¬ (Value.string c.address).Hides (utf8 "port") :=
        h.not_shadows_address (by decide)
      rw [candidateFields, readAt, if_neg (by decide), if_neg htype, readAt, if_neg (by decide),
        if_neg haddress]
      exact if_pos rfl
    rw [candidateJson_eq]
    exact numberAt_object (by decide) hsound hread
  rw [parseCandidate, htype, haddress, hport]
  simp only [Option.getD_some, candidatePort_natCast]
  exact if_pos ⟨h.address_ne_nil, h.port⟩

end LocalCandidate

/-! ### The list -/

/-- The members in front of the list. -/
def versionFields : List Field :=
  [(utf8 "version", .plain (utf8 "1")), (utf8 "transport", .string (utf8 "udp"))]

theorem separated_eq (items : List Bytes) :
    separated items = (items.intersperse [comma]).flatten := by
  induction items with
  | nil => rfl
  | cons item items ih =>
    cases items with
    | nil => simp [separated]
    | cons item' items =>
      rw [List.intersperse_cons_cons, List.flatten_cons, List.flatten_cons, ← ih]
      simp [separated]

variable (d : DirectVoiceTransport)

/-- The payload is an object of these members and the list. -/
theorem makeLocalPayloadJson_eq :
    d.makeLocalPayloadJson = object (versionFields.map writeField ++
      [member "candidates" (array (d.localCandidates.map candidateJson))]) := by
  have hopen : utf8 "\x7b\"version\":1,\"transport\":\"udp\",\"candidates\":[" =
      openBrace :: (writeField (utf8 "version", .plain (utf8 "1")) ++
        comma :: (writeField (utf8 "transport", .string (utf8 "udp")) ++
        comma :: (appendString "candidates" ++ [colon, openBracket]))) := by decide
  have hclose : utf8 "]\x7d" = [closeBracket, closeBrace] := by decide
  rw [makeLocalPayloadJson, hopen, hclose, ← separated_eq]
  simp [object, separated, versionFields, member, array]

theorem candidateJson_braces (c : Candidate) :
    ∃ u, Closed openBrace closeBrace u ∧ candidateJson c = openBrace :: (u ++ [closeBrace]) := by
  refine ⟨_, closed_separated plain_brace (closed_candidateFields plain_brace c), ?_⟩
  rw [candidateJson_eq, object]
  rfl

theorem closed_candidateJson (c : Candidate) :
    Closed openBrace closeBrace (candidateJson c) ∧
      Closed openBracket closeBracket (candidateJson c) := by
  rw [candidateJson_eq]
  exact ⟨.nest (closed_separated plain_brace (closed_candidateFields plain_brace c)) .nil,
    closed_object (closed_candidateFields plain_bracket c)⟩

theorem closed_candidates (cs : List Candidate) :
    Closed openBracket closeBracket (separated (cs.map candidateJson)) := by
  refine closed_separated plain_bracket fun item hitem => ?_
  obtain ⟨c, -, rfl⟩ := List.mem_map.mp hitem
  exact (closed_candidateJson c).2

/-- The list is cut out of the payload, brackets included. Its key occurs nowhere before it. -/
theorem extractBalancedValue_candidates :
    extractBalancedValue d.makeLocalPayloadJson (utf8 "candidates") openBracket closeBracket =
      some (array (d.localCandidates.map candidateJson)) := by
  have hkey : Word (utf8 "candidates") := by decide
  obtain ⟨text, hobject, hfields⟩ := object_eq (utf8 "version", .plain (utf8 "1"))
    [(utf8 "transport", .string (utf8 "udp"))]
    [member "candidates" (array (d.localCandidates.map candidateJson))]
  have hsound : SoundFields versionFields := by
    simp only [SoundFields, versionFields, List.forall_mem_cons, List.not_mem_nil, false_imp_iff,
      implies_true, and_true]
    exact ⟨⟨by decide, sound_decimal 1⟩, by decide, trivial⟩
  have hfind : findJsonValue d.makeLocalPayloadJson (utf8 "candidates") =
      some (openBracket :: (separated (d.localCandidates.map candidateJson) ++
        closeBracket :: [closeBrace])) := by
    have hhead : ∀ b ∈ (array (d.localCandidates.map candidateJson) ++ [closeBrace]).head?,
        isspace b = false := fun b hb => by cases hb; rfl
    have hbehind := findJsonValue_behind hkey hsound (.inl (by decide)) hhead
    have htext : fields versionFields (comma :: (quoted (utf8 "candidates") ++
        colon :: (array (d.localCandidates.map candidateJson) ++ [closeBrace]))) =
          comma :: text := by
      rw [← hfields, List.flatMap_singleton, member, appendString_eq (by decide)]
      simp [versionFields]
    have hpayload : d.makeLocalPayloadJson = openBrace :: text :=
      (makeLocalPayloadJson_eq d).trans hobject
    rw [hpayload, findJsonValue_cons (d := comma) (by decide) (by decide), ← htext, hbehind]
    simp [array]
  exact extractBalancedValue_of_find brackets_bracket (closed_candidates _) hfind

theorem splitObjectArray_candidates (cs : List Candidate) :
    splitObjectArray (array (cs.map candidateJson)) = cs.map candidateJson := by
  by_cases hnil : cs = []
  · subst hnil
    decide
  · refine splitObjectArray_array _ (by simpa using hnil) fun item hitem => ?_
    obtain ⟨c, -, rfl⟩ := List.mem_map.mp hitem
    exact candidateJson_braces c

/-- **A list of candidates is read as it was written**, none of them left out and in the same
order. -/
theorem parseCandidates_makeLocalPayloadJson (h : ∀ c ∈ d.localCandidates, LocalCandidate c) :
    parseCandidates d.makeLocalPayloadJson = d.localCandidates := by
  have hall : ∀ cs : List Candidate, (∀ c ∈ cs, LocalCandidate c) →
      (cs.map candidateJson).filterMap parseCandidate = cs := by
    intro cs
    induction cs with
    | nil => exact fun _ => rfl
    | cons c cs ih =>
      intro hcs
      rw [List.map_cons, List.filterMap_cons,
        (hcs c (List.mem_cons_self ..)).parseCandidate_candidateJson]
      exact congrArg (c :: ·) (ih fun b hb => hcs b (List.mem_cons_of_mem _ hb))
  rw [parseCandidates, extractBalancedValue_candidates]
  show (splitObjectArray (array (d.localCandidates.map candidateJson))).filterMap parseCandidate = _
  rw [splitObjectArray_candidates, hall _ h]

theorem makeLocalPayloadJson_braces : ∃ u, Closed openBrace closeBrace u ∧
    d.makeLocalPayloadJson = openBrace :: (u ++ [closeBrace]) := by
  have hitems : ∀ item ∈ versionFields.map writeField ++
      [member "candidates" (array (d.localCandidates.map candidateJson))],
      Closed openBrace closeBrace item := by
    refine List.forall_mem_append.mpr ⟨?_, fun item hitem => ?_⟩
    · intro item hitem
      obtain ⟨m, hm, rfl⟩ := List.mem_map.mp hitem
      refine closed_writeField plain_brace ?_
      simp only [versionFields, List.mem_cons, List.not_mem_nil, or_false] at hm
      rcases hm with rfl | rfl
      · exact closed_decimal plain_brace 1
      · exact Closed.quoted _
    · rw [List.mem_singleton.mp hitem]
      refine closed_member plain_brace (by decide) (closed_array fun e he => ?_).1
      obtain ⟨c, -, rfl⟩ := List.mem_map.mp he
      exact closed_candidateJson c
  refine ⟨_, closed_separated plain_brace hitems, ?_⟩
  rw [makeLocalPayloadJson_eq, object]
  rfl

/-! ### The payload as JSON -/

/-- A candidate as a value. -/
def candidateValue (c : Candidate) : JsonGrammar.Json :=
  .object (((candidateFields c).map fieldEntry).map JsonGrammar.Entry.member)

/-- The candidates, each with its text. -/
def candidateItems (cs : List Candidate) : List (JsonGrammar.Json × Bytes) :=
  cs.map fun c => (candidateValue c, candidateJson c)

/-- The members of the payload as they are read. -/
def localEntries : List JsonGrammar.Entry :=
  versionFields.map fieldEntry ++
    [⟨utf8 "candidates", .array ((candidateItems d.localCandidates).map Prod.fst),
      JsonGrammar.arrayText (candidateItems d.localCandidates)⟩]

/-- The payload as a value. -/
def localJson : JsonGrammar.Json := .object ((localEntries d).map JsonGrammar.Entry.member)

theorem compact_candidateJson (c : Candidate) :
    JsonGrammar.Compact (candidateValue c) (candidateJson c) := by
  rw [candidateJson_eq]
  refine compact_fields (List.cons_ne_nil _ _) (fun m hm => (sound_candidateFields c m hm).1) ?_
  simp only [candidateFields, List.forall_mem_cons, List.not_mem_nil, false_imp_iff, implies_true,
    and_true]
  exact ⟨trivial, trivial, isNumber_decimal _⟩

theorem array_eq_arrayText (cs : List Candidate) :
    array (cs.map candidateJson) = JsonGrammar.arrayText (candidateItems cs) := by
  rw [array, separated_eq_joined, JsonGrammar.arrayText, candidateItems, List.map_map]
  rfl

/-- **The payload can stand in a message**, whatever the candidates are. So the reader of the
message takes it over as it is written. -/
theorem compact_makeLocalPayloadJson :
    JsonGrammar.Compact (localJson d) d.makeLocalPayloadJson := by
  have hword : ∀ m ∈ versionFields, Word m.1 := by decide
  have hnumber : JsonGrammar.IsNumber (utf8 "1") := isNumber_decimal 1
  have hsimple : ∀ m ∈ versionFields, IsSimple m := by
    simp only [versionFields, List.forall_mem_cons, List.not_mem_nil, false_imp_iff, implies_true,
      and_true]
    exact ⟨hnumber, trivial⟩
  have hitems : ∀ p ∈ candidateItems d.localCandidates, JsonGrammar.Compact p.1 p.2 :=
    List.forall_mem_map.mpr fun c _ => compact_candidateJson c
  have hplain : ∀ e ∈ localEntries d, e.Plain := by
    refine List.forall_mem_append.mpr ⟨List.forall_mem_map.mpr fun m hm => ?_, ?_⟩
    · exact plain_fieldEntry (hword m hm) (hsimple m hm)
    · exact List.forall_mem_singleton.mpr
        (JsonGrammar.plain_entry (by decide) (JsonGrammar.compact_arrayText hitems))
  have htext : d.makeLocalPayloadJson = JsonGrammar.objectText (localEntries d) := by
    rw [makeLocalPayloadJson_eq, object, separated_eq_joined, JsonGrammar.objectText, localEntries,
      List.map_append, List.map_map, array_eq_arrayText, member, appendString_eq (by decide),
      List.map_congr_left fun m hm => writeField_eq (hword m hm)]
    rfl
  rw [htext]
  exact JsonGrammar.compact_objectText (by simp [localEntries]) hplain

theorem within_localJson : JsonGrammar.Within 9999 (localJson d) := by
  refine .object ?_
  rw [List.forall_mem_map]
  refine List.forall_mem_append.mpr ⟨List.forall_mem_map.mpr fun m _ => ?_, ?_⟩
  · obtain ⟨name, value⟩ := m
    cases value with
    | string s => exact .string
    | plain u => exact .number
  · refine List.forall_mem_singleton.mpr (.array ?_)
    rw [candidateItems, List.map_map]
    exact List.forall_mem_map.mpr fun c _ => within_fields 9996

theorem forall_mem_separated {P : UInt8 → Prop} (hcomma : P comma) {items : List Bytes}
    (h : ∀ item ∈ items, ∀ c ∈ item, P c) : ∀ c ∈ separated items, P c := by
  cases items with
  | nil => exact fun c hc => absurd hc List.not_mem_nil
  | cons item items =>
    obtain ⟨hitem, hitems⟩ := List.forall_mem_cons.mp h
    refine List.forall_mem_append.mpr ⟨hitem, fun c hc => ?_⟩
    obtain ⟨item', hitem', hc⟩ := List.mem_flatMap.mp hc
    rcases List.mem_cons.mp hc with rfl | hc
    · exact hcomma
    · exact hitems item' hitem' c hc

/-- Nothing in a candidate changes when it is marshalled again. -/
theorem LocalCandidate.bare {c : Candidate} (h : LocalCandidate c) :
    ∀ b ∈ candidateJson c, Bare b := by
  have hpieces : (∀ b ∈ utf8 "\x7b\"type\":\"", Bare b) ∧
      (∀ b ∈ utf8 "\",\"address\":\"", Bare b) ∧ (∀ b ∈ utf8 "\",\"port\":", Bare b) ∧
      ∀ b ∈ utf8 "\x7d", Bare b := by decide +kernel
  have htype : ∀ b ∈ escapeJson c.type, Bare b := by
    have hall : ∀ type ∈ [utf8 "host", utf8 "srflx", utf8 "public"],
        ∀ b ∈ escapeJson type, Bare b := by decide +kernel
    exact hall c.type h.type
  have haddress : ∀ b ∈ escapeJson c.address, Bare b := by
    have hbyte : ∀ b : UInt8, isdigit b = true ∨ b = 46 → escapeByte b = [b] ∧ Bare b :=
      forall_byte (by decide +kernel)
    rw [escapeJson_eq_self fun b hb => (hbyte b (h.address b hb)).1]
    exact fun b hb => (hbyte b (h.address b hb)).2
  obtain ⟨hopen, htag, hport, hclose⟩ := hpieces
  rw [candidateJson]
  simp only [List.forall_mem_append]
  exact ⟨⟨⟨⟨⟨⟨hopen, htype⟩, htag⟩, haddress⟩, hport⟩, bare_decimal _⟩, hclose⟩

theorem bare_makeLocalPayloadJson (h : ∀ c ∈ d.localCandidates, LocalCandidate c) :
    ∀ b ∈ d.makeLocalPayloadJson, Bare b := by
  have hopen : ∀ b ∈ utf8 "\x7b\"version\":1,\"transport\":\"udp\",\"candidates\":[", Bare b := by
    decide +kernel
  have hclose : ∀ b ∈ utf8 "]\x7d", Bare b := by decide +kernel
  rw [makeLocalPayloadJson, ← separated_eq]
  simp only [List.forall_mem_append]
  exact ⟨⟨hopen, forall_mem_separated (by decide)
    (List.forall_mem_map.mpr fun c hc => (h c hc).bare)⟩, hclose⟩

/-! ### On their way -/

/-- The type of a signal, as the coordinator has it. -/
def iceType : SignalType → String
  | .iceOffer => "ice_offer"
  | .iceAnswer => "ice_answer"
  | .iceCandidate => "ice_candidate"

theorem signalTypeText_eq (type : SignalType) : signalTypeText type = utf8 (iceType type) := by
  cases type <;> rfl

theorem iceType_mem (type : SignalType) : iceType type ∈ payloadTypes := by
  cases type <;> decide

theorem isIce_iceType (type : SignalType) : Hub.IsIce (iceType type) := by
  cases type <;> decide

/-- The message of a signal, as the coordinator reads it. -/
def iceEnvelope (type : SignalType) (roomId targetPeerId : String) (payloadJson : Bytes) :
    Envelope :=
  { type := iceType type, roomID := roomId, targetPeerID := targetPeerId, payload := payloadJson }

/-- The message of a signal, as the sender has it. -/
def iceMessage (type : SignalType) (roomId : Bytes) (targetPeerId : String) (payloadJson : Bytes) :
    IceMessage where
  type := signalTypeText type
  roomId := roomId
  targetPeerId := utf8 targetPeerId
  payloadJson := payloadJson

variable {w : Ambient} {h : Hub} {c q : ClientPtr} {compact : Bytes → Bytes}

/-- **Routing.** A signal for somebody in the sender's room is queued there once, with the sender's
id, nick and room. -/
theorem news_ice (hi : h.Inv) (hsame : h.SameRoom c q) {env : Envelope} (htype : Hub.IsIce env.type)
    (htarget : env.targetPeerID = (h.client q).id) :
    h.news (h.handle w c env) q = [h.stamp w c env] := by
  have hq : h.clients.get env.targetPeerID = some q := by
    obtain ⟨rid, -, hq⟩ := hsame
    rw [htarget]
    exact (hi.roomID_of_isMember hq).1
  have hhandle : h.handle w c env = h.routeToPeer w c env := by
    rcases htype with htype | htype | htype <;> simp only [Hub.handle, htype]
  rcases Hub.routeToPeer_cases w h c env with ⟨target, hroutes, heq⟩ | ⟨hnone, -⟩
  · obtain rfl := Option.some.inj (hq.symm.trans hroutes.1)
    rw [hhandle, heq, Hub.news_toOne]
    exact if_pos rfl
  · exact absurd (hi.routes_of_sameRoom hq hsame) (hnone q)

/-- What the target reads in the copy: the sender's id and the payload, as they were written. The
nick and the time that stand in the copy too do no harm. -/
theorem iceOfMessage_marshal {env : Envelope} (henv : Forwarded env) (hne : env.targetPeerID ≠ "")
    (hpayload : env.payload = d.makeLocalPayloadJson)
    (hcompact : compact d.makeLocalPayloadJson = d.makeLocalPayloadJson) (type : Bytes) :
    iceOfMessage type (env.marshal compact) =
      { roomId := utf8 env.roomID, sourcePeerId := utf8 env.peerID,
        targetPeerId := utf8 env.targetPeerID, type, payloadJson := d.makeLocalPayloadJson } := by
  obtain ⟨u, hu, hbraces⟩ := makeLocalPayloadJson_braces d
  have hcut : extractBalancedValue (env.marshal compact) (utf8 "payload") openBrace closeBrace =
      some d.makeLocalPayloadJson := by
    rw [henv.payload_eq compact hu, hpayload, hcompact]
    rw [hpayload, hcompact, hbraces]
  rw [iceOfMessage, henv.roomId_eq, henv.peerId_eq, henv.targetPeerId_eq compact hne, hcut]
  rfl

/-- What the target does with a signal: it queues one event, and the payload goes with it unread. -/
theorem handleServerMessage_ice (receiver : SignalingClient) (now : ℕ) (type : SignalType)
    {text : Bytes} (htype : extractJsonString text (utf8 "type") = some (signalTypeText type)) :
    receiver.handleServerMessage now text = receiver.queueEvent
      { type := signalTypeText type, peer := { lastSeen := now },
        ice := iceOfMessage (signalTypeText type) text } := by
  have hkinds : signalTypeText type ∉ [[], utf8 "hello", utf8 "rooms", utf8 "room_created",
      utf8 "joined_room", utf8 "peer_status", utf8 "peer_joined", utf8 "peer_left"] := by
    cases type <;> decide
  have hice : signalTypeText type = utf8 "ice_offer" ∨ signalTypeText type = utf8 "ice_answer" ∨
      signalTypeText type = utf8 "ice_candidate" := by
    cases type <;> decide
  simp only [List.mem_cons, List.not_mem_nil, or_false, not_or] at hkinds
  simp only [SignalingClient.handleServerMessage, htype, Option.getD_some, hkinds, if_false,
    or_self, hice, if_true]

/-- A signal event is handled as a signal. -/
theorem toSignalingEvent_ice (type : SignalType) (peer : PeerStatus) (message : IceMessage) :
    Event.toSignalingEvent { type := signalTypeText type, peer, ice := message } =
      some (.ice message.sourcePeerId type message.payloadJson) := by
  cases type <;> rfl

theorem printable_iceType (type : SignalType) : Printable (iceType type) := by
  cases type <;> decide

/-- The text of `sendIce` is what the coordinator reads. Of the room id it reads what is left of it
when control bytes are blanks. -/
theorem unmarshal_candidates (lib : JsonLibrary) (type : SignalType) (roomId : Bytes)
    {targetPeerId : String} (htarget : Printable targetPeerId) :
    lib.unmarshal (iceText (iceMessage type roomId targetPeerId d.makeLocalPayloadJson)) =
      some (iceEnvelope type (lib.text (roomId.map clean)) targetPeerId
        d.makeLocalPayloadJson) := by
  rw [@unmarshal_iceText lib (iceMessage type roomId targetPeerId d.makeLocalPayloadJson) _
    (compact_makeLocalPayloadJson d) (within_localJson d)]
  simp only [iceMessage, signalTypeText_eq, text_clean lib (printable_iceType type),
    text_clean lib htarget]
  rfl

/-- **Candidates agree.** The list a transport writes is the list that is read back, at once and
at the other end: `sendIce` sends it in a text that the coordinator reads, whatever JSON library it
has that does what is documented of it; the hub queues one copy for the target; and the target cuts
the same payload out of that copy's text. The sender's nick may be any printable text, and the room
id in the message any bytes. -/
theorem candidates_agree (hlocal : ∀ cand ∈ d.localCandidates, LocalCandidate cand) :
    parseCandidates d.makeLocalPayloadJson = d.localCandidates ∧
    ∀ {h : Hub}, Hub.machine.Reachable h → ∀ {c q : ClientPtr}, h.SameRoom c q →
      Generated "room" (h.client c).roomID → Generated "peer" (h.client c).id →
      Generated "peer" (h.client q).id → Printable (h.client c).nick →
      ∀ {sender : SignalingClient}, sender.connected = true → ∀ (type : SignalType)
        (roomId : Bytes) (lib : JsonLibrary) (w : Ambient),
      ∃ text env copy,
        sender.sendIce (iceMessage type roomId (h.client q).id d.makeLocalPayloadJson) =
          some text ∧
        lib.unmarshal text = some env ∧ h.news (h.handle w c env) q = [copy] ∧
        ∀ (receiver : SignalingClient) (now : ℕ), ∃ event,
          receiver.handleServerMessage now (copy.marshal lib.compact) =
            receiver.queueEvent event ∧
          event.toSignalingEvent =
            some (.ice event.ice.sourcePeerId type event.ice.payloadJson) ∧
          event.ice.sourcePeerId = utf8 (h.client c).id ∧
          parseCandidates event.ice.payloadJson = d.localCandidates := by
  refine ⟨parseCandidates_makeLocalPayloadJson d hlocal, ?_⟩
  intro h hreach c q hsame hroom hid htarget hnick sender hconnected type roomId lib w
  have hcompact : lib.compact d.makeLocalPayloadJson = d.makeLocalPayloadJson :=
    lib.compact_eq _ _ (compact_makeLocalPayloadJson d).denotes (bare_makeLocalPayloadJson d hlocal)
  have hread := unmarshal_candidates d lib type roomId (htarget.printable (by decide))
  obtain ⟨u, hu, hpayload⟩ := makeLocalPayloadJson_braces d
  have hcopy : Forwarded (h.stamp w c (iceEnvelope type (lib.text (roomId.map clean))
      (h.client q).id d.makeLocalPayloadJson)) := by
    refine ⟨iceType_mem type, hroom, hid, .inr htarget, hnick, rfl, rfl, ?_⟩
    show d.makeLocalPayloadJson ≠ []
    rw [hpayload]
    exact List.cons_ne_nil _ _
  refine ⟨_, _, _, if_pos hconnected, hread,
    news_ice (Hub.inv_of_reachable hreach) hsame (isIce_iceType type) rfl, ?_⟩
  intro receiver now
  have htype : extractJsonString ((h.stamp w c (iceEnvelope type (lib.text (roomId.map clean))
      (h.client q).id d.makeLocalPayloadJson)).marshal lib.compact) (utf8 "type") =
        some (signalTypeText type) := by
    rw [type_marshal lib.compact hcopy.printable_type, signalTypeText_eq]
    rfl
  refine ⟨_, handleServerMessage_ice receiver now type htype, toSignalingEvent_ice type _ _, ?_⟩
  rw [iceOfMessage_marshal d hcopy htarget.ne_empty rfl hcompact]
  exact ⟨rfl, parseCandidates_makeLocalPayloadJson d hlocal⟩

/-- A transport with an address of its own and one behind its router. -/
def twoCandidates : DirectVoiceTransport where
  localCandidates :=
    [ { type := utf8 "host", address := utf8 "192.168.0.7", port := 40771 },
      { type := utf8 "srflx", address := utf8 "203.0.113.9", port := 51000 } ]

theorem localCandidate_twoCandidates : ∀ c ∈ twoCandidates.localCandidates, LocalCandidate c := by
  intro c hc
  simp only [twoCandidates, List.mem_cons, List.not_mem_nil, or_false] at hc
  rcases hc with rfl | rfl
  · exact ⟨by decide, by decide, by decide +kernel, by decide⟩
  · exact ⟨by decide, by decide, by decide +kernel, by decide⟩

theorem candidates_agree_shared :
    ∃ env copy,
      JsonLibrary.minimal.unmarshal (iceText (iceMessage .iceOffer (utf8 "room_a1") "peer_2"
        twoCandidates.makeLocalPayloadJson)) = some env ∧
      Hub.shared.news (Hub.shared.handle (Ambient.plain 30 "") 0 env) 1 = [copy] ∧
      ∃ event, ({} : SignalingClient).handleServerMessage 5
          (copy.marshal JsonLibrary.minimal.compact) = ({} : SignalingClient).queueEvent event ∧
        parseCandidates event.ice.payloadJson = twoCandidates.localCandidates := by
  obtain ⟨-, hway⟩ := candidates_agree twoCandidates localCandidate_twoCandidates
  obtain ⟨text, env, copy, hsent, hread, hnews, hreceived⟩ :=
    @hway Hub.shared Hub.shared_reachable 0 1
      ⟨"room_a1", ⟨0, by decide, by decide⟩, ⟨0, by decide, by decide⟩⟩
      ⟨"a1", by decide, by decide⟩ ⟨"1", by decide, by decide⟩ ⟨"2", by decide, by decide⟩
      (by decide) { connected := true } rfl .iceOffer (utf8 "room_a1") JsonLibrary.minimal
      (Ambient.plain 30 "")
  obtain ⟨event, hevent, -, -, hparse⟩ := hreceived {} 5
  obtain rfl := Option.some.inj hsent
  exact ⟨env, copy, hread, hnews, event, hevent, hparse⟩

end Protocol

end TarkovVoice

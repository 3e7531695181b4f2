import TarkovVoice.Client.SignalingClient
import TarkovVoice.JsonMembers
import TarkovVoice.Net.JsonText

/-!
# Requests as JSON

The texts of `createRoom` and `joinRoom` of `client/src/net/SignalingClient.cpp`, read by the
grammar of JSON. They are put together from literals and escaped pieces. Whatever the pieces are, a
text denotes the object that the literals spell, with the pieces as values, and nothing else.

## Main definitions

* `createRoomJson`, `joinRoomJson` — the objects

## Main results

* `chars_escapeJson` — an escaped text between quotes
* `requests_denote`
-/

namespace TarkovVoice

namespace Client

open Net
open JsonGrammar (Json Chars Compact Entry IsName compact_objectText escaped member objectText
  plain_entry)

/-! ### Objects -/

/-- A text of the user, as a value. -/
def userText (text : Bytes) : Json := .string (text.map clean)

/-- The object of `makeRoomPayload`. -/
def roomJson (nowUnixMs : ℤ) (request : CreateRoomRequest) : Json :=
  .object
    [ (utf8 "id", .string []),
      (utf8 "name", userText request.roomName),
      (utf8 "hostPeerId", .string []),
      (utf8 "hostNick", userText request.hostNick),
      (utf8 "peerCount", .number (utf8 "1")),
      (utf8 "maxPeers", .number (decimal kMaxPeersPerRoom)),
      (utf8 "locked", .bool request.locked),
      (utf8 "lanOnly", .bool false),
      (utf8 "createdAtUnixMs", .number (integer nowUnixMs)) ]

/-- The object that `createRoom` sends: the type, the nick, and the room that is asked for. -/
def createRoomJson (nowUnixMs : ℤ) (request : CreateRoomRequest) : Json :=
  .object
    [ (utf8 "type", .string (utf8 "create_room")),
      (utf8 "nick", userText request.hostNick),
      (utf8 "room", roomJson nowUnixMs request) ]

/-- The object that `joinRoom` sends. The proof and the key are its payload, which the coordinator
passes on unread. -/
def joinRoomJson (request : JoinRoomRequest) : Json :=
  .object
    [ (utf8 "type", .string (utf8 "join_room")),
      (utf8 "roomId", userText request.roomId),
      (utf8 "nick", userText request.nick),
      (utf8 "payload", .object
        [ (utf8 "passwordProof", userText request.passwordProof),
          (utf8 "publicKey", userText request.publicKey) ]) ]

/-! ### Pieces -/

theorem escaped_of_mem : ∀ e ∈ escapes, escaped e = some (unescape e) := by
  simp only [escapes, List.forall_mem_cons, List.not_mem_nil, false_implies, implies_true, and_true]
  decide

/-- **An escaped text** does not end the string it stands in. -/
theorem chars_escapeJson (s r : Bytes) : Chars (s.map clean) (escapeJson s ++ quote :: r) r := by
  induction s with
  | nil => exact .close
  | cons c s ih =>
    rw [escapeJson_cons, List.map_cons]
    rcases escapeByte_cases c with ⟨e, hmem, he, hun⟩ | ⟨he, hcontrol, hq, hb⟩
    · rw [he]
      exact .escape ((escaped_of_mem e hmem).trans (congrArg some hun)) ih
    · rw [he]
      exact .plain hcontrol hq hb ih

theorem compact_quoted (s : Bytes) : Compact (userText s) (quoted s) :=
  JsonGrammar.compact_string fun r => chars_escapeJson s r

/-- A number has no leading zeros. -/
theorem decimal_head (n : ℕ) :
    decimal n ≠ [] ∧ ((decimal n).head? = some 48 → decimal n = [48]) := by
  have hzero : ∀ d < 10, (digit d = 48 → d = 0) ∧ digit 0 = 48 := by decide
  have hdigits := decimal_induction
    (P := fun n u => u ≠ [] ∧ (u.head? = some 48 → n = 0 ∧ u = [48])) ?_ ?_ n
  · exact ⟨hdigits.1, fun h => (hdigits.2 h).2⟩
  · intro d hd
    refine ⟨List.cons_ne_nil _ _, fun h => ?_⟩
    obtain rfl := (hzero d hd).1 (Option.some.inj h)
    exact ⟨rfl, rfl⟩
  · rintro n d u hn - ⟨hne, hhead⟩
    refine ⟨List.append_ne_nil_of_left_ne_nil hne _, fun h => ?_⟩
    rw [List.head?_append_of_ne_nil _ hne] at h
    exact absurd (hhead h).1 hn.ne'

theorem isDigits_decimal (n : ℕ) : JsonGrammar.IsDigits (decimal n) :=
  ⟨(decimal_head n).1, decimal_isdigit n⟩

theorem isNumber_integer (n : ℤ) : JsonGrammar.IsNumber (integer n) := by
  cases n with
  | ofNat n =>
    refine ⟨[], decimal n, [], [], ?_, .inl rfl, isDigits_decimal n, (decimal_head n).2, .inl rfl,
      .inl rfl⟩
    simp [integer]
  | negSucc n =>
    refine ⟨[45], decimal (n + 1), [], [], ?_, .inr rfl, isDigits_decimal (n + 1),
      (decimal_head (n + 1)).2, .inl rfl, .inl rfl⟩
    simp [integer]

/-! ### Texts -/

theorem member_eq (name text : Bytes) :
    member name text = quote :: (name ++ quote :: colon :: text) := rfl

theorem objectText_cons (e : Entry) (es : List Entry) : objectText (e :: es) =
    openBrace :: (member e.name e.text ++
      ((es.flatMap fun e => comma :: member e.name e.text) ++ [closeBrace])) := by
  rw [objectText, JsonGrammar.joined.eq_def]
  simp only [List.map_cons, List.flatMap_map, List.append_assoc]
  rfl

/-- From the end of one string to the beginning of the next member's. -/
def between (name : Bytes) : Bytes := quote :: comma :: quote :: (name ++ [quote, colon, quote])

/-- A text of the user under a name. -/
def userEntry (name text : Bytes) : Entry := ⟨name, userText text, quoted text⟩

theorem plain_userEntry {name : Bytes} (h : IsName name) (text : Bytes) :
    (userEntry name text).Plain := plain_entry h (compact_quoted text)

/-- The members of `makeRoomPayload`. -/
def roomEntries (nowUnixMs : ℤ) (request : CreateRoomRequest) : List Entry :=
  [ userEntry (utf8 "id") [],
    userEntry (utf8 "name") request.roomName,
    userEntry (utf8 "hostPeerId") [],
    userEntry (utf8 "hostNick") request.hostNick,
    ⟨utf8 "peerCount", .number (utf8 "1"), utf8 "1"⟩,
    ⟨utf8 "maxPeers", .number (decimal kMaxPeersPerRoom), decimal kMaxPeersPerRoom⟩,
    ⟨utf8 "locked", .bool request.locked, if request.locked then utf8 "true" else utf8 "false"⟩,
    ⟨utf8 "lanOnly", .bool false, utf8 "false"⟩,
    ⟨utf8 "createdAtUnixMs", .number (integer nowUnixMs), integer nowUnixMs⟩ ]

/-- The members of a request to create a room. -/
def createRoomEntries (nowUnixMs : ℤ) (request : CreateRoomRequest) : List Entry :=
  [ userEntry (utf8 "type") (utf8 "create_room"),
    userEntry (utf8 "nick") request.hostNick,
    ⟨utf8 "room", roomJson nowUnixMs request, makeRoomPayload nowUnixMs request⟩ ]

/-- The members of the payload of a request to join. -/
def proofEntries (request : JoinRoomRequest) : List Entry :=
  [ userEntry (utf8 "passwordProof") request.passwordProof,
    userEntry (utf8 "publicKey") request.publicKey ]

/-- The members of a request to join a room. -/
def joinRoomEntries (request : JoinRoomRequest) : List Entry :=
  [ userEntry (utf8 "type") (utf8 "join_room"),
    userEntry (utf8 "roomId") request.roomId,
    userEntry (utf8 "nick") request.nick,
    ⟨utf8 "payload", .object ((proofEntries request).map Entry.member),
      objectText (proofEntries request)⟩ ]

theorem makeRoomPayload_eq (nowUnixMs : ℤ) (request : CreateRoomRequest) :
    makeRoomPayload nowUnixMs request = objectText (roomEntries nowUnixMs request) := by
  have hopen : utf8 "\x7b\"id\":\"\",\"name\":\"" =
      openBrace :: quote :: (utf8 "id" ++ quote :: colon :: quote :: (between (utf8 "name"))) := by
    decide
  have hhost : utf8 "\",\"hostPeerId\":\"\",\"hostNick\":\"" =
      between (utf8 "hostPeerId") ++ between (utf8 "hostNick") := by
    decide
  have hcount : utf8 "\",\"peerCount\":1,\"maxPeers\":" =
      quote :: comma :: (member (utf8 "peerCount") (utf8 "1") ++
        comma :: member (utf8 "maxPeers") []) := by
    decide
  have hlocked : utf8 ",\"locked\":" = comma :: member (utf8 "locked") [] := by decide
  have hcreated : utf8 ",\"lanOnly\":false,\"createdAtUnixMs\":" =
      comma :: (member (utf8 "lanOnly") (utf8 "false") ++
        comma :: member (utf8 "createdAtUnixMs") []) := by
    decide
  have hclose : utf8 "\x7d" = [closeBrace] := by decide
  have hnil : escapeJson [] = [] := rfl
  rw [makeRoomPayload, hopen, hhost, hcount, hlocked, hcreated, hclose, roomEntries,
    objectText_cons]
  simp only [userEntry, List.flatMap_cons, List.flatMap_nil, member_eq, quoted, between, hnil,
    List.cons_append, List.append_assoc, List.nil_append]

theorem createRoomText_eq (nowUnixMs : ℤ) (request : CreateRoomRequest) :
    createRoomText nowUnixMs request = objectText (createRoomEntries nowUnixMs request) := by
  have hopen : utf8 "\x7b\"type\":\"create_room\",\"nick\":\"" =
      openBrace :: quote :: (utf8 "type" ++ quote :: colon :: quote ::
        (escapeJson (utf8 "create_room") ++ between (utf8 "nick"))) := by
    decide
  have hroom : utf8 "\",\"room\":" = quote :: comma :: member (utf8 "room") [] := by decide
  have hclose : utf8 "\x7d" = [closeBrace] := by decide
  rw [createRoomText, hopen, hroom, hclose, createRoomEntries, objectText_cons]
  simp only [userEntry, List.flatMap_cons, List.flatMap_nil, member_eq, quoted, between,
    List.cons_append, List.append_assoc, List.nil_append]

theorem joinRoomText_eq (request : JoinRoomRequest) :
    joinRoomText request = objectText (joinRoomEntries request) := by
  have hopen : utf8 "\x7b\"type\":\"join_room\",\"roomId\":\"" =
      openBrace :: quote :: (utf8 "type" ++ quote :: colon :: quote ::
        (escapeJson (utf8 "join_room") ++ between (utf8 "roomId"))) := by
    decide
  have hnick : utf8 "\",\"nick\":\"" = between (utf8 "nick") := by decide
  have hproof : utf8 "\",\"payload\":\x7b\"passwordProof\":\"" =
      quote :: comma :: quote :: (utf8 "payload" ++ quote :: colon :: openBrace :: quote ::
        (utf8 "passwordProof" ++ [quote, colon, quote])) := by
    decide
  have hkey : utf8 "\",\"publicKey\":\"" = between (utf8 "publicKey") := by decide
  have hclose : utf8 "\"\x7d\x7d" = [quote, closeBrace, closeBrace] := by decide
  rw [joinRoomText, hopen, hnick, hproof, hkey, hclose, joinRoomEntries, proofEntries,
    objectText_cons, objectText_cons]
  simp only [userEntry, List.flatMap_cons, List.flatMap_nil, member_eq, quoted, between,
    List.cons_append, List.append_assoc, List.nil_append]

theorem compact_roomJson (nowUnixMs : ℤ) (request : CreateRoomRequest) :
    Compact (roomJson nowUnixMs request) (makeRoomPayload nowUnixMs request) := by
  have hlocked : Compact (.bool request.locked)
      (if request.locked then utf8 "true" else utf8 "false") := by
    cases request.locked with
    | false => exact JsonGrammar.compact_bool false
    | true => exact JsonGrammar.compact_bool true
  have hplain : ∀ e ∈ roomEntries nowUnixMs request, e.Plain := by
    simp only [roomEntries, List.forall_mem_cons, List.not_mem_nil, false_imp_iff, implies_true,
      and_true]
    exact ⟨plain_userEntry (by decide) _, plain_userEntry (by decide) _,
      plain_userEntry (by decide) _, plain_userEntry (by decide) _,
      plain_entry (by decide) (JsonGrammar.compact_number (isNumber_integer 1)),
      plain_entry (by decide) (JsonGrammar.compact_number (isNumber_integer kMaxPeersPerRoom)),
      plain_entry (by decide) hlocked, plain_entry (by decide) (JsonGrammar.compact_bool false),
      plain_entry (by decide) (JsonGrammar.compact_number (isNumber_integer nowUnixMs))⟩
  rw [makeRoomPayload_eq]
  exact compact_objectText (List.cons_ne_nil _ _) hplain

theorem compact_createRoomJson (nowUnixMs : ℤ) (request : CreateRoomRequest) :
    Compact (createRoomJson nowUnixMs request) (createRoomText nowUnixMs request) := by
  have hplain : ∀ e ∈ createRoomEntries nowUnixMs request, e.Plain := by
    simp only [createRoomEntries, List.forall_mem_cons, List.not_mem_nil, false_imp_iff,
      implies_true, and_true]
    exact ⟨plain_userEntry (by decide) _, plain_userEntry (by decide) _,
      plain_entry (by decide) (compact_roomJson nowUnixMs request)⟩
  rw [createRoomText_eq]
  exact compact_objectText (List.cons_ne_nil _ _) hplain

theorem compact_joinRoomJson (request : JoinRoomRequest) :
    Compact (joinRoomJson request) (joinRoomText request) := by
  have hproof : ∀ e ∈ proofEntries request, e.Plain := by
    simp only [proofEntries, List.forall_mem_cons, List.not_mem_nil, false_imp_iff, implies_true,
      and_true]
    exact ⟨plain_userEntry (by decide) _, plain_userEntry (by decide) _⟩
  have hplain : ∀ e ∈ joinRoomEntries request, e.Plain := by
    simp only [joinRoomEntries, List.forall_mem_cons, List.not_mem_nil, false_imp_iff,
      implies_true, and_true]
    exact ⟨plain_userEntry (by decide) _, plain_userEntry (by decide) _,
      plain_userEntry (by decide) _,
      plain_entry (by decide) (compact_objectText (List.cons_ne_nil _ _) hproof)⟩
  rw [joinRoomText_eq]
  exact compact_objectText (List.cons_ne_nil _ _) hplain

/-- **A request is the object it was meant to be**, whatever the texts in it are. Each of the two
texts denotes, by the grammar of JSON, one value and no other: the object of the fields with the
texts as they were given, and in the payload of a join the proof. -/
theorem requests_denote :
    (∀ request v, JsonGrammar.Denotes (joinRoomText request) v ↔ v = joinRoomJson request) ∧
      ∀ nowUnixMs request v, JsonGrammar.Denotes (createRoomText nowUnixMs request) v ↔
        v = createRoomJson nowUnixMs request := by
  have hiff : ∀ {text : Bytes} {expected : Json}, Compact expected text →
      ∀ v, JsonGrammar.Denotes text v ↔ v = expected := by
    intro text expected hcompact v
    constructor
    · exact fun h => h.unique hcompact.denotes
    · rintro rfl
      exact hcompact.denotes
  exact ⟨fun request => hiff (compact_joinRoomJson request),
    fun nowUnixMs request => hiff (compact_createRoomJson nowUnixMs request)⟩

end Client

end TarkovVoice

import TarkovVoice.Net.Rooms
import TarkovVoice.Protocol.WireText

/-!
# Rooms from the coordinator to the client

What `parseRoom` reads in the text `json.Marshal` writes for a room.

The members of a room object stand in the order of the Go struct, so the text of the room's name
comes before every key but `id`, `name`, and the host's nick before every key but these and
`hostPeerId`, `hostNick`. A name or nick that shadows a key sends its search to the member after
it, `hostPeerId` or `peerCount`. What is read there is sometimes equal to what was meant. `Legible`
says exactly when.

## Main definitions

* `Held` — the snapshots a coordinator can send
* `Agrees`, `Legible`

## Main results

* `Held.agrees_iff` — a room is read as it was written exactly when it is legible
-/

namespace TarkovVoice

namespace Protocol

open Net Coordinator

/-! ### The text of a room -/

/-- The rooms a snapshot of the coordinator can describe: any printable name and host's nick, and
generated ids, with or without the list of the members. -/
structure Held (r : RoomSnapshot) : Prop where
  id : Generated "room" r.id
  name : Printable r.name
  hostPeerID : Generated "peer" r.hostPeerID
  hostNick : Printable r.hostNick
  maxPeers : r.maxPeers = maxPeersPerRoom
  peers : ∀ p ∈ r.peers, Generated "peer" p

/-- The members of a room object, up to its member ids, in the order of the struct. None of them is
ever left out. -/
def roomFields (r : RoomSnapshot) : List Field :=
  [ (utf8 "id", .string (utf8 r.id)),
    (utf8 "name", .string (utf8 r.name)),
    (utf8 "hostPeerId", .string (utf8 r.hostPeerID)),
    (utf8 "hostNick", .string (utf8 r.hostNick)),
    (utf8 "peerCount", .plain (appendInt r.peerCount)),
    (utf8 "maxPeers", .plain (appendInt r.maxPeers)),
    (utf8 "locked", .plain (appendBool r.locked)),
    (utf8 "lanOnly", .plain (appendBool r.lanOnly)),
    (utf8 "createdAtUnixMs", .plain (appendInt r.createdAtUnixMs)) ]

/-- The text behind them: the ids of the members, if the room is written with them, and the
brace. -/
def roomTail (r : RoomSnapshot) : Bytes :=
  if r.peers = [] then [closeBrace]
  else comma :: (quoted (utf8 "peers") ++
    colon :: (array (r.peers.map fun p => quoted (utf8 p)) ++ [closeBrace]))

theorem Held.marshal_eq {r : RoomSnapshot} (h : Held r) :
    ∃ text, r.marshal = openBrace :: text ∧
      fields (roomFields r) (roomTail r) = comma :: text := by
  have hpeers : r.peers.map appendString = r.peers.map fun p => quoted (utf8 p) :=
    List.map_congr_left fun p hp => appendString_eq ((h.peers p hp).printable (by decide))
  have htail : roomTail r = (omitEmpty r.peers.isEmpty "peers"
      (array (r.peers.map appendString))).flatMap (comma :: ·) ++ [closeBrace] := by
    rw [roomTail, omitEmpty, hpeers]
    by_cases hnil : r.peers = []
    · simp [hnil]
    · rw [if_neg hnil, if_neg (by simpa using hnil), member, appendString_eq (by decide)]
      simp
  rw [RoomSnapshot.marshal, htail, member_string (by decide) (h.id.printable (by decide)),
    member_string (by decide) h.name,
    member_string (by decide) (h.hostPeerID.printable (by decide)),
    member_string (by decide) h.hostNick]
  simp only [member_plain (show Printable "peerCount" by decide),
    member_plain (show Printable "maxPeers" by decide),
    member_plain (show Printable "locked" by decide),
    member_plain (show Printable "lanOnly" by decide),
    member_plain (show Printable "createdAtUnixMs" by decide)]
  exact object_eq (utf8 "id", .string (utf8 r.id)) (roomFields r).tail _

/-! ### Following a key -/

theorem soundFields_room (r : RoomSnapshot) : SoundFields (roomFields r) := by
  simp only [SoundFields, roomFields, List.forall_mem_cons, List.not_mem_nil, false_imp_iff,
    implies_true, and_true]
  exact ⟨⟨by decide, trivial⟩, ⟨by decide, trivial⟩, ⟨by decide, trivial⟩, ⟨by decide, trivial⟩,
    ⟨by decide, sound_appendInt _⟩, ⟨by decide, sound_appendInt _⟩,
    ⟨by decide, sound_appendBool _⟩, ⟨by decide, sound_appendBool _⟩,
    ⟨by decide, sound_appendInt _⟩⟩

theorem stops_roomTail (r : RoomSnapshot) : Stops (roomTail r) := by
  intro c hc
  rw [roomTail] at hc
  split at hc
  · cases hc
    rfl
  · cases hc
    rfl

/-- What follows a value of a room object never belongs to a number. -/
theorem endsNumber_fields (ms : List Field) (r : RoomSnapshot) :
    EndsNumber (fields ms (roomTail r)) := by
  refine endsNumber_members (fun c hc => ?_) ms
  rw [roomTail] at hc
  split at hc
  · cases hc
    decide
  · cases hc
    decide

section Keys

variable {r : RoomSnapshot} {key : Bytes}

/-- Where a key leads in the text of a room. -/
theorem Held.findAt (h : Held r) (hkey : Word key) {m : Field} {ms : List Field}
    (hread : readAt key (roomFields r) = some (m :: ms)) :
    findJsonValue r.marshal key = some (m.2.text ++ fields ms (roomTail r)) := by
  obtain ⟨text, hmarshal, hfields⟩ := h.marshal_eq
  rw [hmarshal, findJsonValue_cons (d := comma) (by decide) (by decide), ← hfields]
  exact findJsonValue_fields hkey (soundFields_room r) (stops_roomTail r) hread

theorem Held.stringAt (h : Held r) (hkey : Word key) {name s : Bytes} {ms : List Field}
    (hread : readAt key (roomFields r) = some ((name, .string s) :: ms)) :
    extractJsonString r.marshal key = some (s.map clean) :=
  extractJsonString_of_find (h.findAt hkey hread)

theorem Held.numberAt (h : Held r) (hkey : Word key) {name : Bytes} {n : ℕ}
    {ms : List Field}
    (hread : readAt key (roomFields r) = some ((name, .plain (decimal n)) :: ms)) :
    extractJsonNumber r.marshal key = some (.finite n) :=
  extractJsonNumber_of_find (endsNumber_fields ms r) (h.findAt hkey hread)

/-- A string is not a number. Where the name hides a key, the number is looked for in a string, and
there is none. -/
theorem Held.numberAt_string (h : Held r) (hkey : Word key) {name s : Bytes}
    {ms : List Field} (hread : readAt key (roomFields r) = some ((name, .string s) :: ms)) :
    extractJsonNumber r.marshal key = none := by
  rw [extractJsonNumber, h.findAt hkey hread]
  rfl

theorem Held.boolAt (h : Held r) (hkey : Word key) {name : Bytes} {b : Bool}
    {ms : List Field}
    (hread : readAt key (roomFields r) = some ((name, .plain (appendBool b)) :: ms)) :
    extractJsonBool r.marshal key = some b := by
  rw [extractJsonBool, h.findAt hkey hread]
  cases b with
  | false => rfl
  | true => rfl

/-- Neither a string nor a number is a truth value. -/
theorem Held.boolAt_other (h : Held r) (hkey : Word key) {m : Field} {ms : List Field}
    (hread : readAt key (roomFields r) = some (m :: ms))
    (hm : ∃ c u, m.2.text = c :: u ∧ isalpha c = false) :
    extractJsonBool r.marshal key = none := by
  obtain ⟨c, u, htext, hc⟩ := hm
  rw [extractJsonBool, h.findAt hkey hread, htext]
  have hne : ∀ (word : Bytes) (n : ℕ), Word word →
      (c :: u ++ fields ms (roomTail r)).take (n + 1) ≠ word := by
    rintro word n hword rfl
    rw [hword.2 c (List.mem_cons_self ..)] at hc
    cases hc
  show (if (c :: u ++ fields ms (roomTail r)).take 4 = utf8 "true" then some true
    else if (c :: u ++ fields ms (roomTail r)).take 5 = utf8 "false" then some false
    else none) = none
  rw [if_neg (hne _ 3 (by decide)), if_neg (hne _ 4 (by decide))]

/-- The search for a key that is not among the first three members. -/
theorem Held.readAt_room (h : Held r) (hkey : Word key) (h1 : utf8 "id" ≠ key)
    (h2 : utf8 "name" ≠ key) (h3 : utf8 "hostPeerId" ≠ key) :
    readAt key (roomFields r) =
      if Shadows (utf8 r.name) key then some ((roomFields r).drop 2)
      else if utf8 "hostNick" = key then some ((roomFields r).drop 3)
      else if Shadows (utf8 r.hostNick) key then some ((roomFields r).drop 4)
      else readAt key ((roomFields r).drop 4) := by
  have hid : ¬ (Value.string (utf8 r.id)).Hides key := h.id.not_shadows (by decide) hkey
  have hhost : ¬ (Value.string (utf8 r.hostPeerID)).Hides key :=
    h.hostPeerID.not_shadows (by decide) hkey
  rw [roomFields, readAt, if_neg h1, if_neg hid, readAt, if_neg h2]
  refine if_congr Iff.rfl rfl ?_
  rw [readAt, if_neg h3, if_neg hhost, readAt]
  exact if_congr Iff.rfl rfl rfl

end Keys

/-! ### What the client gets -/

/-- The client's room has everything the snapshot says, apart from the two members the client
does not show. -/
structure Agrees (info : RoomInfo) (r : RoomSnapshot) : Prop where
  id : info.id = utf8 r.id
  name : info.name = utf8 r.name
  hostPeerId : info.hostPeerId = utf8 r.hostPeerID
  hostNick : info.hostNick = utf8 r.hostNick
  peerCount : info.peerCount = r.peerCount
  maxPeers : info.maxPeers = r.maxPeers
  locked : info.locked = r.locked
  peerIds : info.peerIds = r.peers.map utf8

/-- No key whose value matters is hidden by the name or the host's nick. A hidden key does no harm
where what is read in its place happens to be right. -/
structure Legible (r : RoomSnapshot) : Prop where
  hostNick : Shadows (utf8 r.name) (utf8 "hostNick") → r.hostNick = r.hostPeerID
  peerCount : Shadows (utf8 r.name) (utf8 "peerCount") → r.peerCount = 0
  maxPeers : Shadows (utf8 r.hostNick) (utf8 "maxPeers") →
    Shadows (utf8 r.name) (utf8 "maxPeers") ∨ 5 ≤ r.peerCount
  locked : Shadows (utf8 r.name) (utf8 "locked") ∨ Shadows (utf8 r.hostNick) (utf8 "locked") →
    r.locked = false
  peers : Shadows (utf8 r.name) (utf8 "peers") ∨ Shadows (utf8 r.hostNick) (utf8 "peers") →
    r.peers = []

section Members

variable {r : RoomSnapshot}

theorem Held.id_eq (h : Held r) : (parseRoom r.marshal).id = utf8 r.id := by
  have hread : readAt (utf8 "id") (roomFields r) = some (roomFields r) := if_pos rfl
  rw [parseRoom, h.stringAt (by decide) hread]
  exact clean_utf8 (h.id.printable (by decide))

theorem Held.name_eq (h : Held r) : (parseRoom r.marshal).name = utf8 r.name := by
  have hkey : Word (utf8 "name") := by decide
  have hid : ¬ (Value.string (utf8 r.id)).Hides (utf8 "name") := h.id.not_shadows (by decide) hkey
  have hread : readAt (utf8 "name") (roomFields r) = some ((roomFields r).drop 1) := by
    rw [roomFields, readAt, if_neg (by decide), if_neg hid]
    exact if_pos rfl
  rw [parseRoom, h.stringAt hkey hread]
  exact clean_utf8 h.name

/-- Where the name hides this key, the member behind the name is the one that was meant. -/
theorem Held.hostPeerId_eq (h : Held r) :
    (parseRoom r.marshal).hostPeerId = utf8 r.hostPeerID := by
  have hkey : Word (utf8 "hostPeerId") := by decide
  have hid : ¬ (Value.string (utf8 r.id)).Hides (utf8 "hostPeerId") :=
    h.id.not_shadows (by decide) hkey
  have hread : readAt (utf8 "hostPeerId") (roomFields r) = some ((roomFields r).drop 2) := by
    rw [roomFields, readAt, if_neg (by decide), if_neg hid, readAt, if_neg (by decide)]
    exact ite_self _
  rw [parseRoom, h.stringAt hkey hread]
  exact clean_utf8 (h.hostPeerID.printable (by decide))

theorem Held.hostNick_iff (h : Held r) :
    (parseRoom r.marshal).hostNick = utf8 r.hostNick ↔
      (Shadows (utf8 r.name) (utf8 "hostNick") → r.hostNick = r.hostPeerID) := by
  have hkey : Word (utf8 "hostNick") := by decide
  have hread := h.readAt_room hkey (by decide) (by decide) (by decide)
  by_cases hs : Shadows (utf8 r.name) (utf8 "hostNick")
  · rw [if_pos hs] at hread
    have hvalue : (parseRoom r.marshal).hostNick = utf8 r.hostPeerID := by
      rw [parseRoom, h.stringAt hkey hread]
      exact clean_utf8 (h.hostPeerID.printable (by decide))
    rw [hvalue]
    exact ⟨fun heq _ => utf8_injective heq.symm, fun heq => by rw [heq hs]⟩
  · rw [if_neg hs, if_pos rfl] at hread
    have hvalue : (parseRoom r.marshal).hostNick = utf8 r.hostNick := by
      rw [parseRoom, h.stringAt hkey hread]
      exact clean_utf8 h.hostNick
    exact iff_of_true hvalue fun hname => absurd hname hs

theorem truncate_max (b n : ℕ) :
    ((Number.finite (n : ℚ)).max (b : ℚ)).truncate.toNat = max b n := by
  have htruncate : ∀ k : ℕ, (Number.finite (k : ℚ)).truncate.toNat = k := by
    intro k
    rw [Number.truncate, if_pos (Nat.cast_nonneg k), Int.floor_natCast]
    rfl
  by_cases h : b < n
  · rw [Number.max, if_pos (Nat.cast_lt.mpr h), htruncate]
    omega
  · rw [Number.max, if_neg fun hlt => h (Nat.cast_lt.mp hlt), htruncate]
    omega

theorem Held.peerCount_iff (h : Held r) :
    (parseRoom r.marshal).peerCount = r.peerCount ↔
      (Shadows (utf8 r.name) (utf8 "peerCount") → r.peerCount = 0) := by
  have hkey : Word (utf8 "peerCount") := by decide
  have hread := h.readAt_room hkey (by decide) (by decide) (by decide)
  have hmax := truncate_max 0
  rw [Nat.cast_zero] at hmax
  by_cases hs : Shadows (utf8 r.name) (utf8 "peerCount")
  · rw [if_pos hs] at hread
    have hvalue : (parseRoom r.marshal).peerCount = 0 := by
      rw [parseRoom, h.numberAt_string hkey hread]
      exact hmax 0
    rw [hvalue]
    exact ⟨fun heq _ => heq.symm, fun heq => (heq hs).symm⟩
  · have hself : readAt (utf8 "peerCount") ((roomFields r).drop 4) = some ((roomFields r).drop 4) :=
      if_pos rfl
    rw [if_neg hs, if_neg (by decide), hself, ite_self] at hread
    have hvalue : (parseRoom r.marshal).peerCount = r.peerCount := by
      rw [parseRoom, h.numberAt (n := r.peerCount) hkey hread]
      show ((Number.finite (r.peerCount : ℚ)).max 0).truncate.toNat = r.peerCount
      rw [hmax, Nat.zero_max]
    exact iff_of_true hvalue fun hname => absurd hname hs

theorem Held.maxPeers_iff (h : Held r) :
    (parseRoom r.marshal).maxPeers = r.maxPeers ↔
      (Shadows (utf8 r.hostNick) (utf8 "maxPeers") →
        Shadows (utf8 r.name) (utf8 "maxPeers") ∨ 5 ≤ r.peerCount) := by
  have hkey : Word (utf8 "maxPeers") := by decide
  have hread := h.readAt_room hkey (by decide) (by decide) (by decide)
  have hmax := truncate_max 1
  rw [Nat.cast_one] at hmax
  have hclamp : ∀ n : ℕ, (Net.extractJsonNumber r.marshal (utf8 "maxPeers")).getD
      (.finite kMaxPeersPerRoom) = .finite n →
      ((parseRoom r.marshal).maxPeers = r.maxPeers ↔ n = 5 ∨ 5 < n) := by
    intro n hn
    have hvalue : (parseRoom r.marshal).maxPeers =
        if max 1 n = 0 ∨ max 1 n > kMaxPeersPerRoom then kMaxPeersPerRoom else max 1 n := by
      rw [parseRoom, hn]
      simp only [hmax]
    rw [hvalue, h.maxPeers, kMaxPeersPerRoom, maxPeersPerRoom]
    split_ifs with hbig
    · simp
      omega
    · omega
  by_cases hs : Shadows (utf8 r.name) (utf8 "maxPeers")
  · rw [if_pos hs] at hread
    rw [hclamp 5 (by rw [h.numberAt_string hkey hread]; rfl)]
    exact iff_of_true (.inl rfl) fun _ => .inl hs
  rw [if_neg hs, if_neg (by decide)] at hread
  by_cases ht : Shadows (utf8 r.hostNick) (utf8 "maxPeers")
  · rw [if_pos ht] at hread
    rw [hclamp r.peerCount (by rw [h.numberAt (n := r.peerCount) hkey hread]; rfl)]
    constructor
    · intro hcount _
      exact .inr (by omega)
    · intro hlegible
      rcases hlegible ht with hname | hcount
      · exact absurd hname hs
      · omega
  · have hself : readAt (utf8 "maxPeers") ((roomFields r).drop 4) =
        some ((roomFields r).drop 5) := rfl
    rw [if_neg ht, hself] at hread
    rw [hclamp r.maxPeers (by rw [h.numberAt (n := r.maxPeers) hkey hread]; rfl)]
    exact iff_of_true (.inl h.maxPeers) fun hnick => absurd hnick ht

theorem Held.locked_iff (h : Held r) :
    (parseRoom r.marshal).locked = r.locked ↔
      (Shadows (utf8 r.name) (utf8 "locked") ∨ Shadows (utf8 r.hostNick) (utf8 "locked") →
        r.locked = false) := by
  have hkey : Word (utf8 "locked") := by decide
  have hread := h.readAt_room hkey (by decide) (by decide) (by decide)
  have hhidden : ∀ {m : Field} {ms : List Field},
      readAt (utf8 "locked") (roomFields r) = some (m :: ms) →
      (∃ c u, m.2.text = c :: u ∧ isalpha c = false) → (parseRoom r.marshal).locked = false := by
    intro m ms hread hm
    rw [parseRoom, h.boolAt_other hkey hread hm]
    rfl
  by_cases hs : Shadows (utf8 r.name) (utf8 "locked")
  · rw [if_pos hs] at hread
    rw [hhidden hread ⟨quote, _, rfl, rfl⟩]
    exact ⟨fun heq _ => heq.symm, fun heq => (heq (.inl hs)).symm⟩
  rw [if_neg hs, if_neg (by decide)] at hread
  by_cases ht : Shadows (utf8 r.hostNick) (utf8 "locked")
  · rw [if_pos ht] at hread
    obtain ⟨d, u, hdu, hd⟩ := exists_decimal_cons r.peerCount
    rw [hhidden hread ⟨d, u, hdu, isalpha_of_isdigit d hd⟩]
    exact ⟨fun heq _ => heq.symm, fun heq => (heq (.inr ht)).symm⟩
  · have hself : readAt (utf8 "locked") ((roomFields r).drop 4) =
        some ((roomFields r).drop 6) := rfl
    rw [if_neg ht, hself] at hread
    have hvalue : (parseRoom r.marshal).locked = r.locked := by
      rw [parseRoom, h.boolAt hkey hread]
      rfl
    exact iff_of_true hvalue fun hor => absurd hor (not_or.mpr ⟨hs, ht⟩)

theorem Held.peerIds_iff (h : Held r) :
    (parseRoom r.marshal).peerIds = r.peers.map utf8 ↔
      (Shadows (utf8 r.name) (utf8 "peers") ∨ Shadows (utf8 r.hostNick) (utf8 "peers") →
        r.peers = []) := by
  have hkey : Word (utf8 "peers") := by decide
  have hread := h.readAt_room hkey (by decide) (by decide) (by decide)
  have hhidden : ∀ {m : Field} {ms : List Field},
      readAt (utf8 "peers") (roomFields r) = some (m :: ms) →
      (∃ c u, m.2.text = c :: u ∧ c ≠ openBracket) → (parseRoom r.marshal).peerIds = [] := by
    rintro m ms hread ⟨c, u, htext, hc⟩
    have hcut : extractBalancedValue r.marshal (utf8 "peers") openBracket closeBracket = none := by
      rw [extractBalancedValue, h.findAt hkey hread, htext]
      exact if_neg hc
    show parseStringArray r.marshal (utf8 "peers") = []
    rw [parseStringArray, hcut]
  have hnil : [] = r.peers.map utf8 ↔ r.peers = [] := by
    rw [eq_comm, List.map_eq_nil_iff]
  by_cases hs : Shadows (utf8 r.name) (utf8 "peers")
  · rw [if_pos hs] at hread
    rw [hhidden hread ⟨quote, _, rfl, by decide⟩, hnil]
    exact ⟨fun heq _ => heq, fun heq => heq (.inl hs)⟩
  rw [if_neg hs, if_neg (by decide)] at hread
  by_cases ht : Shadows (utf8 r.hostNick) (utf8 "peers")
  · rw [if_pos ht] at hread
    obtain ⟨d, u, hdu, hd⟩ := exists_decimal_cons r.peerCount
    have hne : d ≠ openBracket := by
      rintro rfl
      exact absurd hd (by decide)
    rw [hhidden hread ⟨d, u, hdu, hne⟩, hnil]
    exact ⟨fun heq _ => heq, fun heq => heq (.inr ht)⟩
  · have hnone : readAt (utf8 "peers") ((roomFields r).drop 4) = none := rfl
    rw [if_neg ht, hnone] at hread
    refine iff_of_true ?_ fun hor => absurd hor (not_or.mpr ⟨hs, ht⟩)
    obtain ⟨text, hmarshal, hfields⟩ := h.marshal_eq
    have hfind : Net.findJsonValue r.marshal (utf8 "peers") =
        Net.findJsonValue (roomTail r) (utf8 "peers") := by
      rw [hmarshal, findJsonValue_cons (d := comma) (by decide) (by decide), ← hfields]
      exact findJsonValue_fields_none hkey (soundFields_room r) (stops_roomTail r) hread
    show parseStringArray r.marshal (utf8 "peers") = r.peers.map utf8
    by_cases hempty : r.peers = []
    · rw [parseStringArray, extractBalancedValue, hfind, roomTail, if_pos hempty, hempty]
      rfl
    · have hmember : Net.findJsonValue (roomTail r) (utf8 "peers") = some (openBracket ::
          (separated (r.peers.map fun p => quoted (utf8 p)) ++ closeBracket :: [closeBrace])) := by
        have hhead : ∀ d ∈ (array (r.peers.map fun p => quoted (utf8 p)) ++ [closeBrace]).head?,
            isspace d = false := by
          intro d hd
          cases hd
          rfl
        rw [roomTail, if_neg hempty, findJsonValue_member hkey (by decide) hhead, array]
        simp
      have hclosed : Closed openBracket closeBracket
          (separated (r.peers.map fun p => quoted (utf8 p))) := by
        refine closed_separated plain_bracket fun item hitem => ?_
        obtain ⟨p, -, rfl⟩ := List.mem_map.mp hitem
        exact Closed.quoted _
      have hlist : comma :: separated (r.peers.map fun p => quoted (utf8 p)) =
          (r.peers.map utf8).flatMap fun s => comma :: quoted s := by
        rw [← flatMap_separated _ (by simpa using hempty), List.flatMap_map, List.flatMap_map]
      have hclean : (r.peers.map utf8).map (List.map clean) = r.peers.map utf8 := by
        rw [List.map_map]
        exact List.map_congr_left fun p hp => clean_utf8 ((h.peers p hp).printable (by decide))
      rw [parseStringArray, extractBalancedValue_of_find brackets_bracket hclosed
        (hfind.trans hmember)]
      show parseStringLoop ((_ ++ [closeBracket]).dropLast) {} [] [] = _
      rw [List.dropLast_concat, ← parseStringLoop_byte (c := comma) (by decide), hlist,
        parseStringLoop_list (by decide), hclean, List.nil_append]

/-- **What is read of a room** is what was written exactly if the room is legible. The id, the name
and the host's id are always read right; the other members each have a condition. -/
theorem Held.agrees_iff (h : Held r) : Agrees (parseRoom r.marshal) r ↔ Legible r := by
  constructor
  · rintro ⟨-, -, -, hnick, hcount, hmax, hlocked, hpeers⟩
    exact ⟨h.hostNick_iff.mp hnick, h.peerCount_iff.mp hcount, h.maxPeers_iff.mp hmax,
      h.locked_iff.mp hlocked, h.peerIds_iff.mp hpeers⟩
  · rintro ⟨hnick, hcount, hmax, hlocked, hpeers⟩
    exact ⟨h.id_eq, h.name_eq, h.hostPeerId_eq, h.hostNick_iff.mpr hnick,
      h.peerCount_iff.mpr hcount, h.maxPeers_iff.mpr hmax, h.locked_iff.mpr hlocked,
      h.peerIds_iff.mpr hpeers⟩

end Members

end Protocol

end TarkovVoice

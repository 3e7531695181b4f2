import TarkovVoice.Coordinator.Types
import TarkovVoice.Net.Bytes

/-!
# What the coordinator writes

`json.Marshal` for the coordinator's two structures. Members are written in the order of the
struct, and a member tagged `omitempty` is left out when it has its zero value. A raw payload is
compacted before it is written; `compact` stands for that.

## Main definitions

* `appendString` — a string with the escapes of `encoding/json`
* `RoomSnapshot.marshal`, `Envelope.marshal`
-/

namespace TarkovVoice

namespace Coordinator

open Net

/-! ### `encoding/json` -/

/-- A digit of a `\u` escape. -/
def hexDigit (d : ℕ) : UInt8 := if d < 10 then digit d else 87 + UInt8.ofNat d

/-- The four hexadecimal digits of a `\u` escape. -/
def unicodeEscape (n : ℕ) : Bytes :=
  utf8 "\\u" ++ [hexDigit (n / 4096 % 16), hexDigit (n / 256 % 16), hexDigit (n / 16 % 16),
    hexDigit (n % 16)]

/-- A character of a string, escaped as for HTML, which is what `json.Marshal` does by itself. -/
def appendChar (c : Char) : Bytes :=
  match c.toNat with
  | 34 => [backslash, quote]
  | 92 => [backslash, backslash]
  | 8 => utf8 "\\b"
  | 12 => utf8 "\\f"
  | 10 => utf8 "\\n"
  | 13 => utf8 "\\r"
  | 9 => utf8 "\\t"
  | n =>
    if n < 0x20 ∨ n = 60 ∨ n = 62 ∨ n = 38 ∨ n = 0x2028 ∨ n = 0x2029 then unicodeEscape n
    else String.utf8EncodeChar c

/-- `appendString`: the string between quotes, character by character. Strings here hold Unicode, so
nothing has to be replaced. -/
def appendString (s : String) : Bytes := quote :: s.toList.flatMap appendChar ++ [quote]

/-- An integer. -/
def appendInt : ℤ → Bytes
  | .ofNat n => decimal n
  | .negSucc n => 45 :: decimal (n + 1)

def appendBool (b : Bool) : Bytes := if b then utf8 "true" else utf8 "false"

/-- Items with commas between them, and none behind the last. -/
def separated : List Bytes → Bytes
  | [] => []
  | item :: items => item ++ items.flatMap (comma :: ·)

def object (members : List Bytes) : Bytes := openBrace :: separated members ++ [closeBrace]

def array (elements : List Bytes) : Bytes := openBracket :: separated elements ++ [closeBracket]

/-- A member of a struct under its tag. -/
def member (tag : String) (value : Bytes) : Bytes := appendString tag ++ colon :: value

/-- A member tagged `omitempty`: it is left out when it has its zero value, and then its name is not
written either. -/
def omitEmpty (empty : Bool) (tag : String) (value : Bytes) : List Bytes :=
  if empty then [] else [member tag value]

/-! ### Messages -/

/-- `json.Marshal` of a `RoomSnapshot`: the members in the order of the fields, and `peers` only if
there are any. -/
def RoomSnapshot.marshal (r : RoomSnapshot) : Bytes :=
  object <|
    [ member "id" (appendString r.id),
      member "name" (appendString r.name),
      member "hostPeerId" (appendString r.hostPeerID),
      member "hostNick" (appendString r.hostNick),
      member "peerCount" (appendInt r.peerCount),
      member "maxPeers" (appendInt r.maxPeers),
      member "locked" (appendBool r.locked),
      member "lanOnly" (appendBool r.lanOnly),
      member "createdAtUnixMs" (appendInt r.createdAtUnixMs) ] ++
    omitEmpty r.peers.isEmpty "peers" (array (r.peers.map appendString))

/-- `json.Marshal` of an `Envelope`: the type always, and of the others what is not empty. The
payload is compacted, which is what `compact` stands for. -/
def Envelope.marshal (compact : Bytes → Bytes) (env : Envelope) : Bytes :=
  object <|
    [member "type" (appendString env.type)] ++
    omitEmpty (env.roomID == "") "roomId" (appendString env.roomID) ++
    omitEmpty (env.peerID == "") "peerId" (appendString env.peerID) ++
    omitEmpty (env.targetPeerID == "") "targetPeerId" (appendString env.targetPeerID) ++
    omitEmpty (env.nick == "") "nick" (appendString env.nick) ++
    (match env.room with
      | none => []
      | some room => [member "room" room.marshal]) ++
    omitEmpty env.rooms.isEmpty "rooms" (array (env.rooms.map RoomSnapshot.marshal)) ++
    omitEmpty env.payload.isEmpty "payload" (compact env.payload) ++
    omitEmpty (env.error == "") "error" (appendString env.error) ++
    omitEmpty (env.sentAt == 0) "sentAt" (appendInt env.sentAt)

end Coordinator

end TarkovVoice

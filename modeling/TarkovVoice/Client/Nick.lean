import TarkovVoice.Client.SignalingClient
import TarkovVoice.Trim
import TarkovVoice.Utf8

/-!
# The nickname

`trimNick` of `client/src/platform/SetupWindow.cpp`. The text of the window is UTF-8, and it is
trimmed and then cut after 24 bytes. The cut may fall into a character, and behind a blank within
the text. What is left is then no UTF-8, or ends with a blank, and goes into the requests as it is.

## Main definitions

* `trimNick`
* `GoodNick` — what a nickname should be
* `CutsWell` — the cut is between two characters, and not behind a blank

## Main results

* `valid_escapeJson` — escaping keeps UTF-8
* `goodNick_iff`
-/

namespace TarkovVoice

namespace Client

open Net
open Utf8 (Valid)

/-! ### The functions of the source -/

/-- `notSpace`. -/
def notSpace (c : UInt8) : Bool := c > 32

/-- A blank or control byte. -/
def blank (c : UInt8) : Bool := !notSpace c

/-- The nickname without the blanks and control bytes at its ends. -/
def trimmedNick (nick : Bytes) : Bytes := Trim.trim blank nick

/-- `trimNick`. The limit of 24 is one of bytes, whatever characters they belong to. -/
def trimNick (nick : Bytes) : Bytes :=
  let nick := trimmedNick nick
  if nick = [] then utf8 "Player"
  else if nick.length > 24 then nick.take 24
  else nick

/-! ### What a nickname should be -/

/-- What `trimNick` should make of a text, and of the requests that it goes into: a nickname of 1 to
24 bytes without blanks at its ends, the trimmed text itself if that fits, and no broken character
in it or in any of the three requests. -/
structure GoodNick (text nick : Bytes) : Prop where
  ne_nil : nick ≠ []
  length : nick.length ≤ 24
  trimmed : Trim.Trimmed blank nick
  kept : trimmedNick text ≠ [] → (trimmedNick text).length ≤ 24 → nick = trimmedNick text
  valid : Valid nick
  hello : Valid (helloText nick)
  create : ∀ nowUnixMs (request : CreateRoomRequest), Valid request.roomName →
    Valid (createRoomText nowUnixMs { request with hostNick := nick })
  join : ∀ request : JoinRoomRequest, Valid request.roomId → Valid request.passwordProof →
    Valid request.publicKey → Valid (joinRoomText { request with nick := nick })

/-- If there is a byte behind the first 24 of the text, it begins a character, and the byte in front
of it is not a blank. -/
def CutsWell (text : Bytes) : Prop :=
  ∀ c ∈ text[24]?, c.IsUTF8FirstByte ∧ ∀ b ∈ text[23]?, blank b = false

/-! ### Requests -/

theorem valid_utf8 (s : String) : Valid (utf8 s) := ⟨s.toList, rfl⟩

theorem escapeByte_ascii : ∀ x : UInt8, x < 0x80 → ∀ e ∈ escapeByte x, e < 0x80 :=
  forall_byte (by decide +kernel)

theorem escapeByte_of_le : ∀ x : UInt8, 0x80 ≤ x → escapeByte x = [x] :=
  forall_byte (by decide +kernel)

theorem valid_escapeChar (c : Char) : Valid (escapeJson (String.utf8EncodeChar c)) := by
  rcases Utf8.ascii_or c with ⟨x, hx, hc⟩ | hall
  · have hvalid := (@Utf8.valid_ascii_append_iff [] _ (escapeByte_ascii x hx)).mpr Utf8.valid_nil
    rw [hc, escapeJson, List.flatMap_singleton]
    rwa [List.append_nil] at hvalid
  · have hsame : escapeJson (String.utf8EncodeChar c) = String.utf8EncodeChar c := by
      rw [escapeJson, List.flatMap_congr fun x hx => escapeByte_of_le x (hall x hx),
        List.flatMap_singleton']
    rw [hsame]
    exact ⟨[c], (List.flatMap_singleton _ _).symm⟩

/-- **Escaping** keeps UTF-8. -/
theorem valid_escapeJson {s : Bytes} (h : Valid s) : Valid (escapeJson s) := by
  obtain ⟨cs, rfl⟩ := h
  induction cs with
  | nil => exact Utf8.valid_nil
  | cons c cs ih =>
    rw [Utf8.encode_cons, escapeJson, List.flatMap_append]
    exact (valid_escapeChar c).append ih

theorem valid_helloText {nick : Bytes} (h : Valid nick) : Valid (helloText nick) :=
  ((valid_utf8 _).append (valid_escapeJson h)).append (valid_utf8 _)

theorem valid_integer (n : ℤ) : Valid (integer n) := by
  cases n with
  | ofNat n => exact valid_utf8 (toString n)
  | negSucc n => exact (Utf8.valid_cons_iff (by decide)).mpr (valid_utf8 (toString (n + 1)))

theorem valid_createRoomText (nowUnixMs : ℤ) {request : CreateRoomRequest}
    (hname : Valid request.roomName) (hnick : Valid request.hostNick) :
    Valid (createRoomText nowUnixMs request) := by
  have hlocked : Valid (if request.locked then utf8 "true" else utf8 "false") := by
    split
    · exact valid_utf8 _
    · exact valid_utf8 _
  have hpayload : Valid (makeRoomPayload nowUnixMs request) :=
    (((((((((valid_utf8 _).append (valid_escapeJson hname)).append (valid_utf8 _)).append
      (valid_escapeJson hnick)).append (valid_utf8 _)).append (valid_utf8 _)).append
      (valid_utf8 _)).append hlocked).append (valid_utf8 _)).append
      (valid_integer nowUnixMs) |>.append (valid_utf8 _)
  exact ((((valid_utf8 _).append (valid_escapeJson hnick)).append (valid_utf8 _)).append
    hpayload).append (valid_utf8 _)

theorem valid_joinRoomText {request : JoinRoomRequest} (hroom : Valid request.roomId)
    (hnick : Valid request.nick) (hproof : Valid request.passwordProof)
    (hkey : Valid request.publicKey) : Valid (joinRoomText request) :=
  ((((((((valid_utf8 _).append (valid_escapeJson hroom)).append (valid_utf8 _)).append
    (valid_escapeJson hnick)).append (valid_utf8 _)).append (valid_escapeJson hproof)).append
    (valid_utf8 _)).append (valid_escapeJson hkey)).append (valid_utf8 _)

/-! ### Trimming and cutting -/

variable {text nick : Bytes}

/-- What is trimmed away is ASCII. -/
theorem valid_trimmedNick (h : Valid text) : Valid (trimmedNick text) := by
  have hascii : ∀ c : UInt8, blank c = true → c < 0x80 := forall_byte (by decide +kernel)
  obtain ⟨u, v, htext, hu, hv⟩ := Trim.exists_eq_append blank text
  rw [htext] at h
  exact (Utf8.valid_between_ascii_iff (fun c hc => hascii c (hu c hc))
    fun c hc => hascii c (hv c hc)).mp h

/-- The last of the first 24 bytes. -/
theorem getLast?_take (h : 24 < nick.length) : (nick.take 24).getLast? = nick[23]? := by
  rw [List.getLast?_eq_getElem?, List.length_take, Nat.min_eq_left (Nat.le_of_lt h),
    List.getElem?_take_of_lt (by decide)]

/-- What is kept of a text is trimmed and UTF-8 exactly if it is cut well. -/
theorem good_take_iff (h : Valid nick) (htrimmed : Trim.Trimmed blank nick)
    (hlength : 24 < nick.length) :
    Valid (nick.take 24) ∧ Trim.Trimmed blank (nick.take 24) ↔ CutsWell nick := by
  have hget : nick[24]? = some nick[24] := List.getElem?_eq_getElem hlength
  rw [Utf8.valid_take_iff h, CutsWell, hget]
  constructor
  · rintro ⟨hfirst, hcut⟩ c hc
    have hlast := hcut.last
    rw [getLast?_take hlength] at hlast
    exact ⟨hfirst c hc, hlast⟩
  · intro hwell
    refine ⟨fun c hc => (hwell c hc).1, fun c hc => ?_, fun b hb => ?_⟩
    · exact htrimmed.head c (Trim.head_of_prefix (List.take_prefix 24 nick) c hc)
    · rw [getLast?_take hlength] at hb
      exact (hwell _ rfl).2 b hb

/-- **A nickname is good** exactly if its text is cut well. For every UTF-8 text of the setup
window: what `trimNick` makes of it is not empty, has no more than 24 bytes, is trimmed, and is
UTF-8 in itself and in all requests exactly if the 24th byte of the trimmed text ends a character
and is no blank, or there is no 25th. -/
theorem goodNick_iff (h : Valid text) :
    GoodNick text (trimNick text) ↔ CutsWell (trimmedNick text) := by
  have hvalid := valid_trimmedNick h
  have htrimmed : Trim.Trimmed blank (trimmedNick text) := Trim.trimmed_trim blank text
  have hgood : ∀ nick, nick ≠ [] → nick.length ≤ 24 →
      (trimmedNick text ≠ [] → (trimmedNick text).length ≤ 24 → nick = trimmedNick text) →
      Valid nick ∧ Trim.Trimmed blank nick → GoodNick text nick := by
    rintro nick hne hlength hkept ⟨hnick, hends⟩
    exact
      { ne_nil := hne, length := hlength, trimmed := hends, kept := hkept, valid := hnick,
        hello := valid_helloText hnick,
        create := fun nowUnixMs _ hname => valid_createRoomText nowUnixMs hname hnick,
        join := fun _ hroom hproof hkey => valid_joinRoomText hroom hnick hproof hkey }
  have hshort : (trimmedNick text).length ≤ 24 → CutsWell (trimmedNick text) := by
    intro hlength c hc
    rw [List.getElem?_eq_none hlength] at hc
    cases hc
  rw [trimNick]
  by_cases hnil : trimmedNick text = []
  · have hplayer : Trim.Trimmed blank (utf8 "Player") := by decide
    rw [if_pos hnil]
    refine iff_of_true (hgood _ (by decide) (by decide) (absurd hnil) ⟨valid_utf8 _, hplayer⟩)
      (hshort ?_)
    rw [hnil]
    exact Nat.zero_le _
  · rw [if_neg hnil]
    by_cases hlength : (trimmedNick text).length > 24
    · rw [if_pos hlength, ← good_take_iff hvalid htrimmed hlength]
      refine ⟨fun hnick => ⟨hnick.valid, hnick.trimmed⟩, hgood _ ?_ ?_ ?_⟩
      · exact fun htake => hnil (List.take_eq_nil_iff.mp htake |>.resolve_left (by decide))
      · exact List.length_take_le 24 _
      · exact fun _ hle => absurd hlength (Nat.not_lt.mpr hle)
    · rw [if_neg hlength]
      exact iff_of_true (hgood _ hnil (Nat.not_lt.mp hlength) (fun _ _ => rfl)
        ⟨hvalid, htrimmed⟩) (hshort (Nat.not_lt.mp hlength))

/-- A nickname of more than 24 bytes with the cut between two letters. -/
theorem goodNick_iff_long : GoodNick (utf8 " Ана-Мария Ковальчук ") (utf8 "Ана-Мария Ков") := by
  have hnick : trimNick (utf8 " Ана-Мария Ковальчук ") = utf8 "Ана-Мария Ков" := by decide +kernel
  have hfirst : (trimmedNick (utf8 " Ана-Мария Ковальчук "))[24]? = some 0xd0 := by decide +kernel
  have hlast : (trimmedNick (utf8 " Ана-Мария Ковальчук "))[23]? = some 0xb2 := by decide +kernel
  rw [← hnick]
  refine (goodNick_iff (valid_utf8 _)).mpr fun c hc => ?_
  obtain rfl := Option.some.inj (hfirst.symm.trans hc)
  refine ⟨by decide, fun b hb => ?_⟩
  obtain rfl := Option.some.inj (hlast.symm.trans hb)
  decide

/-- **A broken letter.** Byte 24 of this text is the second of a letter, and what is left of it is
no UTF-8. -/
theorem letter_cut : ¬ ∀ text, Valid text → GoodNick text (trimNick text) := by
  intro h
  have hvalid := (h (utf8 "Александр Петров") (valid_utf8 _)).valid
  have htake : trimNick (utf8 "Александр Петров") = (utf8 "Александр Петров").take 24 := by
    decide +kernel
  have hbyte : (0x82 : UInt8) ∈ (utf8 "Александр Петров")[24]? := by decide +kernel
  rw [htake] at hvalid
  exact absurd ((Utf8.valid_take_iff (valid_utf8 _) 24).mp hvalid 0x82 hbyte) (by decide)

end Client

end TarkovVoice

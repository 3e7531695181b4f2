import TarkovVoice.Coordinator.Types
import TarkovVoice.JsonMembers
import TarkovVoice.Net.Bytes

/-!
# What the coordinator reads

`json.Unmarshal` into an `Envelope`, and what `json.Marshal` does to a raw payload. The library is
not part of the coordinator, so it is a parameter, `JsonLibrary`, with what its documentation says
about the texts that clients send.

A client's text is an object. The strings among its members are found by their tags; a member that
comes twice is taken the second time. The payload is a `json.RawMessage`: the text of the value is
kept as it is. Nothing is said here about texts with other members, with `\u` escapes, or with
brackets nested deeper than the 10000 the library allows.

Marshalling compacts a raw payload: it drops blanks between tokens, and escapes what HTML might take
for markup. A text of printable ASCII characters without any of that stays as it is.

## Main definitions

* `envelopeOf` — the envelope that an object is read into
* `JsonLibrary`
* `JsonLibrary.minimal` — a library, which shows that there is one
-/

namespace TarkovVoice

namespace Coordinator

open Net
open JsonGrammar (Denotes Entry IsObjectOf Within)

/-! ### The envelope of an object -/

/-- The strings of an envelope, with their tags, each with what reading it sets. -/
def stringTags : List (Bytes × (Envelope → String → Envelope)) :=
  [ (utf8 "type", fun env s => { env with type := s }),
    (utf8 "roomId", fun env s => { env with roomID := s }),
    (utf8 "peerId", fun env s => { env with peerID := s }),
    (utf8 "targetPeerId", fun env s => { env with targetPeerID := s }),
    (utf8 "nick", fun env s => { env with nick := s }),
    (utf8 "error", fun env s => { env with error := s }) ]

/-- What a member does to the envelope. `text` makes a string of bytes. For a member that is neither
the payload nor a string under one of the tags, this is not said. -/
def Envelope.assign (text : Bytes → String) (env : Envelope) (e : Entry) : Option Envelope :=
  if e.name = utf8 "payload" then some { env with payload := e.text }
  else
    match e.value with
    | .string s => (stringTags.find? fun tag => tag.1 = e.name).map fun tag => tag.2 env (text s)
    | _ => none

/-- The envelope that an object is read into, one member after the other. -/
def envelopeOf (text : Bytes → String) (es : List Entry) : Option Envelope :=
  es.foldlM (Envelope.assign text) { type := "" }

/-! ### The library -/

/-- A byte that compacting leaves as it is, wherever it stands: printable, no blank, and none of the
three that are escaped for HTML. -/
def Bare (c : UInt8) : Prop := 0x20 < c ∧ c < 0x7f ∧ c ≠ 60 ∧ c ≠ 62 ∧ c ≠ 38

instance : DecidablePred Bare := fun _ => inferInstanceAs (Decidable (_ ∧ _ ∧ _ ∧ _ ∧ _))

/-- `encoding/json`, as far as it is documented for what clients send: an object is read member by
member, however it is written, and compacting leaves a text of bare bytes as it is. What is said of
neither is left open. -/
structure JsonLibrary where
  unmarshal : Bytes → Option Envelope
  compact : Bytes → Bytes
  /-- The string that bytes between quotes become. What is not UTF-8 in them is replaced. -/
  text : Bytes → String
  text_utf8 : ∀ s, text (utf8 s) = s
  unmarshal_eq : ∀ t es env, IsObjectOf t es → (∀ e ∈ es, Within 9999 e.value) →
    envelopeOf text es = some env → unmarshal t = some env
  compact_eq : ∀ t v, Denotes t v → (∀ c ∈ t, Bare c) → compact t = t

namespace JsonLibrary

open Classical in
/-- The library that reads what is said here and nothing else, and never compacts. -/
noncomputable def minimal : JsonLibrary where
  unmarshal t :=
    if h : ∃ es, IsObjectOf t es then
      envelopeOf (fun b => if h : ∃ s, utf8 s = b then h.choose else "") h.choose
    else none
  compact := id
  text b := if h : ∃ s, utf8 s = b then h.choose else ""
  text_utf8 s := by
    have h : ∃ s', utf8 s' = utf8 s := ⟨s, rfl⟩
    rw [dif_pos h]
    exact utf8_injective h.choose_spec
  unmarshal_eq t es env hes _ henv := by
    have h : ∃ es, IsObjectOf t es := ⟨es, hes⟩
    rw [dif_pos h, h.choose_spec.unique hes]
    exact henv
  compact_eq _ _ _ _ := rfl

end JsonLibrary

end Coordinator

end TarkovVoice

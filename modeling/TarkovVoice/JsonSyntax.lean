import TarkovVoice.JsonGrammar

/-!
# Texts of JSON values

`IsValue t` says that `t` is the text of some value, without saying of which: strings may have all
escapes, also those that stand for no single byte, and arrays and objects are nested to any depth.
The texts inside a pair of brackets are a list, so that a statement can speak of the elements of an
array as they are written.

## Main definitions

* `IsChars` — what may stand between the quotes of a string
* `Listed`, `Enclosed` — texts with commas between them, and with brackets around them
* `IsValue`, `IsArray`, `IsObject`
-/

namespace TarkovVoice

namespace JsonGrammar

/-! ### Strings -/

def isHexDigit (c : UInt8) : Bool := isDigit c || (65 ≤ c && c ≤ 70) || (97 ≤ c && c ≤ 102)

/-- What stands between the quotes of a string: bytes that are no control bytes, escapes of two
characters, and `\u` with four hexadecimal digits. -/
inductive IsChars : List UInt8 → Prop
  | nil : IsChars []
  | plain {c : UInt8} {s : List UInt8} : 0x20 ≤ c → c ≠ quote → c ≠ backslash → IsChars s →
      IsChars (c :: s)
  | escape {e : UInt8} {s : List UInt8} : (escaped e).isSome → IsChars s →
      IsChars (backslash :: e :: s)
  | unicode {d₀ d₁ d₂ d₃ : UInt8} {s : List UInt8} : isHexDigit d₀ = true → isHexDigit d₁ = true →
      isHexDigit d₂ = true → isHexDigit d₃ = true → IsChars s →
      IsChars (backslash :: 117 :: d₀ :: d₁ :: d₂ :: d₃ :: s)

/-! ### Lists -/

/-- Blanks of the four kinds that JSON has, any number of them, or nothing. -/
def Blank (u : List UInt8) : Prop := ∀ c ∈ u, isSpace c = true

/-- At least one text, with blanks around each and a comma behind each but the last. The texts are
any here; what they are texts of is said beside it. -/
inductive Listed : List (List UInt8) → List UInt8 → Prop
  | last {a t b : List UInt8} : Blank a → Blank b → Listed [t] (a ++ (t ++ b))
  | more {a t b u : List UInt8} {ts : List (List UInt8)} : Blank a → Blank b → Listed ts u →
      Listed (t :: ts) (a ++ (t ++ (b ++ comma :: u)))

/-- Texts in a pair of brackets, or none: with blanks anywhere between them, and commas where one
follows another. -/
inductive Enclosed (openChar closeChar : UInt8) : List (List UInt8) → List UInt8 → Prop
  | empty {u : List UInt8} : Blank u →
      Enclosed openChar closeChar [] (openChar :: (u ++ [closeChar]))
  | listed {ts : List (List UInt8)} {u : List UInt8} : Listed ts u →
      Enclosed openChar closeChar ts (openChar :: (u ++ [closeChar]))

/-! ### Values -/

/-- A member of an object: what stands between the quotes of its name, the blanks before and behind
its colon, and its value. -/
structure Member where
  name : List UInt8
  before : List UInt8
  behind : List UInt8
  value : List UInt8
  isChars : IsChars name
  blank_before : Blank before
  blank_behind : Blank behind

/-- The member as it is written: the name in quotes, a colon with blanks around it, and the
value. -/
def Member.text (m : Member) : List UInt8 :=
  quote :: (m.name ++ quote :: (m.before ++ colon :: (m.behind ++ m.value)))

/-- The text of a value, without blanks around it. This is the grammar of the format, by the form of
the text alone. -/
inductive IsValue : List UInt8 → Prop
  | null : IsValue [110, 117, 108, 108]
  | true : IsValue [116, 114, 117, 101]
  | false : IsValue [102, 97, 108, 115, 101]
  | number {u : List UInt8} : IsNumber u → IsValue u
  | string {s : List UInt8} : IsChars s → IsValue (quote :: (s ++ [quote]))
  | array {ts : List (List UInt8)} {t : List UInt8} : Enclosed openBracket closeBracket ts t →
      (∀ u ∈ ts, IsValue u) → IsValue t
  | object {ms : List Member} {t : List UInt8} :
      Enclosed openBrace closeBrace (ms.map Member.text) t → (∀ m ∈ ms, IsValue m.value) →
      IsValue t

/-- The text of an array. -/
def IsArray (t : List UInt8) : Prop :=
  ∃ ts, Enclosed openBracket closeBracket ts t ∧ ∀ u ∈ ts, IsValue u

/-- The text of an object. -/
def IsObject (t : List UInt8) : Prop :=
  ∃ ms : List Member, Enclosed openBrace closeBrace (ms.map Member.text) t ∧
    ∀ m ∈ ms, IsValue m.value

theorem IsObject.isValue {t : List UInt8} (h : IsObject t) : IsValue t := by
  obtain ⟨ms, henclosed, hvalues⟩ := h
  exact .object henclosed hvalues

end JsonGrammar

end TarkovVoice

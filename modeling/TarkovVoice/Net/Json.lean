import TarkovVoice.Net.Bytes
import TarkovVoice.Search
import Mathlib.Data.Rat.Floor

/-!
# The client's JSON functions

The text functions of `client/src/net/SignalingClient.cpp`. The client has no JSON parser. It looks
for the first occurrence of a quoted key, takes the next colon after it, and reads a value there.

## Positions

A position in a text is represented by the rest of the text from there on, and `substr` by the
bytes that were passed. `depth`, an `int` in the source, is an integer.

## Numbers

A `double` is an exact rational, an infinity or not a number. `strtod` reads what the C library
reads in the C locale: decimal and hexadecimal numbers, infinities and NaNs. Converting a number
to an integer type cuts it towards zero. Where the result does not fit, which C++ leaves
undefined, the model still gives that integer; for an infinity or a NaN it gives 0.

## Main definitions

* `escapeJson` — the one function here that writes
* `findJsonValue`, `extractJsonString`, `extractJsonNumber`, `extractJsonBool`
* `extractBalancedValue`, `splitObjectArray`, `parseStringArray`
-/

namespace TarkovVoice

namespace Net

/-! ### Writing -/

/-- What `escapeJson` appends for one byte. -/
def escapeByte (c : UInt8) : Bytes :=
  if c = backslash then [backslash, backslash]
  else if c = quote then [backslash, quote]
  else if c = 10 then utf8 "\\n"
  else if c = 13 then utf8 "\\r"
  else if c = 9 then utf8 "\\t"
  else if c < 0x20 then [32]
  else [c]

/-- `escapeJson`. -/
def escapeJson (text : Bytes) : Bytes := text.flatMap escapeByte

/-! ### Numbers -/

/-- A `double`, as far as `std::stod` and the conversions of it go: a number as an exact fraction,
or one of the values that are none. -/
inductive Number
  | finite (value : ℚ)
  | infinite (negative : Bool)
  | nan
  deriving DecidableEq

namespace Number

/-- `std::max(bound, x)`, that is `bound < x ? x : bound`. -/
def max (bound : ℚ) : Number → Number
  | .finite q => if bound < q then .finite q else .finite bound
  | .infinite false => .infinite false
  | .infinite true => .finite bound
  | .nan => .finite bound

/-- Conversion to an integer type, towards zero. An infinite number or a NaN, whose conversion C++
leaves undefined, becomes 0 here. -/
def truncate : Number → ℤ
  | .finite q => if 0 ≤ q then ⌊q⌋ else ⌈q⌉
  | _ => 0

/-- The number with its sign flipped. -/
def neg : Number → Number
  | .finite q => .finite (-q)
  | .infinite negative => .infinite !negative
  | .nan => .nan

end Number

/-- The value of a digit or letter as a digit in `base`. -/
def digitValue (base : ℕ) (c : UInt8) : Option ℕ :=
  let value :=
    if 48 ≤ c ∧ c ≤ 57 then some (c.toNat - 48)
    else if 65 ≤ c ∧ c ≤ 90 then some (c.toNat - 55)
    else if 97 ≤ c ∧ c ≤ 122 then some (c.toNat - 87)
    else none
  value.filter (· < base)

/-- Read as many digits as there are: their value appended to `value`, their number added to
`count`, and what follows. -/
def readDigits (base : ℕ) : Bytes → ℕ → ℕ → ℕ × ℕ × Bytes
  | [], value, count => (value, count, [])
  | c :: rest, value, count =>
    match digitValue base c with
    | some d => readDigits base rest (value * base + d) (count + 1)
    | none => (value, count, c :: rest)

/-- Digits with an optional point, at least one digit in all. The point may stand in front of them
or behind. -/
def readMantissa (base : ℕ) (text : Bytes) : Option (ℚ × Bytes) :=
  let (value, count, rest) := readDigits base text 0 0
  let (value, places, rest) :=
    match rest with
    | [] => (value, 0, [])
    | c :: rest' => if c = 46 then readDigits base rest' value 0 else (value, 0, c :: rest')
  if count + places = 0 then none else some ((value : ℚ) / (base : ℚ) ^ places, rest)

/-- A minus or plus sign, if there is one. -/
def readSign : Bytes → Bool × Bytes
  | [] => (false, [])
  | c :: rest =>
    if c = 45 then (true, rest) else if c = 43 then (false, rest) else (false, c :: rest)

/-- Multiply by `scale` to the power of the exponent that follows `mark` or its capital. Without
a digit there is no exponent. -/
def readExponent (scale : ℚ) (mark : UInt8) (value : ℚ) : Bytes → ℚ × Bytes
  | [] => (value, [])
  | c :: rest =>
    if c = mark ∨ c + 32 = mark then
      let (negative, digits) := readSign rest
      let (exponent, count, rest') := readDigits 10 digits 0 0
      if count = 0 then (value, c :: rest)
      else (if negative then value / scale ^ exponent else value * scale ^ exponent, rest')
    else (value, c :: rest)

/-- The text after `word`, small or capital letters alike. -/
def afterWord (word : Bytes) (text : Bytes) : Option Bytes :=
  if (text.take word.length).map tolower = word then
    some (text.drop word.length)
  else none

/-- Behind `nan`, an optional word in parentheses, which the C library takes along. -/
def afterNan (text : Bytes) : Bytes :=
  match text with
  | [] => []
  | c :: rest =>
    if c = 40 then
      match rest.dropWhile fun c => (digitValue 36 c).isSome ∨ c = 95 with
      | [] => text
      | c :: rest' => if c = 41 then rest' else text
    else text

/-- What `strtod` reads behind blanks and sign: a word for infinity or NaN, a hexadecimal number, or
a decimal one. -/
def readUnsigned (text : Bytes) : Option (Number × Bytes) :=
  match afterWord (utf8 "infinity") text with
  | some rest => some (.infinite false, rest)
  | none =>
  match afterWord (utf8 "inf") text with
  | some rest => some (.infinite false, rest)
  | none =>
  match afterWord (utf8 "nan") text with
  | some rest => some (.nan, afterNan rest)
  | none =>
  match (afterWord (utf8 "0x") text).bind (readMantissa 16) with
  | some (value, rest) =>
    let (value, rest) := readExponent 2 112 value rest
    some (.finite value, rest)
  | none =>
  match readMantissa 10 text with
  | some (value, rest) =>
    let (value, rest) := readExponent 10 101 value rest
    some (.finite value, rest)
  | none => none

/-- `strtod`, with what it leaves unread. Nothing is read where `end == start`, as where no number
begins. -/
def strtod (text : Bytes) : Option (Number × Bytes) :=
  let (negative, rest) := readSign (text.dropWhile isspace)
  match readUnsigned rest with
  | some (value, rest) => some (if negative then value.neg else value, rest)
  | none => none

/-! ### Reading values -/

/-- `skipWhitespace`. -/
def skipWhitespace (text : Bytes) : Bytes := text.dropWhile isspace

/-- `findJsonValue`: behind the first occurrence of the key in quotes, wherever that is, and the
first colon after it. -/
def findJsonValue (json key : Bytes) : Option Bytes := do
  let needle := quote :: (key ++ [quote])
  let keyPos ← Search.find needle json
  let colonPos ← Search.find [colon] (keyPos.drop needle.length)
  return skipWhitespace (colonPos.drop 1)

/-- The byte an escape stands for. -/
def unescape (escaped : UInt8) : UInt8 :=
  if escaped = 110 then 10 else if escaped = 114 then 13 else if escaped = 116 then 9 else escaped

/-- The loop of `extractJsonString`. A backslash takes the next byte with it; a text that ends
before the quote has no string. -/
def extractStringLoop : Bytes → Bytes → Option Bytes
  | [], _ => none
  | c :: rest, out =>
    if c = quote then some out
    else
      match rest with
      | escaped :: rest' =>
        if c = backslash then extractStringLoop rest' (out ++ [unescape escaped])
        else extractStringLoop (escaped :: rest') (out ++ [c])
      | [] => extractStringLoop [] (out ++ [c])

/-- `extractJsonString`: the value must begin with a quote and have another one that ends it. -/
def extractJsonString (json key : Bytes) : Option Bytes :=
  match findJsonValue json key with
  | some (c :: rest) => if c = quote then extractStringLoop rest [] else none
  | _ => none

/-- `extractJsonNumber`. What follows the number is not looked at, so that the number may be the
beginning of something else. -/
def extractJsonNumber (json key : Bytes) : Option Number :=
  match findJsonValue json key with
  | some value => (strtod value).map Prod.fst
  | none => none

/-- `extractJsonBool`. Only the first letters are compared, so that a longer word counts as well. -/
def extractJsonBool (json key : Bytes) : Option Bool :=
  match findJsonValue json key with
  | some value =>
    if value.take 4 = utf8 "true" then some true
    else if value.take 5 = utf8 "false" then some false
    else none
  | none => none

/-! ### Brackets -/

/-- The flags `inString` and `escaped` of the bracket-matching loops: inside a string, and right
behind a backslash in it. -/
structure Quoting where
  inString : Bool := false
  escaped : Bool := false

/-- What a byte inside a string does to the flags. -/
def Quoting.inside (q : Quoting) (c : UInt8) : Quoting :=
  if q.escaped then { q with escaped := false }
  else if c = backslash then { q with escaped := true }
  else if c = quote then { q with inString := false }
  else q

/-- The loop of `extractBalancedValue`. It returns the bytes it passed, up to the bracket that
closes the value. -/
def extractBalancedLoop (openChar closeChar : UInt8) : Bytes → ℤ → Quoting → Option Bytes
  | [], _, _ => none
  | c :: rest, depth, q =>
    if q.inString then
      (extractBalancedLoop openChar closeChar rest depth (q.inside c)).map (c :: ·)
    else if c = quote then
      (extractBalancedLoop openChar closeChar rest depth { q with inString := true }).map (c :: ·)
    else if c = openChar then
      (extractBalancedLoop openChar closeChar rest (depth + 1) q).map (c :: ·)
    else if c = closeChar then
      if depth - 1 = 0 then some [c]
      else (extractBalancedLoop openChar closeChar rest (depth - 1) q).map (c :: ·)
    else (extractBalancedLoop openChar closeChar rest depth q).map (c :: ·)

/-- `extractBalancedValue`: the value must begin with the bracket, and is cut out up to the one that
closes it. -/
def extractBalancedValue (json key : Bytes) (openChar closeChar : UInt8) : Option Bytes :=
  match findJsonValue json key with
  | some (c :: rest) =>
    if c = openChar then extractBalancedLoop openChar closeChar (c :: rest) 0 {} else none
  | _ => none

/-- The loop of `splitObjectArray`. `object` holds the bytes from `objectStart` on, and nothing
where `objectStart` is `npos`. -/
def splitObjectLoop : Bytes → ℤ → Quoting → Option Bytes → List Bytes
  | [], _, _, _ => []
  | c :: rest, depth, q, object =>
    let passed := object.map (· ++ [c])
    if q.inString then splitObjectLoop rest depth (q.inside c) passed
    else if c = quote then splitObjectLoop rest depth { q with inString := true } passed
    else if c = openBrace then
      splitObjectLoop rest (depth + 1) q (if depth = 0 then some [c] else passed)
    else if c = closeBrace then
      match passed with
      | some text =>
        if depth - 1 = 0 then text :: splitObjectLoop rest (depth - 1) q none
        else splitObjectLoop rest (depth - 1) q (some text)
      | none => splitObjectLoop rest (depth - 1) q none
    else splitObjectLoop rest depth q passed

/-- `splitObjectArray`: the texts of the objects, braces included. What is between them is not
looked at. -/
def splitObjectArray (arrayJson : Bytes) : List Bytes := splitObjectLoop arrayJson 0 {} none

/-- The loop of `parseStringArray`. A string ends at the next quote that is not escaped; what is
between strings is passed over. -/
def parseStringLoop : Bytes → Quoting → Bytes → List Bytes → List Bytes
  | [], _, _, values => values
  | c :: rest, q, current, values =>
    if !q.inString then
      if c = quote then parseStringLoop rest { q with inString := true } [] values
      else parseStringLoop rest q current values
    else if q.escaped then
      parseStringLoop rest { q with escaped := false } (current ++ [unescape c]) values
    else if c = backslash then parseStringLoop rest { q with escaped := true } current values
    else if c = quote then
      parseStringLoop rest { q with inString := false } current (values ++ [current])
    else parseStringLoop rest q (current ++ [c]) values

/-- `parseStringArray`. The loop leaves out the two brackets. -/
def parseStringArray (json key : Bytes) : List Bytes :=
  match extractBalancedValue json key openBracket closeBracket with
  | some arrayJson => parseStringLoop (arrayJson.drop 1).dropLast {} [] []
  | none => []

end Net

end TarkovVoice

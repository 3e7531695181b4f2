import TarkovVoice.Net.Json

/-!
# The JSON functions on well-formed text

What the functions of `Json` read in text that a JSON encoder wrote: escaped strings, matching
brackets, and objects member by member.

A key is found wherever its quoted form first occurs, also inside a string. Escaping puts a
backslash before every quote, so within a string the quoted key can only stand at the end, with
the string's own closing quote as its second quote: `Shadows`. `readAt` follows such a search
through the members of an object.

## Main definitions

* `StringBody`, `Closed` — string contents, and text whose brackets match
* `Shadows` — a string whose text hides a key
* `Field`, `fields`, `readAt` — members of an object, and the one a key leads to

## Main results

* `extractStringLoop_escapeJson` — a written string is read back
* `extractBalancedLoop_closed`, `splitObjectLoop_object` — a bracketed value ends at its bracket
* `afterKey_quoted` — a key hides in a string exactly when the string shadows it
* `findJsonValue_fields` — the member a key leads to
-/

namespace TarkovVoice

namespace Net

/-! ### Strings -/

/-- What is left of a byte when it is written and read back: control bytes become blanks. -/
def clean (c : UInt8) : UInt8 :=
  if c < 0x20 ∧ c ≠ 10 ∧ c ≠ 13 ∧ c ≠ 9 then 32 else c

/-- A string as it is written. -/
def quoted (s : Bytes) : Bytes := quote :: escapeJson s ++ [quote]

theorem quoted_append (s rest : Bytes) :
    quoted s ++ rest = quote :: (escapeJson s ++ quote :: rest) := by
  simp [quoted]

/-- The text between the quotes of a string: a quote stands in it only behind a backslash, and a
backslash never alone at the end. -/
inductive StringBody : Bytes → Prop
  | nil : StringBody []
  | byte {c : UInt8} {s : Bytes} : c ≠ quote → c ≠ backslash → StringBody s → StringBody (c :: s)
  | escape {c : UInt8} {s : Bytes} : StringBody s → StringBody (backslash :: c :: s)

/-- What may stand behind a backslash that `escapeJson` writes. It writes no others, and for control
bytes it writes a blank. -/
def escapes : Bytes := [backslash, quote, 110, 114, 116]

theorem escapeByte_cases (c : UInt8) :
    (∃ e ∈ escapes, escapeByte c = [backslash, e] ∧ unescape e = clean c) ∨
      escapeByte c = [clean c] ∧ 0x20 ≤ clean c ∧ clean c ≠ quote ∧ clean c ≠ backslash := by
  unfold escapeByte
  split_ifs with h1 h2 h3 h4 h5 h6
  · subst h1
    exact .inl ⟨_, by decide, rfl, by decide⟩
  · subst h2
    exact .inl ⟨_, by decide, rfl, by decide⟩
  · subst h3
    exact .inl ⟨110, by decide, rfl, by decide⟩
  · subst h4
    exact .inl ⟨114, by decide, rfl, by decide⟩
  · subst h5
    exact .inl ⟨116, by decide, rfl, by decide⟩
  · have hclean : clean c = 32 := if_pos ⟨h6, h3, h4, h5⟩
    rw [hclean]
    exact .inr ⟨rfl, by decide, by decide, by decide⟩
  · have hclean : clean c = c := if_neg fun h => h6 h.1
    rw [hclean]
    exact .inr ⟨rfl, UInt8.not_lt.mp h6, h2, h1⟩

theorem escapeJson_cons (c : UInt8) (s : Bytes) :
    escapeJson (c :: s) = escapeByte c ++ escapeJson s := List.flatMap_cons

theorem stringBody_escapeJson (s : Bytes) : StringBody (escapeJson s) := by
  induction s with
  | nil => exact .nil
  | cons c s ih =>
    rw [escapeJson_cons]
    rcases escapeByte_cases c with ⟨e, -, he, -⟩ | ⟨he, -, hq, hb⟩
    · rw [he]
      exact .escape ih
    · rw [he]
      exact .byte hq hb ih

theorem extractStringLoop_byte {c : UInt8} (hq : c ≠ quote) (hb : c ≠ backslash)
    (rest out : Bytes) :
    extractStringLoop (c :: rest) out = extractStringLoop rest (out ++ [c]) := by
  cases rest with
  | nil => simp [extractStringLoop, hq]
  | cons d rest => simp [extractStringLoop, hq, hb]

theorem extractStringLoop_escape (e : UInt8) (rest out : Bytes) :
    extractStringLoop (backslash :: e :: rest) out =
      extractStringLoop rest (out ++ [unescape e]) := by
  simp [extractStringLoop, show backslash ≠ quote by decide]

/-- **A written string is read back**, but for what `clean` changes. Whatever follows the quote is
not looked at. -/
theorem extractStringLoop_escapeJson (s rest out : Bytes) :
    extractStringLoop (escapeJson s ++ quote :: rest) out = some (out ++ s.map clean) := by
  induction s generalizing out with
  | nil =>
    show extractStringLoop (quote :: rest) out = some (out ++ [])
    cases rest <;> simp [extractStringLoop]
  | cons c s ih =>
    rw [escapeJson_cons, List.map_cons]
    rcases escapeByte_cases c with ⟨e, -, he, hun⟩ | ⟨he, -, hq, hb⟩
    · rw [he, List.append_assoc, List.cons_append, List.singleton_append,
        extractStringLoop_escape, ih, hun, List.append_assoc, List.singleton_append]
    · rw [he, List.append_assoc, List.singleton_append, extractStringLoop_byte hq hb, ih,
        List.append_assoc, List.singleton_append]

theorem parseStringLoop_escapeJson (s rest current : Bytes) (values : List Bytes) :
    parseStringLoop (escapeJson s ++ quote :: rest) ⟨true, false⟩ current values =
      parseStringLoop rest {} (current ++ s.map clean) (values ++ [current ++ s.map clean]) := by
  induction s generalizing current with
  | nil =>
    show parseStringLoop (quote :: rest) ⟨true, false⟩ current values = _
    simp [parseStringLoop, show quote ≠ backslash by decide]
  | cons c s ih =>
    rw [escapeJson_cons, List.map_cons]
    rcases escapeByte_cases c with ⟨e, -, he, hun⟩ | ⟨he, -, hq, hb⟩
    · rw [he]
      simp [parseStringLoop, ih, hun]
    · rw [he]
      simp [parseStringLoop, ih, hq, hb]

theorem parseStringLoop_quoted (s rest current : Bytes) (values : List Bytes) :
    parseStringLoop (quoted s ++ rest) {} current values =
      parseStringLoop rest {} (s.map clean) (values ++ [s.map clean]) := by
  rw [quoted_append, parseStringLoop]
  exact parseStringLoop_escapeJson s rest [] values

theorem parseStringLoop_byte {c : UInt8} (hc : c ≠ quote) (text current : Bytes)
    (values : List Bytes) :
    parseStringLoop (c :: text) {} current values = parseStringLoop text {} current values := by
  simp [parseStringLoop, hc]

/-- Written strings with a separator before each are read back, in their order. The separator may be
any byte but a quote, as the loop looks for quotes only. -/
theorem parseStringLoop_list {c : UInt8} (hc : c ≠ quote) (items : List Bytes) (current : Bytes)
    (values : List Bytes) :
    parseStringLoop (items.flatMap fun s => c :: quoted s) {} current values =
      values ++ items.map (List.map clean) := by
  induction items generalizing current values with
  | nil =>
    rw [List.map_nil, List.append_nil]
    rfl
  | cons s items ih =>
    rw [List.flatMap_cons, List.cons_append, parseStringLoop_byte hc, parseStringLoop_quoted, ih,
      List.map_cons, List.append_assoc, List.singleton_append]

/-! ### Numbers -/

/-- The text does not go on with anything that belongs to a number: the next byte is no digit, no
letter and no dot. -/
def EndsNumber (text : Bytes) : Prop :=
  ∀ c ∈ text.head?, (digitValue 36 c).isNone = true ∧ c ≠ 46

theorem digitValue_digit : ∀ d < 10, digitValue 10 (digit d) = some d := by decide

theorem digitValue_ten_of_none :
    ∀ c : UInt8, (digitValue 36 c).isNone = true → digitValue 10 c = none :=
  forall_byte (by decide +kernel)

theorem readDigits_decimal (n : ℕ) (rest : Bytes) (value count : ℕ) :
    readDigits 10 (decimal n ++ rest) value count =
      readDigits 10 rest (value * 10 ^ (decimal n).length + n) (count + (decimal n).length) := by
  revert rest value count
  refine decimal_induction (P := fun n u => ∀ rest value count,
    readDigits 10 (u ++ rest) value count =
      readDigits 10 rest (value * 10 ^ u.length + n) (count + u.length)) ?_ ?_ n
  · intro d hd rest value count
    rw [List.singleton_append, readDigits, digitValue_digit d hd]
    simp
  · intro n d u _ hd hu rest value count
    rw [List.append_assoc, hu, List.singleton_append, readDigits, digitValue_digit d hd]
    have hvalue : (value * 10 ^ u.length + n) * 10 + d =
        value * 10 ^ (u ++ [digit d]).length + (10 * n + d) := by
      rw [List.length_append, List.length_singleton, pow_succ]
      ring
    simp only [hvalue, List.length_append, List.length_singleton, Nat.add_assoc]

theorem readDigits_of_ends {rest : Bytes} (h : EndsNumber rest) (value count : ℕ) :
    readDigits 10 rest value count = (value, count, rest) := by
  cases rest with
  | nil => rfl
  | cons c rest => rw [readDigits, digitValue_ten_of_none c (h c rfl).1]

theorem readMantissa_decimal (n : ℕ) {rest : Bytes} (h : EndsNumber rest) :
    readMantissa 10 (decimal n ++ rest) = some ((n : ℚ), rest) := by
  have hlen : (decimal n).length ≠ 0 := by
    obtain ⟨d, u, hdu, -⟩ := exists_decimal_cons n
    simp [hdu]
  have hdigits : readDigits 10 (decimal n ++ rest) 0 0 = (n, (decimal n).length, rest) := by
    rw [readDigits_decimal, readDigits_of_ends h]
    simp
  rw [readMantissa, hdigits]
  cases rest with
  | nil => simp [hlen]
  | cons c rest => simp [hlen, (h c rfl).2]

theorem readExponent_of_ends {rest : Bytes} (h : EndsNumber rest) (value : ℚ) :
    readExponent 10 101 value rest = (value, rest) := by
  cases rest with
  | nil => rfl
  | cons c rest =>
    have hmark : ¬ (c = 101 ∨ c + 32 = 101) :=
      forall_byte (P := fun c => (digitValue 36 c).isNone = true → ¬ (c = 101 ∨ c + 32 = 101))
        (by decide +kernel) c (h c rfl).1
    rw [readExponent, if_neg hmark]

theorem tolower_ne {c : UInt8} (h : isdigit c = true ∨ (digitValue 36 c).isNone = true) :
    isalpha (tolower c) = false := by
  revert h
  exact forall_byte (P := fun c => isdigit c = true ∨ (digitValue 36 c).isNone = true →
    isalpha (tolower c) = false) (by decide +kernel) c

theorem afterWord_cons {w c : UInt8} (hc : tolower c ≠ w) (word text : Bytes) :
    afterWord (w :: word) (c :: text) = none := by
  refine if_neg fun h => hc ?_
  exact (List.cons.inj h).1

theorem afterWord_cons_cons {w w' : UInt8} (v : UInt8) {text : Bytes}
    (h : ∀ c ∈ text.head?, tolower c ≠ w') (word : Bytes) :
    afterWord (w :: w' :: word) (v :: text) = none := by
  refine if_neg fun heq => ?_
  cases text with
  | nil => cases (List.cons.inj heq).2
  | cons c text => exact h c rfl (List.cons.inj (List.cons.inj heq).2).1

/-- **A number is read back**, as far as it goes. What follows must not be able to continue it. -/
theorem strtod_decimal (n : ℕ) {rest : Bytes} (h : EndsNumber rest) :
    strtod (decimal n ++ rest) = some (.finite n, rest) := by
  have hmantissa := readMantissa_decimal n h
  have hdigit := decimal_isdigit n
  obtain ⟨d, u, hdu, hd⟩ := exists_decimal_cons n
  rw [hdu] at hmantissa hdigit ⊢
  have hlower := tolower_ne (Or.inl hd)
  have hsecond : ∀ c ∈ (u ++ rest).head?, tolower c ≠ 120 := by
    intro c hc heq
    have halpha : isalpha (tolower c) = false := by
      cases u with
      | nil => exact tolower_ne (Or.inr (h c hc).1)
      | cons e u =>
        cases hc
        exact tolower_ne (Or.inl (hdigit _ (by simp)))
    rw [heq] at halpha
    cases halpha
  have hne : ∀ w : UInt8, isalpha w = true → tolower d ≠ w := by
    rintro w hw rfl
    rw [hlower] at hw
    cases hw
  have hunsigned : readUnsigned (d :: (u ++ rest)) = some (.finite n, rest) := by
    have h1 : afterWord (utf8 "infinity") (d :: (u ++ rest)) = none :=
      afterWord_cons (hne 105 rfl) _ _
    have h2 : afterWord (utf8 "inf") (d :: (u ++ rest)) = none := afterWord_cons (hne 105 rfl) _ _
    have h3 : afterWord (utf8 "nan") (d :: (u ++ rest)) = none := afterWord_cons (hne 110 rfl) _ _
    have h4 : afterWord (utf8 "0x") (d :: (u ++ rest)) = none := afterWord_cons_cons d hsecond _
    rw [readUnsigned, h1, h2, h3, h4, ← List.cons_append, hmantissa]
    simp only [Option.bind_none, readExponent_of_ends h]
  obtain ⟨hspace, hminus, hplus⟩ : isspace d = false ∧ d ≠ 45 ∧ d ≠ 43 :=
    forall_byte (P := fun d => isdigit d = true → isspace d = false ∧ d ≠ 45 ∧ d ≠ 43)
      (by decide +kernel) d hd
  have hsign : readSign (d :: (u ++ rest)) = (false, d :: (u ++ rest)) := by
    rw [readSign, if_neg hminus, if_neg hplus]
  rw [strtod, List.cons_append, List.dropWhile_cons, hspace]
  simp only [Bool.false_eq_true, if_false, hsign, hunsigned]

theorem extractJsonString_of_find {json key s rest : Bytes}
    (h : findJsonValue json key = some (quoted s ++ rest)) :
    extractJsonString json key = some (s.map clean) := by
  rw [quoted_append] at h
  rw [extractJsonString, h]
  show (if quote = quote then extractStringLoop (escapeJson s ++ quote :: rest) [] else none) = _
  rw [if_pos rfl]
  exact extractStringLoop_escapeJson s rest []

theorem extractJsonNumber_of_find {json key rest : Bytes} {n : ℕ} (hrest : EndsNumber rest)
    (h : findJsonValue json key = some (decimal n ++ rest)) :
    extractJsonNumber json key = some (.finite n) := by
  rw [extractJsonNumber, h]
  show (strtod (decimal n ++ rest)).map Prod.fst = _
  rw [strtod_decimal n hrest]
  rfl

/-! ### Brackets -/

/-- Text in which the brackets outside strings match. It may hold several pairs beside and inside
each other, and strings with any brackets. -/
inductive Closed (openChar closeChar : UInt8) : Bytes → Prop
  | nil : Closed openChar closeChar []
  | byte {c : UInt8} {u : Bytes} : c ≠ quote → c ≠ openChar → c ≠ closeChar →
      Closed openChar closeChar u → Closed openChar closeChar (c :: u)
  | string {s u : Bytes} : StringBody s → Closed openChar closeChar u →
      Closed openChar closeChar (quote :: (s ++ quote :: u))
  | nest {u v : Bytes} : Closed openChar closeChar u → Closed openChar closeChar v →
      Closed openChar closeChar (openChar :: (u ++ closeChar :: v))

/-- Two different brackets, neither of them a quote. That is all the loops need to know of them. -/
structure Brackets (openChar closeChar : UInt8) : Prop where
  open_ne : openChar ≠ quote
  close_ne : closeChar ≠ quote
  ne : closeChar ≠ openChar

theorem brackets_brace : Brackets openBrace closeBrace := ⟨by decide, by decide, by decide⟩

theorem brackets_bracket : Brackets openBracket closeBracket := ⟨by decide, by decide, by decide⟩

section Closed

variable {o c : UInt8} {u v s rest : Bytes}

theorem Closed.append (hu : Closed o c u) (hv : Closed o c v) : Closed o c (u ++ v) := by
  induction hu with
  | nil => exact hv
  | byte hq ho hc _ ih => exact .byte hq ho hc ih
  | string hs _ ih =>
    rw [List.cons_append, List.append_assoc, List.cons_append]
    exact .string hs ih
  | nest hu _ _ ih =>
    rw [List.cons_append, List.append_assoc, List.cons_append]
    exact .nest hu ih

theorem Closed.of_notMem (h : ∀ b ∈ u, b ≠ quote ∧ b ≠ o ∧ b ≠ c) : Closed o c u := by
  induction u with
  | nil => exact .nil
  | cons b u ih =>
    obtain ⟨hq, ho, hc⟩ := h b (List.mem_cons_self ..)
    exact .byte hq ho hc (ih fun x hx => h x (List.mem_cons_of_mem _ hx))

theorem Closed.quoted (s : Bytes) : Closed o c (Net.quoted s) :=
  Closed.string (stringBody_escapeJson s) .nil

theorem extractBalancedLoop_string (hs : StringBody s) (depth : ℤ) :
    extractBalancedLoop o c (s ++ quote :: rest) depth ⟨true, false⟩ =
      (extractBalancedLoop o c rest depth {}).map (s ++ quote :: ·) := by
  induction hs with
  | nil => simp [extractBalancedLoop, Quoting.inside, show quote ≠ backslash by decide]
  | byte hq hb _ ih =>
    simp [extractBalancedLoop, Quoting.inside, hq, hb, ih, Function.comp_def]
  | escape _ ih =>
    simp [extractBalancedLoop, Quoting.inside, ih, Function.comp_def]

/-- **Text whose brackets match is passed.** The loop is at the same depth behind it, which is why
it may not start at depth 0, where it would have ended. -/
theorem extractBalancedLoop_closed (hb : Brackets o c) (hu : Closed o c u) (rest : Bytes)
    {depth : ℤ} (hd : 1 ≤ depth) :
    extractBalancedLoop o c (u ++ rest) depth {} =
      (extractBalancedLoop o c rest depth {}).map (u ++ ·) := by
  induction hu generalizing depth rest with
  | nil => simp
  | byte hq ho hc _ ih =>
    rw [List.cons_append, extractBalancedLoop]
    simp [hq, ho, hc, ih rest hd, Function.comp_def]
  | string hs _ ih =>
    rw [List.cons_append, List.append_assoc, List.cons_append, extractBalancedLoop]
    simp [extractBalancedLoop_string hs, ih rest hd, Function.comp_def]
  | @nest u v _ _ ihu ihv =>
    have hdepth : depth + 1 - 1 = depth := by omega
    have hne : depth ≠ 0 := by omega
    have hopen : ∀ t, extractBalancedLoop o c (o :: t) depth {} =
        (extractBalancedLoop o c t (depth + 1) {}).map (o :: ·) := by
      intro t
      rw [extractBalancedLoop]
      simp [hb.open_ne]
    have hclose : ∀ t, extractBalancedLoop o c (c :: t) (depth + 1) {} =
        (extractBalancedLoop o c t depth {}).map (c :: ·) := by
      intro t
      rw [extractBalancedLoop]
      simp [hb.close_ne, hb.ne, hne]
    rw [List.cons_append, List.append_assoc, List.cons_append, hopen, ihu _ (by omega), hclose,
      ihv _ hd]
    simp [Function.comp_def]

theorem extractBalancedLoop_value (hb : Brackets o c) (hu : Closed o c u) (rest : Bytes) :
    extractBalancedLoop o c (o :: u ++ c :: rest) 0 {} = some (o :: u ++ [c]) := by
  rw [List.cons_append, extractBalancedLoop]
  simp only [Bool.false_eq_true, if_false, if_neg hb.open_ne, if_true]
  rw [extractBalancedLoop_closed hb hu _ (by omega), extractBalancedLoop]
  simp [hb.close_ne, hb.ne]

/-- **A bracketed value is cut out** at the bracket that closes it, if the key leads to it and its
brackets match outside of strings. -/
theorem extractBalancedValue_of_find {json key : Bytes} (hb : Brackets o c) (hu : Closed o c u)
    (hfind : findJsonValue json key = some (o :: (u ++ c :: rest))) :
    extractBalancedValue json key o c = some (o :: (u ++ [c])) := by
  rw [extractBalancedValue, hfind]
  show (if o = o then extractBalancedLoop o c (o :: (u ++ c :: rest)) 0 {} else none) = _
  rw [if_pos rfl]
  exact extractBalancedLoop_value hb hu rest

theorem splitObjectLoop_string (hs : StringBody s) (depth : ℤ) (object : Bytes) :
    splitObjectLoop (s ++ quote :: rest) depth ⟨true, false⟩ (some object) =
      splitObjectLoop rest depth {} (some (object ++ s ++ [quote])) := by
  induction hs generalizing object with
  | nil => simp [splitObjectLoop, Quoting.inside, show quote ≠ backslash by decide]
  | byte hq hb _ ih => simp [splitObjectLoop, Quoting.inside, hq, hb, ih]
  | escape _ ih => simp [splitObjectLoop, Quoting.inside, ih]

theorem splitObjectLoop_closed (hu : Closed openBrace closeBrace u) (rest object : Bytes)
    {depth : ℤ} (hd : 1 ≤ depth) :
    splitObjectLoop (u ++ rest) depth {} (some object) =
      splitObjectLoop rest depth {} (some (object ++ u)) := by
  induction hu generalizing depth rest object with
  | nil => simp
  | byte hq ho hc _ ih =>
    rw [List.cons_append, splitObjectLoop]
    simp [hq, ho, hc, ih rest _ hd]
  | string hs _ ih =>
    rw [List.cons_append, List.append_assoc, List.cons_append, splitObjectLoop]
    simp [splitObjectLoop_string hs, ih rest _ hd]
  | @nest u v _ _ ihu ihv =>
    have hne : depth ≠ 0 := by omega
    have hopen : ∀ t object, splitObjectLoop (openBrace :: t) depth {} (some object) =
        splitObjectLoop t (depth + 1) {} (some (object ++ [openBrace])) := by
      intro t object
      rw [splitObjectLoop]
      simp [brackets_brace.open_ne, hne]
    have hclose : ∀ t object, splitObjectLoop (closeBrace :: t) (depth + 1) {} (some object) =
        splitObjectLoop t depth {} (some (object ++ [closeBrace])) := by
      intro t object
      rw [splitObjectLoop]
      simp [brackets_brace.close_ne, brackets_brace.ne, hne]
    rw [List.cons_append, List.append_assoc, List.cons_append, hopen, ihu _ _ (by omega), hclose,
      ihv _ _ hd]
    simp

/-- **One object of an array** is cut out, and the loop goes on behind it as if it were at the
beginning. -/
theorem splitObjectLoop_object (hu : Closed openBrace closeBrace u) (rest : Bytes) :
    splitObjectLoop (openBrace :: u ++ closeBrace :: rest) 0 {} none =
      (openBrace :: u ++ [closeBrace]) :: splitObjectLoop rest 0 {} none := by
  rw [List.cons_append, splitObjectLoop]
  simp only [Bool.false_eq_true, if_false, if_neg brackets_brace.open_ne, if_true]
  rw [splitObjectLoop_closed hu _ _ (by omega), splitObjectLoop]
  simp [brackets_brace.close_ne, brackets_brace.ne]

theorem splitObjectLoop_byte {b : UInt8} (hq : b ≠ quote) (ho : b ≠ openBrace)
    (hc : b ≠ closeBrace) (rest : Bytes) :
    splitObjectLoop (b :: rest) 0 {} none = splitObjectLoop rest 0 {} none := by
  rw [splitObjectLoop]
  simp [hq, ho, hc]

end Closed

/-! ### Keys -/

/-- Letters only and at least one, as the member names of the protocol are. A word is found only
where it stands between quotes. -/
def Word (key : Bytes) : Prop := key ≠ [] ∧ ∀ c ∈ key, isalpha c = true

instance (key : Bytes) : Decidable (Word key) :=
  @instDecidableAnd _ _ inferInstance (List.decidableBAll _ key)

/-- The text does not go on with a letter, so a word that ends in front of it ends there. -/
def Stops (text : Bytes) : Prop := ∀ c ∈ text.head?, isalpha c = false

/-- The string `s` hides the key: it is the key, or ends in a quote followed by the key. Then the
search for the key in quotes stops at the string. -/
def Shadows (s key : Bytes) : Prop := s = key ∨ quote :: key <:+ s

instance (s key : Bytes) : Decidable (Shadows s key) := inferInstanceAs (Decidable (_ ∨ _))

theorem Shadows.refl (key : Bytes) : Shadows key key := Or.inl rfl

theorem shadows_of_quote_notMem {s key : Bytes} (h : quote ∉ s) : Shadows s key ↔ s = key := by
  refine or_iff_left ?_
  rintro ⟨u, rfl⟩
  exact h (List.mem_append_right _ (List.mem_cons_self ..))

/-- What follows the first occurrence of the quoted key. It may be a name, or a string that is a
value, or stand inside of one. -/
def afterKey (key text : Bytes) : Option Bytes :=
  (Search.find (quote :: (key ++ [quote])) text).map (·.drop (key.length + 2))

theorem findJsonValue_eq (json key : Bytes) :
    findJsonValue json key = (afterKey key json).bind fun text =>
      (Search.find [colon] text).map fun text => skipWhitespace (text.drop 1) := by
  rw [findJsonValue, afterKey]
  cases Search.find (quote :: (key ++ [quote])) json with
  | none => rfl
  | some text =>
    have hlen : (quote :: (key ++ [quote])).length = key.length + 2 := by simp
    show (Search.find [colon] (text.drop (quote :: (key ++ [quote])).length)).bind _ = _
    rw [hlen]
    cases hcolon : Search.find [colon] (text.drop (key.length + 2)) with
    | none => simp [hcolon]
    | some text' => simp [hcolon]

theorem afterKey_append {key u : Bytes} (h : quote ∉ u) (text : Bytes) :
    afterKey key (u ++ text) = afterKey key text := by
  rw [afterKey, Search.find_append_of_skips (Search.skips_of_head_notMem h)]
  rfl

theorem afterKey_cons {key : Bytes} {c : UInt8} (h : c ≠ quote) (text : Bytes) :
    afterKey key (c :: text) = afterKey key text :=
  afterKey_append (u := [c]) (by simpa using h.symm) text

/-- At a quote, the key is either right there or further on. The quote itself is part of what is
looked for. -/
theorem afterKey_quote (key text : Bytes) :
    afterKey key (quote :: text) =
      if key ++ [quote] <+: text then some (text.drop (key.length + 1)) else afterKey key text := by
  rw [afterKey, Search.find]
  by_cases h : key ++ [quote] <+: text
  · rw [if_pos h, if_pos (List.cons_prefix_cons.mpr ⟨rfl, h⟩)]
    rfl
  · rw [if_neg h, if_neg fun hpre => h (List.cons_prefix_cons.mp hpre).2]
    rfl

section Keys

variable {key : Bytes}

theorem ne_of_isalpha : ∀ c : UInt8, isalpha c = true → c ≠ quote ∧ c ≠ backslash :=
  forall_byte (by decide +kernel)

theorem escapeByte_of_isalpha : ∀ c : UInt8, isalpha c = true → escapeByte c = [c] :=
  forall_byte (by decide +kernel)

theorem clean_of_isalpha : ∀ c : UInt8, isalpha (clean c) = true → clean c = c :=
  forall_byte (by decide +kernel)

theorem quote_notMem_escapeByte : ∀ c : UInt8, c ≠ quote → quote ∉ escapeByte c :=
  forall_byte (by decide +kernel)

theorem escapeJson_of_isalpha (h : ∀ c ∈ key, isalpha c = true) : escapeJson key = key := by
  induction key with
  | nil => rfl
  | cons c key ih =>
    rw [escapeJson_cons, escapeByte_of_isalpha c (h c (List.mem_cons_self ..)),
      ih fun d hd => h d (List.mem_cons_of_mem _ hd), List.singleton_append]

/-- Only the key itself is written as the key. The key consists of letters, which `escapeJson`
leaves as they are. -/
theorem prefix_escapeJson (hkey : ∀ c ∈ key, isalpha c = true) (s text : Bytes) :
    key ++ [quote] <+: escapeJson s ++ quote :: text ↔ s = key := by
  induction s generalizing key with
  | nil =>
    cases key with
    | nil => simp [escapeJson]
    | cons k key =>
      have hk := (ne_of_isalpha k (hkey k (List.mem_cons_self ..))).1
      simp [escapeJson, hk]
  | cons c s ih =>
    rw [escapeJson_cons]
    cases key with
    | nil =>
      rcases escapeByte_cases c with ⟨e, -, he, -⟩ | ⟨he, -, hq, -⟩
      · simp [he, show quote ≠ backslash by decide]
      · simp [he, hq.symm]
    | cons k key =>
      have hk := hkey k (List.mem_cons_self ..)
      by_cases hc : c = k
      · subst hc
        rw [escapeByte_of_isalpha c hk]
        simp [ih fun d hd => hkey d (List.mem_cons_of_mem _ hd)]
      · rcases escapeByte_cases c with ⟨e, -, he, -⟩ | ⟨he, -, -, -⟩
        · simp [he, (ne_of_isalpha k hk).2, hc]
        · have hne : k ≠ clean c := by
            rintro rfl
            exact hc (clean_of_isalpha c hk).symm
          simp [he, hne, hc]

/-- **A key inside a string.** A written string holds no bare quote but the one that ends it, so
the quoted key occurs in it only where the string ends in a quote and the key, the quote being
escaped. -/
theorem afterKey_escapeJson (hkey : Word key) (s : Bytes) {text : Bytes} (ht : Stops text) :
    afterKey key (escapeJson s ++ quote :: text) =
      if quote :: key <:+ s then some text else afterKey key text := by
  induction s with
  | nil =>
    have hnot : ¬ key ++ [quote] <+: text := by
      obtain ⟨hne, hall⟩ := hkey
      obtain ⟨k, key, rfl⟩ := List.exists_cons_of_ne_nil hne
      rintro ⟨t, rfl⟩
      have hk := ht k rfl
      rw [hall k (List.mem_cons_self ..)] at hk
      cases hk
    show afterKey key (quote :: text) = _
    rw [afterKey_quote, if_neg hnot, if_neg (by simp)]
  | cons c s ih =>
    rw [escapeJson_cons]
    by_cases hc : c = quote
    · subst hc
      show afterKey key (backslash :: quote :: (escapeJson s ++ quote :: text)) = _
      rw [afterKey_cons (by decide), afterKey_quote, ih]
      simp only [prefix_escapeJson hkey.2, List.suffix_cons_iff, List.cons.injEq, true_and]
      by_cases hs : s = key
      · subst hs
        rw [if_pos rfl, if_pos (.inl rfl), escapeJson_of_isalpha hkey.2]
        simp
      · have hs' : ¬ key = s := fun h => hs h.symm
        simp only [hs, hs', if_false, false_or]
    · rw [List.append_assoc, afterKey_append (quote_notMem_escapeByte c hc), ih]
      have hne : ¬ quote = c := fun h => hc h.symm
      simp only [List.suffix_cons_iff, List.cons.injEq, hne, false_and, false_or]

/-- **A key and a string.** A string that hides the key ends the search, and any other is passed. -/
theorem afterKey_quoted (hkey : Word key) (s : Bytes) {text : Bytes} (ht : Stops text) :
    afterKey key (quoted s ++ text) = if Shadows s key then some text else afterKey key text := by
  rw [quoted_append, afterKey_quote, afterKey_escapeJson hkey s ht]
  simp only [prefix_escapeJson hkey.2]
  by_cases hs : s = key
  · have hshadow : Shadows s key := Or.inl hs
    rw [if_pos hs, if_pos hshadow, hs, escapeJson_of_isalpha hkey.2]
    simp
  · have hiff : Shadows s key ↔ quote :: key <:+ s := or_iff_right hs
    simp only [hs, if_false, hiff]

end Keys

/-! ### Members of an object -/

/-- A value without members: a string as it is before it is written, or text that holds no quote and
no colon, such as a number or a list of them. -/
inductive Value
  | string (s : Bytes)
  | plain (u : Bytes)

namespace Value

def text : Value → Bytes
  | string s => quoted s
  | plain u => u

/-- The value hides the key. -/
def Hides (key : Bytes) : Value → Prop
  | string s => Shadows s key
  | plain _ => False

instance (key : Bytes) : (v : Value) → Decidable (v.Hides key)
  | string s => inferInstanceAs (Decidable (Shadows s key))
  | plain _ => inferInstanceAs (Decidable False)

/-- The text can be told apart from what surrounds it. A string can; a plain text has no quote or
colon, and begins with something that is not a blank. -/
def Sound : Value → Prop
  | string _ => True
  | plain u => (∀ c ∈ u, c ≠ quote ∧ c ≠ colon) ∧ ∃ c u', u = c :: u' ∧ isspace c = false

theorem sound_string (s : Bytes) : (string s).Sound := trivial

end Value

/-- A member of an object: its name and its value. -/
abbrev Field := Bytes × Value

/-- Members as they are written behind the first one, up to the rest of the text. Each has a comma
in front, so that none is special. -/
def fields : List Field → Bytes → Bytes
  | [], rest => rest
  | (name, value) :: ms, rest =>
    comma :: (quoted name ++ colon :: (value.text ++ fields ms rest))

/-- The members a search for the key leads to. The value that is read is the first one's. A hidden
key leads to the member behind the one whose value hides it. -/
def readAt (key : Bytes) : List Field → Option (List Field)
  | [] => none
  | (name, value) :: ms =>
    if name = key then some ((name, value) :: ms)
    else if value.Hides key then some ms
    else readAt key ms

/-- Names are words and values are sound, for every member. This is what the key search
relies on. -/
def SoundFields (ms : List Field) : Prop := ∀ m ∈ ms, Word m.1 ∧ m.2.Sound

section Fields

variable {key rest : Bytes} {ms : List Field}

theorem stops_fields (hrest : Stops rest) (ms : List Field) : Stops (fields ms rest) := by
  cases ms with
  | nil => exact hrest
  | cons m ms =>
    intro c hc
    cases hc
    decide

theorem endsNumber_members (hrest : EndsNumber rest) (ms : List Field) :
    EndsNumber (fields ms rest) := by
  cases ms with
  | nil => exact hrest
  | cons m ms =>
    intro c hc
    cases hc
    decide

theorem stops_colon (text : Bytes) : Stops (colon :: text) := by
  intro c hc
  cases hc
  decide

theorem Word.quote_notMem (h : Word key) : quote ∉ key := by
  intro hmem
  exact absurd (h.2 _ hmem) (by decide)

theorem quoted_of_word (h : Word key) : quoted key = quote :: (key ++ [quote]) := by
  rw [quoted, escapeJson_of_isalpha h.2]
  rfl

theorem colon_notMem_quoted (h : Word key) : colon ∉ quoted key := by
  rw [quoted_of_word h]
  intro hmem
  simp only [List.mem_cons, List.mem_append, List.not_mem_nil, or_false] at hmem
  rcases hmem with hc | hc | hc
  · exact absurd hc (by decide)
  · exact absurd (h.2 _ hc) (by decide)
  · exact absurd hc (by decide)

theorem skipWhitespace_of_head {text : Bytes} (h : ∀ d ∈ text.head?, isspace d = false) :
    skipWhitespace text = text := by
  cases text with
  | nil => rfl
  | cons d text =>
    rw [skipWhitespace, List.dropWhile_cons, h d rfl]
    rfl

theorem Value.Sound.head {value : Value} (h : value.Sound) (rest : Bytes) :
    ∀ d ∈ (value.text ++ rest).head?, isspace d = false := by
  intro d hd
  cases value with
  | string s =>
    cases hd
    rfl
  | plain u =>
    obtain ⟨-, c, u', rfl, hc⟩ := h
    cases hd
    exact hc

theorem afterKey_value (hkey : Word key) {value : Value} (hvalue : value.Sound)
    (hrest : Stops rest) :
    afterKey key (value.text ++ rest) =
      if value.Hides key then some rest else afterKey key rest := by
  cases value with
  | string s => exact afterKey_quoted hkey s hrest
  | plain u =>
    have hquote : quote ∉ u := fun h => (hvalue.1 _ h).1 rfl
    exact afterKey_append hquote rest

/-- The value that follows a member's name, when the search for a colon begins in front of the name.
A name is a word, so it has no colon in it. -/
theorem findColon_member {name : Bytes} (hname : Word name) {value : Bytes}
    (hvalue : ∀ d ∈ value.head?, isspace d = false) :
    ((Search.find [colon] (comma :: (quoted name ++ colon :: value))).map fun text =>
      skipWhitespace (text.drop 1)) = some value := by
  have hsplit : comma :: (quoted name ++ colon :: value) =
      (comma :: quoted name) ++ colon :: value := rfl
  have hcolon : colon ∉ comma :: quoted name := by
    intro h
    rcases List.mem_cons.mp h with h | h
    · exact absurd h (by decide)
    · exact colon_notMem_quoted hname h
  rw [hsplit, Search.find_singleton hcolon]
  show some (skipWhitespace value) = some value
  rw [skipWhitespace_of_head hvalue]

theorem afterKey_fields (hkey : Word key) {name : Bytes} (hname : Word name) {value : Value}
    (hvalue : value.Sound) (hrest : Stops rest) (ms : List Field) :
    afterKey key (fields ((name, value) :: ms) rest) =
      if name = key then some (colon :: (value.text ++ fields ms rest))
      else if value.Hides key then some (fields ms rest)
      else afterKey key (fields ms rest) := by
  have hstops := stops_fields hrest ms
  rw [fields, afterKey_cons (by decide), afterKey_quoted hkey name (stops_colon _),
    afterKey_cons (by decide), afterKey_value hkey hvalue hstops]
  simp only [shadows_of_quote_notMem hname.quote_notMem]

/-- The first member is the one that is looked for, or hides the key, or is passed. If it hides the
key, the search takes the next colon, which is that of the member behind it. -/
theorem findJsonValue_fields_cons (hkey : Word key) {name : Bytes} (hname : Word name)
    {value : Value} (hvalue : value.Sound) (hrest : Stops rest) (ms : List Field) :
    findJsonValue (fields ((name, value) :: ms) rest) key =
      if name = key then some (value.text ++ fields ms rest)
      else if value.Hides key then
        (Search.find [colon] (fields ms rest)).map fun text => skipWhitespace (text.drop 1)
      else findJsonValue (fields ms rest) key := by
  rw [findJsonValue_eq, afterKey_fields hkey hname hvalue hrest]
  split_ifs with hk hv
  · exact congrArg some (skipWhitespace_of_head (hvalue.head _))
  · rfl
  · exact (findJsonValue_eq _ _).symm

/-- **The member a key leads to**, as `readAt` says: the first that has the key as its name, or the
one behind the first whose value hides it. From there on the text goes on as it was written. -/
theorem findJsonValue_fields (hkey : Word key) (hms : SoundFields ms) (hrest : Stops rest)
    {m : Field} {ms' : List Field} (h : readAt key ms = some (m :: ms')) :
    findJsonValue (fields ms rest) key = some (m.2.text ++ fields ms' rest) := by
  induction ms with
  | nil => cases h
  | cons m₀ ms ih =>
    obtain ⟨name, value⟩ := m₀
    obtain ⟨hname, hvalue⟩ := hms _ (List.mem_cons_self ..)
    have htail : SoundFields ms := fun x hx => hms x (List.mem_cons_of_mem _ hx)
    rw [findJsonValue_fields_cons hkey hname hvalue hrest]
    rw [readAt] at h
    split_ifs at h ⊢ with hk hv
    · cases h
      rfl
    · cases h
      obtain ⟨hname', hvalue'⟩ := htail _ (List.mem_cons_self ..)
      exact findColon_member hname' (hvalue'.head _)
    · exact ih htail h

theorem findJsonValue_fields_none (hkey : Word key) (hms : SoundFields ms) (hrest : Stops rest)
    (h : readAt key ms = none) :
    findJsonValue (fields ms rest) key = findJsonValue rest key := by
  induction ms with
  | nil => rfl
  | cons m₀ ms ih =>
    obtain ⟨name, value⟩ := m₀
    obtain ⟨hname, hvalue⟩ := hms _ (List.mem_cons_self ..)
    have htail : SoundFields ms := fun x hx => hms x (List.mem_cons_of_mem _ hx)
    rw [findJsonValue_fields_cons hkey hname hvalue hrest]
    rw [readAt] at h
    split_ifs at h ⊢ with hk hv
    exact ih htail h

/-- The rest of the text begins with the member that is looked for, behind a byte that is no quote.
Its value begins with something that is not a blank. -/
theorem findJsonValue_member (hkey : Word key) {c : UInt8} (hc : c ≠ quote) {value : Bytes}
    (hvalue : ∀ d ∈ value.head?, isspace d = false) :
    findJsonValue (c :: (quoted key ++ colon :: value)) key = some value := by
  rw [findJsonValue_eq, afterKey_cons hc, afterKey_quoted hkey key (stops_colon _),
    if_pos (Shadows.refl key)]
  exact congrArg some (skipWhitespace_of_head hvalue)

/-- What comes before the first member's name does not matter. -/
theorem findJsonValue_cons {c d : UInt8} (hc : c ≠ quote) (hd : d ≠ quote) (text : Bytes) :
    findJsonValue (c :: text) key = findJsonValue (d :: text) key := by
  rw [findJsonValue_eq, findJsonValue_eq, afterKey_cons hc, afterKey_cons hd]

end Fields

end Net

end TarkovVoice

import TarkovVoice.Net.JsonText
import TarkovVoice.JsonSyntax

/-!
# The scanners on any JSON

`extractBalancedValue` and `splitObjectArray` count one kind of bracket and follow strings with two
flags. `JsonText` shows that they pass over text whose brackets match outside of strings, `Closed`.
Here every text of a JSON value is such text, for either pair of brackets: by induction on the
value, whose own brackets are a pair of the kind that is counted, or bytes like any other. So the
scanners cut out what a parser would, whoever wrote the text.

Strings are no exception: what `escapeJson` wrote is read back by both decoders, also
by the one behind the scanner.

## Main definitions

* `FirstMember` — where a key is first found, and the text of its value

## Main results

* `FirstMember.findJsonValue_eq` — the key leads to the text of its value
* `closed_of_isValue` — the brackets of a value match
* `scanners_exact` — objects and arrays are cut out as they are written
* `escapeJson_undone` — escaped strings are read back
-/

namespace TarkovVoice

namespace Net

open JsonGrammar (IsChars Blank Listed Enclosed Member IsValue IsArray IsObject)

/-! ### Where a key is found -/

/-- `quote key quote` occurs in `json` for the first time as a name, with a colon behind it and
`text` behind the colon. White space may stand before and behind the colon. -/
inductive FirstMember (key : Bytes) : Bytes → Bytes → Prop
  | mk {skipped before behind text : Bytes} :
      (∀ c ∈ before, isspace c = true) → (∀ c ∈ behind, isspace c = true) →
      Search.Skips (quote :: (key ++ [quote])) skipped
        (quote :: (key ++ quote :: (before ++ colon :: (behind ++ text)))) →
      FirstMember key
        (skipped ++ quote :: (key ++ quote :: (before ++ colon :: (behind ++ text)))) text

theorem FirstMember.findJsonValue_eq {key json text : Bytes} (h : FirstMember key json text)
    (htext : ∀ c ∈ text.head?, isspace c = false) : findJsonValue json key = some text := by
  obtain @⟨skipped, before, behind, text, hbefore, hbehind, hskips⟩ := h
  have hkey : Search.find (quote :: (key ++ [quote]))
      (skipped ++ quote :: (key ++ quote :: (before ++ colon :: (behind ++ text)))) =
        some (quote :: (key ++ quote :: (before ++ colon :: (behind ++ text)))) := by
    refine Search.find_eq_some_iff.mpr ⟨skipped, rfl, ?_, hskips⟩
    exact ⟨before ++ colon :: (behind ++ text), by simp⟩
  have hdrop : (quote :: (key ++ quote :: (before ++ colon :: (behind ++ text)))).drop
      (quote :: (key ++ [quote])).length = before ++ colon :: (behind ++ text) := by
    have hsplit : quote :: (key ++ quote :: (before ++ colon :: (behind ++ text))) =
        (quote :: (key ++ [quote])) ++ (before ++ colon :: (behind ++ text)) := by simp
    rw [hsplit, List.drop_left]
  have hcolon : Search.find [colon] (before ++ colon :: (behind ++ text)) =
      some (colon :: (behind ++ text)) := by
    refine Search.find_singleton fun hmem => ?_
    exact absurd (hbefore colon hmem) (by decide)
  have hskip : skipWhitespace (behind ++ text) = text := by
    rw [skipWhitespace, List.dropWhile_append_of_pos hbehind]
    cases text with
    | nil => rfl
    | cons c text => rw [List.dropWhile_cons, htext c rfl, if_neg Bool.false_ne_true]
  rw [findJsonValue]
  simp only [hkey, Option.bind_eq_bind, Option.bind_some, hdrop, hcolon]
  exact congrArg some hskip

/-! ### The brackets of a value match -/

/-- The two pairs of brackets that JSON has, and that the scanners are called with. -/
inductive IsPair : UInt8 → UInt8 → Prop
  | brace : IsPair openBrace closeBrace
  | bracket : IsPair openBracket closeBracket

theorem IsPair.brackets {o c : UInt8} (h : IsPair o c) : Brackets o c := by
  cases h with
  | brace => exact brackets_brace
  | bracket => exact brackets_bracket

/-- A byte that means nothing to the scanners outside of a string. -/
def isPlain (b : UInt8) : Bool :=
  b != quote && b != openBrace && b != closeBrace && b != openBracket && b != closeBracket

theorem isPlain_of_isSpace : ∀ b : UInt8, JsonGrammar.isSpace b = true → isPlain b = true :=
  forall_byte (by decide +kernel)

theorem isPlain_of_isNumeric : ∀ b : UInt8, JsonGrammar.isNumeric b = true → isPlain b = true :=
  forall_byte (by decide +kernel)

theorem ne_of_isHexDigit : ∀ b : UInt8, JsonGrammar.isHexDigit b = true →
    b ≠ quote ∧ b ≠ backslash :=
  forall_byte (by decide +kernel)

theorem stringBody_of_isChars {s : Bytes} (h : IsChars s) : StringBody s := by
  induction h with
  | nil => exact .nil
  | plain _ hq hb _ ih => exact .byte hq hb ih
  | escape _ _ ih => exact .escape ih
  | unicode h₀ h₁ h₂ h₃ _ ih =>
    have hdigit : ∀ {d : UInt8} {s : Bytes}, JsonGrammar.isHexDigit d = true → StringBody s →
        StringBody (d :: s) := fun {d} {s} hd hs =>
      .byte (ne_of_isHexDigit d hd).1 (ne_of_isHexDigit d hd).2 hs
    exact .escape (hdigit h₀ (hdigit h₁ (hdigit h₂ (hdigit h₃ ih))))

section Match

variable {o c : UInt8} (hp : IsPair o c)

include hp

theorem closed_of_isPlain {u : Bytes} (h : ∀ b ∈ u, isPlain b = true) : Closed o c u := by
  refine Closed.of_notMem fun b hb => ?_
  have hplain := h b hb
  simp only [isPlain, Bool.and_eq_true, bne_iff_ne] at hplain
  obtain ⟨⟨⟨⟨hquote, hbrace⟩, hbrace'⟩, hbracket⟩, hbracket'⟩ := hplain
  cases hp with
  | brace => exact ⟨hquote, hbrace, hbrace'⟩
  | bracket => exact ⟨hquote, hbracket, hbracket'⟩

theorem closed_of_blank {u : Bytes} (h : Blank u) : Closed o c u :=
  closed_of_isPlain hp fun b hb => isPlain_of_isSpace b (h b hb)

theorem closed_cons {b : UInt8} (hb : isPlain b = true) {u : Bytes} (hu : Closed o c u) :
    Closed o c (b :: u) :=
  (closed_of_isPlain hp (List.forall_mem_singleton.mpr hb)).append hu

theorem closed_of_listed {ts : List Bytes} {u : Bytes} (h : Listed ts u)
    (hts : ∀ t ∈ ts, Closed o c t) : Closed o c u := by
  induction h with
  | last ha hb =>
    exact (closed_of_blank hp ha).append
      ((hts _ List.mem_cons_self).append (closed_of_blank hp hb))
  | more ha hb _ ih =>
    obtain ⟨ht, hts⟩ := List.forall_mem_cons.mp hts
    exact (closed_of_blank hp ha).append
      (ht.append ((closed_of_blank hp hb).append (closed_cons hp rfl (ih hts))))

/-- What stands between the brackets. If the brackets of the texts match, so do those of all that is
between, blanks and commas included. -/
theorem exists_of_enclosed {o' c' : UInt8} {ts : List Bytes} {t : Bytes}
    (h : Enclosed o' c' ts t) (hts : ∀ t ∈ ts, Closed o c t) :
    ∃ u, t = o' :: (u ++ [c']) ∧ Closed o c u := by
  cases h with
  | empty hu => exact ⟨_, rfl, closed_of_blank hp hu⟩
  | listed hu => exact ⟨_, rfl, closed_of_listed hp hu hts⟩

/-- Brackets of the kind that is counted are a pair, the others are plain. Either way the whole is
matched when its parts are. -/
theorem closed_of_enclosed {o' c' : UInt8} (hp' : IsPair o' c') {ts : List Bytes} {t : Bytes}
    (h : Enclosed o' c' ts t) (hts : ∀ t ∈ ts, Closed o c t) : Closed o c t := by
  obtain ⟨u, rfl, hu⟩ := exists_of_enclosed hp h hts
  cases hp with
  | brace =>
    cases hp' with
    | brace => exact .nest hu .nil
    | bracket =>
      exact .byte (by decide) (by decide) (by decide)
        (hu.append (.byte (by decide) (by decide) (by decide) .nil))
  | bracket =>
    cases hp' with
    | bracket => exact .nest hu .nil
    | brace =>
      exact .byte (by decide) (by decide) (by decide)
        (hu.append (.byte (by decide) (by decide) (by decide) .nil))

theorem closed_of_member (m : Member) (h : Closed o c m.value) : Closed o c m.text :=
  .string (stringBody_of_isChars m.isChars) ((closed_of_blank hp m.blank_before).append
    (closed_cons hp rfl ((closed_of_blank hp m.blank_behind).append h)))

/-- **The brackets of a value match**, those of either kind, outside of strings. The induction is on
the text of the value as the grammar builds it. -/
theorem closed_of_isValue {t : Bytes} (h : IsValue t) : Closed o c t := by
  induction h with
  | null => exact closed_of_isPlain hp (List.all_eq_true.mp rfl)
  | true => exact closed_of_isPlain hp (List.all_eq_true.mp rfl)
  | false => exact closed_of_isPlain hp (List.all_eq_true.mp rfl)
  | number hu => exact closed_of_isPlain hp fun b hb => isPlain_of_isNumeric b (hu.numeric b hb)
  | string hs => exact .string (stringBody_of_isChars hs) .nil
  | array henclosed _ ih => exact closed_of_enclosed hp .bracket henclosed ih
  | object henclosed _ ih =>
    refine closed_of_enclosed hp .brace henclosed ?_
    exact List.forall_mem_map.mpr fun m hm => closed_of_member hp m (ih m hm)

theorem closed_of_members {ms : List Member} (h : ∀ m ∈ ms, IsValue m.value) :
    ∀ t ∈ ms.map Member.text, Closed o c t :=
  List.forall_mem_map.mpr fun m hm => closed_of_member hp m (closed_of_isValue hp (h m hm))

end Match

/-! ### Values are cut out -/

theorem extractBalancedValue_of_firstMember {o c : UInt8} (hp : IsPair o c)
    {key json u rest : Bytes} (hu : Closed o c u)
    (h : FirstMember key json (o :: (u ++ c :: rest))) :
    extractBalancedValue json key o c = some (o :: (u ++ [c])) := by
  refine extractBalancedValue_of_find hp.brackets hu (h.findJsonValue_eq ?_)
  rintro b ⟨⟩
  cases hp <;> rfl

/-- A value with brackets around the texts `ts`. -/
theorem extractBalancedValue_of_enclosed {o c : UInt8} (hp : IsPair o c) {ts : List Bytes}
    {key json v rest : Bytes} (henclosed : Enclosed o c ts v) (hts : ∀ t ∈ ts, Closed o c t)
    (h : FirstMember key json (v ++ rest)) : extractBalancedValue json key o c = some v := by
  obtain ⟨u, rfl, hu⟩ := exists_of_enclosed hp henclosed hts
  rw [List.cons_append, List.append_assoc, List.singleton_append] at h
  exact extractBalancedValue_of_firstMember hp hu h

theorem exists_of_isObject {v : Bytes} (h : IsObject v) :
    ∃ u, v = openBrace :: (u ++ [closeBrace]) ∧ Closed openBrace closeBrace u := by
  obtain ⟨ms, henclosed, hvalues⟩ := h
  exact exists_of_enclosed .brace henclosed (closed_of_members .brace hvalues)

theorem splitObjectLoop_plain {u : Bytes} (h : ∀ b ∈ u, isPlain b = true) (rest : Bytes) :
    splitObjectLoop (u ++ rest) 0 {} none = splitObjectLoop rest 0 {} none := by
  induction u with
  | nil => rfl
  | cons b u ih =>
    obtain ⟨hb, hu⟩ := List.forall_mem_cons.mp h
    simp only [isPlain, Bool.and_eq_true, bne_iff_ne] at hb
    rw [List.cons_append, splitObjectLoop_byte hb.1.1.1.1 hb.1.1.1.2 hb.1.1.2, ih hu]

/-- The objects of a list, one after the other, each cut out as it is written. Blanks and commas
between them are dropped. -/
theorem splitObjectLoop_listed {items : List Bytes} {u : Bytes} (h : Listed items u)
    (hitems : ∀ t ∈ items, IsObject t) (rest : Bytes) :
    splitObjectLoop (u ++ rest) 0 {} none = items ++ splitObjectLoop rest 0 {} none := by
  have hblank : ∀ {a : Bytes}, Blank a → ∀ rest,
      splitObjectLoop (a ++ rest) 0 {} none = splitObjectLoop rest 0 {} none := fun ha =>
    splitObjectLoop_plain fun b hb => isPlain_of_isSpace b (ha b hb)
  have hobject : ∀ {t : Bytes}, IsObject t → ∀ rest,
      splitObjectLoop (t ++ rest) 0 {} none = t :: splitObjectLoop rest 0 {} none := by
    intro t ht rest
    obtain ⟨v, rfl, hv⟩ := exists_of_isObject ht
    have hloop := splitObjectLoop_object hv rest
    rwa [← List.singleton_append (l := rest), ← List.append_assoc, List.cons_append] at hloop
  induction h with
  | last ha hb =>
    rw [List.append_assoc, List.append_assoc, hblank ha, hobject (hitems _ List.mem_cons_self),
      hblank hb]
    rfl
  | @more a t b u items ha hb _ ih =>
    obtain ⟨ht, hitems⟩ := List.forall_mem_cons.mp hitems
    have hcomma : splitObjectLoop (JsonGrammar.comma :: (u ++ rest)) 0 {} none =
        splitObjectLoop (u ++ rest) 0 {} none :=
      splitObjectLoop_byte (by decide) (by decide) (by decide) (u ++ rest)
    rw [List.append_assoc, List.append_assoc, List.append_assoc, List.cons_append, hblank ha,
      hobject ht, hblank hb, hcomma, ih hitems, List.cons_append]

/-- **The objects of an array.** -/
theorem splitObjectArray_of_enclosed {items : List Bytes} {text : Bytes}
    (h : Enclosed openBracket closeBracket items text) (hitems : ∀ t ∈ items, IsObject t) :
    splitObjectArray text = items := by
  have hopen : ∀ u, splitObjectLoop (openBracket :: u) 0 {} none = splitObjectLoop u 0 {} none :=
    splitObjectLoop_byte (by decide) (by decide) (by decide)
  cases h with
  | empty hu =>
    rw [splitObjectArray, hopen, splitObjectLoop_plain fun b hb => isPlain_of_isSpace b (hu b hb)]
    rfl
  | listed hu =>
    rw [splitObjectArray, hopen, splitObjectLoop_listed hu hitems]
    exact List.append_nil _

/-- **The scanners are exact on JSON.** For every text of an object or an array, of any depth and
with any strings in it, whatever follows: the value of a key is cut out as it is written, if the key
is first found as the name of a member. And an array of objects is split into them, as they are
written. -/
theorem scanners_exact :
    (∀ key json v rest, IsObject v → FirstMember key json (v ++ rest) →
      extractBalancedValue json key openBrace closeBrace = some v) ∧
    (∀ key json v rest, IsArray v → FirstMember key json (v ++ rest) →
      extractBalancedValue json key openBracket closeBracket = some v) ∧
    ∀ items text, Enclosed openBracket closeBracket items text → (∀ t ∈ items, IsObject t) →
      splitObjectArray text = items := by
  refine ⟨fun key json v rest hv h => ?_, fun key json v rest hv h => ?_,
    fun items text => splitObjectArray_of_enclosed⟩
  · obtain ⟨ms, henclosed, hvalues⟩ := hv
    exact extractBalancedValue_of_enclosed .brace henclosed (closed_of_members .brace hvalues) h
  · obtain ⟨ts, henclosed, hvalues⟩ := hv
    exact extractBalancedValue_of_enclosed .bracket henclosed
      (fun t ht => closed_of_isValue .bracket (hvalues t ht)) h

/-- The member `"s": "}\u0022"`: a bracket and an escaped quote inside a string. -/
def trickyMember : Member where
  name := [115]
  before := []
  behind := [32]
  value := [quote, closeBrace, backslash, 117, 48, 48, 50, 50, quote]
  isChars := .plain (by decide) (by decide) (by decide) .nil
  blank_before := List.forall_mem_nil _
  blank_behind := List.forall_mem_singleton.mpr rfl

/-- An object with that member. -/
def trickyObject : Bytes := openBrace :: (trickyMember.text ++ [closeBrace])

theorem isObject_trickyObject : IsObject trickyObject := by
  have hblank : Blank [] := List.forall_mem_nil _
  have hlisted : Listed [trickyMember.text] ([] ++ (trickyMember.text ++ [])) :=
    .last hblank hblank
  rw [List.append_nil, List.nil_append] at hlisted
  refine ⟨[trickyMember], .listed hlisted, List.forall_mem_singleton.mpr ?_⟩
  exact @IsValue.string [closeBrace, backslash, 117, 48, 48, 50, 50]
    (.plain (by decide) (by decide) (by decide) (.unicode rfl rfl rfl rfl .nil))

/-- The array of that object and an empty one, with blanks. -/
def trickyArray : Bytes :=
  openBracket :: ([32] ++ (trickyObject ++ ([] ++ comma ::
    ([32] ++ ([openBrace, closeBrace] ++ [])))) ++ [closeBracket])

theorem enclosed_trickyArray :
    Enclosed openBracket closeBracket [trickyObject, [openBrace, closeBrace]] trickyArray := by
  have hblank : Blank [] := List.forall_mem_nil _
  have hspace : Blank [32] := List.forall_mem_singleton.mpr rfl
  exact .listed (.more hspace hblank (.last hspace hblank))

theorem isObject_of_mem_trickyArray :
    ∀ t ∈ [trickyObject, [openBrace, closeBrace]], IsObject t := by
  have hempty : IsObject [openBrace, closeBrace] :=
    ⟨[], @Enclosed.empty _ _ [] (List.forall_mem_nil _), List.forall_mem_nil _⟩
  exact List.forall_mem_cons.mpr ⟨isObject_trickyObject, List.forall_mem_singleton.mpr hempty⟩

/-- A value behind a key in front of which nothing is quoted. -/
theorem firstMember_of_quote_notMem {skipped : Bytes} (h : quote ∉ skipped) (key text : Bytes) :
    FirstMember key (skipped ++ quote :: (key ++ quote :: colon :: text)) text :=
  @FirstMember.mk key skipped [] [] text (List.forall_mem_nil _) (List.forall_mem_nil _)
    (Search.skips_of_head_notMem h)

theorem scanners_exact_tricky :
    extractBalancedValue
        ([openBrace] ++ quote :: ([118] ++ quote :: colon :: (trickyObject ++ [closeBrace]))) [118]
        openBrace closeBrace = some trickyObject ∧
      extractBalancedValue
        ([openBrace] ++ quote :: ([118] ++ quote :: colon :: (trickyArray ++ [closeBrace]))) [118]
        openBracket closeBracket = some trickyArray ∧
      splitObjectArray trickyArray = [trickyObject, [openBrace, closeBrace]] := by
  have hskipped : quote ∉ [openBrace] := by decide
  refine ⟨scanners_exact.1 _ _ _ [closeBrace] isObject_trickyObject
      (firstMember_of_quote_notMem hskipped _ _),
    scanners_exact.2.1 _ _ _ [closeBrace] ⟨_, enclosed_trickyArray, ?_⟩
      (firstMember_of_quote_notMem hskipped _ _),
    scanners_exact.2.2 _ _ enclosed_trickyArray isObject_of_mem_trickyArray⟩
  exact fun t ht => (isObject_of_mem_trickyArray t ht).isValue

/-! ### Escaped strings are read back -/

theorem parseStringLoop_skip {u : Bytes} (h : quote ∉ u) (rest current : Bytes)
    (values : List Bytes) :
    parseStringLoop (u ++ rest) {} current values = parseStringLoop rest {} current values := by
  induction u with
  | nil => rfl
  | cons b u ih =>
    obtain ⟨hb, hu⟩ := not_or.mp (mt List.mem_cons.mpr h)
    rw [List.cons_append, parseStringLoop_byte (Ne.symm hb), ih hu]

theorem quote_notMem_of_blank {u : Bytes} (h : Blank u) : quote ∉ u :=
  fun hmem => absurd (h quote hmem) (by decide)

/-- Written strings with blanks and commas between them. -/
theorem parseStringLoop_listed {ts : List Bytes} {u : Bytes} (h : Listed ts u) :
    ∀ (items : List Bytes), ts = items.map quoted → ∀ current values,
      parseStringLoop u {} current values = values ++ items.map (List.map clean) := by
  induction h with
  | last ha hb =>
    intro items hitems current values
    obtain ⟨s, rfl, rfl⟩ := List.map_eq_singleton_iff.mp hitems.symm
    have hend := parseStringLoop_skip (quote_notMem_of_blank hb) []
    rw [List.append_nil] at hend
    rw [parseStringLoop_skip (quote_notMem_of_blank ha), parseStringLoop_quoted, hend]
    rfl
  | more ha hb _ ih =>
    intro items hitems current values
    obtain ⟨s, items, rfl, rfl, hrest⟩ := List.map_eq_cons_iff.mp hitems.symm
    rw [parseStringLoop_skip (quote_notMem_of_blank ha), parseStringLoop_quoted,
      parseStringLoop_skip (quote_notMem_of_blank hb), parseStringLoop_byte (by decide),
      ih items hrest.symm, List.append_assoc]
    rfl

theorem parseStringArray_of_firstMember {key json text rest : Bytes} {items : List Bytes}
    (henclosed : Enclosed openBracket closeBracket (items.map quoted) text)
    (h : FirstMember key json (text ++ rest)) :
    parseStringArray json key = items.map (List.map clean) := by
  have hvalue := extractBalancedValue_of_enclosed .bracket henclosed
    (List.forall_mem_map.mpr fun s _ => Closed.quoted s) h
  have hinner : ∀ u : Bytes, ((openBracket :: (u ++ [closeBracket])).drop 1).dropLast = u :=
    fun u => List.dropLast_concat
  rw [parseStringArray, hvalue]
  generalize hts : items.map quoted = ts at henclosed
  cases henclosed with
  | @empty u hu =>
    have hskip := parseStringLoop_skip (quote_notMem_of_blank hu) [] [] []
    rw [List.append_nil] at hskip
    obtain rfl := List.map_eq_nil_iff.mp hts
    change parseStringLoop ((openBracket :: (u ++ [closeBracket])).drop 1).dropLast {} [] [] = _
    rw [hinner, hskip]
    rfl
  | @listed _ u hu =>
    change parseStringLoop ((openBracket :: (u ++ [closeBracket])).drop 1).dropLast {} [] [] = _
    rw [hinner, parseStringLoop_listed hu items hts.symm, List.nil_append]

/-- **Both string decoders undo `escapeJson`.** For every text and every key that is first found as
the name of a member: a written string is read back with its control bytes cleaned, which other
bytes are not; and so are all the strings of an array, in order. -/
theorem escapeJson_undone :
    (∀ key json s rest, FirstMember key json (quote :: (escapeJson s ++ quote :: rest)) →
      extractJsonString json key = some (s.map clean)) ∧
    ∀ key json (items : List Bytes) text rest,
      Enclosed openBracket closeBracket (items.map quoted) text →
      FirstMember key json (text ++ rest) →
      parseStringArray json key = items.map (List.map clean) := by
  refine ⟨fun key json s rest h => ?_, fun key json items text rest henclosed h =>
    parseStringArray_of_firstMember henclosed h⟩
  rw [← quoted_append] at h
  exact extractJsonString_of_find (h.findJsonValue_eq (by rintro b ⟨⟩; rfl))

theorem escapeJson_undone_tricky :
    extractJsonString
        ([openBrace] ++ quote :: ([118] ++ quote :: colon ::
          (quote :: (escapeJson [backslash, quote, 7, 10] ++ quote :: [closeBrace])))) [118] =
        some [backslash, quote, 32, 10] ∧
      parseStringArray
        ([openBrace] ++ quote :: ([118] ++ quote :: colon ::
          (openBracket :: (([] ++ (quoted [closeBracket, quote] ++ ([] ++ comma ::
            ([32] ++ (quoted [] ++ []))))) ++ [closeBracket]) ++ [closeBrace]))) [118] =
        [[closeBracket, quote], []] := by
  have hskipped : quote ∉ [openBrace] := by decide
  have hblank : Blank [] := List.forall_mem_nil _
  have hspace : Blank [32] := List.forall_mem_singleton.mpr rfl
  exact ⟨escapeJson_undone.1 _ _ [backslash, quote, 7, 10] [closeBrace]
      (firstMember_of_quote_notMem hskipped _ _),
    escapeJson_undone.2 _ _ [[closeBracket, quote], []] _ [closeBrace]
      (.listed (.more hblank hblank (.last hspace hblank)))
      (firstMember_of_quote_notMem hskipped _ _)⟩

end Net

end TarkovVoice

import TarkovVoice.Coordinator.Wire
import TarkovVoice.Net.JsonText

/-!
# The coordinator's text, as the client reads it

What `json.Marshal` writes, in the terms of `JsonText`: printable strings are written as
`escapeJson` would write them, and an object is its members between braces.

## Main definitions

* `Printable`, `Generated` — the texts and ids of the protocol

## Main results

* `appendString_eq` — both sides escape printable text alike
* `object_eq` — the text of an object
-/

namespace TarkovVoice

namespace Protocol

open Net Coordinator

/-! ### Texts -/

/-- Printable ASCII without the three characters that are escaped for HTML. Only quotes and
backslashes are escaped in such text. -/
def PrintableChar (c : Char) : Prop :=
  0x20 ≤ c.toNat ∧ c.toNat ≤ 0x7e ∧ c.toNat ≠ 60 ∧ c.toNat ≠ 62 ∧ c.toNat ≠ 38

instance (c : Char) : Decidable (PrintableChar c) := inferInstanceAs (Decidable (_ ∧ _))

def Printable (s : String) : Prop := ∀ c ∈ s.toList, PrintableChar c

instance (s : String) : Decidable (Printable s) := List.decidableBAll PrintableChar s.toList

/-- What `hex.EncodeToString` writes: lower-case digits, any number of them. -/
def Hex (s : String) : Prop := ∀ c ∈ s.toList, c ∈ "0123456789abcdef".toList

instance (s : String) : Decidable (Hex s) := List.decidableBAll _ s.toList

/-- An id the coordinator made: its kind, an underscore and hexadecimal digits. How many there are
makes no difference here. -/
def Generated (kind id : String) : Prop := ∃ hex : String, Hex hex ∧ id = kind ++ "_" ++ hex

theorem PrintableChar.forall {P : Char → Prop}
    (h : ∀ n < 0x7f, PrintableChar (Char.ofNat n) → P (Char.ofNat n)) {c : Char}
    (hc : PrintableChar c) : P c := by
  have hn := h c.toNat (Nat.lt_succ_of_le hc.2.1)
  rw [Char.ofNat_toNat] at hn
  exact hn hc

theorem appendChar_eq {c : Char} (h : PrintableChar c) :
    appendChar c = (String.utf8EncodeChar c).flatMap escapeByte :=
  h.forall (P := fun c => appendChar c = (String.utf8EncodeChar c).flatMap escapeByte)
    (by decide +kernel)

theorem clean_utf8EncodeChar {c : Char} (h : PrintableChar c) :
    (String.utf8EncodeChar c).map clean = String.utf8EncodeChar c :=
  h.forall (P := fun c => (String.utf8EncodeChar c).map clean = String.utf8EncodeChar c)
    (by decide +kernel)

theorem appendString_eq {s : String} (h : Printable s) : appendString s = quoted (utf8 s) := by
  have hchars : ∀ l : List Char, (∀ c ∈ l, c ∈ s.toList) →
      l.flatMap appendChar = escapeJson (l.flatMap String.utf8EncodeChar) := by
    intro l
    induction l with
    | nil => exact fun _ => rfl
    | cons c l ih =>
      intro hl
      rw [List.flatMap_cons, List.flatMap_cons, appendChar_eq (h c (hl c (List.mem_cons_self ..))),
        ih fun d hd => hl d (List.mem_cons_of_mem _ hd), escapeJson, escapeJson,
        List.flatMap_append]
  rw [appendString, quoted, hchars _ fun _ hc => hc]
  rfl

theorem clean_utf8 {s : String} (h : Printable s) : (utf8 s).map clean = utf8 s := by
  rw [utf8, List.map_flatMap]
  refine List.flatMap_congr fun c hc => ?_
  exact clean_utf8EncodeChar (h c hc)

theorem Generated.toList {kind id : String} (h : Generated kind id) :
    ∃ hex : String, Hex hex ∧ id.toList = kind.toList ++ "_".toList ++ hex.toList := by
  obtain ⟨hex, hhex, rfl⟩ := h
  exact ⟨hex, hhex, by rw [String.toList_append, String.toList_append]⟩

theorem Generated.printable {kind id : String} (hkind : Printable kind) (h : Generated kind id) :
    Printable id := by
  obtain ⟨hex, hhex, hid⟩ := h.toList
  intro c hc
  rw [hid] at hc
  rcases List.mem_append.mp hc with hc | hc
  · rcases List.mem_append.mp hc with hc | hc
    · exact hkind c hc
    · rw [List.mem_singleton.mp hc]
      decide
  · have hall : Printable "0123456789abcdef" := by decide
    exact hall c (hhex c hc)

/-- An id is not a word and holds no quote, so it hides nothing. -/
theorem Generated.not_shadows {kind id : String} (hkind : quote ∉ utf8 kind)
    (h : Generated kind id) {key : Bytes} (hkey : Word key) : ¬ Shadows (utf8 id) key := by
  obtain ⟨hex, hhex, rfl⟩ := h
  have hquote : quote ∉ utf8 (kind ++ "_" ++ hex) := by
    rw [utf8_append, utf8_append]
    intro hmem
    rcases List.mem_append.mp hmem with hmem | hmem
    · rcases List.mem_append.mp hmem with hmem | hmem
      · exact hkind hmem
      · exact absurd hmem (by decide)
    · obtain ⟨c, hc, hmem⟩ := List.mem_flatMap.mp hmem
      have hall : quote ∉ utf8 "0123456789abcdef" := by decide
      exact hall (List.mem_flatMap.mpr ⟨c, hhex c hc, hmem⟩)
  rw [shadows_of_quote_notMem hquote]
  rintro rfl
  have hunderscore : (95 : UInt8) ∈ utf8 (kind ++ "_" ++ hex) := by
    rw [utf8_append, utf8_append]
    exact List.mem_append_left _ (List.mem_append_right _ (by decide))
  exact absurd (hkey.2 _ hunderscore) (by decide)

/-! ### Objects -/

/-- A member as it is written. -/
def writeField (m : Field) : Bytes := quoted m.1 ++ colon :: m.2.text

theorem flatMap_writeField (ms : List Field) (rest : Bytes) :
    (ms.map writeField).flatMap (comma :: ·) ++ rest = fields ms rest := by
  induction ms with
  | nil => rfl
  | cons m ms ih =>
    rw [List.map_cons, List.flatMap_cons, fields, ← ih]
    simp [writeField]

/-- The text of an object, by its members. -/
theorem object_eq (m : Field) (ms : List Field) (more : List Bytes) :
    ∃ text, object ((m :: ms).map writeField ++ more) = openBrace :: text ∧
      fields (m :: ms) (more.flatMap (comma :: ·) ++ [closeBrace]) = comma :: text := by
  refine ⟨writeField m ++ fields ms (more.flatMap (comma :: ·) ++ [closeBrace]), ?_, ?_⟩
  · show openBrace :: (writeField m ++ (ms.map writeField ++ more).flatMap (comma :: ·)) ++
      [closeBrace] = _
    rw [List.flatMap_append, ← flatMap_writeField]
    simp
  · rw [fields, writeField]
    simp

theorem member_string {tag value : String} (htag : Printable tag) (hvalue : Printable value) :
    member tag (appendString value) = writeField (utf8 tag, .string (utf8 value)) := by
  rw [member, appendString_eq htag, appendString_eq hvalue]
  rfl

theorem member_plain {tag : String} (htag : Printable tag) (value : Bytes) :
    member tag value = writeField (utf8 tag, .plain value) := by
  rw [member, appendString_eq htag]
  rfl

/-! ### Values -/

theorem sound_decimal (n : ℕ) : (Value.plain (decimal n)).Sound := by
  have hbyte : ∀ c : UInt8, isdigit c = true → (c ≠ quote ∧ c ≠ colon) ∧ isspace c = false :=
    forall_byte (by decide +kernel)
  obtain ⟨d, u, hdu, hd⟩ := exists_decimal_cons n
  exact ⟨fun c hc => (hbyte c (decimal_isdigit n c hc)).1, d, u, hdu, (hbyte d hd).2⟩

theorem sound_appendInt (z : ℤ) : (Value.plain (appendInt z)).Sound := by
  cases z with
  | ofNat n => exact sound_decimal n
  | negSucc n =>
    refine ⟨?_, 45, decimal (n + 1), rfl, rfl⟩
    intro c hc
    rcases List.mem_cons.mp hc with rfl | hc
    · decide
    · exact (sound_decimal (n + 1)).1 c hc

theorem sound_of_word {u : Bytes} (h : Word u) : (Value.plain u).Sound := by
  have hbyte : ∀ c : UInt8, isalpha c = true → (c ≠ quote ∧ c ≠ colon) ∧ isspace c = false :=
    forall_byte (by decide +kernel)
  obtain ⟨c, u', hcu⟩ := List.exists_cons_of_ne_nil h.1
  refine ⟨fun c hc => (hbyte c (h.2 c hc)).1, c, u', hcu, (hbyte c ?_).2⟩
  exact h.2 c (hcu ▸ List.mem_cons_self ..)

theorem word_appendBool (b : Bool) : Word (appendBool b) := by
  cases b with
  | false => exact show Word (utf8 "false") by decide
  | true => exact show Word (utf8 "true") by decide

theorem sound_appendBool (b : Bool) : (Value.plain (appendBool b)).Sound :=
  sound_of_word (word_appendBool b)

theorem isalpha_of_isdigit : ∀ c : UInt8, isdigit c = true → isalpha c = false :=
  forall_byte (by decide +kernel)

/-! ### Lists -/

theorem flatMap_separated (items : List Bytes) (hne : items ≠ []) :
    items.flatMap (comma :: ·) = comma :: separated items := by
  obtain ⟨item, items, rfl⟩ := List.exists_cons_of_ne_nil hne
  rfl

/-! ### Matching brackets -/

/-- A pair of brackets that no word, number or separator contains, as the braces and the square
brackets are. -/
structure Plain (o c : UInt8) : Prop extends Brackets o c where
  plain : ∀ b, isdigit b = true ∨ isalpha b = true ∨ b ∈ [comma, colon, 45] →
    b ≠ quote ∧ b ≠ o ∧ b ≠ c

theorem plain_brace : Plain openBrace closeBrace :=
  ⟨brackets_brace, forall_byte (by decide +kernel)⟩

theorem plain_bracket : Plain openBracket closeBracket :=
  ⟨brackets_bracket, forall_byte (by decide +kernel)⟩

section Closed

variable {o c : UInt8}

theorem closed_appendInt (h : Plain o c) (z : ℤ) : Closed o c (appendInt z) := by
  have hdecimal : ∀ n, ∀ b ∈ decimal n, b ≠ quote ∧ b ≠ o ∧ b ≠ c := fun n b hb =>
    h.plain b (.inl (decimal_isdigit n b hb))
  cases z with
  | ofNat n => exact .of_notMem (hdecimal n)
  | negSucc n =>
    obtain ⟨hq, ho, hc⟩ := h.plain 45 (.inr (.inr (by decide)))
    exact .byte hq ho hc (.of_notMem (hdecimal (n + 1)))

theorem closed_appendBool (h : Plain o c) (b : Bool) : Closed o c (appendBool b) :=
  .of_notMem fun d hd => h.plain d (.inr (.inl ((word_appendBool b).2 d hd)))

theorem closed_appendString {s : String} (hs : Printable s) : Closed o c (appendString s) := by
  rw [appendString_eq hs]
  exact Closed.quoted _

theorem closed_member (h : Plain o c) {tag : String} (htag : Printable tag) {value : Bytes}
    (hvalue : Closed o c value) : Closed o c (member tag value) := by
  obtain ⟨hq, ho, hc⟩ := h.plain colon (.inr (.inr (by decide)))
  exact (closed_appendString htag).append (.byte hq ho hc hvalue)

theorem closed_decimal (h : Plain o c) (n : ℕ) : Closed o c (decimal n) := closed_appendInt h n

theorem closed_writeField (h : Plain o c) {m : Field} (hvalue : Closed o c m.2.text) :
    Closed o c (writeField m) := by
  obtain ⟨hq, ho, hc⟩ := h.plain colon (.inr (.inr (by decide)))
  exact (Closed.quoted m.1).append (.byte hq ho hc hvalue)

theorem closed_separated (h : Plain o c) {items : List Bytes}
    (hitems : ∀ item ∈ items, Closed o c item) : Closed o c (separated items) := by
  obtain ⟨hq, ho, hc⟩ := h.plain comma (.inr (.inr (by decide)))
  have hrest : ∀ items : List Bytes, (∀ item ∈ items, Closed o c item) →
      Closed o c (items.flatMap (comma :: ·)) := by
    intro items
    induction items with
    | nil => exact fun _ => .nil
    | cons item items ih =>
      intro h
      rw [List.flatMap_cons]
      exact (Closed.byte hq ho hc (h item (List.mem_cons_self ..))).append
        (ih fun x hx => h x (List.mem_cons_of_mem _ hx))
  cases items with
  | nil => exact .nil
  | cons item items =>
    exact (hitems item (List.mem_cons_self ..)).append
      (hrest items fun x hx => hitems x (List.mem_cons_of_mem _ hx))

theorem closed_array {elements : List Bytes}
    (h : ∀ e ∈ elements, Closed openBrace closeBrace e ∧ Closed openBracket closeBracket e) :
    Closed openBrace closeBrace (array elements) ∧
      Closed openBracket closeBracket (array elements) := by
  have hbrace := closed_separated plain_brace fun e he => (h e he).1
  have hbracket := closed_separated plain_bracket fun e he => (h e he).2
  constructor
  · refine .byte (by decide) (by decide) (by decide) (hbrace.append ?_)
    exact .byte (by decide) (by decide) (by decide) .nil
  · exact .nest hbracket .nil

theorem closed_object {members : List Bytes}
    (h : ∀ m ∈ members, Closed openBracket closeBracket m) :
    Closed openBracket closeBracket (object members) := by
  refine .byte (by decide) (by decide) (by decide) ((closed_separated plain_bracket h).append ?_)
  exact .byte (by decide) (by decide) (by decide) .nil

end Closed

end Protocol

end TarkovVoice

import Mathlib.Data.List.Basic
import Mathlib.Tactic.Common

/-!
# The grammar of JSON

`Reads v t r` says that `t` begins with a text of the value `v` and goes on with `r`. Blanks may
stand between tokens; `skip` passes over all there are, and a number is read as far as it goes, so
that a text can be read in one way only. Strings and names are byte strings. Of the escapes those of
two characters are here, not `\u`. A number is its own text.

A compact text has no blanks around it and can be read in front of anything that ends a value.

## Main definitions

* `Json`, `Reads`, `Denotes`
* `Compact`

## Main results

* `Denotes.unique` — a text denotes one value at most
* `compact_number`, `compact_string` — texts that can stand inside of others
-/

namespace TarkovVoice

namespace JsonGrammar

/-! ### Tokens -/

def quote : UInt8 := 34

def comma : UInt8 := 44

def colon : UInt8 := 58

def openBracket : UInt8 := 91

def backslash : UInt8 := 92

def closeBracket : UInt8 := 93

def openBrace : UInt8 := 123

def closeBrace : UInt8 := 125

/-- Blanks between tokens. -/
def isSpace (c : UInt8) : Bool := c == 32 || c == 9 || c == 10 || c == 13

def skip (t : List UInt8) : List UInt8 := t.dropWhile isSpace

/-- What stands for a byte behind a backslash. -/
def escaped (e : UInt8) : Option UInt8 :=
  if e = quote ∨ e = backslash ∨ e = 47 then some e
  else if e = 98 then some 8
  else if e = 102 then some 12
  else if e = 110 then some 10
  else if e = 114 then some 13
  else if e = 116 then some 9
  else none

/-- The characters of a string, up to and with the closing quote. `Chars s t r` says that they stand
for `s`, and that `t` goes on with `r` behind the quote. -/
inductive Chars : List UInt8 → List UInt8 → List UInt8 → Prop
  | close {r : List UInt8} : Chars [] (quote :: r) r
  | plain {c : UInt8} {s t r : List UInt8} : 0x20 ≤ c → c ≠ quote → c ≠ backslash → Chars s t r →
      Chars (c :: s) (c :: t) r
  | escape {e c : UInt8} {s t r : List UInt8} : escaped e = some c → Chars s t r →
      Chars (c :: s) (backslash :: e :: t) r

def isDigit (c : UInt8) : Bool := 48 ≤ c && c ≤ 57

/-- Digits, a sign, a point or the letter of an exponent. A number goes on as long as these follow,
so what follows a number is none of them. -/
def isNumeric (c : UInt8) : Bool :=
  isDigit c || c == 43 || c == 45 || c == 46 || c == 69 || c == 101

structure IsDigits (u : List UInt8) : Prop where
  ne_nil : u ≠ []
  digits : ∀ c ∈ u, isDigit c = true

/-- A fraction, if there is one: a dot and at least one digit. -/
def IsFraction (u : List UInt8) : Prop := u = [] ∨ ∃ d, u = 46 :: d ∧ IsDigits d

/-- An exponent, if there is one: the letter, a sign or none, and at least one digit. -/
def IsExponent (u : List UInt8) : Prop :=
  u = [] ∨ ∃ e sign d, (e = 69 ∨ e = 101) ∧ (sign = [] ∨ sign = [43] ∨ sign = [45]) ∧ IsDigits d ∧
    u = e :: (sign ++ d)

/-- A number: no leading zeros, and no plus sign in front. Its value does not matter here, and the
text is taken for it. -/
def IsNumber (u : List UInt8) : Prop :=
  ∃ sign whole fraction exponent, u = sign ++ (whole ++ (fraction ++ exponent)) ∧
    (sign = [] ∨ sign = [45]) ∧ IsDigits whole ∧ (whole.head? = some 48 → whole = [48]) ∧
    IsFraction fraction ∧ IsExponent exponent

/-! ### Values -/

inductive Json
  | null
  | bool (b : Bool)
  | number (text : List UInt8)
  | string (s : List UInt8)
  | array (items : List Json)
  | object (members : List (List UInt8 × Json))

mutual

/-- Reading a value: `Reads v t r` says that `t` begins with a text of `v`, without blanks in front,
and goes on with `r`. -/
inductive Reads : Json → List UInt8 → List UInt8 → Prop
  | null {t r : List UInt8} : t = [110, 117, 108, 108] ++ r → Reads .null t r
  | true {t r : List UInt8} : t = [116, 114, 117, 101] ++ r → Reads (.bool true) t r
  | false {t r : List UInt8} : t = [102, 97, 108, 115, 101] ++ r → Reads (.bool false) t r
  | number {t u r : List UInt8} : t = u ++ r → IsNumber u → (∀ c ∈ r.head?, isNumeric c = false) →
      Reads (.number u) t r
  | string {t u s r : List UInt8} : t = quote :: u → Chars s u r → Reads (.string s) t r
  | noItems {t u r : List UInt8} : t = openBracket :: u → skip u = closeBracket :: r →
      Reads (.array []) t r
  | array {t u r : List UInt8} {l : List Json} : t = openBracket :: u → ReadsItems l (skip u) r →
      Reads (.array l) t r
  | noMembers {t u r : List UInt8} : t = openBrace :: u → skip u = closeBrace :: r →
      Reads (.object []) t r
  | object {t u r : List UInt8} {ms : List (List UInt8 × Json)} : t = openBrace :: u →
      ReadsMembers ms (skip u) r → Reads (.object ms) t r

/-- Reading the elements of an array, up to and with the closing bracket. There is at least one; an
empty array is read by `Reads` itself. -/
inductive ReadsItems : List Json → List UInt8 → List UInt8 → Prop
  | last {v : Json} {t u r : List UInt8} : Reads v t u → skip u = closeBracket :: r →
      ReadsItems [v] t r
  | more {v : Json} {l : List Json} {t u w r : List UInt8} : Reads v t u → skip u = comma :: w →
      ReadsItems l (skip w) r → ReadsItems (v :: l) t r

/-- Reading the members of an object, up to and with the closing brace. There is at least one; names
may be repeated, and all are kept in their order. -/
inductive ReadsMembers : List (List UInt8 × Json) → List UInt8 → List UInt8 → Prop
  | last {m : List UInt8 × Json} {t u r : List UInt8} : ReadsMember m t u →
      skip u = closeBrace :: r → ReadsMembers [m] t r
  | more {m : List UInt8 × Json} {ms : List (List UInt8 × Json)} {t u w r : List UInt8} :
      ReadsMember m t u → skip u = comma :: w → ReadsMembers ms (skip w) r →
      ReadsMembers (m :: ms) t r

/-- Reading a name, a colon and a value, with blanks around the colon or none. The name is a string
like any other, escapes included. -/
inductive ReadsMember : List UInt8 × Json → List UInt8 → List UInt8 → Prop
  | mk {s t u w x r : List UInt8} {v : Json} : t = quote :: u → Chars s u w →
      skip w = colon :: x → Reads v (skip x) r → ReadsMember (s, v) t r

end

/-- The text is one of the value, with blanks in front and behind or none. Nothing else may stand
around it. -/
def Denotes (t : List UInt8) (v : Json) : Prop := ∃ r, Reads v (skip t) r ∧ skip r = []

/-! ### One way of reading -/

theorem Chars.unique {s s' t r r' : List UInt8} (h : Chars s t r) (h' : Chars s' t r') :
    s = s' ∧ r = r' := by
  induction h generalizing s' with
  | close =>
    cases h' with
    | close => exact ⟨rfl, rfl⟩
    | plain _ hq => exact absurd rfl hq
  | plain _ hq hb _ ih =>
    cases h' with
    | close => exact absurd rfl hq
    | plain _ _ _ hchars =>
      obtain ⟨rfl, hr⟩ := ih hchars
      exact ⟨rfl, hr⟩
    | escape => exact absurd rfl hb
  | escape he _ ih =>
    cases h' with
    | plain _ _ hb => exact absurd rfl hb
    | escape he' hchars =>
      obtain ⟨rfl, hr⟩ := ih hchars
      obtain rfl := Option.some.inj (he.symm.trans he')
      exact ⟨rfl, hr⟩

theorem isNumeric_of_isDigit {c : UInt8} (h : isDigit c = true) : isNumeric c = true := by
  rw [isNumeric, h]
  rfl

theorem IsDigits.numeric {u : List UInt8} (h : IsDigits u) : ∀ c ∈ u, isNumeric c = true :=
  fun c hc => isNumeric_of_isDigit (h.digits c hc)

theorem IsFraction.numeric {u : List UInt8} (h : IsFraction u) : ∀ c ∈ u, isNumeric c = true := by
  rcases h with rfl | ⟨d, rfl, hd⟩
  · exact fun c hc => absurd hc List.not_mem_nil
  · exact List.forall_mem_cons.mpr ⟨rfl, hd.numeric⟩

theorem IsExponent.numeric {u : List UInt8} (h : IsExponent u) : ∀ c ∈ u, isNumeric c = true := by
  rcases h with rfl | ⟨e, sign, d, he, hsign, hd, rfl⟩
  · exact fun c hc => absurd hc List.not_mem_nil
  · refine List.forall_mem_cons.mpr ⟨?_, List.forall_mem_append.mpr ⟨?_, hd.numeric⟩⟩
    · rcases he with rfl | rfl <;> rfl
    · rcases hsign with rfl | rfl | rfl
      · exact fun c hc => absurd hc List.not_mem_nil
      · exact List.forall_mem_singleton.mpr rfl
      · exact List.forall_mem_singleton.mpr rfl

theorem IsNumber.numeric {u : List UInt8} (h : IsNumber u) : ∀ c ∈ u, isNumeric c = true := by
  obtain ⟨sign, whole, fraction, exponent, rfl, hsign, hwhole, -, hfraction, hexponent⟩ := h
  refine List.forall_mem_append.mpr ⟨?_, List.forall_mem_append.mpr ⟨hwhole.numeric,
    List.forall_mem_append.mpr ⟨hfraction.numeric, hexponent.numeric⟩⟩⟩
  rcases hsign with rfl | rfl
  · exact fun c hc => absurd hc List.not_mem_nil
  · exact List.forall_mem_singleton.mpr rfl

theorem IsNumber.ne_nil {u : List UInt8} (h : IsNumber u) : u ≠ [] := by
  obtain ⟨sign, whole, fraction, exponent, rfl, -, hwhole, -⟩ := h
  exact List.append_ne_nil_of_right_ne_nil _ (List.append_ne_nil_of_left_ne_nil hwhole.ne_nil _)

theorem takeWhile_number {u r : List UInt8} (h : IsNumber u)
    (hr : ∀ c ∈ r.head?, isNumeric c = false) : (u ++ r).takeWhile isNumeric = u := by
  rw [List.takeWhile_append_of_pos h.numeric]
  cases r with
  | nil => rw [List.takeWhile_nil, List.append_nil]
  | cons c r =>
    have hc := hr c rfl
    rw [List.takeWhile_cons, hc, if_neg Bool.false_ne_true, List.append_nil]

/-- A number is read as far as it goes. Neither reading may stop in front of a byte that could go
on, so they stop at the same place. -/
theorem number_unique {u u' r r' : List UInt8} (h : IsNumber u) (h' : IsNumber u')
    (hr : ∀ c ∈ r.head?, isNumeric c = false) (hr' : ∀ c ∈ r'.head?, isNumeric c = false)
    (heq : u ++ r = u' ++ r') : u = u' ∧ r = r' := by
  have hsame : u = u' := by
    rw [← takeWhile_number h hr, heq, takeWhile_number h' hr']
  subst hsame
  exact ⟨rfl, List.append_cancel_left heq⟩

/-- The kinds of value. The two truth values are kinds of their own, since a word stands
for each. -/
inductive Kind
  | null
  | bool (b : Bool)
  | number
  | string
  | array
  | object
  deriving DecidableEq

def Json.kind : Json → Kind
  | .null => .null
  | .bool b => .bool b
  | .number _ => .number
  | .string _ => .string
  | .array _ => .array
  | .object _ => .object

/-- The kind of value whose text begins with a byte. The first byte decides it, so no two
productions of the grammar compete. -/
def kindOf (c : UInt8) : Option Kind :=
  if c = 110 then some .null
  else if c = 116 then some (.bool true)
  else if c = 102 then some (.bool false)
  else if c = quote then some .string
  else if c = openBracket then some .array
  else if c = openBrace then some .object
  else if isNumeric c then some .number
  else none

theorem kindOf_of_isNumeric {c : UInt8} (h : isNumeric c = true) : kindOf c = some .number := by
  have hne : ∀ d, isNumeric d = false → c ≠ d := by
    rintro d hd rfl
    exact Bool.false_ne_true (hd.symm.trans h)
  rw [kindOf, if_neg (hne _ rfl), if_neg (hne _ rfl), if_neg (hne _ rfl), if_neg (hne _ rfl),
    if_neg (hne _ rfl), if_neg (hne _ rfl), if_pos h]

theorem Reads.head {v : Json} {t r : List UInt8} (h : Reads v t r) :
    t.head?.bind kindOf = some v.kind := by
  cases h with
  | null ht => rw [ht]; rfl
  | true ht => rw [ht]; rfl
  | false ht => rw [ht]; rfl
  | @number _ u _ ht hu =>
    obtain ⟨c, u, rfl⟩ := List.exists_cons_of_ne_nil hu.ne_nil
    rw [ht]
    exact kindOf_of_isNumeric (hu.numeric c List.mem_cons_self)
  | string ht => rw [ht]; rfl
  | noItems ht => rw [ht]; rfl
  | array ht => rw [ht]; rfl
  | noMembers ht => rw [ht]; rfl
  | object ht => rw [ht]; rfl

theorem Reads.kind_eq {v v' : Json} {t r r' : List UInt8} (h : Reads v t r)
    (h' : Reads v' t r') : v.kind = v'.kind :=
  Option.some.inj (h.head.symm.trans h'.head)

theorem ReadsItems.ne_close {l : List Json} {t r u : List UInt8} (h : ReadsItems l t r) :
    t ≠ closeBracket :: u := by
  rintro rfl
  cases h with
  | last hv => cases hv.head
  | more hv => cases hv.head

theorem ReadsMembers.ne_close {ms : List (List UInt8 × Json)} {t r u : List UInt8}
    (h : ReadsMembers ms t r) : t ≠ closeBrace :: u := by
  rintro rfl
  have hmember : ∃ m w, ReadsMember m (closeBrace :: u) w := by
    cases h with
    | last hm => exact ⟨_, _, hm⟩
    | more hm => exact ⟨_, _, hm⟩
  obtain ⟨m, w, hm⟩ := hmember
  cases hm with
  | mk ht => exact absurd (List.cons.inj ht).1 (by decide)

-- By recursion on the first reading, through `match`: `cases` would hide that it is structural.
mutual

theorem Reads.unique {v v' : Json} {t r r' : List UInt8} (h : Reads v t r) (h' : Reads v' t r') :
    v = v' ∧ r = r' := by
  match h with
  | .null ht =>
    have hkind := (Reads.null ht).kind_eq h'
    cases h' with
    | null ht' => exact ⟨rfl, List.append_cancel_left (ht.symm.trans ht')⟩
    | _ => cases hkind
  | .true ht =>
    have hkind := (Reads.true ht).kind_eq h'
    cases h' with
    | true ht' => exact ⟨rfl, List.append_cancel_left (ht.symm.trans ht')⟩
    | _ => cases hkind
  | .false ht =>
    have hkind := (Reads.false ht).kind_eq h'
    cases h' with
    | false ht' => exact ⟨rfl, List.append_cancel_left (ht.symm.trans ht')⟩
    | _ => cases hkind
  | .number ht hu hr =>
    have hkind := (Reads.number ht hu hr).kind_eq h'
    cases h' with
    | number ht' hu' hr' =>
      obtain ⟨rfl, hrest⟩ := number_unique hu hu' hr hr' (ht.symm.trans ht')
      exact ⟨rfl, hrest⟩
    | _ => cases hkind
  | .string ht hchars =>
    have hkind := (Reads.string ht hchars).kind_eq h'
    cases h' with
    | string ht' hchars' =>
      obtain rfl := (List.cons.inj (ht.symm.trans ht')).2
      obtain ⟨rfl, hrest⟩ := hchars.unique hchars'
      exact ⟨rfl, hrest⟩
    | _ => cases hkind
  | .noItems ht hclose =>
    have hkind := (Reads.noItems ht hclose).kind_eq h'
    cases h' with
    | noItems ht' hclose' =>
      obtain rfl := (List.cons.inj (ht.symm.trans ht')).2
      exact ⟨rfl, (List.cons.inj (hclose.symm.trans hclose')).2⟩
    | array ht' hitems' =>
      obtain rfl := (List.cons.inj (ht.symm.trans ht')).2
      exact absurd hclose hitems'.ne_close
    | _ => cases hkind
  | .array ht hitems =>
    have hkind := (Reads.array ht hitems).kind_eq h'
    cases h' with
    | noItems ht' hclose' =>
      obtain rfl := (List.cons.inj (ht.symm.trans ht')).2
      exact absurd hclose' hitems.ne_close
    | array ht' hitems' =>
      obtain rfl := (List.cons.inj (ht.symm.trans ht')).2
      obtain ⟨rfl, hrest⟩ := ReadsItems.unique hitems hitems'
      exact ⟨rfl, hrest⟩
    | _ => cases hkind
  | .noMembers ht hclose =>
    have hkind := (Reads.noMembers ht hclose).kind_eq h'
    cases h' with
    | noMembers ht' hclose' =>
      obtain rfl := (List.cons.inj (ht.symm.trans ht')).2
      exact ⟨rfl, (List.cons.inj (hclose.symm.trans hclose')).2⟩
    | object ht' hmembers' =>
      obtain rfl := (List.cons.inj (ht.symm.trans ht')).2
      exact absurd hclose hmembers'.ne_close
    | _ => cases hkind
  | .object ht hmembers =>
    have hkind := (Reads.object ht hmembers).kind_eq h'
    cases h' with
    | noMembers ht' hclose' =>
      obtain rfl := (List.cons.inj (ht.symm.trans ht')).2
      exact absurd hclose' hmembers.ne_close
    | object ht' hmembers' =>
      obtain rfl := (List.cons.inj (ht.symm.trans ht')).2
      obtain ⟨rfl, hrest⟩ := ReadsMembers.unique hmembers hmembers'
      exact ⟨rfl, hrest⟩
    | _ => cases hkind
termination_by structural h

theorem ReadsItems.unique {l l' : List Json} {t r r' : List UInt8} (h : ReadsItems l t r)
    (h' : ReadsItems l' t r') : l = l' ∧ r = r' := by
  match h with
  | .last hv hclose =>
    cases h' with
    | last hv' hclose' =>
      obtain ⟨rfl, rfl⟩ := Reads.unique hv hv'
      exact ⟨rfl, (List.cons.inj (hclose.symm.trans hclose')).2⟩
    | more hv' hcomma' hitems' =>
      obtain ⟨rfl, rfl⟩ := Reads.unique hv hv'
      exact absurd (List.cons.inj (hclose.symm.trans hcomma')).1 (by decide)
  | .more hv hcomma hitems =>
    cases h' with
    | last hv' hclose' =>
      obtain ⟨rfl, rfl⟩ := Reads.unique hv hv'
      exact absurd (List.cons.inj (hcomma.symm.trans hclose')).1 (by decide)
    | more hv' hcomma' hitems' =>
      obtain ⟨rfl, rfl⟩ := Reads.unique hv hv'
      obtain rfl := (List.cons.inj (hcomma.symm.trans hcomma')).2
      obtain ⟨rfl, hrest⟩ := ReadsItems.unique hitems hitems'
      exact ⟨rfl, hrest⟩
termination_by structural h

theorem ReadsMembers.unique {ms ms' : List (List UInt8 × Json)} {t r r' : List UInt8}
    (h : ReadsMembers ms t r) (h' : ReadsMembers ms' t r') : ms = ms' ∧ r = r' := by
  match h with
  | .last hm hclose =>
    cases h' with
    | last hm' hclose' =>
      obtain ⟨rfl, rfl⟩ := ReadsMember.unique hm hm'
      exact ⟨rfl, (List.cons.inj (hclose.symm.trans hclose')).2⟩
    | more hm' hcomma' hmembers' =>
      obtain ⟨rfl, rfl⟩ := ReadsMember.unique hm hm'
      exact absurd (List.cons.inj (hclose.symm.trans hcomma')).1 (by decide)
  | .more hm hcomma hmembers =>
    cases h' with
    | last hm' hclose' =>
      obtain ⟨rfl, rfl⟩ := ReadsMember.unique hm hm'
      exact absurd (List.cons.inj (hcomma.symm.trans hclose')).1 (by decide)
    | more hm' hcomma' hmembers' =>
      obtain ⟨rfl, rfl⟩ := ReadsMember.unique hm hm'
      obtain rfl := (List.cons.inj (hcomma.symm.trans hcomma')).2
      obtain ⟨rfl, hrest⟩ := ReadsMembers.unique hmembers hmembers'
      exact ⟨rfl, hrest⟩
termination_by structural h

theorem ReadsMember.unique {m m' : List UInt8 × Json} {t r r' : List UInt8}
    (h : ReadsMember m t r) (h' : ReadsMember m' t r') : m = m' ∧ r = r' := by
  match h with
  | .mk ht hchars hcolon hv =>
    cases h' with
    | mk ht' hchars' hcolon' hv' =>
      obtain rfl := (List.cons.inj (ht.symm.trans ht')).2
      obtain ⟨rfl, rfl⟩ := hchars.unique hchars'
      obtain rfl := (List.cons.inj (hcolon.symm.trans hcolon')).2
      obtain ⟨rfl, hrest⟩ := Reads.unique hv hv'
      exact ⟨rfl, hrest⟩
termination_by structural h

end

/-- **A text denotes one value** at most. So a text can be said to have the members it was written
with, and no others. -/
theorem Denotes.unique {t : List UInt8} {v v' : Json} (h : Denotes t v) (h' : Denotes t v') :
    v = v' := by
  obtain ⟨r, hv, -⟩ := h
  obtain ⟨r', hv', -⟩ := h'
  exact (hv.unique hv').1

/-! ### Compact texts -/

/-- What follows does not continue a number. -/
def Ends (r : List UInt8) : Prop := ∀ c ∈ r.head?, isNumeric c = false

/-- A text of the value without blanks around it. It is read as the value whatever follows, if that
does not continue a number. -/
structure Compact (v : Json) (t : List UInt8) : Prop where
  head : ∃ c ∈ t.head?, isSpace c = false
  reads : ∀ r, Ends r → Reads v (t ++ r) r

theorem skip_of_head {t : List UInt8} (h : ∀ c ∈ t.head?, isSpace c = false) : skip t = t := by
  cases t with
  | nil => rfl
  | cons c t =>
    rw [skip, List.dropWhile_cons, h c rfl]
    rfl

variable {v : Json} {t r s : List UInt8}

theorem Compact.skip_append (h : Compact v t) (r : List UInt8) : skip (t ++ r) = t ++ r := by
  obtain ⟨c, hc, hspace⟩ := h.head
  refine skip_of_head fun d hd => ?_
  rw [List.head?_append, Option.mem_def.mp hc] at hd
  obtain rfl := Option.mem_some.mp hd
  exact hspace

theorem compact_bool (b : Bool) :
    Compact (.bool b) (if b then [116, 114, 117, 101] else [102, 97, 108, 115, 101]) := by
  cases b with
  | false => exact ⟨⟨102, rfl, rfl⟩, fun r _ => .false rfl⟩
  | true => exact ⟨⟨116, rfl, rfl⟩, fun r _ => .true rfl⟩

theorem compact_number (h : IsNumber t) : Compact (.number t) t := by
  obtain ⟨c, u, rfl⟩ := List.exists_cons_of_ne_nil h.ne_nil
  have hnot : ∀ d, isSpace d = true → isNumeric d = false := by
    intro d hd
    simp only [isSpace, Bool.or_eq_true, beq_iff_eq] at hd
    rcases hd with ((rfl | rfl) | rfl) | rfl <;> rfl
  refine ⟨⟨c, rfl, Bool.eq_false_iff.mpr fun hspace => ?_⟩, fun r hr => .number rfl h hr⟩
  exact Bool.false_ne_true ((hnot c hspace).symm.trans (h.numeric c List.mem_cons_self))

theorem compact_string (h : ∀ r, Chars s (t ++ quote :: r) r) :
    Compact (.string s) (quote :: (t ++ [quote])) := by
  refine ⟨⟨quote, rfl, rfl⟩, fun r _ => ?_⟩
  have hcons : quote :: (t ++ [quote]) ++ r = quote :: (t ++ quote :: r) := by simp
  exact .string hcons (h r)

/-- A member: the characters of its name and the text of its value. -/
def member (name text : List UInt8) : List UInt8 := quote :: (name ++ quote :: colon :: text)

/-- The name is written as it is: nothing in it needs an escape. The names of members usually are
so. -/
def IsName (name : List UInt8) : Prop := ∀ c ∈ name, 0x20 ≤ c ∧ c ≠ quote ∧ c ≠ backslash

instance (name : List UInt8) : Decidable (IsName name) :=
  List.decidableBAll (fun c => 0x20 ≤ c ∧ c ≠ quote ∧ c ≠ backslash) name

theorem chars_of_isName (h : IsName s) (r : List UInt8) : Chars s (s ++ quote :: r) r := by
  induction s with
  | nil => exact .close
  | cons c s ih =>
    obtain ⟨hc, hs⟩ := List.forall_mem_cons.mp h
    exact .plain hc.1 hc.2.1 hc.2.2 (ih hs)

theorem skip_cons {c : UInt8} (h : isSpace c = false) (t : List UInt8) :
    skip (c :: t) = c :: t := by
  rw [skip, List.dropWhile_cons, h, if_neg Bool.false_ne_true]

theorem ends_cons {c : UInt8} (h : isNumeric c = false) (t : List UInt8) : Ends (c :: t) := by
  rintro d ⟨⟩
  exact h

theorem Compact.denotes (h : Compact v t) : Denotes t v := by
  have hskip := h.skip_append []
  have hread := h.reads [] (by rintro c ⟨⟩)
  rw [List.append_nil] at hskip hread
  refine ⟨[], ?_, rfl⟩
  rwa [hskip]

end JsonGrammar

end TarkovVoice

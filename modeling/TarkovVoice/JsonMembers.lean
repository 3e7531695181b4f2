import TarkovVoice.JsonGrammar

/-!
# Objects with the texts of their values

A reader of JSON may keep the text of a value as it stands, and only look into it later or pass it
on. So what it makes of an object is a list of entries: the name of each member, its value, and the
text of that value, without the blanks around it. A text is read into entries in one way only, and
dropping their texts gives the value that the text denotes.

Readers also limit how deep brackets may be nested; `Within` says that a value keeps such a limit.

## Main definitions

* `Entry`, `IsObjectOf` — the members of an object, with the texts of their values
* `objectText`, `arrayText` — objects and arrays written without blanks
* `Within`

## Main results

* `IsObjectOf.unique`, `IsObjectOf.denotes`
* `isObjectOf_objectText`, `compact_objectText`, `compact_arrayText` — what is written is read
-/

namespace TarkovVoice

namespace JsonGrammar

/-- A member of an object as it is read: its name, its value, and how the value is written. The text
matters to whoever takes a value over unread. -/
structure Entry where
  name : List UInt8
  value : Json
  /-- The text of the value. -/
  text : List UInt8

/-- The member as a part of the value that the object denotes. -/
def Entry.member (e : Entry) : List UInt8 × Json := (e.name, e.value)

/-- Reading a name, a colon and a value. The text of the value begins where the blanks behind the
colon end, and ends where the value does. -/
inductive ReadsEntry (e : Entry) (t r : List UInt8) : Prop
  | mk {u w x : List UInt8} : t = quote :: u → Chars e.name u w → skip w = colon :: x →
      skip x = e.text ++ r → Reads e.value (e.text ++ r) r → ReadsEntry e t r

/-- Reading the entries of an object, up to and with the closing brace. There is at least one; an
object without members has no reading here. -/
inductive ReadsEntries : List Entry → List UInt8 → List UInt8 → Prop
  | last {e : Entry} {t u r : List UInt8} : ReadsEntry e t u → skip u = closeBrace :: r →
      ReadsEntries [e] t r
  | more {e : Entry} {es : List Entry} {t u w r : List UInt8} : ReadsEntry e t u →
      skip u = comma :: w → ReadsEntries es (skip w) r → ReadsEntries (e :: es) t r

/-- The text is one of an object with these entries, of which there is at least one, in this order,
with any blanks between them. -/
def IsObjectOf (t : List UInt8) (es : List Entry) : Prop :=
  ∃ u r, skip t = openBrace :: u ∧ ReadsEntries es (skip u) r ∧ skip r = []

/-- The brackets of the value are nested no deeper than this. Readers of JSON refuse what is nested
too deep for them. -/
inductive Within : ℕ → Json → Prop
  | null {n : ℕ} : Within n .null
  | bool {n : ℕ} {b : Bool} : Within n (.bool b)
  | number {n : ℕ} {u : List UInt8} : Within n (.number u)
  | string {n : ℕ} {s : List UInt8} : Within n (.string s)
  | array {n : ℕ} {l : List Json} : (∀ v ∈ l, Within n v) → Within (n + 1) (.array l)
  | object {n : ℕ} {ms : List (List UInt8 × Json)} : (∀ m ∈ ms, Within n m.2) →
      Within (n + 1) (.object ms)

/-! ### One way of reading -/

variable {e e' : Entry} {es es' : List Entry} {t u r r' : List UInt8}

theorem ReadsEntry.unique (h : ReadsEntry e t r) (h' : ReadsEntry e' t r') : e = e' ∧ r = r' := by
  obtain ⟨ht, hname, hcolon, htext, hvalue⟩ := h
  obtain ⟨ht', hname', hcolon', htext', hvalue'⟩ := h'
  obtain ⟨name, value, text⟩ := e
  obtain ⟨name', value', text'⟩ := e'
  obtain rfl := (List.cons.inj (ht.symm.trans ht')).2
  obtain ⟨rfl, rfl⟩ := hname.unique hname'
  obtain rfl := (List.cons.inj (hcolon.symm.trans hcolon')).2
  -- both values begin at the same place, so they end at the same place
  have hsame : text ++ r = text' ++ r' := htext.symm.trans htext'
  simp only at hvalue hvalue'
  rw [← hsame] at hvalue'
  obtain ⟨rfl, rfl⟩ := hvalue.unique hvalue'
  obtain rfl := List.append_cancel_right hsame
  exact ⟨rfl, rfl⟩

theorem ReadsEntries.unique (h : ReadsEntries es t r) :
    ∀ {es' : List Entry} {r' : List UInt8}, ReadsEntries es' t r' → es = es' ∧ r = r' := by
  induction h with
  | last he hclose =>
    intro es' r' h'
    cases h' with
    | last he' hclose' =>
      obtain ⟨rfl, rfl⟩ := he.unique he'
      exact ⟨rfl, (List.cons.inj (hclose.symm.trans hclose')).2⟩
    | more he' hcomma' hes' =>
      obtain ⟨rfl, rfl⟩ := he.unique he'
      exact absurd (List.cons.inj (hclose.symm.trans hcomma')).1 (by decide)
  | more he hcomma _ ih =>
    intro es' r' h'
    cases h' with
    | last he' hclose' =>
      obtain ⟨rfl, rfl⟩ := he.unique he'
      exact absurd (List.cons.inj (hcomma.symm.trans hclose')).1 (by decide)
    | more he' hcomma' hes' =>
      obtain ⟨rfl, rfl⟩ := he.unique he'
      obtain rfl := (List.cons.inj (hcomma.symm.trans hcomma')).2
      obtain ⟨rfl, hrest⟩ := ih hes'
      exact ⟨rfl, hrest⟩

/-- **A text is read into entries in one way.** Names and values are determined by the grammar, and
the texts of the values by where they begin and end. -/
theorem IsObjectOf.unique (h : IsObjectOf t es) (h' : IsObjectOf t es') : es = es' := by
  obtain ⟨u, r, hopen, hes, -⟩ := h
  obtain ⟨u', r', hopen', hes', -⟩ := h'
  obtain rfl := (List.cons.inj (hopen.symm.trans hopen')).2
  exact (hes.unique hes').1

theorem ReadsEntry.member (h : ReadsEntry e t r) : ReadsMember e.member t r := by
  obtain ⟨ht, hname, hcolon, htext, hvalue⟩ := h
  refine .mk ht hname hcolon ?_
  rwa [htext]

theorem ReadsEntries.members (h : ReadsEntries es t r) :
    ReadsMembers (es.map Entry.member) t r := by
  induction h with
  | last he hclose => exact .last he.member hclose
  | more he hcomma _ ih => exact .more he.member hcomma ih

/-- **Dropping the texts** gives the value that the text denotes. So the entries say more than the
value, and nothing else. -/
theorem IsObjectOf.denotes (h : IsObjectOf t es) :
    Denotes t (.object (es.map Entry.member)) := by
  obtain ⟨u, r, hopen, hes, hend⟩ := h
  exact ⟨r, .object hopen hes.members, hend⟩

/-! ### Texts without blanks -/

/-- Texts with commas between them, and no comma behind the last. It is how lists of members and of
elements are written. -/
def joined : List (List UInt8) → List UInt8
  | [] => []
  | t :: ts => t ++ ts.flatMap (comma :: ·)

theorem joined_singleton (t : List UInt8) : joined [t] = t := List.append_nil t

theorem joined_cons_cons (t t' r : List UInt8) (ts : List (List UInt8)) :
    joined (t :: t' :: ts) ++ r = t ++ comma :: (joined (t' :: ts) ++ r) := by
  simp [joined]

/-- An object, its entries written one after the other. The texts of the values go in as they are,
and no blanks are added. -/
def objectText (es : List Entry) : List UInt8 :=
  openBrace :: (joined (es.map fun e => member e.name e.text) ++ [closeBrace])

/-- An array, its elements written one after the other. -/
def arrayText (items : List (Json × List UInt8)) : List UInt8 :=
  openBracket :: (joined (items.map Prod.snd) ++ [closeBracket])

/-- An entry that is written as it is: nothing in its name needs an escape. -/
structure Entry.Plain (e : Entry) : Prop where
  name : IsName e.name
  text : Compact e.value e.text

theorem plain_entry {name text : List UInt8} {v : Json} (hname : IsName name)
    (htext : Compact v text) : Entry.Plain ⟨name, v, text⟩ := ⟨hname, htext⟩

theorem Entry.Plain.reads (h : e.Plain) (hr : Ends r) :
    ReadsEntry e (JsonGrammar.member e.name e.text ++ r) r := by
  have hcons : JsonGrammar.member e.name e.text ++ r =
      quote :: (e.name ++ quote :: (colon :: (e.text ++ r))) := by
    simp [JsonGrammar.member]
  exact .mk hcons (chars_of_isName h.name _) (skip_cons rfl _) (h.text.skip_append r)
    (h.text.reads r hr)

theorem skip_entries (hne : es ≠ []) (r : List UInt8) :
    skip (joined (es.map fun e => member e.name e.text) ++ r) =
      joined (es.map fun e => member e.name e.text) ++ r := by
  obtain ⟨e, es, rfl⟩ := List.exists_cons_of_ne_nil hne
  cases es with
  | nil => exact skip_cons rfl _
  | cons e' es => exact skip_cons rfl _

theorem readsEntries_joined (hne : es ≠ []) (h : ∀ e ∈ es, e.Plain) (r : List UInt8) :
    ReadsEntries es
      (joined (es.map fun e => member e.name e.text) ++ closeBrace :: r) r := by
  induction es with
  | nil => exact absurd rfl hne
  | cons e es ih =>
    obtain ⟨he, hes⟩ := List.forall_mem_cons.mp h
    cases es with
    | nil =>
      rw [List.map_singleton, joined_singleton]
      exact .last (he.reads (ends_cons rfl _)) (skip_cons rfl _)
    | cons e' es =>
      have hne' : e' :: es ≠ [] := List.cons_ne_nil _ _
      have hrest := ih hne' hes
      rw [List.map_cons, List.map_cons, joined_cons_cons,
        ← List.map_cons (f := fun e : Entry => member e.name e.text)]
      refine .more (he.reads (ends_cons rfl _)) (skip_cons rfl _) ?_
      rwa [skip_entries hne']

/-- **An object that is written** is read into its entries, if it has any, and each is written as it
is. -/
theorem isObjectOf_objectText (hne : es ≠ []) (h : ∀ e ∈ es, e.Plain) :
    IsObjectOf (objectText es) es := by
  refine ⟨_, [], skip_cons rfl _, ?_, rfl⟩
  rw [skip_entries hne]
  exact readsEntries_joined hne h []

/-- An object can be written inside of a value. It has at least one member, each of which is plain;
the texts of their values may be objects again. -/
theorem compact_objectText (hne : es ≠ []) (h : ∀ e ∈ es, e.Plain) :
    Compact (.object (es.map Entry.member)) (objectText es) := by
  refine ⟨⟨openBrace, rfl, rfl⟩, fun r _ => ?_⟩
  have hcons : objectText es ++ r = openBrace ::
      (joined (es.map fun e => member e.name e.text) ++ closeBrace :: r) := by
    simp [objectText]
  refine .object hcons ?_
  rw [skip_entries hne]
  exact (readsEntries_joined hne h r).members

theorem readsItems_joined {items : List (Json × List UInt8)} (hne : items ≠ [])
    (h : ∀ p ∈ items, Compact p.1 p.2) (r : List UInt8) :
    ReadsItems (items.map Prod.fst)
        (joined (items.map Prod.snd) ++ closeBracket :: r) r ∧
      skip (joined (items.map Prod.snd) ++ closeBracket :: r) =
        joined (items.map Prod.snd) ++ closeBracket :: r := by
  induction items with
  | nil => exact absurd rfl hne
  | cons p items ih =>
    obtain ⟨hp, hitems⟩ := List.forall_mem_cons.mp h
    cases items with
    | nil =>
      rw [List.map_singleton, List.map_singleton, joined_singleton]
      exact ⟨.last (hp.reads _ (ends_cons rfl _)) (skip_cons rfl _), hp.skip_append _⟩
    | cons p' items =>
      obtain ⟨hread, hskip⟩ := ih (List.cons_ne_nil _ _) hitems
      rw [List.map_cons (f := Prod.snd), List.map_cons (f := Prod.snd), joined_cons_cons,
        ← List.map_cons (f := Prod.snd)]
      refine ⟨.more (hp.reads _ (ends_cons rfl _)) (skip_cons rfl _) ?_, hp.skip_append _⟩
      rwa [hskip]

/-- An array can be written inside of a value, also an empty one. -/
theorem compact_arrayText {items : List (Json × List UInt8)} (h : ∀ p ∈ items, Compact p.1 p.2) :
    Compact (.array (items.map Prod.fst)) (arrayText items) := by
  refine ⟨⟨openBracket, rfl, rfl⟩, fun r _ => ?_⟩
  have hcons : arrayText items ++ r = openBracket ::
      (joined (items.map Prod.snd) ++ closeBracket :: r) := by
    simp [arrayText]
  by_cases hne : items = []
  · subst hne
    exact .noItems hcons (skip_cons rfl _)
  · obtain ⟨hread, hskip⟩ := readsItems_joined hne h r
    refine .array hcons ?_
    rwa [hskip]

end JsonGrammar

end TarkovVoice

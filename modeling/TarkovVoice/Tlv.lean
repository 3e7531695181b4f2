import TarkovVoice.BigEndian

/-!
# Attributes in type-length-value form

A sequence of attributes in a byte string: for each, two bytes of type, two of length, the value,
and zeros up to a multiple of four. The length leaves the zeros out.

`walk` looks for the first attribute that `select` accepts, in a part of a byte string that need not
be written this way. It gives up at an attribute that overruns the end.

## Main definitions

* `Tlv.Attribute`, `Tlv.encode`
* `Tlv.walk`

## Main results

* `Tlv.walk_encode` — in written attributes, `walk` finds the first that is selected
-/

namespace TarkovVoice

namespace Tlv

open BigEndian

structure Attribute where
  type : UInt16
  value : List UInt8
  deriving DecidableEq

/-- The next multiple of four. It is how far an attribute's value reaches, with the zeros
behind it. -/
def padded (n : ℕ) : ℕ := (n + 3) / 4 * 4

theorem le_padded (n : ℕ) : n ≤ padded n := by
  rw [padded]
  omega

/-- One attribute as bytes: its type, the length of its value, the value and the zeros. The length
does not count the zeros. -/
def encodeOne (a : Attribute) : List UInt8 :=
  bytes 2 a.type.toNat ++ (bytes 2 a.value.length ++
    (a.value ++ List.replicate (padded a.value.length - a.value.length) 0))

/-- A sequence of attributes as bytes. -/
def encode (l : List Attribute) : List UInt8 := l.flatMap encodeOne

theorem length_encodeOne (a : Attribute) :
    (encodeOne a).length = 4 + padded a.value.length := by
  have hle := le_padded a.value.length
  simp only [encodeOne, List.length_append, length_bytes, List.length_replicate]
  omega

/-! ### Reading -/

variable {β : Type*} (select : Attribute → Option β) (data : List UInt8) (stop : ℕ)

/-- The type of the attribute at a position. -/
def typeAt (pos : ℕ) : UInt16 := UInt16.ofNat (value (slice data pos 2))

/-- The length of the attribute at a position. -/
def lengthAt (pos : ℕ) : ℕ := value (slice data (pos + 2) 2)

/-- The attribute at a position. -/
def attributeAt (pos : ℕ) : Attribute where
  type := typeAt data pos
  value := slice data (pos + 4) (lengthAt data pos)

/-- The first selected attribute from a position on. The walk ends where the next header or value
would reach beyond `stop`, with nothing, and does not ask whether the bytes are there. -/
def walk (pos : ℕ) : Option β :=
  if pos + 4 ≤ stop then
    if stop < pos + 4 + lengthAt data pos then none
    else
      match select (attributeAt data pos) with
      | some b => some b
      | none => walk (pos + 4 + padded (lengthAt data pos))
  else none
termination_by stop - pos

variable {select data stop} {pos : ℕ} {a : Attribute} {u v : List UInt8}

theorem slice_append_right (i n : ℕ) : slice (u ++ v) (u.length + i) n = slice v i n := by
  rw [slice, List.drop_length_add_append, slice]

/-- Reading an attribute back, whatever stands in front of it and behind. Its value has a length
that fits two bytes. -/
theorem attributeAt_append (h : a.value.length < 256 ^ 2) :
    lengthAt (u ++ (encodeOne a ++ v)) u.length = a.value.length ∧
      attributeAt (u ++ (encodeOne a ++ v)) u.length = a := by
  have htwo : ∀ n, (bytes 2 n).length = 2 := length_bytes 2
  have htype : slice (u ++ (encodeOne a ++ v)) u.length 2 = bytes 2 a.type.toNat := by
    rw [encodeOne, List.append_assoc]
    exact slice_of_append rfl (htwo _)
  have hlength : lengthAt (u ++ (encodeOne a ++ v)) u.length = a.value.length := by
    rw [lengthAt, slice_append_right, encodeOne, List.append_assoc, List.append_assoc,
      slice_of_append (htwo _) (htwo _), value_bytes_of_lt h]
  have hvalue : slice (u ++ (encodeOne a ++ v)) (u.length + 4) a.value.length = a.value := by
    rw [slice_append_right, encodeOne, List.append_assoc, List.append_assoc, List.append_assoc,
      ← List.append_assoc]
    refine slice_of_append ?_ rfl
    rw [List.length_append, htwo, htwo]
  refine ⟨hlength, ?_⟩
  rw [attributeAt, hlength, hvalue, typeAt, htype, value_bytes_of_lt a.type.toNat_lt,
    UInt16.ofNat_toNat]

/-- **Attributes that were written** are walked over one by one, up to the first that is selected.
The walk begins and stops where they do; what stands around them is not looked at. -/
theorem walk_encode (l : List Attribute) {u v : List UInt8}
    (hstop : stop = u.length + (encode l).length) (hlt : (encode l).length < 256 ^ 2) :
    walk select (u ++ (encode l ++ v)) stop u.length = l.findSome? select := by
  induction l generalizing u with
  | nil =>
    rw [walk, if_neg, List.findSome?_nil]
    rw [hstop, encode, List.flatMap_nil, List.length_nil]
    omega
  | cons a l ih =>
    have hle := le_padded a.value.length
    have hcons : encode (a :: l) = encodeOne a ++ encode l := List.flatMap_cons
    rw [hcons, List.length_append, length_encodeOne] at hstop hlt
    obtain ⟨hlength, hattribute⟩ :=
      @attributeAt_append a u (encode l ++ v) (by omega)
    rw [hcons, List.append_assoc, walk, if_pos (by omega), hlength, if_neg (by omega), hattribute,
      List.findSome?_cons]
    cases select a with
    | some b => rfl
    | none =>
      -- go on behind the attribute
      have hnext : u.length + 4 + padded a.value.length = (u ++ encodeOne a).length := by
        rw [List.length_append, length_encodeOne]
        omega
      dsimp only
      rw [hnext, ← List.append_assoc]
      exact ih (by omega) (by omega)

/-- What a walk finds was selected. -/
theorem exists_of_walk {b : β} (h : walk select data stop pos = some b) :
    ∃ a, select a = some b := by
  fun_induction walk select data stop pos with
  | case1 pos hpos hover => exact absurd h (Option.some_ne_none b).symm
  | case2 pos hpos hover b' hselect => exact ⟨_, hselect.trans h⟩
  | case3 pos hpos hover hselect ih => exact ih h
  | case4 pos hpos => exact absurd h (Option.some_ne_none b).symm

end Tlv

end TarkovVoice

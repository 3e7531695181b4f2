import TarkovVoice.BigEndian
import TarkovVoice.Net.Bytes

/-!
# The voice datagram

`encodePacket` and `decodePacket` of `client/src/net/DirectVoiceTransport.cpp`, with the helpers
they are built from. A `std::string` and a `std::vector<std::uint8_t>` are both byte strings.

## Reading

Indexing a vector past its end is undefined behaviour, so every access of the model goes through
`byteAt` or `range`, which stop with `outOfBounds` where the access would be outside. A check that
fails stops with `nullopt`. That the first never happens is a theorem, not an assumption.

`pos` is a `std::size_t`. The sums that are compared with the size are reduced to 64 bits, as the
machine does.

## Main definitions

* `encodePacket`, `decodePacket`

## Main results

* `decodePacket_eq` — what `decodePacket` computes, in terms of the slices of the datagram
* `decodePacket_encodePacket` — round trip, with anything after it and cut anywhere
* `decodePacket_accepts` — which datagrams are accepted, and what re-encoding one gives
-/

namespace TarkovVoice

namespace Net

/-- `kPacketMagic`. -/
def kPacketMagic : Bytes := [84, 86, 79, 65]

@[simp] theorem length_kPacketMagic : kPacketMagic.length = 4 := rfl

/-- `kPacketVersion`. -/
def kPacketVersion : UInt8 := 1

/-- `kPacketPing`. -/
def kPacketPing : UInt8 := 1

/-- `kPacketVoice`. -/
def kPacketVoice : UInt8 := 2

/-- `kMaxUdpPayloadBytes`. -/
def kMaxUdpPayloadBytes : ℕ := 1200

/-! ### Writing -/

/-- `appendU16`. -/
def appendU16 (out : Bytes) (value : UInt16) : Bytes :=
  out ++ [((value >>> 8) &&& 0xff).toUInt8, (value &&& 0xff).toUInt8]

/-- `appendU32`. -/
def appendU32 (out : Bytes) (value : UInt32) : Bytes :=
  out ++ [((value >>> 24) &&& 0xff).toUInt8, ((value >>> 16) &&& 0xff).toUInt8,
    ((value >>> 8) &&& 0xff).toUInt8, (value &&& 0xff).toUInt8]

/-- `appendU64`, whose loop runs over the shifts from 56 down to 0. -/
def appendU64 (out : Bytes) (value : UInt64) : Bytes :=
  ([56, 48, 40, 32, 24, 16, 8, 0] : List UInt64).foldl
    (fun out shift => out ++ [((value >>> shift) &&& 0xff).toUInt8]) out

/-- `encodePacket`. The empty vector stands for a packet that cannot be encoded. -/
def encodePacket (type : UInt8) (roomId sourcePeerId : Bytes) (sequence : UInt32)
    (captureUnixMs : Int64) (payload : Bytes) : Bytes :=
  if payload.length > kMaxUdpPayloadBytes ∨ roomId.length > 0xffff ∨
      sourcePeerId.length > 0xffff then []
  else
    let out := kPacketMagic
    let out := out ++ [kPacketVersion]
    let out := out ++ [type]
    let out := appendU16 out 0
    let out := appendU32 out sequence
    let out := appendU64 out (max 0 captureUnixMs).toUInt64
    let out := appendU16 out (UInt16.ofNat sourcePeerId.length)
    let out := appendU16 out (UInt16.ofNat roomId.length)
    let out := appendU32 out (UInt32.ofNat payload.length)
    let out := out ++ sourcePeerId
    let out := out ++ roomId
    out ++ payload

/-! ### Reading -/

/-- Why `decodePacket` stops early. The model checks each read, so that a read outside the vector
shows as a result of its own. -/
inductive Stop
  /-- A check failed, and `std::nullopt` is returned. -/
  | nullopt
  /-- A read outside the vector. -/
  | outOfBounds
  deriving DecidableEq

/-- Arithmetic in `std::size_t`. -/
def sizeT (n : ℕ) : ℕ := n % 2 ^ 64

/-- `data[pos]`. -/
def byteAt (data : Bytes) (pos : ℕ) : Except Stop UInt8 :=
  match data[pos]? with
  | some b => .ok b
  | none => .error .outOfBounds

/-- The bytes from `data + i` up to `data + j`. -/
def range (data : Bytes) (i j : ℕ) : Except Stop Bytes :=
  if i ≤ j ∧ j ≤ data.length then .ok (slice data i (j - i)) else .error .outOfBounds

/-- `std::equal` of `expected` with what starts at `pos`. -/
def equalAt (data : Bytes) : ℕ → Bytes → Except Stop Bool
  | _, [] => .ok true
  | pos, b :: expected => do
    let b' ← byteAt data pos
    if b' = b then equalAt data (pos + 1) expected else .ok false

/-- Return `std::nullopt` unless the condition holds, and go on if it does. -/
def require (p : Prop) [Decidable p] : Except Stop Unit :=
  if p then .ok () else .error .nullopt

/-- `readU16`, with the new `pos`. Where it returns false the caller returns `std::nullopt`, and so
does it here. -/
def readU16 (data : Bytes) (pos : ℕ) : Except Stop (UInt16 × ℕ) := do
  require ¬ (sizeT (pos + 2) > data.length)
  let b0 ← byteAt data pos
  let b1 ← byteAt data (pos + 1)
  return ((b0.toUInt16 <<< 8) ||| b1.toUInt16, pos + 2)

/-- `readU32`. -/
def readU32 (data : Bytes) (pos : ℕ) : Except Stop (UInt32 × ℕ) := do
  require ¬ (sizeT (pos + 4) > data.length)
  let b0 ← byteAt data pos
  let b1 ← byteAt data (pos + 1)
  let b2 ← byteAt data (pos + 2)
  let b3 ← byteAt data (pos + 3)
  return ((b0.toUInt32 <<< 24) ||| (b1.toUInt32 <<< 16) ||| (b2.toUInt32 <<< 8) ||| b3.toUInt32,
    pos + 4)

/-- The loop of `readU64`: `out = (out << 8) | data[pos + i]`, `n` times. -/
def readU64Loop (data : Bytes) : ℕ → ℕ → UInt64 → Except Stop UInt64
  | 0, _, out => .ok out
  | n + 1, pos, out => do
    let b ← byteAt data pos
    readU64Loop data n (pos + 1) ((out <<< 8) ||| b.toUInt64)

/-- `readU64`. -/
def readU64 (data : Bytes) (pos : ℕ) : Except Stop (UInt64 × ℕ) := do
  require ¬ (sizeT (pos + 8) > data.length)
  let out ← readU64Loop data 8 pos 0
  return (out, pos + 8)

structure DecodedPacket where
  type : UInt8
  roomId : Bytes
  sourcePeerId : Bytes
  sequence : UInt32
  captureUnixMs : Int64
  payload : Bytes
  deriving DecidableEq

/-- `decodePacket`. `raw` is the memory it is given and `size` how much of it to read. -/
def decodePacket (raw : Bytes) (size : ℤ) : Except Stop DecodedPacket := do
  require ¬ (size ≤ 0)
  let data ← range raw 0 size.toNat
  require ¬ (data.length < 24)
  let magic ← equalAt data 0 kPacketMagic
  require magic
  let pos := kPacketMagic.length
  let version ← byteAt data pos
  let pos := pos + 1
  require (version = kPacketVersion)
  let type ← byteAt data pos
  let pos := pos + 1
  let (_, pos) ← readU16 data pos
  let (sequence, pos) ← readU32 data pos
  let (captureMs, pos) ← readU64 data pos
  let (sourceLen, pos) ← readU16 data pos
  let (roomLen, pos) ← readU16 data pos
  let (payloadLen, pos) ← readU32 data pos
  require ¬ (sizeT (pos + sourceLen.toNat + roomLen.toNat + payloadLen.toNat) > data.length)
  let captureUnixMs := captureMs.toInt64
  let sourcePeerId ← range data pos (pos + sourceLen.toNat)
  let pos := pos + sourceLen.toNat
  let roomId ← range data pos (pos + roomLen.toNat)
  let pos := pos + roomLen.toNat
  let payload ← range data pos (pos + payloadLen.toNat)
  return { type, roomId, sourcePeerId, sequence, captureUnixMs, payload }

/-! ### Bytes of a number -/

open BigEndian

theorem and_ff (n : ℕ) : (n &&& 255) % 256 = n % 256 := by
  have h : n &&& 255 = n % 256 := Nat.and_two_pow_sub_one_eq_mod n 8
  rw [h, Nat.mod_mod]

theorem lowByte16 (v : UInt16) : (v &&& 0xff).toUInt8 = UInt8.ofNat v.toNat := by
  refine UInt8.toNat_inj.mp ?_
  rw [UInt16.toNat_toUInt8, UInt16.toNat_and, UInt8.toNat_ofNat']
  exact and_ff _

theorem lowByte32 (v : UInt32) : (v &&& 0xff).toUInt8 = UInt8.ofNat v.toNat := by
  refine UInt8.toNat_inj.mp ?_
  rw [UInt32.toNat_toUInt8, UInt32.toNat_and, UInt8.toNat_ofNat']
  exact and_ff _

theorem lowByte64 (v : UInt64) : (v &&& 0xff).toUInt8 = UInt8.ofNat v.toNat := by
  refine UInt8.toNat_inj.mp ?_
  rw [UInt64.toNat_toUInt8, UInt64.toNat_and, UInt8.toNat_ofNat']
  exact and_ff _

theorem appendU16_eq (out : Bytes) (v : UInt16) : appendU16 out v = out ++ bytes 2 v.toNat := by
  have h8 : (v >>> 8).toNat = v.toNat / 256 := Nat.shiftRight_eq_div_pow _ 8
  rw [appendU16, lowByte16, lowByte16, h8]
  simp [bytes]

theorem appendU32_eq (out : Bytes) (v : UInt32) : appendU32 out v = out ++ bytes 4 v.toNat := by
  have h24 : (v >>> 24).toNat = v.toNat / 256 ^ 3 := Nat.shiftRight_eq_div_pow _ 24
  have h16 : (v >>> 16).toNat = v.toNat / 256 ^ 2 := Nat.shiftRight_eq_div_pow _ 16
  have h8 : (v >>> 8).toNat = v.toNat / 256 := Nat.shiftRight_eq_div_pow _ 8
  rw [appendU32, lowByte32, lowByte32, lowByte32, lowByte32, h24, h16, h8]
  simp [bytes]

theorem appendU64_eq (out : Bytes) (v : UInt64) : appendU64 out v = out ++ bytes 8 v.toNat := by
  have hshift : ∀ s : ℕ, s < 64 → (v >>> UInt64.ofNat s).toNat = v.toNat / 2 ^ s := by
    intro s hs
    have hmod : (UInt64.ofNat s).toNat % 64 = s := by
      rw [UInt64.toNat_ofNat']
      omega
    rw [UInt64.toNat_shiftRight, hmod, Nat.shiftRight_eq_div_pow]
  have hloop : ∀ (l : List ℕ) (out : Bytes), (∀ s ∈ l, s < 64) →
      (l.map UInt64.ofNat).foldl (fun out shift => out ++ [((v >>> shift) &&& 0xff).toUInt8]) out =
        out ++ l.map fun s => UInt8.ofNat (v.toNat / 2 ^ s) := by
    intro l
    induction l with
    | nil => intro out _; simp
    | cons s l ih =>
      intro out hl
      rw [List.map_cons, List.foldl_cons, ih _ fun s hs => hl s (List.mem_cons_of_mem _ hs),
        lowByte64, hshift s (hl s (List.mem_cons_self ..)), List.map_cons, List.append_assoc,
        List.singleton_append]
  exact hloop [56, 48, 40, 32, 24, 16, 8, 0] out (by decide)

theorem shiftLeft_or (a : ℕ) (b : UInt8) : a <<< 8 ||| b.toNat = a * 256 + b.toNat := by
  rw [← Nat.shiftLeft_add_eq_or_of_lt b.toNat_lt, Nat.shiftLeft_eq]

theorem join16 (b0 b1 : UInt8) :
    (b0.toUInt16 <<< 8) ||| b1.toUInt16 = UInt16.ofNat (value [b0, b1]) := by
  refine UInt16.toNat_inj.mp ?_
  have h0 := b0.toNat_lt
  have h1 := b1.toNat_lt
  have hleft : (b0.toUInt16 <<< 8).toNat = b0.toNat <<< 8 := by
    have h8 : (8 : UInt16).toNat % 16 = 8 := rfl
    rw [UInt16.toNat_shiftLeft, UInt8.toNat_toUInt16, h8]
    simp only [Nat.shiftLeft_eq]
    omega
  rw [UInt16.toNat_or, hleft, UInt8.toNat_toUInt16, shiftLeft_or, UInt16.toNat_ofNat']
  simp [value]
  omega

theorem join32 (b0 b1 b2 b3 : UInt8) :
    (b0.toUInt32 <<< 24) ||| (b1.toUInt32 <<< 16) ||| (b2.toUInt32 <<< 8) ||| b3.toUInt32 =
      UInt32.ofNat (value [b0, b1, b2, b3]) := by
  refine UInt32.toNat_inj.mp ?_
  have h0 := b0.toNat_lt
  have h1 := b1.toNat_lt
  have h2 := b2.toNat_lt
  have h3 := b3.toNat_lt
  have h24 : (b0.toUInt32 <<< 24).toNat = ((b0.toNat <<< 8) <<< 8) <<< 8 := by
    have h : (24 : UInt32).toNat % 32 = 24 := rfl
    rw [UInt32.toNat_shiftLeft, UInt8.toNat_toUInt32, h]
    simp only [Nat.shiftLeft_eq]
    omega
  have h16 : (b1.toUInt32 <<< 16).toNat = (b1.toNat <<< 8) <<< 8 := by
    have h : (16 : UInt32).toNat % 32 = 16 := rfl
    rw [UInt32.toNat_shiftLeft, UInt8.toNat_toUInt32, h]
    simp only [Nat.shiftLeft_eq]
    omega
  have h8 : (b2.toUInt32 <<< 8).toNat = b2.toNat <<< 8 := by
    have h : (8 : UInt32).toNat % 32 = 8 := rfl
    rw [UInt32.toNat_shiftLeft, UInt8.toNat_toUInt32, h]
    simp only [Nat.shiftLeft_eq]
    omega
  rw [UInt32.toNat_or, UInt32.toNat_or, UInt32.toNat_or, h24, h16, h8, UInt8.toNat_toUInt32,
    ← Nat.shiftLeft_or_distrib, ← Nat.shiftLeft_or_distrib, ← Nat.shiftLeft_or_distrib,
    shiftLeft_or, shiftLeft_or, shiftLeft_or, UInt32.toNat_ofNat']
  simp only [value, List.length_cons, List.length_nil]
  omega

theorem join64 (out : UInt64) (b : UInt8) :
    (out <<< 8) ||| b.toUInt64 = UInt64.ofNat (out.toNat * 256 + b.toNat) := by
  refine UInt64.toNat_inj.mp ?_
  have hb := b.toNat_lt
  have hleft : (out <<< 8).toNat = (out.toNat % 2 ^ 56) <<< 8 := by
    have h8 : (8 : UInt64).toNat % 64 = 8 := rfl
    rw [UInt64.toNat_shiftLeft, h8, Nat.shiftLeft_eq, Nat.shiftLeft_eq]
    omega
  rw [UInt64.toNat_or, hleft, UInt8.toNat_toUInt64, shiftLeft_or, UInt64.toNat_ofNat']
  omega

/-! ### Reading in bounds -/

@[simp] theorem ok_bind {α β : Type} (a : α) (f : α → Except Stop β) :
    ((Except.ok a : Except Stop α) >>= f) = f a := rfl

@[simp] theorem error_bind {α β : Type} (e : Stop) (f : α → Except Stop β) :
    ((Except.error e : Except Stop α) >>= f) = .error e := rfl

theorem require_of {p : Prop} [Decidable p] (h : p) : require p = .ok () := if_pos h

theorem require_of_not {p : Prop} [Decidable p] (h : ¬ p) : require p = .error .nullopt := if_neg h

theorem byteAt_of_lt {data : Bytes} {pos : ℕ} (h : pos < data.length) :
    byteAt data pos = .ok data[pos] := by
  rw [byteAt, List.getElem?_eq_getElem h]

theorem range_of_le {data : Bytes} {i n : ℕ} (h : i + n ≤ data.length) :
    range data i (i + n) = .ok (slice data i n) := by
  rw [range, if_pos ⟨Nat.le_add_right i n, h⟩, Nat.add_sub_cancel_left]

theorem equalAt_of_le {data : Bytes} (expected : Bytes) {pos : ℕ}
    (h : pos + expected.length ≤ data.length) :
    equalAt data pos expected = .ok (decide (slice data pos expected.length = expected)) := by
  induction expected generalizing pos with
  | nil => simp [equalAt, slice]
  | cons b expected ih =>
    rw [List.length_cons] at h
    have hpos : pos < data.length := by omega
    rw [equalAt, byteAt_of_lt hpos, List.length_cons, slice_succ hpos, ok_bind]
    by_cases hb : data[pos] = b
    · rw [if_pos hb, ih (by omega), hb]
      simp
    · rw [if_neg hb]
      simp [hb]

theorem sizeT_of_lt {n : ℕ} (h : n < 2 ^ 64) : sizeT n = n := Nat.mod_eq_of_lt h

theorem readU16_of_le {data : Bytes} {pos : ℕ} (h : pos + 2 ≤ data.length) (hpos : pos < 2 ^ 32) :
    readU16 data pos = .ok (UInt16.ofNat (value (slice data pos 2)), pos + 2) := by
  have hslice : slice data pos 2 = [data[pos], data[pos + 1]] := by
    rw [slice_succ (by omega), slice_succ (by omega)]
    rfl
  rw [readU16, sizeT_of_lt (by omega), require_of (by omega), byteAt_of_lt (by omega),
    byteAt_of_lt (by omega), hslice, ← join16]
  rfl

theorem readU32_of_le {data : Bytes} {pos : ℕ} (h : pos + 4 ≤ data.length) (hpos : pos < 2 ^ 32) :
    readU32 data pos = .ok (UInt32.ofNat (value (slice data pos 4)), pos + 4) := by
  have hslice : slice data pos 4 =
      [data[pos], data[pos + 1], data[pos + 2], data[pos + 3]] := by
    rw [slice_succ (by omega), slice_succ (by omega), slice_succ (by omega), slice_succ (by omega)]
    rfl
  rw [readU32, sizeT_of_lt (by omega), require_of (by omega), byteAt_of_lt (by omega),
    byteAt_of_lt (by omega), byteAt_of_lt (by omega), byteAt_of_lt (by omega), hslice, ← join32]
  rfl

theorem readU32_of_lt {data : Bytes} {pos : ℕ} (h : data.length < pos + 4) (hpos : pos < 2 ^ 32) :
    readU32 data pos = .error .nullopt := by
  rw [readU32, sizeT_of_lt (by omega), require_of_not (by omega), error_bind]

theorem readU64Loop_of_le {data : Bytes} (n : ℕ) {pos : ℕ} (out : UInt64)
    (h : pos + n ≤ data.length) :
    readU64Loop data n pos out =
      .ok (UInt64.ofNat (out.toNat * 256 ^ n + value (slice data pos n))) := by
  induction n generalizing pos out with
  | zero => simp [readU64Loop, slice, value]
  | succ n ih =>
    have hpos : pos < data.length := by omega
    have hlen : (slice data (pos + 1) n).length = n := length_slice (by omega)
    rw [readU64Loop, byteAt_of_lt hpos, ok_bind, ih _ (by omega), join64, slice_succ hpos, value,
      hlen]
    refine congrArg Except.ok (UInt64.toNat_inj.mp ?_)
    simp only [UInt64.toNat_ofNat']
    rw [Nat.add_mod, Nat.mod_mul_mod, ← Nat.add_mod]
    ring_nf

theorem readU64_of_le {data : Bytes} {pos : ℕ} (h : pos + 8 ≤ data.length) (hpos : pos < 2 ^ 32) :
    readU64 data pos = .ok (UInt64.ofNat (value (slice data pos 8)), pos + 8) := by
  rw [readU64, sizeT_of_lt (by omega), require_of (by omega), ok_bind, readU64Loop_of_le 8 0 h]
  simp

/-! ### Decoding -/

/-- The length the header declares for the source id. -/
def sourceLen (d : Bytes) : ℕ := value (slice d 20 2)

/-- The length the header declares for the room id. -/
def roomLen (d : Bytes) : ℕ := value (slice d 22 2)

/-- The length the header declares for the payload. -/
def payloadLen (d : Bytes) : ℕ := value (slice d 24 4)

/-- What the header announces, itself included. -/
def totalLen (d : Bytes) : ℕ := 28 + (sourceLen d + roomLen d + payloadLen d)

/-- The datagrams `decodePacket` accepts: a whole header with magic and version, and as many bytes
as its three lengths announce, or more. -/
def WellFormed (d : Bytes) : Prop :=
  28 ≤ d.length ∧ d.take 4 = kPacketMagic ∧ d[4]? = some kPacketVersion ∧ totalLen d ≤ d.length

instance (d : Bytes) : Decidable (WellFormed d) := inferInstanceAs (Decidable (_ ∧ _ ∧ _ ∧ _))

/-- The packet in a well formed datagram, read off its bytes at once. `decodePacket` gives it, after
all its checks. -/
def packetOf (d : Bytes) : DecodedPacket where
  type := d.getD 5 0
  roomId := slice d (28 + sourceLen d) (roomLen d)
  sourcePeerId := slice d 28 (sourceLen d)
  sequence := UInt32.ofNat (value (slice d 8 4))
  captureUnixMs := (UInt64.ofNat (value (slice d 12 8))).toInt64
  payload := slice d (28 + sourceLen d + roomLen d) (payloadLen d)

theorem value_slice_lt {d : Bytes} {i n : ℕ} (h : i + n ≤ d.length) :
    value (slice d i n) < 256 ^ n := by
  have hlt := value_lt (slice d i n)
  rwa [length_slice h] at hlt

theorem toNat_sourceLen {d : Bytes} (h : 28 ≤ d.length) :
    (UInt16.ofNat (value (slice d 20 2))).toNat = sourceLen d ∧ sourceLen d < 2 ^ 16 := by
  have hlt : sourceLen d < 2 ^ 16 := value_slice_lt (by omega)
  exact ⟨UInt16.toNat_ofNat'.trans (Nat.mod_eq_of_lt hlt), hlt⟩

theorem toNat_roomLen {d : Bytes} (h : 28 ≤ d.length) :
    (UInt16.ofNat (value (slice d 22 2))).toNat = roomLen d ∧ roomLen d < 2 ^ 16 := by
  have hlt : roomLen d < 2 ^ 16 := value_slice_lt (by omega)
  exact ⟨UInt16.toNat_ofNat'.trans (Nat.mod_eq_of_lt hlt), hlt⟩

theorem toNat_payloadLen {d : Bytes} (h : 28 ≤ d.length) :
    (UInt32.ofNat (value (slice d 24 4))).toNat = payloadLen d ∧ payloadLen d < 2 ^ 32 := by
  have hlt : payloadLen d < 2 ^ 32 := value_slice_lt (by omega)
  exact ⟨UInt32.toNat_ofNat'.trans (Nat.mod_eq_of_lt hlt), hlt⟩

/-- **What `decodePacket` computes.** -/
theorem decodePacket_eq (d : Bytes) :
    decodePacket d d.length = if WellFormed d then .ok (packetOf d) else .error .nullopt := by
  rw [decodePacket]
  by_cases hzero : d.length = 0
  · rw [require_of_not (by omega), error_bind, if_neg fun h => by have := h.1; omega]
  have hdata : range d 0 (d.length : ℤ).toNat = .ok d := by
    have hrange : range d 0 (0 + d.length) = _ := range_of_le (by omega)
    rw [Nat.zero_add, slice_zero, List.take_length] at hrange
    exact hrange
  rw [require_of (by omega), ok_bind, hdata, ok_bind]
  by_cases h24 : d.length < 24
  · rw [require_of_not (by omega), error_bind, if_neg fun h => by have := h.1; omega]
  rw [require_of h24, ok_bind, equalAt_of_le kPacketMagic (by simp [kPacketMagic]; omega), ok_bind]
  by_cases hmagic : d.take 4 = kPacketMagic
  swap
  · rw [require_of_not (by simpa [slice_zero, kPacketMagic] using hmagic), error_bind,
      if_neg fun h => hmagic h.2.1]
  have h4 : d[4]? = some d[4] := List.getElem?_eq_getElem (by omega)
  rw [require_of (by simpa [slice_zero, kPacketMagic] using hmagic), ok_bind]
  dsimp only [length_kPacketMagic, Nat.reduceAdd]
  rw [byteAt_of_lt (by omega), ok_bind]
  by_cases hversion : d[4] = kPacketVersion
  swap
  · rw [require_of_not hversion, error_bind,
      if_neg fun h => hversion (Option.some.inj (h4.symm.trans h.2.2.1))]
  rw [require_of hversion, ok_bind, byteAt_of_lt (by omega), ok_bind,
    readU16_of_le (by omega) (by omega), ok_bind, readU32_of_le (by omega) (by omega), ok_bind,
    readU64_of_le (by omega) (by omega), ok_bind, readU16_of_le (by omega) (by omega), ok_bind,
    readU16_of_le (by omega) (by omega), ok_bind]
  dsimp only [Nat.reduceAdd]
  by_cases h28 : d.length < 28
  · rw [readU32_of_lt (by omega) (by omega), error_bind, if_neg fun h => by have := h.1; omega]
  rw [readU32_of_le (by omega) (by omega), ok_bind]
  dsimp only [Nat.reduceAdd]
  have hsource := toNat_sourceLen (d := d) (by omega)
  have hroom := toNat_roomLen (d := d) (by omega)
  have hpayload := toNat_payloadLen (d := d) (by omega)
  rw [hsource.1, hroom.1, hpayload.1, sizeT_of_lt (by omega)]
  by_cases htotal : totalLen d ≤ d.length
  swap
  · rw [totalLen] at htotal
    rw [require_of_not (by omega), error_bind, if_neg fun h => htotal h.2.2.2]
  · have hwf : WellFormed d := ⟨by omega, hmagic, by rw [h4, hversion], htotal⟩
    rw [totalLen] at htotal
    rw [require_of (by omega), ok_bind, range_of_le (by omega), ok_bind, range_of_le (by omega),
      ok_bind, range_of_le (by omega), ok_bind, if_pos hwf, packetOf, List.getD_eq_getElem?_getD,
      List.getElem?_eq_getElem (by omega : 5 < d.length)]
    rfl

/-! ### Layout -/

/-- The bytes of a packet, with whatever bytes where `encodePacket` writes two zeros. -/
def frame (type r0 r1 : UInt8) (sequence captureMs : ℕ) (sourcePeerId roomId payload : Bytes) :
    Bytes :=
  kPacketMagic ++ kPacketVersion :: type :: r0 :: r1 :: (bytes 4 sequence ++ (bytes 8 captureMs ++
    (bytes 2 sourcePeerId.length ++ (bytes 2 roomId.length ++ (bytes 4 payload.length ++
      (sourcePeerId ++ (roomId ++ payload)))))))

theorem encodePacket_eq {type : UInt8} {roomId sourcePeerId : Bytes} {sequence : UInt32}
    {captureUnixMs : Int64} {payload : Bytes} (hpayload : payload.length ≤ kMaxUdpPayloadBytes)
    (hroom : roomId.length ≤ 65535) (hsource : sourcePeerId.length ≤ 65535) :
    encodePacket type roomId sourcePeerId sequence captureUnixMs payload =
      frame type 0 0 sequence.toNat (max 0 captureUnixMs).toUInt64.toNat sourcePeerId roomId
        payload := by
  have hsource' : (UInt16.ofNat sourcePeerId.length).toNat = sourcePeerId.length := by
    rw [UInt16.toNat_ofNat']
    omega
  have hroom' : (UInt16.ofNat roomId.length).toNat = roomId.length := by
    rw [UInt16.toNat_ofNat']
    omega
  have hpayload' : (UInt32.ofNat payload.length).toNat = payload.length := by
    rw [kMaxUdpPayloadBytes] at hpayload
    rw [UInt32.toNat_ofNat']
    omega
  rw [encodePacket, if_neg (by omega)]
  simp only [appendU16_eq, appendU32_eq, appendU64_eq, hsource', hroom', hpayload', frame,
    List.append_assoc]
  simp [bytes]

theorem length_frame (type r0 r1 : UInt8) (sequence captureMs : ℕ)
    (sourcePeerId roomId payload : Bytes) :
    (frame type r0 r1 sequence captureMs sourcePeerId roomId payload).length =
      28 + (sourcePeerId.length + roomId.length + payload.length) := by
  simp only [frame, List.length_append, List.length_cons, length_bytes, length_kPacketMagic]
  omega

/-- The header of a packet, field by field, whatever follows it. -/
theorem slice_frame (type r0 r1 : UInt8) (sequence captureMs : ℕ)
    (sourcePeerId roomId payload rest : Bytes) :
    let d := frame type r0 r1 sequence captureMs sourcePeerId roomId payload ++ rest
    d.take 4 = kPacketMagic ∧ d[4]? = some kPacketVersion ∧ d.getD 5 0 = type ∧
      slice d 8 4 = bytes 4 sequence ∧ slice d 12 8 = bytes 8 captureMs ∧
      slice d 20 2 = bytes 2 sourcePeerId.length ∧ slice d 22 2 = bytes 2 roomId.length ∧
      slice d 24 4 = bytes 4 payload.length ∧
      d.drop 28 = sourcePeerId ++ (roomId ++ (payload ++ rest)) := by
  simp [frame, slice, bytes, kPacketMagic]

theorem slice_add (d : Bytes) (i j n : ℕ) : slice d (i + j) n = slice (d.drop i) j n := by
  rw [slice, slice, List.drop_drop]

/-- A packet is well formed, whatever follows it, and announces its own length. -/
theorem wellFormed_frame (type r0 r1 : UInt8) (sequence captureMs : ℕ)
    {sourcePeerId roomId payload : Bytes} (hpayload : payload.length ≤ kMaxUdpPayloadBytes)
    (hroom : roomId.length ≤ 65535) (hsource : sourcePeerId.length ≤ 65535) (rest : Bytes) :
    let d := frame type r0 r1 sequence captureMs sourcePeerId roomId payload ++ rest
    WellFormed d ∧ sourceLen d = sourcePeerId.length ∧ roomLen d = roomId.length ∧
      payloadLen d = payload.length := by
  obtain ⟨hmagic, hversion, -, -, -, hs, hr, hp, -⟩ :=
    slice_frame type r0 r1 sequence captureMs sourcePeerId roomId payload rest
  rw [kMaxUdpPayloadBytes] at hpayload
  have hlen := length_frame type r0 r1 sequence captureMs sourcePeerId roomId payload
  intro d
  have hs' : sourceLen d = sourcePeerId.length := by
    rw [sourceLen, hs, value_bytes_of_lt (by omega)]
  have hr' : roomLen d = roomId.length := by
    rw [roomLen, hr, value_bytes_of_lt (by omega)]
  have hp' : payloadLen d = payload.length := by
    rw [payloadLen, hp, value_bytes_of_lt (by omega)]
  have hd : d.length =
      28 + (sourcePeerId.length + roomId.length + payload.length) + rest.length := by
    rw [List.length_append, hlen]
  refine ⟨⟨by omega, hmagic, hversion, ?_⟩, hs', hr', hp'⟩
  rw [totalLen, hs', hr', hp', hd]
  omega

/-- What is read back from a packet. -/
theorem packetOf_frame (type r0 r1 : UInt8) (sequence : UInt32) (captureMs : UInt64)
    {sourcePeerId roomId payload : Bytes} (hpayload : payload.length ≤ kMaxUdpPayloadBytes)
    (hroom : roomId.length ≤ 65535) (hsource : sourcePeerId.length ≤ 65535) (rest : Bytes) :
    packetOf (frame type r0 r1 sequence.toNat captureMs.toNat sourcePeerId roomId payload ++ rest) =
      { type, roomId, sourcePeerId, sequence, captureUnixMs := captureMs.toInt64, payload } := by
  obtain ⟨-, -, htype, hseq, hcap, -, -, -, hbody⟩ := slice_frame type r0 r1 sequence.toNat
    captureMs.toNat sourcePeerId roomId payload rest
  obtain ⟨-, hs, hr, hp⟩ := wellFormed_frame type r0 r1 sequence.toNat captureMs.toNat
    hpayload hroom hsource rest
  have hslice : ∀ j n, slice (frame type r0 r1 sequence.toNat captureMs.toNat sourcePeerId roomId
      payload ++ rest) (28 + j) n = slice (sourcePeerId ++ (roomId ++ (payload ++ rest))) j n :=
    fun j n => by rw [slice_add, hbody]
  have hpeer : slice (sourcePeerId ++ (roomId ++ (payload ++ rest))) 0 sourcePeerId.length =
      sourcePeerId := slice_of_append (a := []) rfl rfl
  have hroomId : slice (sourcePeerId ++ (roomId ++ (payload ++ rest))) sourcePeerId.length
      roomId.length = roomId := slice_of_append rfl rfl
  have hbytes : slice (sourcePeerId ++ (roomId ++ (payload ++ rest)))
      (sourcePeerId.length + roomId.length) payload.length = payload := by
    rw [← List.append_assoc]
    exact slice_of_append (List.length_append ..) rfl
  rw [packetOf, htype, hs, hr, hp, hseq, hcap, value_bytes_of_lt sequence.toNat_lt,
    value_bytes_of_lt captureMs.toNat_lt, UInt32.ofNat_toNat, UInt64.ofNat_toNat, Nat.add_assoc,
    hslice, hslice, hbytes, hroomId, ← Nat.add_zero 28, hslice, hpeer]

/-- A well formed datagram is a packet up to its total length. -/
theorem take_totalLen {d : Bytes} (h : WellFormed d) :
    d.take (totalLen d) =
      frame (d.getD 5 0) (d.getD 6 0) (d.getD 7 0) (value (slice d 8 4)) (value (slice d 12 8))
        (packetOf d).sourcePeerId (packetOf d).roomId (packetOf d).payload := by
  obtain ⟨h28, hmagic, hversion, htotal⟩ := h
  rw [totalLen] at htotal
  have hs : (packetOf d).sourcePeerId.length = sourceLen d := length_slice (by omega)
  have hr : (packetOf d).roomId.length = roomLen d := length_slice (by omega)
  have hp : (packetOf d).payload.length = payloadLen d := length_slice (by omega)
  have hbytes : ∀ i n, i + n ≤ 28 → bytes n (value (slice d i n)) = slice d i n :=
    fun i n hin => bytes_value_of_length (length_slice (by omega))
  have hget : ∀ i < 28, [d.getD i 0] = slice d i 1 := by
    intro i hi
    rw [slice_succ (by omega), List.getD_eq_getElem?_getD, List.getElem?_eq_getElem (by omega)]
    rfl
  have hver : [kPacketVersion] = slice d 4 1 := by
    rw [← hget 4 (by omega), List.getD_eq_getElem?_getD, hversion]
    rfl
  have hsplit : ∀ a b c e : UInt8, ∀ l : Bytes, a :: b :: c :: e :: l =
      [a] ++ ([b] ++ ([c] ++ ([e] ++ l))) := fun _ _ _ _ _ => rfl
  rw [frame, hs, hr, hp, hsplit, hver, hget 5 (by omega), hget 6 (by omega), hget 7 (by omega),
    ← hmagic, ← slice_zero d 4, sourceLen, roomLen, payloadLen, hbytes 8 4 (by omega),
    hbytes 12 8 (by omega), hbytes 20 2 (by omega), hbytes 22 2 (by omega), hbytes 24 4 (by omega)]
  simp only [packetOf]
  rw [slice_append_slice_append rfl, slice_append_slice_append rfl, slice_append_slice_append rfl,
    slice_append_slice_append rfl, slice_append_slice_append rfl, slice_append_slice_append rfl,
    slice_append_slice_append rfl, slice_append_slice_append rfl, slice_append_slice_append rfl,
    slice_append_slice_append rfl, slice_append_slice_append (Nat.zero_add _),
    slice_append_slice (Nat.zero_add _), slice_zero]
  refine congrArg d.take ?_
  rw [totalLen, sourceLen, roomLen, payloadLen]
  omega

/-- A capture time whose top bit is clear is not negative. -/
theorem max_zero_of_lt {x : UInt64} (h : x.toNat < 2 ^ 63) : max 0 x.toInt64 = x.toInt64 := by
  have hx : x.toInt64.toBitVec.toNat = x.toNat := rfl
  have hint : x.toInt64.toInt = x.toNat := BitVec.toInt_eq_toNat_of_lt (by omega)
  have hle : (0 : Int64) ≤ x.toInt64 := by
    rw [Int64.le_iff_toInt_le, hint]
    exact Int.natCast_nonneg _
  exact if_pos hle

theorem capture_lt {d : Bytes} (h28 : 28 ≤ d.length) (htop : d.getD 12 0 < 128) :
    value (slice d 12 8) < 2 ^ 63 := by
  have hlen : (slice d (12 + 1) 7).length = 7 := length_slice (by omega)
  have hlt := value_lt (slice d (12 + 1) 7)
  rw [List.getD_eq_getElem?_getD, List.getElem?_eq_getElem (by omega : 12 < d.length)] at htop
  have hbyte : d[12].toNat < 128 := htop
  rw [hlen] at hlt
  rw [slice_succ (by omega), value, hlen]
  omega

theorem length_lt_of_prefix {d p : Bytes} (h : d <+: p) (hne : d ≠ p) : d.length < p.length :=
  Nat.lt_of_le_of_ne h.length_le fun hlen => hne (h.eq_of_length hlen)

/-! ### Results -/

/-- A packet is read back as it was written, with any bytes after it. -/
theorem decodePacket_encode_append (type : UInt8) {roomId sourcePeerId : Bytes} (sequence : UInt32)
    (captureUnixMs : Int64) {payload : Bytes} (hroom : roomId.length ≤ 65535)
    (hsource : sourcePeerId.length ≤ 65535) (hpayload : payload.length ≤ kMaxUdpPayloadBytes)
    (rest : Bytes) :
    decodePacket (encodePacket type roomId sourcePeerId sequence captureUnixMs payload ++ rest)
      (encodePacket type roomId sourcePeerId sequence captureUnixMs payload ++ rest).length =
      .ok { type, roomId, sourcePeerId, sequence, captureUnixMs := max 0 captureUnixMs,
            payload } := by
  have hwf := wellFormed_frame type 0 0 sequence.toNat (max 0 captureUnixMs).toUInt64.toNat
    hpayload hroom hsource rest
  rw [encodePacket_eq hpayload hroom hsource, decodePacket_eq, if_pos hwf.1,
    packetOf_frame _ _ _ _ _ hpayload hroom hsource, Int64.toInt64_toUInt64]

/-- **Round trip.** A packet is read back as it was written, with any bytes after it, and no proper
prefix of it is accepted. The ids may have 65535 bytes each, which is what their lengths can tell,
and the payload at most `kMaxUdpPayloadBytes`. -/
theorem decodePacket_encodePacket (type : UInt8) {roomId sourcePeerId : Bytes} (sequence : UInt32)
    (captureUnixMs : Int64) {payload : Bytes} (hroom : roomId.length ≤ 65535)
    (hsource : sourcePeerId.length ≤ 65535) (hpayload : payload.length ≤ kMaxUdpPayloadBytes) :
    let d := encodePacket type roomId sourcePeerId sequence captureUnixMs payload
    let packet : DecodedPacket :=
      { type, roomId, sourcePeerId, sequence, captureUnixMs := max 0 captureUnixMs, payload }
    decodePacket d d.length = .ok packet ∧
      (∀ rest, decodePacket (d ++ rest) (d ++ rest).length = .ok packet) ∧
      ∀ d', d' <+: d → d' ≠ d → decodePacket d' d'.length = .error .nullopt := by
  have hread := decodePacket_encode_append type sequence captureUnixMs hroom hsource hpayload
  refine ⟨by simpa using hread [], hread, fun d' hprefix hne => ?_⟩
  have hlt : d'.length < _ := length_lt_of_prefix hprefix hne
  rw [encodePacket_eq hpayload hroom hsource] at hprefix hlt
  obtain ⟨-, hs, hr, hp⟩ := wellFormed_frame type 0 0 sequence.toNat
    (max 0 captureUnixMs).toUInt64.toNat hpayload hroom hsource []
  rw [decodePacket_eq, if_neg]
  rintro ⟨h28, -, -, htotal⟩
  have hlen := length_frame type 0 0 sequence.toNat (max 0 captureUnixMs).toUInt64.toNat
    sourcePeerId roomId payload
  rw [List.append_nil] at hs hr hp
  rw [totalLen, sourceLen, roomLen, payloadLen, slice_of_prefix hprefix (by omega),
    slice_of_prefix hprefix (by omega), slice_of_prefix hprefix (by omega), ← sourceLen, ← roomLen,
    ← payloadLen, hs, hr, hp] at htotal
  omega

theorem decodePacket_encodePacket_ping :
    decodePacket (encodePacket kPacketPing [114] [112, 49] 7 (-3) []) 31 =
      .ok ⟨kPacketPing, [114], [112, 49], 7, 0, []⟩ :=
  (decodePacket_encodePacket kPacketPing 7 (-3) (by decide) (by decide) (by decide)).1

/-- **Acceptance and the inverse direction.** No datagram makes `decodePacket` read outside of it.
It accepts exactly the well formed ones. Writing an accepted packet again gives the part of the
datagram it was read from, with the reserved bytes cleared, if its payload fits into a datagram and
its time is not negative. -/
theorem decodePacket_accepts (d : Bytes) :
    decodePacket d d.length ≠ .error .outOfBounds ∧
    ((∃ packet, decodePacket d d.length = .ok packet) ↔
      28 ≤ d.length ∧ d.take 4 = kPacketMagic ∧ d[4]? = some kPacketVersion ∧
      28 + (value (slice d 20 2) + value (slice d 22 2) + value (slice d 24 4)) ≤ d.length) ∧
    ∀ packet, decodePacket d d.length = .ok packet →
      packet.payload.length ≤ kMaxUdpPayloadBytes → d.getD 12 0 < 128 →
      encodePacket packet.type packet.roomId packet.sourcePeerId packet.sequence
          packet.captureUnixMs packet.payload =
        ((d.take (totalLen d)).set 6 0).set 7 0 := by
  rw [decodePacket_eq]
  by_cases hwf : WellFormed d
  swap
  · rw [if_neg hwf]
    refine ⟨by simp, ⟨by simp, fun h => absurd h hwf⟩, by simp⟩
  rw [if_pos hwf]
  refine ⟨by simp, ⟨fun _ => hwf, fun _ => ⟨_, rfl⟩⟩, ?_⟩
  rintro packet hpacket hpayload htop
  obtain rfl := Except.ok.inj hpacket
  obtain ⟨h28, -, -, htotal⟩ := id hwf
  rw [totalLen] at htotal
  have hs : (packetOf d).sourcePeerId.length = sourceLen d := length_slice (by omega)
  have hr : (packetOf d).roomId.length = roomLen d := length_slice (by omega)
  have hs16 := (toNat_sourceLen h28).2
  have hr16 := (toNat_roomLen h28).2
  have hseq : (packetOf d).sequence.toNat = value (slice d 8 4) := by
    rw [packetOf, UInt32.toNat_ofNat']
    exact Nat.mod_eq_of_lt (value_slice_lt (by omega))
  have hcap : (UInt64.ofNat (value (slice d 12 8))).toNat = value (slice d 12 8) := by
    rw [UInt64.toNat_ofNat']
    exact Nat.mod_eq_of_lt (value_slice_lt (by omega))
  have hcapture : (max 0 (packetOf d).captureUnixMs).toUInt64.toNat = value (slice d 12 8) := by
    rw [packetOf, max_zero_of_lt (by rw [hcap]; exact capture_lt h28 htop),
      UInt64.toUInt64_toInt64, hcap]
  rw [encodePacket_eq hpayload (by omega) (by omega), take_totalLen hwf, hseq, hcapture]
  rfl

/-- A datagram with marks in its reserved bytes and one byte too many. -/
def strayDatagram : Bytes :=
  [84, 86, 79, 65, 1, 2, 9, 9, 0, 0, 0, 7, 0, 0, 0, 0, 0, 0, 0, 5, 0, 1, 0, 1, 0, 0, 0, 1,
    112, 114, 42, 255]

theorem decodePacket_accepts_stray :
    encodePacket 2 [114] [112] 7 5 [42] =
      ((strayDatagram.take (totalLen strayDatagram)).set 6 0).set 7 0 :=
  (decodePacket_accepts strayDatagram).2.2 ⟨2, [114], [112], 7, 5, [42]⟩ (by decide) (by decide)
    (by decide)

end Net

end TarkovVoice

import Mathlib.Data.ZMod.Basic
import Mathlib.RingTheory.Coprime.Lemmas
import TarkovVoice.Mixing
import TarkovVoice.Net.Bytes

/-!
# The password gate

`PasswordGate` of `client/src/security/PasswordGate.cpp`. The digest has two halves, each a state of
64 bits that the bytes are mixed into one by one. The first half xors a byte in and multiplies by an
odd number. The second adds `c + (h2 << 6) + (h2 << 16) - h2` to itself, where the hash it is meant
to be has an assignment, so that the state is multiplied by 65600 instead of 65599. This is a
multiple of 64, and after eleven bytes nothing is left of what came before.

## Main definitions

* `PasswordGate.hexDigest`, `PasswordGate.makeJoinProof`, `PasswordGate.verifyJoinProof`
* `Reaches` — the byte is near enough to the end

## Main results

* `digestHalves_snd_eq_iff` — what is left of a changed byte in the second half
* `digest_changes_iff`
-/

namespace TarkovVoice

namespace Security

open Net (Bytes utf8)

/-! ### The functions of the source -/

/-- The digit of a number below 16. -/
def hexDigit (d : ℕ) : UInt8 := UInt8.ofNat (if d < 10 then 48 + d else 87 + d)

/-- A number as hexadecimal digits, filled with zeros up to a width. -/
def hexDigits : ℕ → ℕ → Bytes
  | 0, _ => []
  | w + 1, v => hexDigits w (v / 16) ++ [hexDigit (v % 16)]

/-- The first half, after one byte. -/
def digestStep1 (h1 : UInt64) (c : UInt8) : UInt64 := (h1 ^^^ c.toUInt64) * 1099511628211

/-- The second half, after one byte. -/
def digestStep2 (h2 : UInt64) (c : UInt8) : UInt64 :=
  h2 + (c.toUInt64 + (h2 <<< 6) + (h2 <<< 16) - h2)

/-- The loop of `hexDigest`. Its two states do not meet: each is mixed with the bytes by itself. -/
def digestHalves (input : Bytes) : UInt64 × UInt64 :=
  input.foldl (fun h c => (digestStep1 h.1 c, digestStep2 h.2 c))
    (1469598103934665603, 1099511628211)

structure PasswordGate where
  password : Bytes

namespace PasswordGate

/-- `hexDigest`: the two states behind the last byte, sixteen digits each. -/
def hexDigest (input : Bytes) : Bytes :=
  hexDigits 16 (digestHalves input).1.toNat ++ hexDigits 16 (digestHalves input).2.toNat

/-- `constantTimeEquals`. Texts of different lengths differ at once; of others all bytes are looked
at, whether or not they have differed before. -/
def constantTimeEquals (a b : Bytes) : Bool :=
  if a.length ≠ b.length then false
  else (a.zip b).foldl (fun diff p => diff ||| (p.1 ^^^ p.2)) 0 == 0

variable (gate : PasswordGate) (roomId peerId nonce : Bytes)

/-- What `makeJoinProof` hashes: password, room, peer and nonce, with a bar between each two. None
of them is checked for bars. -/
def material : Bytes :=
  gate.password ++ utf8 "|" ++ roomId ++ utf8 "|" ++ peerId ++ utf8 "|" ++ nonce

/-- `makeJoinProof`. -/
def makeJoinProof : Bytes := hexDigest (gate.material roomId peerId nonce)

/-- `verifyJoinProof`. -/
def verifyJoinProof (proof : Bytes) : Bool :=
  constantTimeEquals (gate.makeJoinProof roomId peerId nonce) proof

end PasswordGate

open PasswordGate

/-! ### What a changed byte should do -/

/-- Both halves of two digests differ, that is, the sixteen digits of each. -/
structure BothDiffer (d d' : Bytes) : Prop where
  first : d.take 16 ≠ d'.take 16
  second : d.drop 16 ≠ d'.drop 16

/-- At most ten bytes follow the two bytes, and if ten do then the two differ in the low four
bits. -/
def Reaches (x y : UInt8) (n : ℕ) : Prop := n < 10 ∨ n = 10 ∧ x.toNat % 16 ≠ y.toNat % 16

instance (x y : UInt8) (n : ℕ) : Decidable (Reaches x y n) :=
  inferInstanceAs (Decidable (_ ∨ _))

/-! ### Digits -/

theorem hexDigit_injective : ∀ d < 16, ∀ d' < 16, hexDigit d = hexDigit d' → d = d' := by decide

@[simp] theorem length_hexDigits (w v : ℕ) : (hexDigits w v).length = w := by
  induction w generalizing v with
  | zero => rfl
  | succ w ih => rw [hexDigits, List.length_append, ih, List.length_singleton]

theorem hexDigits_injective {w v v' : ℕ} (hv : v < 16 ^ w) (hv' : v' < 16 ^ w)
    (h : hexDigits w v = hexDigits w v') : v = v' := by
  induction w generalizing v v' with
  | zero => omega
  | succ w ih =>
    rw [pow_succ] at hv hv'
    obtain ⟨hhigh, hlow⟩ := List.append_inj' h rfl
    have hdiv := ih (by omega) (by omega) hhigh
    have hmod := hexDigit_injective _ (Nat.mod_lt v (by decide)) _ (Nat.mod_lt v' (by decide))
      (List.cons.inj hlow).1
    omega

theorem hexDigits_toNat_iff {a b : UInt64} :
    hexDigits 16 a.toNat = hexDigits 16 b.toNat ↔ a = b := by
  constructor
  · exact fun h => UInt64.toNat_inj.mp (hexDigits_injective a.toNat_lt b.toNat_lt h)
  · rintro rfl
    rfl

theorem digestHalves_eq (s : Bytes) : digestHalves s =
    (s.foldl digestStep1 1469598103934665603, s.foldl digestStep2 1099511628211) :=
  Mixing.foldl_prod s _ _

theorem bothDiffer_iff (s s' : Bytes) : BothDiffer (hexDigest s) (hexDigest s') ↔
    (digestHalves s).1 ≠ (digestHalves s').1 ∧ (digestHalves s).2 ≠ (digestHalves s').2 := by
  have htake : ∀ t, (hexDigest t).take 16 = hexDigits 16 (digestHalves t).1.toNat := fun t =>
    List.take_left' (length_hexDigits 16 _)
  have hdrop : ∀ t, (hexDigest t).drop 16 = hexDigits 16 (digestHalves t).2.toNat := fun t =>
    List.drop_left' (length_hexDigits 16 _)
  constructor
  · rintro ⟨hfirst, hsecond⟩
    rw [htake, htake] at hfirst
    rw [hdrop, hdrop] at hsecond
    exact ⟨mt hexDigits_toNat_iff.mpr hfirst, mt hexDigits_toNat_iff.mpr hsecond⟩
  · rintro ⟨hfirst, hsecond⟩
    refine ⟨?_, ?_⟩
    · rw [htake, htake]
      exact mt hexDigits_toNat_iff.mp hfirst
    · rw [hdrop, hdrop]
      exact mt hexDigits_toNat_iff.mp hsecond

/-! ### The first half -/

/-- The multiplier is odd and has an inverse. So the first half never loses anything of its
state. -/
theorem mul_injective : Function.Injective fun h : UInt64 => h * 1099511628211 := by
  have hinverse : (1099511628211 : UInt64) * 14886173955864302971 = 1 := by decide
  intro a b h
  calc a = a * 1099511628211 * 14886173955864302971 := by
        rw [UInt64.mul_assoc, hinverse, UInt64.mul_one]
    _ = b * 1099511628211 * 14886173955864302971 := congrArg (· * _) h
    _ = b := by rw [UInt64.mul_assoc, hinverse, UInt64.mul_one]

/-- A changed byte is never lost in the first half, however much text follows it. -/
theorem digestHalves_fst_ne (u v : Bytes) {x y : UInt8} (hxy : x ≠ y) :
    (digestHalves (u ++ x :: v)).1 ≠ (digestHalves (u ++ y :: v)).1 := by
  rw [digestHalves_eq, digestHalves_eq]
  refine Mixing.foldl_ne (fun c h h' heq => ?_) (fun h c c' heq => ?_) _ u v hxy
  · exact (UInt64.xor_left_inj _).mp (mul_injective heq)
  · have hc := (UInt64.xor_right_inj _).mp (mul_injective heq)
    have hnat := congrArg UInt64.toNat hc
    rw [UInt8.toNat_toUInt64, UInt8.toNat_toUInt64] at hnat
    exact UInt8.toNat_inj.mp hnat

/-! ### The second half -/

/-- A state as a number modulo `2 ^ 64`. -/
def residue (h : UInt64) : ZMod (2 ^ 64) := h.toNat

theorem residue_injective : Function.Injective residue := by
  intro a b h
  have hmod := (ZMod.natCast_eq_natCast_iff' _ _ _).mp h
  rw [Nat.mod_eq_of_lt a.toNat_lt, Nat.mod_eq_of_lt b.toNat_lt] at hmod
  exact UInt64.toNat_inj.mp hmod

theorem residue_add (a b : UInt64) : residue (a + b) = residue a + residue b := by
  rw [residue, residue, residue, UInt64.toNat_add, ZMod.natCast_mod, Nat.cast_add]

theorem residue_sub (a b : UInt64) : residue (a - b) = residue a - residue b := by
  rw [eq_sub_iff_add_eq, ← residue_add, UInt64.sub_add_cancel]

theorem residue_shiftLeft {n : ℕ} (hn : n < 64) (a : UInt64) :
    residue (a <<< UInt64.ofNat n) = residue a * 2 ^ n := by
  have hmod : (UInt64.ofNat n).toNat % 64 = n := by
    rw [UInt64.toNat_ofNat']
    omega
  rw [residue, residue, UInt64.toNat_shiftLeft, hmod, Nat.shiftLeft_eq, ZMod.natCast_mod,
    Nat.cast_mul, Nat.cast_pow]
  rfl

/-- A byte as a number modulo `2 ^ 64`. -/
def letter (c : UInt8) : ZMod (2 ^ 64) := c.toNat

/-- The state is multiplied by 65600, and the byte is added. The source adds the state shifted by 6
and by 16, and takes away the state that it adds to. -/
theorem residue_digestStep2 (h : UInt64) (c : UInt8) :
    residue (digestStep2 h c) = Mixing.affine 65600 letter (residue h) c := by
  have hc : residue c.toUInt64 = letter c := by rw [residue, UInt8.toNat_toUInt64, letter]
  have h6 : residue (h <<< 6) = residue h * 2 ^ 6 := residue_shiftLeft (by decide) h
  have h16 : residue (h <<< 16) = residue h * 2 ^ 16 := residue_shiftLeft (by decide) h
  rw [digestStep2, Mixing.affine, residue_add, residue_sub, residue_add, residue_add, hc, h6, h16]
  ring

/-- What is left of a changed byte in the second half: its difference, multiplied by 65600 for each
byte behind it. -/
theorem digestHalves_snd_eq_iff (u v : Bytes) (x y : UInt8) :
    (digestHalves (u ++ x :: v)).2 = (digestHalves (u ++ y :: v)).2 ↔
      65600 ^ v.length * (letter x - letter y) = 0 := by
  have hhom : ∀ s : Bytes, residue (digestHalves s).2 =
      s.foldl (Mixing.affine 65600 letter) (residue 1099511628211) := by
    intro s
    rw [digestHalves_eq]
    exact (List.foldl_hom residue fun h c => (residue_digestStep2 h c).symm).symm
  rw [← residue_injective.eq_iff, hhom, hhom, Mixing.foldl_affine_eq_iff]

/-- 65600 is 64 times an odd number. So each multiplication pushes a difference six bits up, and the
odd factor does not matter. -/
theorem dvd_iff (n : ℕ) (d : ℤ) :
    (2 : ℤ) ^ 64 ∣ 65600 ^ n * d ↔ (2 : ℤ) ^ 64 ∣ 2 ^ (6 * n) * d := by
  have hcoprime : IsCoprime ((2 : ℤ) ^ 64) (1025 ^ n) := by
    refine IsCoprime.pow ?_
    exact ⟨-512, 1, by norm_num⟩
  have hfactor : (65600 : ℤ) = 1025 * 2 ^ 6 := by norm_num
  have hsplit : (65600 : ℤ) ^ n * d = 1025 ^ n * (2 ^ (6 * n) * d) := by
    rw [hfactor, mul_pow, ← pow_mul]
    ring
  rw [hsplit]
  exact ⟨fun h => hcoprime.dvd_of_dvd_mul_left h, fun h => dvd_mul_of_dvd_right h _⟩

theorem pow_mul_eq_zero_iff (n : ℕ) {x y : UInt8} (hxy : x ≠ y) :
    (65600 : ZMod (2 ^ 64)) ^ n * (letter x - letter y) = 0 ↔ ¬ Reaches x y n := by
  have hx := x.toNat_lt
  have hy := y.toNat_lt
  have hne : x.toNat ≠ y.toNat := mt UInt8.toNat_inj.mp hxy
  have hcast : (65600 : ZMod (2 ^ 64)) ^ n * (letter x - letter y) =
      ((65600 ^ n * ((x.toNat : ℤ) - y.toNat) : ℤ) : ZMod (2 ^ 64)) := by
    rw [letter, letter]
    push_cast
    rfl
  have hmodulus : ((2 ^ 64 : ℕ) : ℤ) = 2 ^ 64 := by norm_num
  rw [hcast, ZMod.intCast_zmod_eq_zero_iff_dvd, hmodulus, dvd_iff, Reaches]
  by_cases hn : n ≤ 10
  · -- `6 * n` of the 64 factors are used up
    obtain ⟨k, hk⟩ := Nat.exists_eq_add_of_le (show 6 * n ≤ 64 by omega)
    rw [hk, pow_add, mul_dvd_mul_iff_left (pow_ne_zero _ two_ne_zero)]
    by_cases hten : n = 10
    · obtain rfl : k = 4 := by omega
      omega
    · have hlarge : (2 : ℤ) ^ 10 ∣ 2 ^ k := pow_dvd_pow 2 (by omega)
      refine iff_of_false (fun hdvd => ?_) (by omega)
      obtain ⟨e, he⟩ := hlarge.trans hdvd
      omega
  · refine iff_of_true (dvd_mul_of_dvd_left (pow_dvd_pow 2 (by omega)) _) (by omega)

/-! ### Both halves -/

/-- **A changed byte** shows in both halves exactly if it reaches the end. The first half always
shows it, so the second one decides. -/
theorem bothDiffer_append_iff (u v : Bytes) {x y : UInt8} (hxy : x ≠ y) :
    BothDiffer (hexDigest (u ++ x :: v)) (hexDigest (u ++ y :: v)) ↔ Reaches x y v.length := by
  rw [bothDiffer_iff, and_iff_right (digestHalves_fst_ne u v hxy), Ne, digestHalves_snd_eq_iff,
    pow_mul_eq_zero_iff _ hxy, not_not]

/-- A changed byte of a join proof's material, with what follows it. -/
theorem bothDiffer_material_iff {x y : UInt8} (hxy : x ≠ y) {m m' u v : Bytes} {n : ℕ}
    (hm : m = u ++ x :: v) (hm' : m' = u ++ y :: v) (hn : v.length = n) :
    BothDiffer (hexDigest m) (hexDigest m') ↔ Reaches x y n := by
  rw [hm, hm', bothDiffer_append_iff u v hxy, hn]

/-- **A changed byte** of a text shows in both halves of its digest exactly if it reaches the end:
fewer than ten bytes follow it, or just ten and the two bytes differ in the low four bits. So does a
byte of the password, of the room id, of the peer id and of the nonce in a join proof, with what
stands behind it in the material. The texts are any, of any length. -/
theorem digest_changes_iff {x y : UInt8} (hxy : x ≠ y) (u v : Bytes) :
    (BothDiffer (hexDigest (u ++ x :: v)) (hexDigest (u ++ y :: v)) ↔ Reaches x y v.length) ∧
      ∀ (gate : PasswordGate) (roomId peerId nonce : Bytes),
        (BothDiffer (makeJoinProof ⟨u ++ x :: v⟩ roomId peerId nonce)
            (makeJoinProof ⟨u ++ y :: v⟩ roomId peerId nonce) ↔
          Reaches x y (v.length + 1 + roomId.length + 1 + peerId.length + 1 + nonce.length)) ∧
        (BothDiffer (gate.makeJoinProof (u ++ x :: v) peerId nonce)
            (gate.makeJoinProof (u ++ y :: v) peerId nonce) ↔
          Reaches x y (v.length + 1 + peerId.length + 1 + nonce.length)) ∧
        (BothDiffer (gate.makeJoinProof roomId (u ++ x :: v) nonce)
            (gate.makeJoinProof roomId (u ++ y :: v) nonce) ↔
          Reaches x y (v.length + 1 + nonce.length)) ∧
        (BothDiffer (gate.makeJoinProof roomId peerId (u ++ x :: v))
            (gate.makeJoinProof roomId peerId (u ++ y :: v)) ↔ Reaches x y v.length) := by
  refine ⟨bothDiffer_append_iff u v hxy, fun gate roomId peerId nonce => ⟨?_, ?_, ?_, ?_⟩⟩
  · refine bothDiffer_material_iff hxy (u := u)
      (v := v ++ utf8 "|" ++ roomId ++ utf8 "|" ++ peerId ++ utf8 "|" ++ nonce) ?_ ?_ ?_
    · simp [material]
    · simp [material]
    · simp only [List.length_append]
      rfl
  · refine bothDiffer_material_iff hxy (u := gate.password ++ utf8 "|" ++ u)
      (v := v ++ utf8 "|" ++ peerId ++ utf8 "|" ++ nonce) ?_ ?_ ?_
    · simp [material]
    · simp [material]
    · simp only [List.length_append]
      rfl
  · refine bothDiffer_material_iff hxy
      (u := gate.password ++ utf8 "|" ++ roomId ++ utf8 "|" ++ u) (v := v ++ utf8 "|" ++ nonce)
      ?_ ?_ ?_
    · simp [material]
    · simp [material]
    · simp only [List.length_append]
      rfl
  · refine bothDiffer_material_iff hxy
      (u := gate.password ++ utf8 "|" ++ roomId ++ utf8 "|" ++ peerId ++ utf8 "|" ++ u) (v := v)
      ?_ ?_ rfl
    · simp [material]
    · simp [material]

/-- Of this proof, both halves change with the last letter of the peer id, and the second is the
same for another first letter of the password. -/
theorem digest_changes_iff_squad :
    BothDiffer
      (makeJoinProof ⟨utf8 "tarkov"⟩ (utf8 "room_4f") (utf8 "peer_1") (utf8 "81"))
      (makeJoinProof ⟨utf8 "tarkov"⟩ (utf8 "room_4f") (utf8 "peer_2") (utf8 "81")) ∧
    ¬ BothDiffer
      (makeJoinProof ⟨utf8 "tarkov"⟩ (utf8 "room_4f") (utf8 "peer_1") (utf8 "81"))
      (makeJoinProof ⟨utf8 "Tarkov"⟩ (utf8 "room_4f") (utf8 "peer_1") (utf8 "81")) := by
  have hpeer := (@digest_changes_iff 49 50 (by decide) (utf8 "peer_") []).2 ⟨utf8 "tarkov"⟩
    (utf8 "room_4f") [] (utf8 "81")
  have hpassword := (@digest_changes_iff 116 84 (by decide) [] (utf8 "arkov")).2 ⟨[]⟩
    (utf8 "room_4f") (utf8 "peer_1") (utf8 "81")
  exact ⟨hpeer.2.2.1.mpr (by decide), fun h => absurd (hpassword.1.mp h) (by decide)⟩

/-- Eleven bytes behind the changed one, the second half has forgotten it: its multiplier is a
multiple of 64, which shifts the difference out of the word. -/
theorem first_letter_forgotten : ¬ ∀ (u v : Bytes) (x y : UInt8), x ≠ y →
    BothDiffer (hexDigest (u ++ x :: v)) (hexDigest (u ++ y :: v)) := by
  intro h
  refine (h [] (utf8 "|room_test|") 97 98 (by decide)).second ?_
  decide +kernel

end Security

end TarkovVoice

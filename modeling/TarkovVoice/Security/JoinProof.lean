import Mathlib.Data.List.Forall2
import TarkovVoice.Security.PasswordGate
import TarkovVoice.Separated

/-!
# What a join proof is bound to

A join proof is the digest of the password, the room id, the peer id and the nonce, with a bar
between each two. A bar within one of them is not told from those between them, so that the same
text stands for other parts as well, and one proof is accepted for all of these.

## Main definitions

* `Join` — what a proof is made for
* `Bound` — the proof is accepted for nothing else, unless two texts have the same digest

## Main results

* `constantTimeEquals_iff`
* `bound_iff`
-/

namespace TarkovVoice

namespace Security

open Net (Bytes utf8)
open PasswordGate

/-- The room, the peer and the nonce that a proof is made for. -/
structure Join where
  roomId : Bytes
  peerId : Bytes
  nonce : Bytes
  deriving DecidableEq

namespace Join

variable (gate : PasswordGate) (j : Join)

/-- What is hashed. -/
def material : Bytes := gate.material j.roomId j.peerId j.nonce

def proof : Bytes := gate.makeJoinProof j.roomId j.peerId j.nonce

/-- The proof is accepted. -/
def verify (proof : Bytes) : Bool := gate.verifyJoinProof j.roomId j.peerId j.nonce proof

end Join

/-- Two different texts with the same digest. There are such, since a digest has 32 digits. -/
def Collision (a b : Bytes) : Prop := a ≠ b ∧ hexDigest a = hexDigest b

/-- Nothing else has the same material, and where the proof is accepted for something else, the hash
is to blame. That is all that can be asked of a proof, whatever the hash is. -/
structure Bound (gate : PasswordGate) (j : Join) : Prop where
  injective : ∀ j' : Join, j'.material gate = j.material gate → j' = j
  accepted : ∀ j' : Join, j'.verify gate (j.proof gate) = true → j' ≠ j →
    Collision (j'.material gate) (j.material gate)

def bar : UInt8 := 124

/-- There is no bar in the parts. The password may have bars, since it comes first in the material
of every proof. -/
structure Join.Plain (j : Join) : Prop where
  roomId : bar ∉ j.roomId
  peerId : bar ∉ j.peerId
  nonce : bar ∉ j.nonce

/-! ### Comparing -/

/-- Nothing is left of two equal texts. -/
theorem foldl_or_eq_zero_iff (l : List (UInt8 × UInt8)) (diff : UInt8) :
    l.foldl (fun diff p => diff ||| (p.1 ^^^ p.2)) diff = 0 ↔
      diff = 0 ∧ ∀ p ∈ l, p.1 = p.2 := by
  induction l generalizing diff with
  | nil => simp
  | cons p l ih =>
    rw [List.foldl_cons, ih, UInt8.or_eq_zero_iff, UInt8.xor_eq_zero_iff, List.forall_mem_cons,
      and_assoc]

/-- **The comparison** is right. -/
theorem constantTimeEquals_iff (a b : Bytes) : constantTimeEquals a b = true ↔ a = b := by
  rw [constantTimeEquals]
  by_cases hlength : a.length = b.length
  · rw [if_neg (not_not.mpr hlength), beq_iff_eq, foldl_or_eq_zero_iff]
    have hzip := @List.forall₂_iff_zip _ _ Eq a b
    rw [List.forall₂_eq_eq_eq] at hzip
    rw [hzip, and_iff_right rfl, and_iff_right hlength, Prod.forall]
  · rw [if_pos hlength]
    exact iff_of_false Bool.false_ne_true fun h => hlength (congrArg List.length h)

variable {gate : PasswordGate} {j j' : Join}

theorem verify_proof_iff : j'.verify gate (j.proof gate) = true ↔
    hexDigest (j'.material gate) = hexDigest (j.material gate) := by
  rw [Join.verify, verifyJoinProof, constantTimeEquals_iff]
  exact Iff.rfl

/-! ### Material -/

theorem Join.material_eq (j : Join) : j.material gate =
    gate.password ++ bar :: [bar].intercalate [j.roomId, j.peerId, j.nonce] := by
  have hbar : utf8 "|" = [bar] := by decide
  simp [Join.material, PasswordGate.material, hbar]

theorem material_injective (hplain : j.Plain) (h : j'.material gate = j.material gate) :
    j' = j := by
  rw [Join.material_eq, Join.material_eq, List.append_cancel_left_eq] at h
  have hparts : ∀ p ∈ [j.roomId, j.peerId, j.nonce], bar ∉ p := by
    simp only [List.forall_mem_cons, List.not_mem_nil, false_imp_iff, implies_true, and_true]
    exact ⟨hplain.roomId, hplain.peerId, hplain.nonce⟩
  have hsame := @Separated.intercalate_injective _ _ bar [j.roomId, j.peerId, j.nonce]
    [j'.roomId, j'.peerId, j'.nonce] rfl hparts (List.cons.inj h).2
  obtain ⟨roomId, peerId, nonce⟩ := j
  obtain ⟨roomId', peerId', nonce'⟩ := j'
  simpa using hsame

/-- A bar in a part can be taken for one between two parts. -/
theorem plain_of_injective (h : ∀ j' : Join, j'.material gate = j.material gate → j' = j) :
    j.Plain := by
  obtain ⟨roomId, peerId, nonce⟩ := j
  refine ⟨fun hmem => ?_, fun hmem => ?_, fun hmem => ?_⟩
  · obtain ⟨u, v, rfl⟩ := List.append_of_mem hmem
    have hsame := h ⟨u, v ++ bar :: peerId, nonce⟩ (by simp [Join.material_eq])
    have hlength := congrArg (fun j : Join => j.roomId.length) hsame
    simp at hlength
  · obtain ⟨u, v, rfl⟩ := List.append_of_mem hmem
    have hsame := h ⟨roomId ++ bar :: u, v, nonce⟩ (by simp [Join.material_eq])
    have hlength := congrArg (fun j : Join => j.roomId.length) hsame
    simp at hlength
  · obtain ⟨u, v, rfl⟩ := List.append_of_mem hmem
    have hsame := h ⟨roomId, peerId ++ bar :: u, v⟩ (by simp [Join.material_eq])
    have hlength := congrArg (fun j : Join => j.peerId.length) hsame
    simp at hlength

/-- **A proof is bound** to what it is made for exactly if there is no bar in it: for every gate,
against every other room, peer and nonce, with or without bars. -/
theorem bound_iff (gate : PasswordGate) (j : Join) : Bound gate j ↔ j.Plain := by
  constructor
  · exact fun h => plain_of_injective h.injective
  · intro hplain
    refine ⟨fun j' h => material_injective hplain h, fun j' haccepted hne => ⟨?_, ?_⟩⟩
    · exact fun h => hne (material_injective hplain h)
    · exact verify_proof_iff.mp haccepted

/-- One proof for two rooms: the bar in the one's peer id is the end of the other's room id. -/
theorem proof_for_another_room : ¬ ∀ gate j, Bound gate j := by
  intro h
  have hsame := (h ⟨utf8 "secret"⟩ ⟨utf8 "a|b", utf8 "c", utf8 "d"⟩).injective
    ⟨utf8 "a", utf8 "b|c", utf8 "d"⟩ (by decide)
  exact absurd hsame (by decide)

end Security

end TarkovVoice

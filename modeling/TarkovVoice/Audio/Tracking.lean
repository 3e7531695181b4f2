import TarkovVoice.Audio.Adpcm

/-!
# How closely ADPCM tracks

A code is a sign and three bits. Each bit stands for a part of the step that is taken off the
difference when it fits: the step itself, half of it, a quarter. The predictor moves by the parts
that were taken and an eighth of the step more, so that what is left of the difference is met half
way. The parts are computed with shifts that drop a remainder, which is where the constant in the
bound comes from; it holds for any step, not only for those of the table.

## Main results

* `adpcmCode_bits`, `adpcmDelta_bits` — what the bits of a code stand for
* `tracking_error` — how far the predictor is from a sample that has just been coded
-/

namespace TarkovVoice

namespace Audio

/-! ### Bits -/

theorem shiftRight_eq (a : ℤ) (n : ℕ) : a >>> (n : ℤ) = a / 2 ^ n := by
  rw [Int.shiftRight_natCast_right, Int.shiftRight_eq_div_pow]
  norm_cast

/-- One comparison of `adpcmCode`. -/
theorem compare_eq (code bit : ℕ) (diff tempStep : ℤ) :
    (if diff ≥ tempStep then (code ||| bit, diff - tempStep) else (code, diff)) =
      (code ||| bit * (decide (tempStep ≤ diff)).toNat,
        diff - (decide (tempStep ≤ diff)).toNat * tempStep) := by
  by_cases h : tempStep ≤ diff <;> simp [h]

/-- The bits of a code, and which parts of the step they stand for. -/
theorem adpcmCode_bits (step diff : ℤ) : ∃ b8 b4 b2 b1 : Bool,
    adpcmCode step diff = 8 * b8.toNat + 4 * b4.toNat + 2 * b2.toNat + b1.toNat ∧
      (b8 ↔ diff < 0) ∧ (b4 ↔ step ≤ |diff|) ∧
      (b2 ↔ step >>> 1 ≤ |diff| - b4.toNat * step) ∧
      (b1 ↔ step >>> 2 ≤ |diff| - b4.toNat * step - b2.toNat * (step >>> 1)) := by
  have hquarter : step >>> 1 >>> 1 = step >>> 2 := (Int.shiftRight_add' step 1 1).symm
  have hlast : ∀ (code : ℕ) (diff tempStep : ℤ), (if diff ≥ tempStep then code ||| 1 else code) =
      code ||| (decide (tempStep ≤ diff)).toNat := by
    intro code diff tempStep
    by_cases h : tempStep ≤ diff <;> simp [h]
  have hsign : (if diff < 0 then (8, -diff) else (0, diff)) =
      (8 * (decide (diff < 0)).toNat, |diff|) := by
    rcases lt_or_ge diff 0 with h | h
    · simp [h, abs_of_neg h]
    · simp [not_lt.mpr h, abs_of_nonneg h]
  refine ⟨diff < 0, step ≤ |diff|, _, _, ?_, decide_eq_true_iff, decide_eq_true_iff,
    decide_eq_true_iff, decide_eq_true_iff⟩
  rw [adpcmCode, hsign, ← hquarter]
  simp only [compare_eq, hlast]
  generalize decide (diff < 0) = b8
  generalize decide (step ≤ |diff|) = b4
  generalize decide (step >>> 1 ≤ _) = b2
  generalize decide (step >>> 1 >>> 1 ≤ _) = b1
  revert b8 b4 b2 b1
  decide

theorem adpcmDelta_bits (step : ℤ) (b8 b4 b2 b1 : Bool) :
    adpcmDelta step (8 * b8.toNat + 4 * b4.toNat + 2 * b2.toNat + b1.toNat) =
      step >>> 3 + b4.toNat * step + b2.toNat * (step >>> 1) + b1.toNat * (step >>> 2) := by
  cases b8 <;> cases b4 <;> cases b2 <;> cases b1 <;> simp [adpcmDelta]

theorem adpcmCode_sign (step diff : ℤ) : adpcmCode step diff &&& 8 ≠ 0 ↔ diff < 0 := by
  obtain ⟨b8, b4, b2, b1, hcode, h8, -⟩ := adpcmCode_bits step diff
  have hbit : ∀ b8 b4 b2 b1 : Bool,
      8 * b8.toNat + 4 * b4.toNat + 2 * b2.toNat + b1.toNat &&& 8 ≠ 0 ↔ b8 = true := by decide
  rw [hcode, hbit, h8]

/-- **How far a code is off.** About an eighth of the step, unless the difference is out of
reach. -/
theorem code_error (step diff : ℤ) :
    |(|diff| - adpcmDelta step (adpcmCode step diff))| ≤
      max (step >>> 3 + 2) (|diff| - (step + step >>> 1 + step >>> 2 + step >>> 3)) := by
  obtain ⟨b8, b4, b2, b1, hcode, -, h4, h2, h1⟩ := adpcmCode_bits step diff
  have hd := abs_nonneg diff
  rw [hcode, adpcmDelta_bits, le_max_iff, abs_le, abs_le]
  have h8 : step >>> 3 = step / 8 := shiftRight_eq step 3
  have hhalf : step >>> 1 = step / 2 := shiftRight_eq step 1
  have hquarter : step >>> 2 = step / 4 := shiftRight_eq step 2
  rw [hhalf] at h2 h1 ⊢
  rw [hquarter] at h1 ⊢
  rw [h8]
  generalize |diff| = d at *
  cases b4 <;> cases b2 <;> cases b1 <;>
    simp only [Bool.toNat_true, Bool.toNat_false, Nat.cast_one, Nat.cast_zero, one_mul, zero_mul,
      true_iff, false_iff, Bool.false_eq_true, not_le] at * <;>
    omega

/-! ### Samples -/

/-- Clamping brings the predictor no further from a sample. -/
theorem abs_sub_clamp_le {low high x : ℤ} (hlow : low ≤ x) (hhigh : x ≤ high) (value : ℤ) :
    |x - clamp value low high| ≤ |x - value| := by
  rw [abs_le, clamp]
  obtain ⟨hneg, hpos⟩ := abs_le.mp (le_refl |x - value|)
  omega

theorem Adpcm.abs_sub_codeSample_le (a : Adpcm) (sample : Int16) :
    |sample.toInt - (a.codeSample sample).predictor| ≤
      max (a.step >>> 3 + 2) (|sample.toInt - a.predictor| -
        (a.step + a.step >>> 1 + a.step >>> 2 + a.step >>> 3)) := by
  have hx : sample.toInt ≤ 32767 := Int.le_of_lt_add_one sample.toInt_lt
  refine (abs_sub_clamp_le sample.le_toInt hx _).trans ?_
  refine le_trans (le_of_eq ?_) (code_error a.step (sample.toInt - a.predictor))
  have hsign := adpcmCode_sign a.step (sample.toInt - a.predictor)
  generalize adpcmDelta a.step (adpcmCode a.step (sample.toInt - a.predictor)) = delta
  by_cases hneg : sample.toInt - a.predictor < 0
  · rw [if_pos (hsign.mpr hneg), abs_of_neg hneg, ← abs_neg]
    congr 1
    ring
  · rw [if_neg (hsign.not.mpr hneg), abs_of_nonneg (not_lt.mp hneg)]
    congr 1
    ring

/-- **How closely the coder tracks.** At every position of every list of samples: the predictor
comes to within an eighth of the step of the sample, or as far as the step reaches towards it. -/
theorem tracking_error (front : Int16) (rest : List Int16) (i : Fin rest.length) :
    let a := (AdpcmEncoder.coded front rest i).coder
    let s := a.step
    let x := (rest.get i).toInt
    let p := a.predictor
    let p' := (AdpcmEncoder.coded front rest (i + 1)).coder.predictor
    |x - p'| ≤ max (s >>> 3 + 2) (|x - p| - (s + s >>> 1 + s >>> 2 + s >>> 3)) := by
  intro a s x p p'
  have hnext : (AdpcmEncoder.coded front rest (i + 1)).coder = a.codeSample (rest.get i) := by
    have htake : rest.take (i + 1) = rest.take i ++ [rest.get i] :=
      List.take_succ_eq_append_getElem i.isLt
    rw [AdpcmEncoder.coded, htake, List.foldl_append]
    exact AdpcmEncoder.coder_encodeSample _ _
  have herror := a.abs_sub_codeSample_le (rest.get i)
  rw [← hnext] at herror
  exact herror

end Audio

end TarkovVoice

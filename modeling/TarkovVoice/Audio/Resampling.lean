import Mathlib.Tactic.NormNum
import TarkovVoice.Audio.Capture

/-!
# Resampling a recording of 48 kHz

At 48 kHz the resampling loop reads every third sample, at a position that is always a whole number.
It steps past the end of what has been recorded, and the number of samples erased afterwards is the
position it has reached. With two samples after a multiple of three that is one more than there are,
and the erased range is not valid.

## Main definitions

* `Resampling.consumed`, `Resampling.produced` — what a call erases, and what it appends
* `Resampling.decimated` — the samples at the positions 0, 3, 6, …
* `Resampling.Synced` — the capture as a function of what has been recorded

## Main results

* `Resampling.resample_three` — the loop with step 3
* `Resampling.Synced.enqueue` — one call
* `Resampling.resamples_iff`
-/

namespace TarkovVoice

namespace Audio

namespace Resampling

variable {α β : Type*}

/-! ### The loop -/

/-- What the loop appends does not depend on what was there, so that calls can be looked at one by
one. -/
theorem resample_append (between : α → α → ℚ → β) (step : ℚ) (source : List α) (n : ℕ) :
    ∀ (position : ℚ) (out : List β), resample between step source n position out =
      ((resample between step source n position []).1,
        out ++ (resample between step source n position []).2) := by
  induction n with
  | zero =>
    intro position out
    rw [resample, resample, List.append_nil]
  | succ n ih =>
    intro position out
    rw [resample, resample]
    split
    · dsimp only
      split
      · rw [ih, ih _ ([] ++ _), List.nil_append, List.append_assoc]
      · rw [List.append_nil]
    · rw [List.append_nil]

/-- The converted samples at the positions 0, 3, 6, … that are followed by another one. -/
def decimated (convert : α → β) (l : List α) : List β :=
  (List.range ((l.length + 1) / 3)).filterMap fun i => (l[3 * i]?).map convert

theorem floor_natCast (n : ℕ) : (n : ℚ).floor.toNat = n := by
  have hfloor : (n : ℚ).floor = (n : ℤ) := by
    rw [← Int.cast_natCast]
    exact Rat.floor_intCast n
  rw [hfloor, Int.toNat_natCast]

/-- **The loop with step 3**, from a multiple of 3 on. The position stays whole, so there is nothing
to interpolate, and every third sample is converted. -/
theorem resample_three {between : α → α → ℚ → β} {convert : α → β}
    (hwhole : ∀ x y, between x y 0 = convert x) (source : List α) (n : ℕ) :
    ∀ (i : ℕ) (out : List β), source.length ≤ n + 3 * i →
      resample between 3 source n ((3 * i : ℕ) : ℚ) out =
        (((3 * max i ((source.length + 1) / 3) : ℕ) : ℚ),
          out ++ (List.range' i ((source.length + 1) / 3 - i)).filterMap
            fun j => (source[3 * j]?).map convert) := by
  induction n with
  | zero =>
    intro i out h
    have hle : (source.length + 1) / 3 ≤ i := by omega
    rw [resample, max_eq_left hle, Nat.sub_eq_zero_of_le hle]
    simp
  | succ n ih =>
    intro i out h
    rw [resample, floor_natCast]
    by_cases hlt : 3 * i + 1 < source.length
    · have hleft : source[3 * i]? = some source[3 * i] := List.getElem?_eq_getElem (by omega)
      have hright : source[min (3 * i + 1) (source.length - 1)]? = some source[3 * i + 1] := by
        rw [Nat.min_eq_left (by omega), List.getElem?_eq_getElem hlt]
      have hcount : (source.length + 1) / 3 - i = (source.length + 1) / 3 - (i + 1) + 1 := by omega
      have hnext : ((3 * i : ℕ) : ℚ) + 3 = ((3 * (i + 1) : ℕ) : ℚ) := by
        push_cast
        ring
      have hmax : max i ((source.length + 1) / 3) = max (i + 1) ((source.length + 1) / 3) := by
        omega
      rw [if_pos (by exact_mod_cast hlt)]
      dsimp only
      rw [hleft, hright]
      dsimp only
      rw [sub_self, hwhole, hnext, ih (i + 1) _ (by omega), hcount, List.range'_succ,
        List.filterMap_cons, hleft, hmax, List.append_assoc]
      rfl
    · have hle : (source.length + 1) / 3 ≤ i := by omega
      rw [if_neg (by exact_mod_cast hlt), max_eq_left hle, Nat.sub_eq_zero_of_le hle]
      simp

/-! ### Every third sample -/

variable {convert : α → β}

/-- A list that is given entry by entry. -/
theorem getElem?_filterMap_range {γ : Type*} {f : ℕ → Option γ} {n : ℕ}
    (h : ∀ i < n, (f i).isSome = true) (i : ℕ) :
    ((List.range n).filterMap f)[i]? = if i < n then f i else none := by
  have hlength : ∀ m ≤ n, ((List.range m).filterMap f).length = m := by
    intro m hm
    rw [List.length_filterMap_eq_countP, List.countP_eq_length.mpr, List.length_range]
    exact fun i hi => h i ((List.mem_range.mp hi).trans_le hm)
  induction n with
  | zero => rfl
  | succ n ih =>
    have hn := hlength n (Nat.le_succ n)
    obtain ⟨x, hx⟩ := Option.isSome_iff_exists.mp (h n (Nat.lt_succ_self n))
    rw [List.range_succ, List.filterMap_append, List.filterMap_cons_some hx, List.filterMap_nil]
    rcases lt_trichotomy i n with hi | rfl | hi
    · rw [List.getElem?_append_left (by rw [hn]; exact hi),
        ih (fun j hj => h j (Nat.lt_succ_of_lt hj)) fun m hm => hlength m (Nat.le_succ_of_le hm),
        if_pos hi, if_pos (Nat.lt_succ_of_lt hi)]
    · rw [List.getElem?_append_right (by rw [hn]), hn, Nat.sub_self, if_pos (Nat.lt_succ_self i),
        hx]
      rfl
    · rw [List.getElem?_append_right (by rw [hn]; exact hi.le), hn, if_neg (by omega),
        List.getElem?_eq_none]
      rw [List.length_singleton]
      omega

theorem getElem?_decimated (l : List α) (i : ℕ) : (decimated convert l)[i]? =
    if 3 * i + 1 < l.length then (l[3 * i]?).map convert else none := by
  have hcount : ∀ j, j < (l.length + 1) / 3 ↔ 3 * j + 1 < l.length := fun j => by omega
  rw [decimated, getElem?_filterMap_range]
  · simp only [hcount]
  · intro j hj
    have hlt : 3 * j < l.length := by omega
    rw [List.getElem?_eq_getElem hlt]
    rfl

/-- A recording that goes on. Up to the remainder 2, the samples that are left are those from the
next multiple of 3 on. -/
theorem decimated_append {l : List α} (h : l.length % 3 ≠ 2) (l' : List α) :
    decimated convert (l ++ l') = decimated convert l ++
      decimated convert (l.drop (3 * ((l.length + 1) / 3)) ++ l') := by
  have hle : 3 * ((l.length + 1) / 3) ≤ l.length := by omega
  have hcount : ((l ++ l').length + 1) / 3 = (l.length + 1) / 3 +
      ((l.drop (3 * ((l.length + 1) / 3)) ++ l').length + 1) / 3 := by
    rw [List.length_append, List.length_append, List.length_drop]
    omega
  rw [decimated, hcount, List.range_add, List.filterMap_append, List.filterMap_map]
  refine congr (congrArg _ (List.filterMap_congr fun i hi => ?_))
    (List.filterMap_congr fun i _ => ?_)
  · have hlt : 3 * i < l.length := by
      have := List.mem_range.mp hi
      omega
    rw [List.getElem?_append_left hlt]
  · rw [Function.comp_apply, Nat.mul_add, ← List.getElem?_drop,
      List.drop_append_of_le_length hle]

/-! ### The calls -/

variable (c : NativeAudioCapture α β) (samples : List α)

/-- The step of the read position. -/
def stepOf : ℚ := c.device.waveInSampleRate.hz / kWireVoiceSampleRate

/-- `resampleSource_` when the loop starts. -/
def source : List α := c.resampleSource ++ samples

/-- The number of samples that a call erases from `source`. The source erases up to the position,
which may lie behind the end. -/
def consumed : ℕ :=
  (resample c.device.wireSampleBetween (stepOf c) (source c samples) (source c samples).length
    c.resamplePosition c.pcmAccumulator).1.floor.toNat

/-- The wire samples that a call appends to the accumulator. Without new samples it does nothing. -/
def produced : List β :=
  if samples = [] then []
  else (resample c.device.wireSampleBetween (stepOf c) (source c samples)
    (source c samples).length c.resamplePosition []).2

/-- The range that a call erases is in the source. Without samples a call does nothing. Otherwise
`erase` is given an end behind that of the vector, which is undefined. -/
def EraseValid : Prop := samples = [] ∨ consumed c samples ≤ (source c samples).length

/-- Every call of a sequence erases a valid range. -/
def AllValid : NativeAudioCapture α β → List (List α) → Prop
  | _, [] => True
  | c, samples :: buffers => EraseValid c samples ∧ AllValid (c.enqueueVoiceFrames samples) buffers

/-- The wire samples that a sequence of calls produces. -/
def wireSamples : NativeAudioCapture α β → List (List α) → List β
  | _, [] => []
  | c, samples :: buffers =>
    produced c samples ++ wireSamples (c.enqueueVoiceFrames samples) buffers

/-- Every erased range is valid, and the wire samples are the converted samples of the whole
recording at the positions 0, 3, 6, … that are followed by another one. -/
def Resamples (buffers : List (List α)) : Prop :=
  AllValid c buffers ∧ ∀ i, (wireSamples c buffers)[i]? =
    if 3 * i + 1 < buffers.flatten.length then (buffers.flatten[3 * i]?).map c.device.wireSample
    else none

variable {c samples}

/-- What a call appends is what it produces. -/
theorem pcmAccumulator_appendWireSamples (h : c.device.waveInSampleRate = .hz48000)
    (hne : samples ≠ []) :
    (c.appendWireSamples samples).pcmAccumulator = c.pcmAccumulator ++ produced c samples := by
  have hrate : ¬ WaveInRate.hz48000.hz = kWireVoiceSampleRate := by decide
  rw [NativeAudioCapture.appendWireSamples, h, if_neg hrate, produced, if_neg hne, stepOf, h]
  dsimp only
  rw [resample_append]
  rfl

theorem device_appendWireSamples (c : NativeAudioCapture α β) (samples : List α) :
    (c.appendWireSamples samples).device = c.device := by
  rw [NativeAudioCapture.appendWireSamples]
  split <;> rfl

/-- What a call does to the source and the position: what lies before the position is erased, and
the position counts from there on. -/
theorem appendWireSamples_eq (h : c.device.waveInSampleRate = .hz48000) :
    (c.appendWireSamples samples).resampleSource = (source c samples).drop (consumed c samples) ∧
      (c.appendWireSamples samples).resamplePosition =
        (resample c.device.wireSampleBetween (stepOf c) (source c samples) (source c samples).length
          c.resamplePosition c.pcmAccumulator).1 - consumed c samples := by
  have hrate : ¬ WaveInRate.hz48000.hz = kWireVoiceSampleRate := by decide
  rw [NativeAudioCapture.appendWireSamples, h, if_neg hrate, consumed, stepOf, h]
  exact ⟨rfl, rfl⟩

/-- The capture after `recorded`: the source holds what comes after the last multiple of 3 that has
been read, and the position is back at 0. -/
structure Synced (device : WaveIn α β) (recorded : List α) (c : NativeAudioCapture α β) : Prop where
  device_eq : c.device = device
  source_eq : c.resampleSource = recorded.drop (3 * ((recorded.length + 1) / 3))
  position : c.resamplePosition = 0
  remainder : recorded.length % 3 ≠ 2

variable {device : WaveIn α β} {recorded : List α}

theorem stepOf_eq (h : c.device.waveInSampleRate = .hz48000) : stepOf c = 3 := by
  rw [stepOf, h]
  norm_num [WaveInRate.hz, kWireVoiceSampleRate]

/-- **The loop of one call**, on what the last call has left and the new samples: every third
sample, from the first one on. -/
theorem Synced.resample (hrate : device.waveInSampleRate = .hz48000)
    (hwhole : ∀ x y, device.wireSampleBetween x y 0 = device.wireSample x)
    (hc : Synced device recorded c) (out : List β) :
    Audio.resample c.device.wireSampleBetween (stepOf c) (source c samples)
        (source c samples).length c.resamplePosition out =
      (((3 * (((source c samples).length + 1) / 3) : ℕ) : ℚ),
        out ++ decimated device.wireSample (source c samples)) := by
  have hloop := resample_three hwhole (source c samples) (source c samples).length 0 out le_rfl
  rw [Nat.mul_zero, Nat.cast_zero, Nat.zero_max, Nat.sub_zero, ← List.range_eq_range'] at hloop
  rw [stepOf_eq (by rw [hc.device_eq]; exact hrate), hc.position, hc.device_eq]
  exact hloop

variable (samples) in
/-- At most one sample is left over, besides those that the call brings. -/
theorem Synced.length_source (hc : Synced device recorded c) :
    (source c samples).length + 3 * ((recorded.length + 1) / 3) =
      (recorded ++ samples).length := by
  have hremainder := hc.remainder
  rw [source, hc.source_eq, List.length_append, List.length_append, List.length_drop]
  omega

theorem Synced.produced (hrate : device.waveInSampleRate = .hz48000)
    (hwhole : ∀ x y, device.wireSampleBetween x y 0 = device.wireSample x)
    (hc : Synced device recorded c) :
    produced c samples = decimated device.wireSample (source c samples) := by
  rw [Resampling.produced]
  split
  · next hnil =>
    have hlength := hc.length_source samples
    have hremainder := hc.remainder
    rw [hnil, List.append_nil] at hlength
    have hnone : ((source c samples).length + 1) / 3 = 0 := by
      rw [hnil]
      omega
    rw [decimated, hnone]
    rfl
  · rw [hc.resample hrate hwhole]
    exact List.nil_append _

theorem Synced.consumed (hrate : device.waveInSampleRate = .hz48000)
    (hwhole : ∀ x y, device.wireSampleBetween x y 0 = device.wireSample x)
    (hc : Synced device recorded c) :
    consumed c samples = 3 * (((source c samples).length + 1) / 3) := by
  rw [Resampling.consumed, hc.resample hrate hwhole]
  exact floor_natCast _

/-- **When a call erases a valid range**: unless, with all samples so far, two are left over after
every third. Then the position is behind the end of the vector. -/
theorem Synced.eraseValid_iff (hrate : device.waveInSampleRate = .hz48000)
    (hwhole : ∀ x y, device.wireSampleBetween x y 0 = device.wireSample x)
    (hc : Synced device recorded c) :
    EraseValid c samples ↔ (recorded ++ samples).length % 3 ≠ 2 := by
  have hlength := hc.length_source samples
  have hremainder := hc.remainder
  rw [EraseValid, hc.consumed hrate hwhole]
  constructor
  · rintro (hnil | hle)
    · rw [hnil, List.append_nil]
      exact hremainder
    · omega
  · intro h
    right
    omega

/-- **One call** whose range is valid keeps the device, the position and what is left in step with
all that was recorded. -/
theorem Synced.enqueue (hrate : device.waveInSampleRate = .hz48000)
    (hwhole : ∀ x y, device.wireSampleBetween x y 0 = device.wireSample x)
    (hc : Synced device recorded c) (h : (recorded ++ samples).length % 3 ≠ 2) :
    Synced device (recorded ++ samples) (c.enqueueVoiceFrames samples) := by
  rw [NativeAudioCapture.enqueueVoiceFrames]
  split
  · next hnil =>
    rw [hnil, List.append_nil]
    exact hc
  · have hlength := hc.length_source samples
    have hremainder := hc.remainder
    have hle : 3 * ((recorded.length + 1) / 3) ≤ recorded.length := by omega
    obtain ⟨hsource, hposition⟩ := @appendWireSamples_eq _ _ c samples
      (by rw [hc.device_eq]; exact hrate)
    refine ⟨?_, ?_, ?_, h⟩
    · exact (device_appendWireSamples c samples).trans hc.device_eq
    · have hdrop : source c samples = (recorded ++ samples).drop
          (3 * ((recorded.length + 1) / 3)) := by
        rw [source, hc.source_eq, List.drop_append_of_le_length hle]
      refine hsource.trans ?_
      rw [hc.consumed hrate hwhole, hdrop, List.drop_drop]
      rw [hdrop] at hlength
      congr 1
      omega
    · refine hposition.trans ?_
      rw [hc.consumed hrate hwhole, hc.resample hrate hwhole]
      exact sub_self _

/-- **Which sequences erase valid ranges.** The induction is on the sequence; before the first call
that does not, the capture is in step with the recording. -/
theorem Synced.allValid_iff (hrate : device.waveInSampleRate = .hz48000)
    (hwhole : ∀ x y, device.wireSampleBetween x y 0 = device.wireSample x)
    (buffers : List (List α)) : ∀ {c : NativeAudioCapture α β} {recorded : List α},
      Synced device recorded c → (AllValid c buffers ↔
        ∀ n, (recorded ++ (buffers.take n).flatten).length % 3 ≠ 2) := by
  induction buffers with
  | nil =>
    intro c recorded hc
    refine iff_of_true trivial fun n => ?_
    rw [List.take_nil, List.flatten_nil, List.append_nil]
    exact hc.remainder
  | cons samples buffers ih =>
    intro c recorded hc
    rw [AllValid, hc.eraseValid_iff hrate hwhole]
    constructor
    · rintro ⟨hvalid, hrest⟩ n
      cases n with
      | zero =>
        rw [List.take_zero, List.flatten_nil, List.append_nil]
        exact hc.remainder
      | succ n =>
        have hn := (ih (hc.enqueue hrate hwhole hvalid)).mp hrest n
        rwa [List.append_assoc] at hn
    · intro hall
      have hvalid : (recorded ++ samples).length % 3 ≠ 2 := by simpa using hall 1
      refine ⟨hvalid, (ih (hc.enqueue hrate hwhole hvalid)).mpr fun n => ?_⟩
      rw [List.append_assoc]
      exact hall (n + 1)

/-- **What valid sequences produce** is every third of all the samples, however these are cut into
buffers. -/
theorem Synced.wireSamples_eq (hrate : device.waveInSampleRate = .hz48000)
    (hwhole : ∀ x y, device.wireSampleBetween x y 0 = device.wireSample x)
    (buffers : List (List α)) : ∀ {c : NativeAudioCapture α β} {recorded : List α},
      Synced device recorded c →
      (∀ n, (recorded ++ (buffers.take n).flatten).length % 3 ≠ 2) →
      decimated device.wireSample recorded ++ wireSamples c buffers =
        decimated device.wireSample (recorded ++ buffers.flatten) := by
  induction buffers with
  | nil =>
    intro c recorded _ _
    rw [wireSamples, List.flatten_nil, List.append_nil, List.append_nil]
  | cons samples buffers ih =>
    intro c recorded hc hall
    have hvalid : (recorded ++ samples).length % 3 ≠ 2 := by simpa using hall 1
    have hrest := ih (hc.enqueue hrate hwhole hvalid) fun n => by
      rw [List.append_assoc]
      exact hall (n + 1)
    rw [wireSamples, hc.produced hrate hwhole, List.flatten_cons, ← List.append_assoc, ←
      List.append_assoc, ← hrest, decimated_append hc.remainder, source, hc.source_eq]

/-- **When 48 kHz are resampled.** For every sequence of calls after `openWaveIn`: every call erases
a valid range, and the wire samples are the converted samples of the recording at the positions 0,
3, 6, … that are followed by another one, exactly if after no call the number of samples recorded
so far leaves the remainder 2 when divided by 3. -/
theorem resamples_iff (hrate : c.device.waveInSampleRate = .hz48000)
    (hwhole : ∀ x y, c.device.wireSampleBetween x y 0 = c.device.wireSample x)
    (hsource : c.resampleSource = []) (hposition : c.resamplePosition = 0)
    (buffers : List (List α)) :
    Resamples c buffers ↔ ∀ n, (buffers.take n).flatten.length % 3 ≠ 2 := by
  have hc : Synced c.device [] c :=
    ⟨rfl, hsource.trans List.drop_nil.symm, hposition, Nat.zero_ne_add_one 1⟩
  rw [Resamples, hc.allValid_iff hrate hwhole]
  simp only [List.nil_append]
  refine and_iff_left_of_imp fun hall i => ?_
  have hwire := hc.wireSamples_eq hrate hwhole buffers hall
  have hnone : decimated c.device.wireSample [] = [] := by simp [decimated]
  rw [hnone, List.nil_append, List.nil_append] at hwire
  rw [hwire, getElem?_decimated]

/-! ### Two samples -/

/-- A microphone of 48 kHz. -/
def wideCapture : NativeAudioCapture Int16 Int16 where
  device := microphone .hz48000 0

/-- A buffer as the device fills it, and one that it has returned early. -/
def uneven : List (List Int16) := [List.replicate 960 5, [1, 2, 3, 4]]

theorem resamples_iff_uneven : Resamples wideCapture uneven := by
  refine (resamples_iff rfl (fun _ _ => rfl) rfl rfl uneven).mpr fun n => ?_
  rcases n with _ | _ | n
  · decide
  · decide +kernel
  · have hlength : (uneven.take (n + 2)).flatten.length = 964 := by
      rw [List.take_of_length_le (Nat.le_add_left 2 n)]
      decide +kernel
    rw [hlength]
    decide

/-- **A buffer of two samples** makes the call erase three. -/
theorem two_samples_erase_three : ¬ Resamples wideCapture [[1, 2]] ∧
    consumed wideCapture [1, 2] = 3 ∧ (source wideCapture [1, 2]).length = 2 := by
  have hconsumed : consumed wideCapture [1, 2] = 3 := by decide +kernel
  refine ⟨fun h => ?_, hconsumed, rfl⟩
  rcases h.1.1 with hnil | hle
  · exact List.cons_ne_nil _ _ hnil
  · rw [hconsumed] at hle
    exact absurd hle (by decide)

end Resampling

end Audio

end TarkovVoice

import TarkovVoice.Audio.Capture
import TarkovVoice.Chunks
import TarkovVoice.LookBack
import TarkovVoice.Machine

/-!
# Frames from a recording at the wire rate

A device that records at 16 kHz needs no resampling: its buffers, converted sample by sample, enter
the accumulator, and complete frames of 320 samples leave it. Whatever the lengths of the buffers,
the accumulator and the frames that wait to be drained are functions of what has been recorded, and
of where the last drain was.

## Main definitions

* `Framing.machine` — buffers and drains in any order
* `Framing.wire`, `Framing.framesSince` — the converted recording, and its complete frames since the
  last drain
* `Framing.Cut` — the capture as a function of these

## Main results

* `cutFrames_eq` — the loop cuts off the complete chunks
* `Framing.Cut.next` — one call
* `Framing.framing`
-/

namespace TarkovVoice

namespace Audio

variable {α β : Type*}

/-- **The loop** over the accumulator cuts off its complete frames. -/
theorem cutFrames_eq (n : ℕ) : ∀ accumulator : List β, accumulator.length ≤ n →
    cutFrames n accumulator =
      (Chunks.complete kWireVoiceSamplesPerFrame accumulator,
        Chunks.rest kWireVoiceSamplesPerFrame accumulator) := by
  have hpos : 0 < kWireVoiceSamplesPerFrame := by decide
  induction n with
  | zero =>
    intro accumulator h
    have hlt : accumulator.length < kWireVoiceSamplesPerFrame := h.trans_lt hpos
    rw [cutFrames, Chunks.complete_of_lt hlt, Chunks.rest_of_lt hlt]
  | succ n ih =>
    intro accumulator h
    rw [cutFrames]
    split
    · next hle =>
      obtain ⟨hcomplete, hrest⟩ := Chunks.complete_of_le hpos hle
      rw [hcomplete, hrest, ih _ (by rw [List.length_drop]; omega)]
    · next hlt =>
      rw [not_le] at hlt
      rw [Chunks.complete_of_lt hlt, Chunks.rest_of_lt hlt]

namespace Framing

/-- The calls of a capture: `pumpLevel` hands over the samples of a buffer, of any length, and the
engine drains the frames that are complete. -/
inductive Call (α : Type*)
  | enqueueVoiceFrames (samples : List α)
  | drainVoiceFrames

/-- A capture, what has been recorded, the frames drained, and the number of samples recorded by
the last drain. -/
structure State (α β : Type*) where
  capture : NativeAudioCapture α β
  recorded : List α := []
  drained : List (List β) := []
  drainedAt : ℕ := 0

/-- What a call does. -/
def next (s : State α β) : Call α → State α β
  | .enqueueVoiceFrames samples =>
    { s with
      capture := s.capture.enqueueVoiceFrames samples
      recorded := s.recorded ++ samples }
  | .drainVoiceFrames =>
    { s with
      capture := s.capture.drainVoiceFrames.1
      drained := s.drained ++ s.capture.drainVoiceFrames.2
      drainedAt := s.recorded.length }

/-- The runs of a capture that has been opened at the wire rate. The calls come in any order, and
the buffers may have any length, also 0. -/
def machine : Machine (State α β) (Call α) :=
  .ofNext
    (fun s => ∃ c : NativeAudioCapture α β, c.device.waveInSampleRate = .wire ∧
      c.pcmAccumulator = [] ∧ c.pendingVoiceFrames = [] ∧ s = { capture := c })
    (fun _ _ => True) next

variable {s : State α β} {t : List (State α β × Call α)}

/-- The recording, converted. -/
def wire (s : State α β) : List β := s.recorded.map s.capture.device.wireSample

/-- Its complete frames since the last drain. -/
def framesSince (s : State α β) : List (List β) :=
  (Chunks.complete kWireVoiceSamplesPerFrame (wire s)).drop
    (s.drainedAt / kWireVoiceSamplesPerFrame)

/-- What the capture holds is determined by the recording: the accumulator is what is left after
cutting it into frames, and what waits to be drained are the newest 25 frames since the last drain.
This is the invariant of the runs. -/
structure Cut (s : State α β) : Prop where
  rate : s.capture.device.waveInSampleRate = .wire
  accumulator : s.capture.pcmAccumulator = Chunks.rest kWireVoiceSamplesPerFrame (wire s)
  pending : s.capture.pendingVoiceFrames = (framesSince s).rtake 25
  drainedAt : s.drainedAt ≤ s.recorded.length
  frames : ∀ f ∈ s.drained, f.length = kWireVoiceSamplesPerFrame

theorem length_rest_lt (l : List β) : (Chunks.rest kWireVoiceSamplesPerFrame l).length < 320 := by
  rw [Chunks.length_rest]
  exact Nat.mod_lt _ (by decide)

/-- **One buffer** adds its converted samples to the accumulator, and the complete frames to those
that wait. -/
theorem enqueueVoiceFrames_eq {c : NativeAudioCapture α β}
    (hrate : c.device.waveInSampleRate = .wire) {samples : List α} (h : samples ≠ []) :
    c.enqueueVoiceFrames samples = { c with
      pcmAccumulator := Chunks.rest kWireVoiceSamplesPerFrame
        (c.pcmAccumulator ++ samples.map c.device.wireSample)
      pendingVoiceFrames := (c.pendingVoiceFrames ++ Chunks.complete kWireVoiceSamplesPerFrame
        (c.pcmAccumulator ++ samples.map c.device.wireSample)).rtake 25 } := by
  have happend : c.appendWireSamples samples = { c with
      pcmAccumulator := c.pcmAccumulator ++ samples.map c.device.wireSample } := by
    rw [NativeAudioCapture.appendWireSamples, hrate, WaveInRate.hz, if_pos rfl]
  have hshort : ¬ (Chunks.rest kWireVoiceSamplesPerFrame
      (c.pcmAccumulator ++ samples.map c.device.wireSample)).length >
        kWireVoiceSamplesPerFrame * 10 := by
    have hlt := length_rest_lt (c.pcmAccumulator ++ samples.map c.device.wireSample)
    rw [kWireVoiceSamplesPerFrame_eq] at hlt ⊢
    omega
  rw [NativeAudioCapture.enqueueVoiceFrames, if_neg h, happend, NativeAudioCapture.cutVoiceFrames,
    cutFrames_eq _ _ le_rfl]
  dsimp only
  rw [keepLast, if_neg hshort, keepLast_eq_rtake]

/-- The converted recording after one more buffer. -/
theorem wire_enqueue (hs : Cut s) (samples : List α) :
    wire (next s (.enqueueVoiceFrames samples)) =
      wire s ++ samples.map s.capture.device.wireSample := by
  by_cases hnil : samples = []
  · rw [wire, next, NativeAudioCapture.enqueueVoiceFrames, if_pos hnil]
    exact List.map_append
  · rw [wire, next, enqueueVoiceFrames_eq hs.rate hnil]
    exact List.map_append

/-- The last drain is before the end of the recording. -/
theorem Cut.drainedAt_le (hs : Cut s) : s.drainedAt / kWireVoiceSamplesPerFrame ≤
    (Chunks.complete kWireVoiceSamplesPerFrame (wire s)).length := by
  rw [Chunks.length_complete, wire, List.length_map]
  exact Nat.div_le_div_right hs.drainedAt

theorem Cut.enqueue (hs : Cut s) (samples : List α) :
    Cut (next s (.enqueueVoiceFrames samples)) := by
  by_cases hnil : samples = []
  · have hsame : next s (.enqueueVoiceFrames samples) = s := by
      rw [next, NativeAudioCapture.enqueueVoiceFrames, if_pos hnil, hnil, List.append_nil]
    rw [hsame]
    exact hs
  · have hpos : 0 < kWireVoiceSamplesPerFrame := by decide
    have heq := enqueueVoiceFrames_eq hs.rate hnil
    have hwire := wire_enqueue hs samples
    have hsince : framesSince (next s (.enqueueVoiceFrames samples)) = framesSince s ++
        Chunks.complete kWireVoiceSamplesPerFrame
          (s.capture.pcmAccumulator ++ samples.map s.capture.device.wireSample) := by
      rw [framesSince, hwire, Chunks.complete_append hpos, ← hs.accumulator]
      exact List.drop_append_of_le_length hs.drainedAt_le
    refine ⟨?_, ?_, ?_, ?_, hs.frames⟩
    · rw [next, heq]
      exact hs.rate
    · rw [hwire, Chunks.rest_append hpos, ← hs.accumulator, next, heq]
    · rw [hsince, ← LookBack.rtake_rtake_append, ← hs.pending, next, heq]
    · rw [next, List.length_append]
      exact Nat.le_add_right_of_le hs.drainedAt

theorem Cut.length_pending (hs : Cut s) : ∀ f ∈ s.capture.pendingVoiceFrames,
    f.length = kWireVoiceSamplesPerFrame := by
  intro f hf
  rw [hs.pending] at hf
  exact Chunks.length_of_mem_complete (List.mem_of_mem_drop (List.mem_of_mem_drop hf))

theorem Cut.drain (hs : Cut s) : Cut (next s .drainVoiceFrames) := by
  refine ⟨hs.rate, hs.accumulator, ?_, le_rfl, fun f hf => ?_⟩
  · have hnone : framesSince (next s .drainVoiceFrames) = [] := by
      refine List.drop_eq_nil_of_le ?_
      rw [Chunks.length_complete, wire, List.length_map]
      exact le_rfl
    rw [hnone]
    rfl
  · exact (List.mem_append.mp hf).elim (hs.frames f) (hs.length_pending f)

/-- **One call** keeps the framing: what it records is cut where the stream of all samples
is cut. -/
theorem Cut.next (hs : Cut s) (c : Call α) : Cut (next s c) := by
  cases c with
  | enqueueVoiceFrames samples => exact hs.enqueue samples
  | drainVoiceFrames => exact hs.drain

theorem cut_of_run (h : machine.Run t s) : Cut s := by
  refine h.invariant (I := Cut) ?_ ?_
  · rintro s ⟨c, hrate, haccumulator, hpending, rfl⟩
    have hnone : framesSince ({ capture := c } : State α β) = [] := by
      simp [framesSince, wire, Chunks.complete]
    refine ⟨hrate, haccumulator.trans List.drop_nil.symm, ?_, le_rfl,
      fun _ hf => absurd hf List.not_mem_nil⟩
    rw [hnone]
    exact hpending
  · rintro s c s' hs ⟨-, rfl⟩
    exact hs.next c

/-- No more than 25 frames have been completed since the last drain, so that `enqueueVoiceFrames`
has not dropped any of these. -/
def Kept (s : State α β) : Prop := (framesSince s).length ≤ 25

theorem framesSince_eq (hs : Cut s) (hkept : Kept s) :
    s.capture.pendingVoiceFrames = framesSince s := by
  rw [hs.pending, List.rtake, Nat.sub_eq_zero_of_le hkept, List.drop_zero]

/-- The drained frames are those that were complete before the last drain. This holds as long as no
frame is dropped in between. -/
def Complete (s : State α β) : Prop :=
  s.drained = (Chunks.complete kWireVoiceSamplesPerFrame (wire s)).take
    (s.drainedAt / kWireVoiceSamplesPerFrame)

/-- **No frame is lost** in a call before which no more than 25 have been completed since the last
drain. -/
theorem Complete.next (hs : Cut s) (hkept : Kept s) (h : Complete s) (c : Call α) :
    Complete (next s c) := by
  cases c with
  | enqueueVoiceFrames samples =>
    rw [Complete, wire_enqueue hs, Chunks.complete_append (by decide)]
    exact h.trans (List.take_append_of_le_length hs.drainedAt_le).symm
  | drainVoiceFrames =>
    have hall : s.drained ++ s.capture.pendingVoiceFrames =
        Chunks.complete kWireVoiceSamplesPerFrame (wire s) := by
      rw [framesSince_eq hs hkept, h]
      exact List.take_append_drop _ _
    refine hall.trans (List.take_of_length_le ?_).symm
    rw [Chunks.length_complete, wire, List.length_map]
    exact le_rfl

theorem complete_of_run (h : machine.Run t s) (hkept : ∀ x ∈ t, Kept x.1) : Complete s := by
  refine (@Machine.Run.invariant_of_good _ _ _ (fun s => Cut s ∧ Complete s) (fun s _ => Kept s)
    ?_ ?_ _ _ h hkept).2
  · rintro s ⟨c, hrate, haccumulator, hpending, rfl⟩
    refine ⟨cut_of_run (.start ⟨c, hrate, haccumulator, hpending, rfl⟩), ?_⟩
    simp [Complete, wire, Chunks.complete]
  · rintro s c s' ⟨hs, hcomplete⟩ hgood ⟨-, rfl⟩
    exact ⟨hs.next c, hcomplete.next hs hgood c⟩

/-- **Framing a recording.** In every run of a capture at the wire rate, with buffers of any
lengths and drains at any time: every frame has 320 samples and the accumulator fewer; the frames
that wait are the newest 25 of those completed since the last drain; and if there were never more
than 25 of these, the drained frames, those that wait and the accumulator are the converted
recording. -/
theorem framing (h : machine.Run t s) :
    ((∀ f ∈ s.drained ++ s.capture.pendingVoiceFrames, f.length = 320) ∧
      s.capture.pcmAccumulator.length < 320) ∧
    s.capture.pendingVoiceFrames = (framesSince s).rtake 25 ∧
    ((∀ x ∈ t, (framesSince x.1).length ≤ 25) → (framesSince s).length ≤ 25 →
      s.drained.flatten ++ s.capture.pendingVoiceFrames.flatten ++ s.capture.pcmAccumulator =
        wire s) := by
  have hs := cut_of_run h
  refine ⟨⟨fun f hf => ?_, ?_⟩, hs.pending, fun hbefore hkept => ?_⟩
  · exact (List.mem_append.mp hf).elim (hs.frames f) (hs.length_pending f)
  · rw [hs.accumulator]
    exact length_rest_lt _
  · rw [framesSince_eq hs hkept, complete_of_run h hbefore, hs.accumulator, framesSince,
      ← List.flatten_append, List.take_append_drop]
    exact Chunks.flatten_complete (by decide) (wire s)

/-- A microphone at the wire rate. -/
def wireCapture : NativeAudioCapture Int16 Int16 where
  device := microphone .wire 0

/-- Two buffers of 200 samples, and a drain after the second. -/
def twoBuffers : List (Call Int16) :=
  [.enqueueVoiceFrames (List.replicate 200 1), .enqueueVoiceFrames (List.replicate 200 2),
    .drainVoiceFrames]

theorem framing_twoBuffers :
    (twoBuffers.foldl next { capture := wireCapture }).drained.flatten ++
      (twoBuffers.foldl next { capture := wireCapture }).capture.pendingVoiceFrames.flatten ++
      (twoBuffers.foldl next { capture := wireCapture }).capture.pcmAccumulator =
        List.replicate 200 1 ++ List.replicate 200 2 := by
  have hrun : machine.Run (Machine.trace next { capture := wireCapture } twoBuffers)
      (twoBuffers.foldl next { capture := wireCapture }) :=
    Machine.run_trace ⟨_, rfl, rfl, rfl, rfl⟩ fun _ _ => trivial
  have hkept : ∀ x ∈ Machine.trace next { capture := wireCapture } twoBuffers,
      (framesSince x.1).length ≤ 25 := by
    simp only [twoBuffers, Machine.forall_trace_cons, Machine.forall_trace_nil]
    decide +kernel
  rw [(framing hrun).2.2 hkept (by decide +kernel)]
  decide +kernel

end Framing

end Audio

end TarkovVoice

import TarkovVoice.Audio.Tagging
import TarkovVoice.Machine

/-!
# What is recorded while muted

A mute is meant to keep what is said during it from the other players. This file follows every
recorded sample through runs of a started engine, by the tag it was given when it was recorded.

While muted, `pump` returns before it reads the buffers. They stay completed, with what was
recorded, until the first pump after the mute reads them into the accumulator: this is how muted
samples are sent. Nothing else keeps them. So the condition under which a mute works is about the
buffers that an unmuted pump finds.

The machine is stated once, for any way of marking what is recorded. With tags it is the machine
the results are about; without, it is the engine of the source, and `erase_run` takes a run of the
one to the run of the other.

## Main definitions

* `Muting.machine`, `Muting.plain`, `Muting.tagged` — runs of a started engine
* `Muting.ReadsUnmuted` — the condition on a step

## Main results

* `Muting.erase_run` — without the tags, a tagged run is a run of the engine
* `Muting.unmuted_of_readsUnmuted` — no muted sample is sent in a run whose pumps find none
* `Muting.muted_sent` — one is sent in the run mute, record, unmute, pump
-/

namespace TarkovVoice

namespace Audio

open NativeAudioCapture (firstBuffer)

namespace Muting

/-- What happens to a started engine. The device fills and completes buffers at its own pace,
between any two calls, which is how samples from before and after a change of the flag come into one
buffer. -/
inductive Action (γ : Type*)
  /-- The device records values into a buffer. -/
  | record (i : Fin 4) (values : List γ)
  /-- The device completes a buffer. -/
  | complete (i : Fin 4)
  | pump (now : ℕ)
  | setMuted (muted : Bool)
  | setPushToTalkActive (active : Bool)

/-- The engine, and the frames it has passed to the transport so far, each with the samples it was
made of. -/
structure State (α β : Type*) where
  engine : VoiceEngine α β
  sent : List (SentFrame β) := []

variable {α β γ : Type*}

/-- The device keeps to the buffers it has been given. Everything else may always happen. -/
def Enabled (s : State α β) : Action γ → Prop
  | .record i values => s.engine.CanRecord i values.length
  | .complete i => s.engine.CanComplete i
  | _ => True

/-- What the action does. A recorded value becomes a sample through `mark`, which may look at the
engine as it is then. -/
def next (env : Platform α β) (mark : VoiceEngine α β → γ → α) (s : State α β) :
    Action γ → State α β
  | .record i values => { s with engine := s.engine.record i (values.map (mark s.engine)) }
  | .complete i => { s with engine := s.engine.complete i }
  | .pump now =>
    let (engine, sent) := s.engine.pump env now
    { engine, sent := s.sent ++ sent }
  | .setMuted muted => { s with engine := s.engine.setMuted muted }
  | .setPushToTalkActive active => { s with engine := s.engine.setPushToTalkActive active }

/-- The runs of an engine that has been started, with any settings and at any time. -/
def machine (env : Platform α β) (mark : VoiceEngine α β → γ → α) :
    Machine (State α β) (Action γ) :=
  .ofNext (fun s => ∃ (engine : VoiceEngine α β) (now : ℕ), s = { engine := engine.start env now })
    Enabled (next env mark)

/-- The engine of the source, which knows no tags: its runs are those of the tagged engine with the
tags taken off. -/
def plain (env : Platform α β) : Machine (State α β) (Action α) := machine env fun _ x => x

/-- The mute flag a sample is recorded under. -/
def tag (e : VoiceEngine (Tagged α) (Tagged β)) (value : α) : Tagged α := ⟨value, e.metrics.muted⟩

/-- The engine with tagged samples. The device tags what it records with the mute flag at that time,
and nothing the engine does depends on the tags. -/
def tagged (env : Platform α β) : Machine (State (Tagged α) (Tagged β)) (Action α) :=
  machine env.tagged tag

/-! ### The tagged machine projects to the plain one -/

/-- A state without the tags. -/
def State.erase (s : State (Tagged α) (Tagged β)) : State α β where
  engine := s.engine.erase
  sent := s.sent.map SentFrame.erase

theorem erase_tag (e : VoiceEngine (Tagged α) (Tagged β)) (values : List α) :
    (values.map (tag e)).map Tagged.value = values.map fun x => x := by
  rw [List.map_map]
  rfl

theorem erase_onCapture (e : VoiceEngine (Tagged α) (Tagged β))
    {f : NativeAudioCapture (Tagged α) (Tagged β) → NativeAudioCapture (Tagged α) (Tagged β)}
    {g : NativeAudioCapture α β → NativeAudioCapture α β} (h : ∀ c, (f c).erase = g c.erase) :
    (e.nativeCapture.map f).map NativeAudioCapture.erase = e.erase.nativeCapture.map g := by
  rw [VoiceEngine.erase, Option.map_map, Option.map_map]
  exact congrArg (Option.map · e.nativeCapture) (funext h)

theorem enabled_erase {s : State (Tagged α) (Tagged β)} {a : Action α} (h : Enabled s a) :
    Enabled s.erase a := by
  cases a with
  | record i values =>
    intro c' hc'
    obtain ⟨c, hc, rfl⟩ := Option.map_eq_some_iff.mp hc'
    obtain ⟨hdone, hfits⟩ := h c hc
    refine ⟨hdone, ?_⟩
    show ((c.buffers i).recorded.map Tagged.value).length + _ ≤ _
    rw [List.length_map]
    exact hfits
  | complete i =>
    intro c' hc'
    obtain ⟨c, hc, rfl⟩ := Option.map_eq_some_iff.mp hc'
    exact h c hc
  | pump now => trivial
  | setMuted muted => trivial
  | setPushToTalkActive active => trivial

theorem erase_next (env : Platform α β) {s : State (Tagged α) (Tagged β)}
    (h : s.engine.OnTagged) (a : Action α) :
    (next env.tagged tag s a).erase = next env (fun _ x => x) s.erase a ∧
      (next env.tagged tag s a).engine.OnTagged := by
  cases a with
  | record i values =>
    refine ⟨?_, fun c' hc' => ?_⟩
    · have hrecord : ∀ c : NativeAudioCapture (Tagged α) (Tagged β),
          (c.record i (values.map (tag s.engine))).erase =
            c.erase.record i (values.map fun x => x) := by
        intro c
        rw [c.erase_record, erase_tag]
      have hcapture := @erase_onCapture _ _ s.engine _ (fun c => c.record i _) hrecord
      exact congrArg (fun capture => ({ s.erase with engine :=
        { s.engine.erase with nativeCapture := capture } } : State α β)) hcapture
    · obtain ⟨c, hc, rfl⟩ := Option.map_eq_some_iff.mp hc'
      exact h c hc
  | complete i =>
    refine ⟨?_, fun c' hc' => ?_⟩
    · have hcapture := @erase_onCapture _ _ s.engine _ (fun c => c.complete i)
        fun c => c.erase_complete i
      exact congrArg (fun capture => ({ s.erase with engine :=
        { s.engine.erase with nativeCapture := capture } } : State α β)) hcapture
    · obtain ⟨c, hc, rfl⟩ := Option.map_eq_some_iff.mp hc'
      exact h c hc
  | pump now =>
    obtain ⟨hengine, hsent⟩ := VoiceEngine.erase_pump env h now
    refine ⟨?_, VoiceEngine.onTagged_pump env h now⟩
    rw [State.erase, next, next]
    dsimp only
    rw [List.map_append, hengine, hsent]
    rfl
  | setMuted muted =>
    refine ⟨?_, h⟩
    cases muted <;> rfl
  | setPushToTalkActive active => exact ⟨rfl, h⟩

/-- **Without the tags, a tagged run is a run of the engine**, with the same actions: the tags
change nothing of what the engine does. -/
theorem erase_run {env : Platform α β} {t : List (State (Tagged α) (Tagged β) × Action α)}
    {s : State (Tagged α) (Tagged β)} (h : (tagged env).Run t s) :
    (plain env).Run (t.map fun x => (x.1.erase, x.2)) s.erase ∧ s.engine.OnTagged := by
  induction h with
  | start hinit =>
    obtain ⟨engine, now, rfl⟩ := hinit
    refine ⟨.start ⟨engine.erase, now, ?_⟩, VoiceEngine.onTagged_start env now⟩
    rw [State.erase]
    dsimp only
    rw [VoiceEngine.erase_start]
    rfl
  | snoc _ hstep ih =>
    obtain ⟨hrun, hon⟩ := ih
    obtain ⟨hen, rfl⟩ := hstep
    obtain ⟨herase, hon'⟩ := erase_next env hon _
    refine ⟨?_, hon'⟩
    rw [List.map_append]
    exact hrun.snoc ⟨enabled_erase hen, herase⟩

/-! ### Where muted samples are -/

/-- A pump outside a mute finds no completed buffer with samples recorded during one. -/
def ReadsUnmuted (s : State (Tagged α) (Tagged β)) : Action α → Prop
  | .pump _ => s.engine.metrics.muted = false → ∀ x, s.engine.Readable x → x.muted = false
  | _ => True

/-- No sample recorded while muted is kept past the buffers, be it in the accumulator, in a frame
that waits or in the frames held back, and none has been sent. -/
structure Unmuted (s : State (Tagged α) (Tagged β)) : Prop where
  holds : s.engine.Holds (fun x => x.muted = false) fun y => y.muted = false
  sent : ∀ f ∈ s.sent, ∀ y ∈ f.pcm, y.muted = false

theorem unmuted_start (env : Platform α β) (engine : VoiceEngine (Tagged α) (Tagged β)) (now : ℕ) :
    Unmuted { engine := engine.start env.tagged now } := by
  refine ⟨⟨fun c hc => ?_, fun _ hf => absurd hf List.not_mem_nil⟩,
    fun _ hf => absurd hf List.not_mem_nil⟩
  obtain ⟨d, hd, rfl⟩ := Option.map_eq_some_iff.mp hc
  obtain ⟨d, -, rfl⟩ := Option.map_eq_some_iff.mp hd
  refine ⟨fun x hx => hx, fun x y t hx hy => ?_, ?_, ?_, ?_⟩
  · show (x.muted || y.muted) = false
    rw [hx, hy]
    rfl
  · exact fun _ hx => absurd hx List.not_mem_nil
  · exact fun _ hy => absurd hy List.not_mem_nil
  · exact fun _ hf => absurd hf List.not_mem_nil

theorem Unmuted.next {env : Platform α β} {s : State (Tagged α) (Tagged β)} {a : Action α}
    (h : Unmuted s) (hgood : ReadsUnmuted s a) : Unmuted (next env.tagged tag s a) := by
  cases a with
  | record i values =>
    refine ⟨⟨fun c' hc' => ?_, h.holds.preSpeech⟩, h.sent⟩
    obtain ⟨c, hc, rfl⟩ := Option.map_eq_some_iff.mp hc'
    exact (h.holds.capture c hc).record i _
  | complete i =>
    refine ⟨⟨fun c' hc' => ?_, h.holds.preSpeech⟩, h.sent⟩
    obtain ⟨c, hc, rfl⟩ := Option.map_eq_some_iff.mp hc'
    exact (h.holds.capture c hc).complete i
  | pump now =>
    obtain ⟨hholds, hsent⟩ :=
      @VoiceEngine.Holds.pump _ _ env.tagged s.engine _ _ h.holds hgood now
    refine ⟨hholds, fun f hf => ?_⟩
    exact (List.mem_append.mp hf).elim (h.sent f) (hsent f)
  | setMuted muted => exact ⟨⟨h.holds.capture, h.holds.preSpeech⟩, h.sent⟩
  | setPushToTalkActive active => exact ⟨⟨h.holds.capture, h.holds.preSpeech⟩, h.sent⟩

/-- **When a mute keeps its samples.** In a run whose pumps outside a mute find only buffers
recorded outside one, no sample recorded while muted is ever part of a frame that is sent. -/
theorem unmuted_of_readsUnmuted (env : Platform α β)
    {t : List (State (Tagged α) (Tagged β) × Action α)} {s : State (Tagged α) (Tagged β)}
    (h : (tagged env).Run t s) (hgood : ∀ x ∈ t, ReadsUnmuted x.1 x.2) :
    ∀ f ∈ s.sent, ∀ y ∈ f.pcm, y.muted = false := by
  have hinv := h.invariant_of_good (I := Unmuted)
    (fun s hs => by
      obtain ⟨engine, now, rfl⟩ := hs
      exact unmuted_start env engine now)
    (fun s a s' hs hgood hstep => by
      obtain ⟨-, rfl⟩ := hstep
      exact hs.next hgood) hgood
  exact hinv.sent

/-! ### A run that sends what was said during a mute -/

/-- The engine just started. -/
def fresh : State (Tagged Int16) (Tagged Int16) :=
  { engine := VoiceEngine.start Platform.loud.tagged { transport := true } 0 }

/-- The state after some actions. -/
def play (actions : List (Action Int16)) : State (Tagged Int16) (Tagged Int16) :=
  actions.foldl (next Platform.loud.tagged tag) fresh

/-- A buffer fills up and the engine is pumped, then it is muted and pumped again. -/
def speak : List (Action Int16) :=
  [.record firstBuffer (List.replicate 320 5000), .complete firstBuffer, .pump 20, .setMuted true,
    .pump 30]

/-- The engine is muted, a buffer fills up, the engine is unmuted and pumped. -/
def leak : List (Action Int16) :=
  [.setMuted true, .record firstBuffer (List.replicate 320 5000), .complete firstBuffer,
    .setMuted false, .pump 100]

instance (s : State (Tagged Int16) (Tagged Int16)) (a : Action Int16) : Decidable (Enabled s a) :=
  match a with
  | .record i samples => inferInstanceAs (Decidable (s.engine.CanRecord i samples.length))
  | .complete i => inferInstanceAs (Decidable (s.engine.CanComplete i))
  | .pump _ => isTrue trivial
  | .setMuted _ => isTrue trivial
  | .setPushToTalkActive _ => isTrue trivial

theorem speak_run : (tagged Platform.loud).Run
    (Machine.trace (next Platform.loud.tagged tag) fresh speak) (play speak) :=
  Machine.run_trace ⟨_, _, rfl⟩ (by decide +kernel)

instance (s : State (Tagged Int16) (Tagged Int16)) (a : Action Int16) :
    Decidable (ReadsUnmuted s a) :=
  match a with
  | .pump _ =>
    match h : s.engine.nativeCapture with
    | none => isTrue fun _ x ⟨c, hc, _⟩ => by rw [h] at hc; exact absurd hc (by simp)
    | some c => decidable_of_iff (s.engine.metrics.muted = false →
        ∀ i, (c.buffers i).done = true → ∀ x ∈ (c.buffers i).recorded, x.muted = false) (by
          refine ⟨fun hall hm x hx => ?_, fun hall hm i hi x hx => hall hm x ⟨c, h, i, hi, hx⟩⟩
          obtain ⟨c', hc', i, hi, hx⟩ := hx
          obtain rfl := Option.some.inj (h.symm.trans hc')
          exact hall hm i hi x hx)
  | .record _ _ => isTrue trivial
  | .complete _ => isTrue trivial
  | .setMuted _ => isTrue trivial
  | .setPushToTalkActive _ => isTrue trivial

theorem unmuted_of_readsUnmuted_speak :
    (play speak).sent.length = 1 ∧
      ∀ f ∈ (play speak).sent, ∀ y ∈ f.pcm, y.muted = false :=
  ⟨by decide +kernel, unmuted_of_readsUnmuted Platform.loud speak_run (by decide +kernel)⟩

theorem leak_run : (tagged Platform.loud).Run
    (Machine.trace (next Platform.loud.tagged tag) fresh leak) (play leak) :=
  Machine.run_trace ⟨_, _, rfl⟩ (by decide +kernel)

/-- **A mute that leaks.** What was recorded during the mute is sent after it. -/
theorem muted_sent : ∃ t s, (tagged Platform.loud).Run t s ∧
    ∃ f ∈ s.sent, ∃ y ∈ f.pcm, y.muted = true := by
  refine ⟨_, _, leak_run, ?_⟩
  have hany : ((play leak).sent.any fun f =>
      f.pcm.any fun y => y.muted) = true := by decide +kernel
  simpa only [List.any_eq_true] using hany

end Muting

end Audio

end TarkovVoice

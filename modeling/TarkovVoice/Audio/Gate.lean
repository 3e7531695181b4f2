import TarkovVoice.Audio.PreSpeech
import TarkovVoice.Hangover

/-!
# When the engine transmits

`VoiceEngine::pump` decides at each call whether to transmit. With voice activation the input of its
gate is a level at or above the threshold, with push to talk it is the key; in both modes the gate
stays open for some pumps afterwards, and a mute closes it at once. The engine has a counter for
each mode, and in any run the one of its mode is the counter of `Hangover`.

## Main definitions

* `VoiceEngine.observe` — what is seen of a pump
* `Gate.machine`, `Gate.pumps` — runs of a started engine, and their pumps

## Main results

* `Gate.Watches.pump` — one pump is one tick
* `Gate.transmits_iff` — the decision of every pump as a window over the pumps before it
-/

namespace TarkovVoice

namespace Audio

open Hangover (Tick)

namespace VoiceEngine

variable {α β : Type*} {env : Platform α β} {e : VoiceEngine α β}

/-- What is seen of a pump: the mute flag, the level and the key that it finds, whether it decides
to transmit, and what it reports as `vadActive`. -/
structure Pump where
  muted : Bool
  micLevel : ℚ
  pushToTalkActive : Bool
  transmits : Bool
  vadActive : Bool
  deriving DecidableEq

/-- The next pump: what it sees, and what it decides. A muted one decides nothing. -/
def observe (env : Platform α β) (e : VoiceEngine α β) (now : ℕ) : Pump where
  muted := e.metrics.muted
  micLevel := e.pumpLevel.metrics.micLevel
  pushToTalkActive := e.pushToTalkActive
  transmits := !e.metrics.muted && e.shouldTransmit
  vadActive := (e.pump env now).1.metrics.vadActive

/-- Whether the input of the gate is hot, in the mode of the settings: the key is down, or the level
reaches the threshold. -/
def isHot (settings : AudioSettings) (pushToTalkActive : Bool) (micLevel : ℚ) : Bool :=
  if settings.pushToTalk then pushToTalkActive else decide (settings.vadThreshold ≤ micLevel)

/-- The pump as a tick of the gate. What is hot depends on the setting: a key that is held, or a
level above the threshold. -/
def Pump.tick (settings : AudioSettings) (p : Pump) : Tick :=
  if p.muted then .off
  else if isHot settings p.pushToTalkActive p.micLevel then .hot
  else .cold

/-- The number of pumps for which the gate stays open. -/
def hangover (settings : AudioSettings) : ℕ :=
  if settings.pushToTalk then kPushToTalkTailPumpFrames else kVadHangoverPumpFrames

/-- The counter of the mode. -/
def counter (e : VoiceEngine α β) : ℕ :=
  if e.settings.pushToTalk then e.pushToTalkTailFrames else e.transmitHangoverFrames

/-- Sending and keeping frames leave alone what the gate is about: its counters, the settings, the
key and the mute flag. -/
theorem transmit_same (env : Platform α β) (e : VoiceEngine α β) (elapsed : Int64)
    (shouldTransmit : Bool) (capturedFrames : List (List β)) :
    ∃ sequence opusEncoder encodedFrames droppedFrames transmitting preSpeechFrames,
      (e.transmit env elapsed shouldTransmit capturedFrames).1 = { e with
        sequence, opusEncoder, transmitting, preSpeechFrames
        metrics := { e.metrics with encodedFrames, droppedFrames } } := by
  rw [transmit]
  split
  · obtain ⟨_, _, _, _, heq⟩ := (sendPreSpeech_same env e elapsed).trans
      (sendPcmFrames_same env elapsed capturedFrames _)
    dsimp only
    rw [heq]
    exact ⟨_, _, _, _, _, _, rfl⟩
  · split <;> exact ⟨_, _, _, _, _, _, rfl⟩

/-- The counter as the code computes it. -/
theorem countdown_eq (n count : ℕ) (hot : Bool) :
    (if hot then n else if 0 < count then count - 1 else count) =
      Hangover.step n count (if hot then .hot else .cold) := by
  cases hot
  · rw [if_neg Bool.false_ne_true, if_neg Bool.false_ne_true, Hangover.step]
    split <;> omega
  · rfl

/-- A counter that has just been set is not 0. So the source's test for a hot input adds nothing to
its test of the counter. -/
theorem hot_or_eq {n : ℕ} (hn : 0 < n) (count : ℕ) (hot : Bool) :
    (hot || decide (0 < Hangover.step n count (if hot then .hot else .cold))) =
      decide (0 < Hangover.step n count (if hot then .hot else .cold)) := by
  cases hot
  · rfl
  · exact (decide_eq_true hn).symm

/-- **The gate** moves the counter of its mode, and is open while it is not 0. What it decides is
shown as activity, in either mode. -/
theorem gate_counter (e : VoiceEngine α β) :
    e.gate.1.counter = Hangover.step (hangover e.settings) e.counter
      (if isHot e.settings e.pushToTalkActive e.metrics.micLevel then .hot else .cold) ∧
    e.gate.2 = decide (0 < e.gate.1.counter) ∧ e.gate.1.metrics.vadActive = e.gate.2 := by
  rw [gate, hangover, isHot, counter, counter]
  by_cases hmode : e.settings.pushToTalk = true
  · simp only [hmode, if_true, countdown_eq, hot_or_eq (by decide : 0 < kPushToTalkTailPumpFrames)]
    exact ⟨trivial, trivial, trivial⟩
  · simp only [hmode, Bool.false_eq_true, if_false, countdown_eq,
      hot_or_eq (by decide : 0 < kVadHangoverPumpFrames)]
    exact ⟨trivial, trivial, trivial⟩

/-- What the gate leaves is what the pump leaves of it. -/
theorem pump_gate (now : ℕ) (hrun : e.running = true) (hmuted : e.metrics.muted = false) :
    (e.pump env now).1.running = true ∧ (e.pump env now).1.settings = e.settings ∧
      (e.pump env now).1.counter = e.pumpLevel.gate.1.counter ∧
      (e.pump env now).1.metrics.vadActive = e.pumpLevel.gate.1.metrics.vadActive := by
  obtain ⟨_, _, _, _, _, _, htransmit⟩ := transmit_same env e.listened
    (Int64.ofNat (now - e.startedAt)) e.shouldTransmit e.capturedFrames
  obtain ⟨_, _, _, _, hlistened⟩ := e.listened_same
  have hkept : e.listened.running = e.running ∧ e.listened.settings = e.settings := by
    rw [hlistened]
    exact ⟨rfl, rfl⟩
  have hgate : e.listened.counter = e.pumpLevel.gate.1.counter ∧
      e.listened.metrics.vadActive = e.pumpLevel.gate.1.metrics.vadActive := by
    rw [listened, drainVoiceFrames_eq]
    exact ⟨rfl, rfl⟩
  rw [pump_eq e hrun hmuted now, htransmit]
  exact ⟨hkept.1.trans hrun, hkept.2, hgate.1, hgate.2⟩

/-- A pump leaves the mute flag alone. -/
theorem muted_pump (now : ℕ) : (e.pump env now).1.metrics.muted = e.metrics.muted := by
  by_cases hrun : e.running = true
  · by_cases hmuted : e.metrics.muted = true
    · rw [pump_of_muted e hrun hmuted now]
      rfl
    · obtain ⟨_, _, _, _, _, _, htransmit⟩ := transmit_same env e.listened
        (Int64.ofNat (now - e.startedAt)) e.shouldTransmit e.capturedFrames
      obtain ⟨_, _, _, _, hlistened⟩ := e.listened_same
      rw [pump_eq e hrun (Bool.of_not_eq_true hmuted) now, htransmit, hlistened]
  · rw [pump, if_pos (Bool.of_not_eq_true hrun)]

theorem muted_setMuted (e : VoiceEngine α β) (muted : Bool) :
    (e.setMuted muted).metrics.muted = muted := by
  cases muted <;> rfl

/-- **One pump is one tick** of the counter, and the pump transmits while it is not 0. This is said
of a muted engine too, whose counter is 0. -/
theorem pump_tick (now : ℕ) (hrun : e.running = true) :
    (e.pump env now).1.running = true ∧ (e.pump env now).1.settings = e.settings ∧
      (e.pump env now).1.counter =
        Hangover.step (hangover e.settings) e.counter ((e.observe env now).tick e.settings) ∧
      (e.observe env now).transmits = decide (0 < (e.pump env now).1.counter) ∧
      (e.observe env now).vadActive = (e.observe env now).transmits := by
  by_cases hmuted : e.metrics.muted = true
  · have hcounter : e.pumpMuted.counter = 0 := ite_self 0
    rw [observe, Pump.tick, pump_of_muted e hrun hmuted now, hcounter, if_pos hmuted]
    simp only [hmuted, Bool.not_true, Bool.false_and]
    exact ⟨hrun, rfl, rfl, rfl, rfl⟩
  · have hmuted := Bool.of_not_eq_true hmuted
    obtain ⟨hrunning, hsettings, hcounter, hvad⟩ := @pump_gate _ _ env e now hrun hmuted
    obtain ⟨hstep, hopen, hactive⟩ := gate_counter e.pumpLevel
    have htick : (e.observe env now).tick e.settings =
        if isHot e.settings e.pushToTalkActive e.pumpLevel.metrics.micLevel then .hot
        else .cold := by
      rw [Pump.tick, observe, hmuted, if_neg Bool.false_ne_true]
    have htransmits : (e.observe env now).transmits = e.pumpLevel.gate.2 := by
      rw [observe, hmuted, shouldTransmit]
      rfl
    have hkeep : e.pumpLevel.settings = e.settings ∧ e.pumpLevel.counter = e.counter ∧
        e.pumpLevel.pushToTalkActive = e.pushToTalkActive := by
      rw [pumpLevel_eq]
      exact ⟨rfl, rfl, rfl⟩
    obtain ⟨hkeepSettings, hkeepCounter, hkeepActive⟩ := hkeep
    rw [hkeepSettings, hkeepCounter, hkeepActive, ← htick] at hstep
    refine ⟨hrunning, hsettings, hcounter.trans hstep, ?_, ?_⟩
    · rw [htransmits, hcounter]
      exact hopen
    · rw [htransmits, ← hactive, ← hvad]
      rfl

end VoiceEngine

/-! ### Runs -/

namespace Gate

open Muting (Action State)
open VoiceEngine (Pump hangover)

variable {α β : Type*} {env : Platform α β} {settings : AudioSettings} {s : State α β}

/-- The runs of a started engine with settings that stay as they are. Everything else may happen at
any time, so a pump may find any level, key and mute flag. -/
def machine (env : Platform α β) (settings : AudioSettings) : Machine (State α β) (Action α) :=
  .ofNext
    (fun s => ∃ (engine : VoiceEngine α β) (now : ℕ), engine.settings = settings ∧
      s = { engine := engine.start env now })
    (fun _ _ => True) (Muting.next env fun _ x => x)

/-- The pumps of a run. -/
def pumps (env : Platform α β) (t : List (State α β × Action α)) : List Pump :=
  t.flatMap fun x =>
    match x.2 with
    | .pump now => [x.1.engine.observe env now]
    | _ => []

theorem pumps_concat (t : List (State α β × Action α)) (x : State α β × Action α) :
    pumps env (t ++ [x]) = pumps env t ++ pumps env [x] := List.flatMap_append

/-- After the pumps `l`, the counter of the engine is that of the hangover, and every one of these
pumps has decided by it. This is the invariant of the runs. -/
structure Watches (settings : AudioSettings) (l : List Pump) (s : State α β) : Prop where
  running : s.engine.running = true
  settings_eq : s.engine.settings = settings
  counter : s.engine.counter = Hangover.count (hangover settings) (l.map (Pump.tick settings))
  transmits : ∀ k P, l[k]? = some P → P.transmits =
    decide (0 < Hangover.count (hangover settings) ((l.take (k + 1)).map (Pump.tick settings)))
  vadActive : ∀ P ∈ l, P.vadActive = P.transmits

variable {l : List Pump}

/-- The device, the key and the mute flag leave the counter alone. Only a pump is a tick. -/
theorem Watches.quiet (hw : Watches settings l s) (metrics : VoiceMetrics)
    (nativeCapture : Option (NativeAudioCapture α β)) (pushToTalkActive : Bool) :
    Watches settings (l ++ []) { s with engine := { s.engine with
      metrics, nativeCapture, pushToTalkActive } } := by
  rw [List.append_nil]
  exact ⟨hw.running, hw.settings_eq, hw.counter, hw.transmits, hw.vadActive⟩

theorem Watches.pump (hw : Watches settings l s) (now : ℕ) (sent : List (SentFrame β)) :
    Watches settings (l ++ [s.engine.observe env now])
      { engine := (s.engine.pump env now).1, sent } := by
  obtain ⟨hrun, hsettings, hcounter, htransmits, hvad⟩ :=
    @VoiceEngine.pump_tick _ _ env s.engine now hw.running
  have hcount : (s.engine.pump env now).1.counter = Hangover.count (hangover settings)
      ((l ++ [s.engine.observe env now]).map (Pump.tick settings)) := by
    rw [List.map_append, List.map_singleton, Hangover.count_concat, ← hw.counter, hcounter,
      hw.settings_eq]
  refine ⟨hrun, hsettings.trans hw.settings_eq, hcount, fun k P hP => ?_, fun P hP => ?_⟩
  · rcases Nat.lt_or_ge k l.length with hk | hk
    · rw [List.getElem?_append_left hk] at hP
      rw [List.take_append_of_le_length hk]
      exact hw.transmits k P hP
    · rw [List.getElem?_append_right hk, List.getElem?_singleton] at hP
      split at hP
      · obtain rfl := Option.some.inj hP
        rw [List.take_of_length_le (by simp; omega), ← hcount]
        exact htransmits
      · exact absurd hP (Option.some_ne_none P).symm
  · rcases List.mem_append.mp hP with hP | hP
    · exact hw.vadActive P hP
    · rw [List.mem_singleton.mp hP]
      exact hvad

theorem watches_of_run {t : List (State α β × Action α)} (h : (machine env settings).Run t s) :
    Watches settings (pumps env t) s := by
  induction h with
  | start h =>
    obtain ⟨engine, now, hsettings, rfl⟩ := h
    refine ⟨rfl, hsettings, ite_self 0, fun k P hP => ?_, fun P hP => absurd hP List.not_mem_nil⟩
    exact absurd hP (by simp [pumps])
  | @snoc t s s' a _ hs ih =>
    obtain ⟨-, rfl⟩ := hs
    rw [pumps_concat]
    cases a with
    | record i values => exact ih.quiet _ _ _
    | complete i => exact ih.quiet _ _ _
    | pump now => exact ih.pump now _
    | setMuted muted =>
      cases muted
      · exact ih.quiet _ _ _
      · exact ih.quiet _ _ _
    | setPushToTalkActive active => exact ih.quiet _ _ _

/-- The ticks up to the `k`-th pump. -/
theorem getElem?_ticks {k j : ℕ} {u : Tick} :
    ((l.take (k + 1)).map (Pump.tick settings))[j]? = some u ↔
      j ≤ k ∧ ∃ Q, l[j]? = some Q ∧ Q.tick settings = u := by
  rw [List.getElem?_map, List.getElem?_take]
  split
  · next hj =>
    rw [Option.map_eq_some_iff]
    exact ⟨fun hQ => ⟨Nat.le_of_lt_succ hj, hQ⟩, And.right⟩
  · next hj => exact iff_of_false (by simp) fun hle => hj (Nat.lt_succ_of_le hle.1)

theorem tick_eq_off_iff {P : Pump} : P.tick settings = .off ↔ P.muted = true := by
  rw [Pump.tick]
  split
  · next hmuted => exact iff_of_true rfl hmuted
  · next hmuted => split <;> exact iff_of_false (by decide) hmuted

theorem tick_eq_hot_iff {P : Pump} : P.tick settings = .hot ↔
    P.muted = false ∧ VoiceEngine.isHot settings P.pushToTalkActive P.micLevel = true := by
  rw [Pump.tick]
  split
  · next hmuted => exact iff_of_false (by decide) fun h => by simp [hmuted] at h
  · next hmuted =>
    rw [Bool.not_eq_true] at hmuted
    split
    · next hhot => exact iff_of_true rfl ⟨hmuted, hhot⟩
    · next hhot => exact iff_of_false (by decide) fun h => hhot h.2

/-- **The decision as a window.** A pump transmits exactly when the input was hot at one of the last
pumps, as many as the gate stays open for, and no pump was muted since. -/
theorem Watches.transmits_window (hw : Watches settings l s) {k : ℕ} {P : Pump}
    (hP : l[k]? = some P) : P.transmits = true ↔
      ∃ j ≤ k, k + 1 ≤ j + hangover settings ∧
        (∃ Q, l[j]? = some Q ∧
          VoiceEngine.isHot settings Q.pushToTalkActive Q.micLevel = true) ∧
        ∀ i ≤ k, j ≤ i → ∀ R, l[i]? = some R → R.muted = false := by
  have hlength : ((l.take (k + 1)).map (Pump.tick settings)).length = k + 1 := by
    rw [List.length_map, List.length_take, min_eq_left]
    exact (List.getElem?_eq_some_iff.mp hP).1
  rw [hw.transmits k P hP, decide_eq_true_iff, Hangover.count_pos_iff, hlength]
  constructor
  · rintro ⟨j, hj, hn, hoff⟩
    obtain ⟨hjk, Q, hQ, hhot⟩ := getElem?_ticks.mp hj
    refine ⟨j, hjk, hn, ⟨Q, hQ, (tick_eq_hot_iff.mp hhot).2⟩, fun i hik hji R hR => ?_⟩
    refine Bool.of_not_eq_true fun hmuted => hoff i hji ?_
    exact getElem?_ticks.mpr ⟨hik, R, hR, tick_eq_off_iff.mpr hmuted⟩
  · rintro ⟨j, hjk, hn, ⟨Q, hQ, hhot⟩, hopen⟩
    refine ⟨j, getElem?_ticks.mpr ⟨hjk, Q, hQ, ?_⟩, hn, fun i hji hi => ?_⟩
    · exact tick_eq_hot_iff.mpr ⟨hopen j hjk le_rfl Q hQ, hhot⟩
    · obtain ⟨hik, R, hR, hoff⟩ := getElem?_ticks.mp hi
      have hmuted := tick_eq_off_iff.mp hoff
      rw [hopen i hik hji R hR] at hmuted
      exact Bool.false_ne_true hmuted

/-- **When the engine transmits.** In every run of a started engine with fixed settings, an unmuted
pump transmits, with voice activation, exactly when the level was at or above the threshold at one
of the last 28 pumps, and with push to talk exactly when the key was active at one of the last 8,
with no muted pump since. What it reports as `vadActive` is this decision, also when muted. -/
theorem transmits_iff {t : List (State α β × Action α)} (h : (machine env settings).Run t s)
    {k : ℕ} {P : Pump} (hP : (pumps env t)[k]? = some P) :
    (P.muted = false → settings.pushToTalk = false → (P.transmits = true ↔
      ∃ j ≤ k, k ≤ j + 27 ∧
        (∃ Q, (pumps env t)[j]? = some Q ∧ settings.vadThreshold ≤ Q.micLevel) ∧
        ∀ i ≤ k, j ≤ i → ∀ R, (pumps env t)[i]? = some R → R.muted = false)) ∧
    (P.muted = false → settings.pushToTalk = true → (P.transmits = true ↔
      ∃ j ≤ k, k ≤ j + 7 ∧
        (∃ Q, (pumps env t)[j]? = some Q ∧ Q.pushToTalkActive = true) ∧
        ∀ i ≤ k, j ≤ i → ∀ R, (pumps env t)[i]? = some R → R.muted = false)) ∧
    P.vadActive = P.transmits := by
  have hw := watches_of_run h
  refine ⟨fun _ hmode => ?_, fun _ hmode => ?_, hw.vadActive P (List.mem_of_getElem? hP)⟩
  · rw [hw.transmits_window hP]
    simp only [VoiceEngine.isHot, hangover, hmode, Bool.false_eq_true, if_false,
      decide_eq_true_iff, kVadHangoverPumpFrames]
    exact exists_congr fun j => and_congr_right fun _ => and_congr_left fun _ => by omega
  · rw [hw.transmits_window hP]
    simp only [VoiceEngine.isHot, hangover, hmode, if_true, kPushToTalkTailPumpFrames]
    exact exists_congr fun j => and_congr_right fun _ => and_congr_left fun _ => by omega

/-- The key is released after the first pump. -/
def released : List (Action Int16) :=
  [.setPushToTalkActive true, .pump 20, .setPushToTalkActive false, .pump 40]

/-- The pumps of that run. -/
def releasedPumps : List Pump :=
  [{ muted := false, micLevel := 0, pushToTalkActive := true, transmits := true,
      vadActive := true },
    { muted := false, micLevel := 0, pushToTalkActive := false, transmits := true,
      vadActive := true }]

theorem transmits_iff_released :
    (∀ P, releasedPumps[1]? = some P → P.transmits = true) ∧
      pumps Platform.quiet (Machine.trace
        (Muting.next Platform.quiet fun _ x => x) PreSpeech.started released) =
          releasedPumps := by
  have hpumps : pumps Platform.quiet (Machine.trace
      (Muting.next Platform.quiet fun _ x => x) PreSpeech.started released) =
        releasedPumps := by decide +kernel
  have hrun : (machine Platform.quiet { pushToTalk := true }).Run (Machine.trace
      (Muting.next Platform.quiet fun _ x => x) PreSpeech.started released)
      (released.foldl (Muting.next Platform.quiet fun _ x => x) PreSpeech.started) :=
    Machine.run_trace ⟨_, _, rfl, rfl⟩ fun _ _ => trivial
  refine ⟨fun P hP => ?_, hpumps⟩
  have hunmuted : ∀ R ∈ releasedPumps, R.muted = false := by decide
  have hkey : ∀ Q, releasedPumps[0]? = some Q → Q.pushToTalkActive = true := by decide
  have hwindow := (transmits_iff hrun (hpumps ▸ hP)).2.1
  rw [hpumps] at hwindow
  refine (hwindow (hunmuted P (List.mem_of_getElem? hP)) rfl).mpr
    ⟨0, by decide, by decide, ⟨_, rfl, hkey _ rfl⟩, fun i _ _ R hR => ?_⟩
  exact hunmuted R (List.mem_of_getElem? hR)

end Gate

end Audio

end TarkovVoice

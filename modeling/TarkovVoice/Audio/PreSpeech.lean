import TarkovVoice.Audio.Muting
import TarkovVoice.LookBack

/-!
# What the engine sends

A pump of a running engine is a tick of a gate with a look back: the source is off while the engine
is muted, the items are the captured frames, and the gate is open when `shouldTransmit` is. The
engine keeps the last six frames and a flag that says whether it has been transmitting, and this
file shows that over any run it sends exactly what the gate lets pass, numbered 0, 1, 2, ….

## Main definitions

* `VoiceEngine.tick` — the next pump as a tick
* `PreSpeech.machine` — runs of a started engine with a transport
* `PreSpeech.Follows` — the engine and the gate

## Main results

* `PreSpeech.Follows.pump` — one pump is one tick
* `PreSpeech.sent_eq_passed`
-/

namespace TarkovVoice

namespace Audio

open LookBack (Tick stream)
open NativeAudioCapture (firstBuffer)

namespace VoiceEngine

variable {α β : Type*} {env : Platform α β} {e e' e'' : VoiceEngine α β}

/-- The next pump of a running engine, as a tick of its gate: switched off while muted, open while
it transmits, and closed otherwise. -/
def tick (e : VoiceEngine α β) : Tick (List β) :=
  if e.metrics.muted then .off
  else if e.shouldTransmit then .opened e.capturedFrames
  else .closed e.capturedFrames

/-! ### Numbers -/

/-- Between `e` and `e'` the frames were sent, each once, in this order and with the next numbers.
The numbers are modulo `2 ^ 32`, as the counter of the engine is. -/
structure Emits (e e' : VoiceEngine α β) (frames : List (List β)) (sent : List (SentFrame β)) :
    Prop where
  pcm : sent.map SentFrame.pcm = frames
  numbers : sent.map (fun s => s.frame.sequence) =
    (List.range frames.length).map fun i => e.sequence + UInt32.ofNat i
  next : e'.sequence = e.sequence + UInt32.ofNat frames.length

theorem Emits.nil (h : e'.sequence = e.sequence) : Emits e e' [] [] :=
  ⟨rfl, rfl, by rw [h]; exact (UInt32.add_zero _).symm⟩

theorem Emits.append {frames frames' : List (List β)} {sent sent' : List (SentFrame β)}
    (h : Emits e e' frames sent) (h' : Emits e' e'' frames' sent') :
    Emits e e'' (frames ++ frames') (sent ++ sent') := by
  refine ⟨?_, ?_, ?_⟩
  · rw [List.map_append, h.pcm, h'.pcm]
  · rw [List.map_append, h.numbers, h'.numbers, h.next, List.length_append, List.range_add,
      List.map_append, List.map_map]
    congr 1
    refine List.map_congr_left fun i _ => ?_
    rw [Function.comp_apply, UInt32.ofNat_add, UInt32.add_assoc]
  · rw [h'.next, h.next, List.length_append, UInt32.ofNat_add, UInt32.add_assoc]

theorem sendPcmFrame_emits (hcodes : ∀ coded pcm, pcm ≠ [] → env.encodeFrame coded pcm ≠ [])
    (elapsed : Int64) (ht : e.transport = true) {f : List β} (hf : f ≠ []) :
    Emits e (e.sendPcmFrame env elapsed f).1 [f] (e.sendPcmFrame env elapsed f).2 := by
  rw [sendPcmFrame, if_neg (by simp [ht, hf])]
  dsimp only
  rw [if_neg (hcodes _ _ hf)]
  refine ⟨rfl, ?_, rfl⟩
  simp

theorem sendPcmFrames_emits (hcodes : ∀ coded pcm, pcm ≠ [] → env.encodeFrame coded pcm ≠ [])
    (elapsed : Int64) (frames : List (List β)) (hframes : ∀ f ∈ frames, f ≠ []) :
    ∀ e : VoiceEngine α β, e.transport = true →
      Emits e (sendPcmFrames env elapsed e frames).1 frames
        (sendPcmFrames env elapsed e frames).2 := by
  induction frames with
  | nil => exact fun e _ => .nil rfl
  | cons f frames ih =>
    intro e ht
    have htransport : (e.sendPcmFrame env elapsed f).1.transport = true := by
      obtain ⟨_, _, _, _, heq⟩ := sendPcmFrame_same (e := e) env elapsed f
      rw [heq]
      exact ht
    exact (sendPcmFrame_emits hcodes elapsed ht (hframes f (List.mem_cons_self ..))).append
      (ih (fun g hg => hframes g (List.mem_cons_of_mem _ hg)) _ htransport)

/-! ### One pump -/

/-- The loop over captured frames keeps the last six of all. -/
theorem keepPreSpeech_eq {held : List (List β)}
    (hheld : e.preSpeechFrames = held.rtake kPreSpeechFrameCount) (frames : List (List β)) :
    e.keepPreSpeech frames = (held ++ frames).rtake kPreSpeechFrameCount := by
  rw [keepPreSpeech, hheld]
  clear hheld
  induction frames generalizing held with
  | nil => rw [List.append_nil]; rfl
  | cons f frames ih =>
    rw [List.foldl_cons, keepLast_eq_rtake, LookBack.rtake_rtake_append, ih, List.append_assoc,
      List.singleton_append]

theorem sendPreSpeech_same (env : Platform α β) (e : VoiceEngine α β) (elapsed : Int64) :
    SameButSent { e with preSpeechFrames := if e.transmitting then e.preSpeechFrames else [] }
      (e.sendPreSpeech env elapsed).1 := by
  rw [sendPreSpeech]
  by_cases htr : e.transmitting = true
  · rw [if_pos htr, if_pos htr]
    exact .refl e
  · obtain ⟨_, _, _, _, heq⟩ := sendPcmFrames_same env elapsed e.preSpeechFrames e
    rw [if_neg htr, if_neg htr]
    dsimp only
    rw [heq]
    exact ⟨_, _, _, _, rfl⟩

/-- What the transmitting branch of `pump` leaves behind. -/
theorem transmit_opened_same (env : Platform α β) (e : VoiceEngine α β) (elapsed : Int64)
    (ht : e.transport = true) (capturedFrames : List (List β)) :
    SameButSent
      { e with
        preSpeechFrames := if e.transmitting then e.preSpeechFrames else []
        transmitting := true }
      (e.transmit env elapsed true capturedFrames).1 := by
  obtain ⟨_, _, _, _, heq⟩ := (sendPreSpeech_same env e elapsed).trans
    (sendPcmFrames_same env elapsed capturedFrames _)
  have hopen : (true && e.transport) = true := ht
  rw [transmit, if_pos hopen]
  dsimp only
  rw [heq]
  exact ⟨_, _, _, _, rfl⟩

theorem transmit_opened_emits
    (hcodes : ∀ coded pcm, pcm ≠ [] → env.encodeFrame coded pcm ≠ []) (elapsed : Int64)
    (ht : e.transport = true) (hpre : ∀ f ∈ e.preSpeechFrames, f ≠ [])
    {capturedFrames : List (List β)} (hframes : ∀ f ∈ capturedFrames, f ≠ []) :
    Emits e (e.transmit env elapsed true capturedFrames).1
      ((if e.transmitting then [] else e.preSpeechFrames) ++ capturedFrames)
      (e.transmit env elapsed true capturedFrames).2 := by
  have htransport : (e.sendPreSpeech env elapsed).1.transport = true := by
    obtain ⟨_, _, _, _, heq⟩ := sendPreSpeech_same env e elapsed
    rw [heq]
    exact ht
  have hearly : Emits e (e.sendPreSpeech env elapsed).1
      (if e.transmitting then [] else e.preSpeechFrames) (e.sendPreSpeech env elapsed).2 := by
    rw [sendPreSpeech]
    by_cases htr : e.transmitting = true
    · rw [if_pos htr, if_pos htr]
      exact .nil rfl
    · rw [if_neg htr, if_neg htr]
      obtain ⟨hpcm, hnumbers, hnext⟩ := sendPcmFrames_emits hcodes elapsed _ hpre e ht
      exact ⟨hpcm, hnumbers, hnext⟩
  obtain ⟨hpcm, hnumbers, hnext⟩ :=
    hearly.append (sendPcmFrames_emits hcodes elapsed capturedFrames hframes _ htransport)
  have hopen : (true && e.transport) = true := ht
  rw [transmit, if_pos hopen]
  exact ⟨hpcm, hnumbers, hnext⟩

/-- A closed gate keeps the last frames. Without a device there are none. -/
theorem transmit_closed (elapsed : Int64) {held capturedFrames : List (List β)}
    (hheld : e.preSpeechFrames = held.rtake kPreSpeechFrameCount)
    (hnone : e.nativeCapture = none → capturedFrames = []) :
    (e.transmit env elapsed false capturedFrames).2 = [] ∧
      ∃ transmitting, (transmitting = true → e.transmitting = true ∧ e.nativeCapture = none) ∧
        (e.transmit env elapsed false capturedFrames).1 = { e with
          transmitting
          preSpeechFrames := (held ++ capturedFrames).rtake kPreSpeechFrameCount } := by
  have hclosed : ¬ (false && e.transport) = true := Bool.noConfusion
  rw [transmit, if_neg hclosed]
  by_cases hsome : e.nativeCapture.isSome = true
  · rw [if_pos hsome, keepPreSpeech_eq hheld]
    exact ⟨rfl, false, fun htr => absurd htr Bool.noConfusion, rfl⟩
  · have hc : e.nativeCapture = none := by simpa using hsome
    obtain rfl := hnone hc
    rw [if_neg hsome, List.append_nil, ← hheld]
    exact ⟨rfl, e.transmitting, fun htr => ⟨htr, hc⟩, rfl⟩

end VoiceEngine

/-! ### Runs -/

namespace PreSpeech

open Muting (Action State)

variable {α β : Type*} {env : Platform α β} {s : State α β} {e : VoiceEngine α β}

/-- What happens to a started engine. Its settings may change at any time. The application starts
the engine anew after that, which begins another run. -/
inductive Event (α : Type*)
  | act (a : Action α)
  | setSettings (settings : AudioSettings)

/-- What the event does. -/
def next (env : Platform α β) (s : State α β) : Event α → State α β
  | .act a => Muting.next env (fun _ x => x) s a
  | .setSettings settings => { s with engine := s.engine.setSettings settings }

/-- The runs of an engine with a transport that has been started. Everything may happen at any
time, so a pump may find any frames, any mute flag and any decision of the gate. -/
def machine (env : Platform α β) : Machine (State α β) (Event α) :=
  .ofNext
    (fun s => ∃ (engine : VoiceEngine α β) (now : ℕ), engine.transport = true ∧
      s = { engine := engine.start env now })
    (fun _ _ => True) (next env)

/-- The pumps of a run, as ticks. -/
def ticks (t : List (State α β × Event α)) : List (Tick (List β)) :=
  t.flatMap fun x =>
    match x.2 with
    | .act (.pump _) => [x.1.engine.tick]
    | _ => []

theorem ticks_concat (t : List (State α β × Event α)) (x : State α β × Event α) :
    ticks (t ++ [x]) = ticks t ++ ticks [x] := List.flatMap_append

/-- The engine is where the gate is after the ticks `l`, and has sent what the gate let pass. This
is the invariant of the runs; all else the engine does has no part in it. -/
structure Follows (l : List (Tick (List β))) (s : State α β) : Prop where
  running : s.engine.running = true
  transport : s.engine.transport = true
  held : s.engine.preSpeechFrames =
    (stream kPreSpeechFrameCount l).held.rtake kPreSpeechFrameCount
  /-- While it is transmitting it keeps nothing back. -/
  transmitting : s.engine.transmitting = true → s.engine.preSpeechFrames = []
  passed : s.sent.map SentFrame.pcm = (stream kPreSpeechFrameCount l).passed
  numbers : s.sent.map (fun f => f.frame.sequence) =
    (List.range s.sent.length).map UInt32.ofNat
  sequence : s.engine.sequence = UInt32.ofNat s.sent.length
  framed : ∀ c, s.engine.nativeCapture = some c → c.Framed
  kept : ∀ f ∈ s.engine.preSpeechFrames, f ≠ []

theorem follows_start (env : Platform α β) {engine : VoiceEngine α β}
    (ht : engine.transport = true) (now : ℕ) :
    Follows [] ({ engine := engine.start env now } : State α β) := by
  refine ⟨rfl, ht, rfl, fun _ => rfl, rfl, rfl, rfl, fun c hc => ?_,
    fun _ hf => absurd hf List.not_mem_nil⟩
  obtain ⟨device, -, rfl⟩ := Option.map_eq_some_iff.mp hc
  exact fun _ hf => absurd hf List.not_mem_nil

variable {l : List (Tick (List β))}

/-- The device, the hotkeys, the settings and listening leave all of this alone. -/
theorem Follows.engine (hf : Follows l s) (settings : AudioSettings) (metrics : VoiceMetrics)
    (nativeCapture : Option (NativeAudioCapture α β)) (pushToTalkActive : Bool)
    (pushToTalkTailFrames transmitHangoverFrames : ℕ)
    (hframed : ∀ c, nativeCapture = some c → c.Framed) :
    Follows l { s with engine := { s.engine with
      settings, metrics, nativeCapture, pushToTalkActive
      pushToTalkTailFrames, transmitHangoverFrames } } :=
  ⟨hf.running, hf.transport, hf.held, hf.transmitting, hf.passed, hf.numbers, hf.sequence,
    hframed, hf.kept⟩

theorem Follows.framed_capturedFrames (hf : Follows l s) :
    ∀ f ∈ s.engine.capturedFrames, f ≠ [] := by
  intro f hmem
  rw [VoiceEngine.capturedFrames_eq] at hmem
  cases hc : s.engine.nativeCapture with
  | none =>
    rw [hc] at hmem
    exact absurd hmem List.not_mem_nil
  | some c =>
    rw [hc] at hmem
    exact (hf.framed c hc).pumpLevel f hmem

theorem Follows.listened (hf : Follows l s) :
    Follows l { s with engine := s.engine.listened } := by
  obtain ⟨tail, hangover, level, active, heq⟩ := s.engine.listened_same
  rw [heq]
  refine hf.engine _ _ _ _ tail hangover fun c hc => ?_
  obtain ⟨c', -, rfl⟩ := Option.map_eq_some_iff.mp hc
  exact fun _ hmem => absurd hmem List.not_mem_nil

theorem Follows.muted (hf : Follows l s) :
    Follows (l ++ [.off]) { s with engine := s.engine.pumpMuted } := by
  refine ⟨hf.running, hf.transport, ?_, fun _ => rfl, ?_, hf.numbers, hf.sequence, hf.framed,
    fun _ hmem => absurd hmem List.not_mem_nil⟩
  · rw [LookBack.stream_concat]
    rfl
  · rw [LookBack.stream_concat]
    exact hf.passed

theorem Follows.opened (hcodes : ∀ coded pcm, pcm ≠ [] → env.encodeFrame coded pcm ≠ [])
    (hf : Follows l s) (elapsed : Int64) {frames : List (List β)} (hframes : ∀ f ∈ frames, f ≠ []) :
    Follows (l ++ [.opened frames])
      { engine := (s.engine.transmit env elapsed true frames).1
        sent := s.sent ++ (s.engine.transmit env elapsed true frames).2 } := by
  obtain ⟨hpcm, hnumbers, hnext⟩ := VoiceEngine.transmit_opened_emits hcodes elapsed hf.transport
    hf.kept hframes
  obtain ⟨_, _, _, _, heq⟩ :=
    VoiceEngine.transmit_opened_same env s.engine elapsed hf.transport frames
  have hlen := congrArg List.length hpcm
  rw [List.length_map] at hlen
  rw [← hlen] at hnumbers hnext
  have hearly : (if s.engine.transmitting then [] else s.engine.preSpeechFrames) =
      (stream kPreSpeechFrameCount l).held.rtake kPreSpeechFrameCount := by
    by_cases htr : s.engine.transmitting = true
    · rw [if_pos htr, ← hf.held, hf.transmitting htr]
    · rw [if_neg htr, hf.held]
  have hempty : (if s.engine.transmitting then s.engine.preSpeechFrames else []) = [] := by
    by_cases htr : s.engine.transmitting = true
    · rw [if_pos htr, hf.transmitting htr]
    · rw [if_neg htr]
  have hpre : (s.engine.transmit env elapsed true frames).1.preSpeechFrames = [] := by
    rw [heq]
    exact hempty
  have hsum : ∀ i, s.engine.sequence + UInt32.ofNat i = UInt32.ofNat (s.sent.length + i) := by
    intro i
    rw [hf.sequence, UInt32.ofNat_add]
  refine ⟨?_, ?_, ?_, fun _ => hpre, ?_, ?_, ?_, ?_, ?_⟩
  · rw [heq]
    exact hf.running
  · rw [heq]
    exact hf.transport
  · rw [hpre, LookBack.stream_concat]
    rfl
  · rw [List.map_append, hf.passed, hpcm, hearly, LookBack.stream_concat]
    rfl
  · rw [List.map_append, hf.numbers, hnumbers, List.length_append, List.range_add,
      List.map_append, List.map_map]
    congr 1
    exact List.map_congr_left fun i _ => hsum i
  · rw [hnext, hsum, List.length_append]
  · rw [heq]
    exact hf.framed
  · rw [hpre]
    exact fun _ hmem => absurd hmem List.not_mem_nil

theorem Follows.closed (hf : Follows l s) (elapsed : Int64) {frames : List (List β)}
    (hframes : ∀ f ∈ frames, f ≠ [])
    (hnone : s.engine.nativeCapture = none → frames = []) :
    Follows (l ++ [.closed frames])
      { engine := (s.engine.transmit env elapsed false frames).1
        sent := s.sent ++ (s.engine.transmit env elapsed false frames).2 } := by
  obtain ⟨hsent, transmitting, htr, heq⟩ :=
    @VoiceEngine.transmit_closed _ _ env _ elapsed _ _ hf.held hnone
  have hheld : (stream kPreSpeechFrameCount (l ++ [.closed frames])).held =
      (stream kPreSpeechFrameCount l).held ++ frames := by
    rw [LookBack.stream_concat]
    rfl
  rw [hsent, heq, List.append_nil]
  refine ⟨hf.running, hf.transport, ?_, fun h => ?_, ?_, hf.numbers, hf.sequence, hf.framed,
    fun f hmem => ?_⟩
  · rw [hheld]
  · -- only an engine without a device still counts as transmitting
    obtain ⟨hold, hc⟩ := htr h
    obtain rfl := hnone hc
    rw [List.append_nil, ← hf.held]
    exact hf.transmitting hold
  · rw [LookBack.stream_concat]
    exact hf.passed
  · have hlast : ((stream kPreSpeechFrameCount l).held ++ frames).rtake kPreSpeechFrameCount =
        (s.engine.preSpeechFrames ++ frames).rtake kPreSpeechFrameCount := by
      rw [hf.held, LookBack.rtake_rtake_append]
    rw [hlast] at hmem
    rcases List.mem_append.mp (List.mem_of_mem_drop hmem) with hmem | hmem
    · exact hf.kept f hmem
    · exact hframes f hmem

/-- **One pump is one tick.** If a frame can always be coded, then what the pump sends is what
passes the gate at the tick. -/
theorem Follows.pump (hcodes : ∀ coded pcm, pcm ≠ [] → env.encodeFrame coded pcm ≠ [])
    (hf : Follows l s) (now : ℕ) :
    Follows (l ++ [s.engine.tick])
      { engine := (s.engine.pump env now).1, sent := s.sent ++ (s.engine.pump env now).2 } := by
  rw [VoiceEngine.tick]
  by_cases hmuted : s.engine.metrics.muted = true
  · rw [if_pos hmuted, VoiceEngine.pump_of_muted _ hf.running hmuted, List.append_nil]
    exact hf.muted
  · have hframes := hf.framed_capturedFrames
    rw [if_neg hmuted, VoiceEngine.pump_eq _ hf.running (Bool.of_not_eq_true hmuted)]
    by_cases hopen : s.engine.shouldTransmit = true
    · rw [if_pos hopen, hopen]
      exact hf.listened.opened hcodes _ hframes
    · rw [if_neg hopen, Bool.of_not_eq_true hopen]
      refine hf.listened.closed _ hframes fun hnone => ?_
      obtain ⟨_, _, _, _, heq⟩ := s.engine.listened_same
      have hdevice : s.engine.listened.nativeCapture = none := hnone
      rw [heq, Option.map_eq_none_iff] at hdevice
      rw [VoiceEngine.capturedFrames_eq, hdevice]
      rfl

theorem Follows.next (hcodes : ∀ coded pcm, pcm ≠ [] → env.encodeFrame coded pcm ≠ [])
    (hf : Follows l s) (e : Event α) : Follows (l ++ ticks [(s, e)]) (next env s e) := by
  have hquiet : ∀ {s' : State α β}, Follows l s' → Follows (l ++ []) s' := by
    intro s' hf'
    rwa [List.append_nil]
  cases e with
  | setSettings settings => exact hquiet (hf.engine settings _ _ _ _ _ hf.framed)
  | act a =>
    cases a with
    | pump now => exact hf.pump hcodes now
    | record i values =>
      refine hquiet (hf.engine _ _ _ _ _ _ fun c hc => ?_)
      obtain ⟨c', hc', rfl⟩ := Option.map_eq_some_iff.mp hc
      exact hf.framed c' hc'
    | complete i =>
      refine hquiet (hf.engine _ _ _ _ _ _ fun c hc => ?_)
      obtain ⟨c', hc', rfl⟩ := Option.map_eq_some_iff.mp hc
      exact hf.framed c' hc'
    | setMuted muted => exact hquiet (hf.engine _ _ _ _ _ _ hf.framed)
    | setPushToTalkActive active => exact hquiet (hf.engine _ _ _ active _ _ hf.framed)

theorem follows_of_run (hcodes : ∀ coded pcm, pcm ≠ [] → env.encodeFrame coded pcm ≠ [])
    {t : List (State α β × Event α)} (h : (machine env).Run t s) : Follows (ticks t) s := by
  induction h with
  | start h =>
    obtain ⟨engine, now, ht, rfl⟩ := h
    exact follows_start env ht now
  | @snoc t s s' e _ hs ih =>
    obtain ⟨-, rfl⟩ := hs
    rw [ticks_concat]
    exact ih.next hcodes e

/-- **What the engine sends.** In every run of a started engine with a transport whose encoders
return a payload for every frame: over each run of transmitting pumps it sends the last six of the
frames captured in the silent pumps just before it, and then every frame captured in it. What is
sent is sent once and in the order it was captured, under the 32-bit numbers 0, 1, 2, …. -/
theorem sent_eq_passed (hcodes : ∀ coded pcm, pcm ≠ [] → env.encodeFrame coded pcm ≠ [])
    {t : List (State α β × Event α)} (h : (machine env).Run t s) :
    s.sent.map SentFrame.pcm = (stream 6 (ticks t)).passed ∧
    (∀ before run after, ticks t = before ++ run ++ after → run ≠ [] →
      (∀ p ∈ run, p.isOpened) →
      s.sent.map SentFrame.pcm = (stream 6 before).passed ++
        (((before.rtakeWhile Tick.isClosed).flatMap Tick.items).rtake 6 ++
          run.flatMap Tick.items) ++ (stream 6 after).passed) ∧
    (s.sent.map SentFrame.pcm).Sublist ((ticks t).flatMap Tick.items) ∧
    s.sent.map (fun f => f.frame.sequence) = (List.range s.sent.length).map UInt32.ofNat := by
  have hf := follows_of_run hcodes h
  have hpassed : s.sent.map SentFrame.pcm = (stream 6 (ticks t)).passed := hf.passed
  refine ⟨hpassed, fun before run after hsplit hne hrun => ?_, ?_, hf.numbers⟩
  · rw [hpassed, hsplit, LookBack.passed_stream_of_opened hne hrun, LookBack.held_stream]
  · rw [hpassed]
    exact LookBack.passed_stream_sublist 6 (ticks t)

/-- An engine just started, with push to talk. -/
def started : State Int16 Int16 :=
  { engine := VoiceEngine.start Platform.quiet
      { transport := true, settings := { pushToTalk := true } } 0 }

/-- A frame fills up and is pumped before the key is pressed, and another one after. -/
def utterance : List (Event Int16) :=
  [.act (.record firstBuffer (List.replicate 320 5)), .act (.complete firstBuffer), .act (.pump 20),
    .act (.setPushToTalkActive true),
    .act (.record firstBuffer (List.replicate 320 7)), .act (.complete firstBuffer),
    .act (.pump 40)]

theorem sent_eq_passed_utterance :
    (utterance.foldl (next Platform.quiet) started).sent.map SentFrame.pcm =
      [List.replicate 320 5, List.replicate 320 7] := by
  have hrun : (machine Platform.quiet).Run
      (Machine.trace (next Platform.quiet) started utterance)
      (utterance.foldl (next Platform.quiet) started) :=
    Machine.run_trace ⟨_, _, rfl, rfl⟩ fun _ _ => trivial
  have hcodes : ∀ coded pcm, pcm ≠ [] → Platform.quiet.encodeFrame coded pcm ≠ [] :=
    fun coded pcm hpcm =>
      List.length_pos_iff.mp ((Platform.codes_ofCodec _ _ coded pcm hpcm).1)
  have hticks : (stream 6 (ticks (Machine.trace (next Platform.quiet) started utterance))).passed =
      [List.replicate 320 5, List.replicate 320 7] := by decide +kernel
  rw [(sent_eq_passed hcodes hrun).1, hticks]

end PreSpeech

end Audio

end TarkovVoice

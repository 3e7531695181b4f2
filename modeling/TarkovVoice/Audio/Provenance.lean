import TarkovVoice.Audio.Jitter
import TarkovVoice.Audio.Pcm
import TarkovVoice.Audio.PreSpeech

/-!
# Where frames come from

A frame that is sent was encoded from its samples. A frame that waits in the queue of a peer, or
that a mix takes from it, was decoded from a frame that came from that peer, under its number.

What Opus makes of a frame depends on the frames before it, at both ends. Without Opus it does not:
a frame encoded as PCM is decoded as it was, and one encoded as ADPCM as the coder's predictions.

## Main definitions

* `CodedFrom`, `Jitter.DecodedFrom`
* `Jitter.came` — the frames that came from a peer in a run
* `carriedOver` — what becomes of a frame without Opus

## Main results

* `PreSpeech.coded_of_run`
* `decode_encodeFrame`
* `Jitter.decoded_of_run`
-/

namespace TarkovVoice

namespace Audio

open Net (Bytes)

/-! ### What is sent -/

/-- A frame was encoded from its samples, after those that the encoder had coded. Which these are
depends on when the Opus encoder was last destroyed. -/
def CodedFrom {β : Type*} (encode : List (List β) → List β → Bytes) (x : SentFrame β) : Prop :=
  x.pcm ≠ [] ∧ ∃ coded, x.frame.payload = encode coded x.pcm

namespace VoiceEngine

variable {α β : Type*} {env : Platform α β} {e : VoiceEngine α β} {x : SentFrame β}

theorem coded_sendPcmFrame {elapsed : Int64} {f : List β}
    (h : x ∈ (e.sendPcmFrame env elapsed f).2) : CodedFrom env.encodeFrame x := by
  rw [sendPcmFrame] at h
  split at h
  · exact absurd h List.not_mem_nil
  · next hf =>
    dsimp only at h
    split at h
    · exact absurd h List.not_mem_nil
    · rw [List.mem_singleton.mp h]
      exact ⟨fun hnil => hf (Or.inr hnil), _, rfl⟩

theorem coded_sendPcmFrames {elapsed : Int64} (frames : List (List β)) :
    ∀ {e : VoiceEngine α β}, x ∈ (sendPcmFrames env elapsed e frames).2 →
      CodedFrom env.encodeFrame x := by
  induction frames with
  | nil => exact fun h => absurd h List.not_mem_nil
  | cons f frames ih =>
    intro e h
    exact (List.mem_append.mp h).elim coded_sendPcmFrame ih

theorem coded_transmit {elapsed : Int64} {shouldTransmit : Bool} {capturedFrames : List (List β)}
    (h : x ∈ (e.transmit env elapsed shouldTransmit capturedFrames).2) :
    CodedFrom env.encodeFrame x := by
  rw [transmit] at h
  split at h
  · rcases List.mem_append.mp h with h | h
    · rw [sendPreSpeech] at h
      split at h
      · exact absurd h List.not_mem_nil
      · exact coded_sendPcmFrames _ h
    · exact coded_sendPcmFrames _ h
  · split at h <;> exact absurd h List.not_mem_nil

/-- Whatever a pump sends was encoded from its samples. -/
theorem coded_pump {now : ℕ} (h : x ∈ (e.pump env now).2) : CodedFrom env.encodeFrame x := by
  rw [pump] at h
  split at h
  · exact absurd h List.not_mem_nil
  · split at h
    · exact absurd h List.not_mem_nil
    · exact coded_transmit h

end VoiceEngine

namespace PreSpeech

variable {α β : Type*} {env : Platform α β} {s : Muting.State α β}

/-- **Where what is sent comes from**: the payload of every frame is the code of its samples,
whatever was coded before it. -/
theorem coded_of_run {t : List (Muting.State α β × Event α)} (h : (machine env).Run t s) :
    ∀ x ∈ s.sent, CodedFrom env.encodeFrame x := by
  refine h.invariant (I := fun s => ∀ x ∈ s.sent, CodedFrom env.encodeFrame x) ?_ ?_
  · rintro s ⟨engine, now, -, rfl⟩ x hx
    exact absurd hx List.not_mem_nil
  · rintro s e s' hs ⟨-, rfl⟩ x hx
    cases e with
    | setSettings settings => exact hs x hx
    | act a =>
      cases a with
      | pump now => exact (List.mem_append.mp hx).elim (hs x) VoiceEngine.coded_pump
      | record i values => exact hs x hx
      | complete i => exact hs x hx
      | setMuted muted => exact hs x hx
      | setPushToTalkActive active => exact hs x hx

end PreSpeech

/-! ### Without Opus -/

/-- The coder's prediction for each sample, which is what its decoder makes of the codes; the first
sample stays as it is. -/
def predicted : List Int16 → List Int16
  | [] => []
  | front :: rest => (rest.scanl Adpcm.codeSample (.first front)).map fun a =>
      Int16.ofInt a.predictor

/-- What a frame becomes if it is not encoded with Opus: it is brought to the length of a frame, and
ADPCM leaves the coder's predictions of it. -/
def carriedOver (codec : CodecEnv) (pcm : List Int16) : List Int16 :=
  let samples := normalizeFrameSamples codec pcm
  if codec.lowBandwidthCodecEnabled then predicted samples else samples

theorem length_predicted (samples : List Int16) : (predicted samples).length = samples.length := by
  cases samples with
  | nil => rfl
  | cons front rest => rw [predicted, List.length_map, List.length_scanl, List.length_cons]

/-- A frame of the right length stays as it is. So the interpolation does not matter to what the
capture cuts. -/
theorem normalizeFrameSamples_of_length (codec : CodecEnv) {samples : List Int16}
    (h : samples.length = 320) : normalizeFrameSamples codec samples = samples :=
  if_pos (Or.inr h)

/-- A payload of one of the two codecs, and what its decoder makes of it. -/
theorem decodeVoicePayload_of_own {env : DecoderEnv} {payload : Bytes} {samples : List Int16}
    (opusDecoder : List (Bytes × ℕ)) (hlen : samples.length = 320)
    (h : payload.take 4 = kPcmMagic ∧ decodePcmPayload payload = some samples ∨
      payload.take 4 = kAdpcmMagic ∧ decodeAdpcmPayload payload = some samples) :
    (decodeVoicePayload env payload opusDecoder).1 = samples := by
  have hown : ownSamples env payload opusDecoder = some samples := by
    rw [ownSamples]
    rcases h with ⟨hmagic, hdecode⟩ | ⟨hmagic, hdecode⟩
    · rw [hmagic, if_neg (by decide), if_pos rfl, hdecode]
    · rw [hmagic, if_neg (by decide), if_neg (by decide), if_pos rfl, hdecode]
  have hnames : NamesCodec payload := Or.inr (h.imp And.left And.left)
  rw [decodeVoicePayload_eq hnames, hown, Option.getD_some, normalizeFrameSamples_of_length _ hlen]

/-- **Without Opus** what is decoded does not depend on what was sent before, nor on what was
decoded. The frame is not empty; the empty one is never sent. -/
theorem decode_encodeFrame {codec : CodecEnv}
    (hcodec : codec.lowBandwidthCodecEnabled = true ∨ codec.opusCodecDisabled = true)
    (env : DecoderEnv) (coded : List (List Int16)) {pcm : List Int16} (hpcm : pcm ≠ [])
    (opusDecoder : List (Bytes × ℕ)) :
    (decodeVoicePayload env (encodeFrame codec coded pcm) opusDecoder).1 =
      carriedOver codec pcm := by
  have hlen := length_normalizeFrameSamples codec hpcm
  rw [encodeFrame, carriedOver]
  by_cases hlow : codec.lowBandwidthCodecEnabled = true
  · rw [if_pos hlow, if_pos hlow]
    refine decodeVoicePayload_of_own opusDecoder ((length_predicted _).trans hlen) (Or.inr ?_)
    cases hsamples : normalizeFrameSamples codec pcm with
    | nil =>
      rw [hsamples] at hlen
      exact absurd hlen (by decide)
    | cons front rest =>
      have hfits : (front :: rest).length ≤ 0xffff := by
        rw [← hsamples, hlen]
        decide
      rw [encodeAdpcmPayload_eq codec hsamples hfits]
      refine ⟨?_, decode_adpcmPayload_eq hfits⟩
      rw [adpcmPayload_eq]
      rfl
  · have hdisabled : codec.opusCodecDisabled = true := hcodec.resolve_left hlow
    rw [if_neg hlow, if_neg hlow, hdisabled, Bool.not_true, if_neg Bool.noConfusion]
    have hsame : encodePcmPayload codec pcm =
        encodePcmPayload codec (normalizeFrameSamples codec pcm) := by
      rw [encodePcmPayload, encodePcmPayload, normalizeFrameSamples_of_length codec hlen]
    have hpayload := isPcm_encodePcmPayload codec hlen
    rw [hsame]
    refine decodeVoicePayload_of_own opusDecoder hlen
      (Or.inl ⟨?_, decodePcmPayload_eq_some_iff.mpr hpayload⟩)
    rw [hpayload.eq]
    rfl

/-! ### What is played -/

namespace Jitter
open RemotePlayback (sourceOf takenFrom)

variable {env : DecoderEnv} {p : RemotePlayback} {t : List (RemotePlayback × Call)} {k : Bytes}
  {f : QueuedFrame}

/-- A frame of a queue was decoded from a frame that came, by a decoder in whatever state it was in,
and has its number. -/
def DecodedFrom (env : DecoderEnv) (f : QueuedFrame) (g : EncodedVoiceFrame) : Prop :=
  f.sequence = g.sequence ∧
    ∃ opusDecoder, f.pcm = (decodeVoicePayload env g.payload opusDecoder).1

/-- The frame that a call brings from a peer. A frame that names no source is the unknown peer's. -/
def brings (k : Bytes) : Call → Option EncodedVoiceFrame
  | .playRemoteFrame _ frame => if sourceOf frame = k then some frame else none
  | .pumpRemotePlayback _ => none

/-- The frames that came from a peer in a run. -/
def came (k : Bytes) (t : List (RemotePlayback × Call)) : List EncodedVoiceFrame :=
  t.filterMap fun x => brings k x.2

theorem came_append (t t' : List (RemotePlayback × Call)) :
    came k (t ++ t') = came k t ++ came k t' := List.filterMap_append

/-- The queue of a peer. -/
def queueOf (p : RemotePlayback) (k : Bytes) : List QueuedFrame :=
  ((p.remoteAudio.get k).map RemoteAudioState.frames).getD []

theorem queueOf_remote (now : ℕ) : (p.remote now k).frames = queueOf p k := by
  rw [RemotePlayback.remote, queueOf]
  cases p.remoteAudio.get k <;> rfl

/-- **A frame that comes** is all that a queue gains, and it gains it only if it is from
its peer. -/
theorem mem_queueOf_playRemoteFrame {now : ℕ} {g : EncodedVoiceFrame}
    (h : f ∈ queueOf (p.playRemoteFrame env now g) k) :
    f ∈ queueOf p k ∨ sourceOf g = k ∧ DecodedFrom env f g := by
  by_cases hk : k = sourceOf g
  · subst hk
    rw [RemotePlayback.playRemoteFrame] at h
    split at h
    · exact Or.inl h
    · split at h
      · exact Or.inl h
      · extract_lets sourcePeerId remote at h
        have hremote : remote.frames = queueOf p (sourceOf g) := queueOf_remote now
        split at h
        · rw [queueOf, FMap.get_put_self] at h
          exact Or.inl (hremote ▸ h)
        · dsimp only at h
          split at h
          · rw [queueOf, FMap.get_put_self] at h
            exact Or.inl (hremote ▸ h)
          · rw [queueOf, FMap.get_put_self] at h
            rcases List.mem_append.mp ((keepLast_sublist _ _).subset h) with hmem | hmem
            · exact Or.inl (hremote ▸ hmem)
            · rw [List.mem_singleton.mp hmem]
              exact Or.inr ⟨rfl, rfl, _, rfl⟩
  · rw [queueOf, RemotePlayback.get_playRemoteFrame_of_ne hk, ← queueOf] at h
    exact Or.inl h

/-- What a turn leaves in the queue, and what it takes, was in the queue. -/
theorem mem_mixTurn {state : RemoteAudioState} {now : ℕ}
    (h : f ∈ (state.mixTurn now).2.toList ∨
      ∃ state', (state.mixTurn now).1 = some state' ∧ f ∈ state'.frames) : f ∈ state.frames := by
  rw [RemoteAudioState.mixTurn] at h
  split at h
  · next hnil =>
    split at h
    · rcases h with h | ⟨_, h, -⟩
      · exact absurd h List.not_mem_nil
      · exact absurd h (Option.some_ne_none _).symm
    · rcases h with h | ⟨state', heq, h⟩
      · exact absurd h List.not_mem_nil
      · obtain rfl := Option.some.inj heq
        exact h
  · next frame frames hcons =>
    split at h
    · rcases h with h | ⟨state', heq, h⟩
      · exact absurd h List.not_mem_nil
      · obtain rfl := Option.some.inj heq
        exact h
    · rw [hcons]
      rcases h with h | ⟨state', heq, h⟩
      · rw [Option.toList_some, List.mem_singleton] at h
        exact List.mem_cons.mpr (Or.inl h)
      · obtain rfl := Option.some.inj heq
        exact List.mem_cons_of_mem frame h

/-- **A mix** takes what is in the queues, and adds nothing to them. This holds of a mix that comes
too early as well. -/
theorem mem_pumpRemotePlayback (hopen : p.nativePlayback = true) {now : ℕ}
    (h : f ∈ takenFrom k (p.pumpRemotePlayback now).2.taken ∨
      f ∈ queueOf (p.pumpRemotePlayback now).1 k) : f ∈ queueOf p k := by
  obtain ⟨hstate, htaken⟩ := @RemotePlayback.get_pumpRemotePlayback p now hopen k
  rw [queueOf, hstate, htaken] at h
  by_cases hdue : p.Due now
  · rw [if_pos hdue, if_pos hdue] at h
    rw [queueOf]
    cases hget : p.remoteAudio.get k with
    | none =>
      rw [hget] at h
      exact absurd (h.elim id id) List.not_mem_nil
    | some state =>
      rw [hget, Option.bind_some, Option.bind_some] at h
      refine mem_mixTurn (h.imp_right fun hmem => ?_)
      cases hturn : (state.mixTurn now).1 with
      | none =>
        rw [hturn] at hmem
        exact absurd hmem List.not_mem_nil
      | some state' =>
        rw [hturn] at hmem
        exact ⟨state', rfl, hmem⟩
  · rw [if_neg hdue, if_neg hdue] at h
    exact h.resolve_left List.not_mem_nil

/-- One call. What it takes or leaves in a queue was in the queue, or is decoded from the frame that
it brings. -/
theorem mem_call (hp : Running p) {c : Call}
    (h : f ∈ takenFrom k (call env p c).2 ∨ f ∈ queueOf (call env p c).1 k) :
    f ∈ queueOf p k ∨ ∃ g ∈ came k [(p, c)], DecodedFrom env f g := by
  cases c with
  | playRemoteFrame now g =>
    rcases mem_queueOf_playRemoteFrame (h.resolve_left List.not_mem_nil) with h | ⟨hk, hfrom⟩
    · exact Or.inl h
    · have hbrings : brings k (.playRemoteFrame now g) = some g := if_pos hk
      exact Or.inr ⟨g, List.mem_filterMap.mpr ⟨_, List.mem_singleton_self _, hbrings⟩, hfrom⟩
  | pumpRemotePlayback now => exact Or.inl (mem_pumpRemotePlayback hp.nativePlayback h)

/-- The numbers of what has been taken increase. A queue is sorted, and what comes behind its time
is dropped. -/
theorem Follows.increasing {l : List QueuedFrame} {o : Option RemoteAudioState}
    (h : Follows l o) : l.Pairwise fun f f' => f.sequence.toNat < f'.sequence.toNat := by
  cases o with
  | none =>
    obtain rfl : l = [] := h
    exact .nil
  | some state => exact (List.pairwise_append.mp h.1).1

/-- **Where frames come from.** What has been taken from a peer's queue, and what is in it, was
decoded from what came from the peer. -/
theorem decoded_of_run (h : (machine env).Run t p) :
    ∀ f, f ∈ takenFrom k (taken env t) ∨ f ∈ queueOf p k →
      ∃ g ∈ came k t, DecodedFrom env f g := by
  induction h with
  | start hinit =>
    subst hinit
    exact fun f hf => absurd (hf.elim id id) List.not_mem_nil
  | @snoc t p p' c hrun hstep ih =>
    obtain ⟨-, rfl⟩ := hstep
    intro f hf
    rw [taken_concat, RemotePlayback.takenFrom_append, List.mem_append, or_assoc] at hf
    have hold : (∃ g ∈ came k t, DecodedFrom env f g) →
        ∃ g ∈ came k (t ++ [(p, c)]), DecodedFrom env f g := by
      rintro ⟨g, hg, hfrom⟩
      rw [came_append]
      exact ⟨g, List.mem_append_left _ hg, hfrom⟩
    rcases hf with hf | hf
    · exact hold (ih f (Or.inl hf))
    · rcases mem_call (running_of_run hrun) hf with hf | ⟨g, hg, hfrom⟩
      · exact hold (ih f (Or.inr hf))
      · rw [came_append]
        exact ⟨g, List.mem_append_right _ hg, hfrom⟩

end Jitter

end Audio

end TarkovVoice

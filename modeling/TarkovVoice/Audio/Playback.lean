import TarkovVoice.Audio.Capture
import TarkovVoice.Audio.Decoding
import TarkovVoice.Audio.VoiceEngine
import TarkovVoice.FMap

/-!
# The voice engine: playback side

The other half of `VoiceEngine` of `client/src/audio/VoiceEngine.cpp`: a queue for each peer whose
frames arrive, and a mix of what is at the front of the queues, at most every 20 ms.

A frame in a queue carries the number it came under, which the code does not keep. What is mixed is
returned as the sums of the samples; the gain and the limiter that turn these into the output are
floating point, and are left out, as is the device they go to. The counter of dropped frames is the
part of `metrics_.droppedFrames` that is due to received frames. Times are counted in nanoseconds
here, and the value 0 of a time point means that it has not been set.

## Main definitions

* `RemoteAudioState`, `RemotePlayback`
* `RemotePlayback.playRemoteFrame`, `RemotePlayback.pumpRemotePlayback`

## Main results

* `RemotePlayback.get_pumpRemotePlayback` — a mix treats each peer by itself
* `RemotePlayback.queued_playRemoteFrame`, `RemotePlayback.queued_pumpRemotePlayback` — what the
  calls do to the number of frames in the queues
-/

namespace TarkovVoice

namespace Audio

open Net (Bytes utf8)

/-- `kRemotePlaybackIntervalMs`. -/
def kRemotePlaybackIntervalMs : ℕ := 20

/-- `kRemoteJitterTargetFrames`. -/
def kRemoteJitterTargetFrames : ℕ := 2

/-- `kMaxRemoteFramesPerPeer`. -/
def kMaxRemoteFramesPerPeer : ℕ := 12

/-- `std::chrono::milliseconds`. -/
def milliseconds (n : ℕ) : ℕ := n * 1000000

/-- `std::chrono::seconds`. -/
def seconds (n : ℕ) : ℕ := n * 1000000000

/-- `audibleVoiceFrame`: the peak is at least 900 or the root of the mean square at least 260. -/
def audibleVoiceFrame (samples : List Int16) : Bool :=
  if samples = [] then false
  else
    samples.any (fun sample => decide (900 ≤ sample.toInt.natAbs)) ||
      decide (260 ^ 2 * samples.length ≤ (samples.map fun sample => sample.toInt.natAbs ^ 2).sum)

/-- A decoded frame, and the number it came under. The source queues the samples alone; the number
is kept here to say in which order they are played. -/
structure QueuedFrame where
  sequence : UInt32
  pcm : List Int16
  deriving DecidableEq

/-- `RemoteAudioState`: the queue of a peer, when and under which number its last frame was
accepted, and what its Opus decoder has seen. -/
structure RemoteAudioState where
  frames : List QueuedFrame := []
  lastReceived : ℕ
  lastSequence : UInt32 := 0
  hasLastSequence : Bool := false
  playbackPrimed : Bool := false
  opusDecoder : List (Bytes × ℕ) := []

namespace RemoteAudioState

variable (state : RemoteAudioState) (now : ℕ)

/-- A peer's turn in a mix: its entry afterwards, or nothing if it is erased, and the frame that is
taken from its queue. -/
def mixTurn : Option RemoteAudioState × Option QueuedFrame :=
  match state.frames with
  | [] =>
    if now - state.lastReceived > seconds 2 then (none, none)
    else (some { state with playbackPrimed := false }, none)
  | frame :: frames =>
    if state.playbackPrimed = false ∧ (frame :: frames).length < kRemoteJitterTargetFrames then
      (some state, none)
    else (some { state with playbackPrimed := true, frames }, some frame)

/-- The number of frames in the queue. -/
def size : ℕ := state.frames.length

/-- A turn takes at most one frame, and removes no other. An entry that is dropped for its age had
no frame left. -/
theorem size_mixTurn :
    ((state.mixTurn now).1.map size).getD 0 + (state.mixTurn now).2.toList.length = state.size := by
  rw [mixTurn, size]
  split
  · next hnil =>
    rw [hnil]
    split
    · rfl
    · simp [size]
  · next frame frames hcons =>
    split
    · rfl
    · simp [size, hcons]

end RemoteAudioState

/-- The playback side of `VoiceEngine`, whose fields the capture side does not touch. Times are
nanoseconds of the steady clock. -/
structure RemotePlayback where
  running : Bool := false
  /-- Whether the output device is open. -/
  nativePlayback : Bool := false
  remoteAudio : FMap Bytes RemoteAudioState := ∅
  lastRemoteMix : ℕ := 0
  droppedFrames : ℕ := 0

/-- What a mix takes from the queues, each frame with its peer, and the sums of what is audible of
it, if anything. -/
structure RemoteMix where
  taken : List (Bytes × QueuedFrame) := []
  mixed : Option (List ℤ) := none

namespace RemotePlayback

variable (env : DecoderEnv) (p : RemotePlayback) (now : ℕ)

/-- `start`, which may not find an output device. Then frames are not even queued. -/
def start (opened : Bool) : RemotePlayback := { running := true, nativePlayback := opened }

/-! ### Receiving -/

/-- The id under which frames without one are kept. -/
def unknownPeerId : Bytes := utf8 "_unknown"

/-- The id under which a frame is kept. -/
def sourceOf (frame : EncodedVoiceFrame) : Bytes :=
  if frame.sourcePeerId = [] then unknownPeerId else frame.sourcePeerId

/-- The entry `remoteAudio_[peerId]`, created if there is none. -/
def remote (peerId : Bytes) : RemoteAudioState :=
  (p.remoteAudio.get peerId).getD { lastReceived := now }

/-- `playRemoteFrame`. A frame whose number does not exceed the last one, or that cannot be decoded,
changes no queue; one too many takes the place of the oldest. -/
def playRemoteFrame (frame : EncodedVoiceFrame) : RemotePlayback :=
  if p.running = false ∨ p.nativePlayback = false ∨ frame.payload = [] then p
  else if frame.payload.length < 2 then p
  else
    let sourcePeerId := sourceOf frame
    let remote := p.remote now sourcePeerId
    if remote.hasLastSequence = true ∧ frame.sequence ≤ remote.lastSequence then
      { p with
        remoteAudio := p.remoteAudio.put sourcePeerId remote
        droppedFrames := p.droppedFrames + 1 }
    else
      let (pcm, opusDecoder) := decodeVoicePayload env frame.payload remote.opusDecoder
      let remote :=
        { remote with
          hasLastSequence := true
          lastSequence := frame.sequence
          lastReceived := now
          opusDecoder }
      if pcm = [] then
        { p with
          remoteAudio := p.remoteAudio.put sourcePeerId remote
          droppedFrames := p.droppedFrames + 1 }
      else
        -- what exceeds the maximum is removed from the front and counted
        let frames := remote.frames ++ [{ sequence := frame.sequence, pcm }]
        { p with
          remoteAudio := p.remoteAudio.put sourcePeerId
            { remote with frames := keepLast kMaxRemoteFramesPerPeer frames }
          droppedFrames := p.droppedFrames + (frames.length - kMaxRemoteFramesPerPeer) }

/-! ### Mixing -/

/-- The loop over the peers. The turns are independent of each other, so their order does not
matter. -/
def mixPeers : FMap Bytes RemoteAudioState → List Bytes →
    FMap Bytes RemoteAudioState × List (Bytes × QueuedFrame)
  | remoteAudio, [] => (remoteAudio, [])
  | remoteAudio, peerId :: peerIds =>
    match remoteAudio.get peerId with
    | some state =>
      let (state, frame) := state.mixTurn now
      let (remoteAudio, rest) := mixPeers (remoteAudio.set peerId state) peerIds
      (remoteAudio, (frame.toList.map fun frame => (peerId, frame)) ++ rest)
    | none => mixPeers remoteAudio peerIds

/-- A frame is added to the sums. A short one counts as silence behind its end. -/
def addFrame (mixed : List ℤ) (frame : List Int16) : List ℤ :=
  mixed.mapIdx fun i sum => sum + ((frame[i]?).map Int16.toInt).getD 0

/-- The sums of the audible frames, sample by sample, if there are any. Silence is not mixed. -/
def mixFrames (taken : List (Bytes × QueuedFrame)) : Option (List ℤ) :=
  let active := (taken.map fun x => x.2.pcm).filter audibleVoiceFrame
  if active = [] then none
  else some (active.foldl addFrame (List.replicate kWireVoiceSamplesPerFrame 0))

/-- `pumpRemotePlayback`, up to the gain. It does nothing before the interval since the last mix is
over. -/
def pumpRemotePlayback : RemotePlayback × RemoteMix :=
  if p.nativePlayback = false ∨ p.remoteAudio.keys = [] then (p, {})
  else if p.lastRemoteMix ≠ 0 ∧
      now - p.lastRemoteMix < milliseconds kRemotePlaybackIntervalMs then (p, {})
  else
    let (remoteAudio, taken) := mixPeers now p.remoteAudio p.remoteAudio.keys
    ({ p with remoteAudio, lastRemoteMix := now }, { taken, mixed := mixFrames taken })

/-! ### What receiving does -/

/-- What a received frame of two bytes or more does to the entry of its peer, and how many frames
are dropped for it. -/
inductive Receipt (remote : RemoteAudioState) (sequence : UInt32) : RemoteAudioState → ℕ → Prop
  /-- It is not newer than the last one. -/
  | stale : remote.hasLastSequence = true ∧ sequence ≤ remote.lastSequence →
      Receipt remote sequence remote 1
  /-- Its payload has no samples. -/
  | undecoded (lastReceived : ℕ) (opusDecoder : List (Bytes × ℕ)) :
      ¬ (remote.hasLastSequence = true ∧ sequence ≤ remote.lastSequence) →
      Receipt remote sequence
        { remote with
          hasLastSequence := true, lastSequence := sequence, lastReceived, opusDecoder } 1
  /-- It enters the queue, from the front of which frames may be removed for it. -/
  | queued (lastReceived : ℕ) (opusDecoder : List (Bytes × ℕ)) (pcm : List Int16) :
      ¬ (remote.hasLastSequence = true ∧ sequence ≤ remote.lastSequence) →
      Receipt remote sequence
        { remote with
          hasLastSequence := true, lastSequence := sequence, lastReceived, opusDecoder
          frames := keepLast kMaxRemoteFramesPerPeer (remote.frames ++ [{ sequence, pcm }]) }
        (remote.frames.length + 1 - kMaxRemoteFramesPerPeer)

variable {env p now}

theorem playRemoteFrame_of_short {frame : EncodedVoiceFrame} (h : frame.payload.length < 2) :
    p.playRemoteFrame env now frame = p := by
  rw [playRemoteFrame, if_pos h]
  exact ite_self p

/-- **One received frame** changes the entry of its peer and the counter. -/
theorem playRemoteFrame_receipt {frame : EncodedVoiceFrame} (hrun : p.running = true)
    (hopen : p.nativePlayback = true) (hlen : 2 ≤ frame.payload.length) :
    ∃ remote dropped, Receipt (p.remote now (sourceOf frame)) frame.sequence remote dropped ∧
      p.playRemoteFrame env now frame = { p with
        remoteAudio := p.remoteAudio.put (sourceOf frame) remote
        droppedFrames := p.droppedFrames + dropped } := by
  have hgoes : ¬ (p.running = false ∨ p.nativePlayback = false ∨ frame.payload = []) := by
    rintro (h | h | h)
    · rw [hrun] at h
      exact Bool.noConfusion h
    · rw [hopen] at h
      exact Bool.noConfusion h
    · rw [h] at hlen
      exact absurd hlen (by decide)
  rw [playRemoteFrame, if_neg hgoes, if_neg (not_lt.mpr hlen)]
  dsimp only
  split
  · next hstale => exact ⟨_, _, .stale hstale, rfl⟩
  · next hnew =>
    rcases decodeVoicePayload env frame.payload (p.remote now (sourceOf frame)).opusDecoder with
      ⟨pcm, opusDecoder⟩
    dsimp only
    split
    · exact ⟨_, _, .undecoded now opusDecoder hnew, rfl⟩
    · refine ⟨_, _, .queued now opusDecoder pcm hnew, ?_⟩
      rw [List.length_append, List.length_singleton]

/-- A frame is queued or dropped, perhaps in place of an older one. Either way one more frame is
accounted for. -/
theorem Receipt.length {remote remote' : RemoteAudioState} {sequence : UInt32} {dropped : ℕ}
    (h : Receipt remote sequence remote' dropped) :
    remote'.frames.length + dropped = remote.frames.length + 1 := by
  cases h with
  | stale => rfl
  | undecoded => rfl
  | queued =>
    rw [length_keepLast, List.length_append, List.length_singleton]
    omega

theorem Receipt.length_le {remote remote' : RemoteAudioState} {sequence : UInt32} {dropped : ℕ}
    (h : Receipt remote sequence remote' dropped)
    (hle : remote.frames.length ≤ kMaxRemoteFramesPerPeer) :
    remote'.frames.length ≤ kMaxRemoteFramesPerPeer := by
  cases h with
  | stale => exact hle
  | undecoded => exact hle
  | queued =>
    rw [length_keepLast]
    exact min_le_left _ _

/-- A received frame leaves the entries of other peers alone. -/
theorem get_playRemoteFrame_of_ne {frame : EncodedVoiceFrame} {k : Bytes}
    (h : k ≠ sourceOf frame) :
    (p.playRemoteFrame env now frame).remoteAudio.get k = p.remoteAudio.get k := by
  rw [playRemoteFrame]
  split
  · rfl
  · split
    · rfl
    · dsimp only
      split
      · exact FMap.get_put_of_ne _ h _
      · split <;> exact FMap.get_put_of_ne _ h _

theorem playRemoteFrame_same (frame : EncodedVoiceFrame) :
    (p.playRemoteFrame env now frame).running = p.running ∧
      (p.playRemoteFrame env now frame).nativePlayback = p.nativePlayback ∧
      (p.playRemoteFrame env now frame).lastRemoteMix = p.lastRemoteMix := by
  rw [playRemoteFrame]
  split
  · exact ⟨rfl, rfl, rfl⟩
  · split
    · exact ⟨rfl, rfl, rfl⟩
    · dsimp only
      split
      · exact ⟨rfl, rfl, rfl⟩
      · split <;> exact ⟨rfl, rfl, rfl⟩

/-! ### What mixing does -/

/-- The frames taken from the queue of a peer. -/
def takenFrom (k : Bytes) (taken : List (Bytes × QueuedFrame)) : List QueuedFrame :=
  taken.filterMap fun x => if x.1 = k then some x.2 else none

theorem takenFrom_append (k : Bytes) (taken taken' : List (Bytes × QueuedFrame)) :
    takenFrom k (taken ++ taken') = takenFrom k taken ++ takenFrom k taken' :=
  List.filterMap_append

theorem takenFrom_map (k peerId : Bytes) (frames : List QueuedFrame) :
    takenFrom k (frames.map fun frame => (peerId, frame)) = if peerId = k then frames else [] := by
  rw [takenFrom, List.filterMap_map]
  split
  · next h => simp [h]
  · next h => simp [h]

/-- **Each peer has one turn** in a mix, and what is taken from its queue does not depend on the
others. -/
theorem mixPeers_peer (k : Bytes) (peerIds : List Bytes) (hnodup : peerIds.Nodup) :
    ∀ remoteAudio : FMap Bytes RemoteAudioState,
      (mixPeers now remoteAudio peerIds).1.get k =
          (if k ∈ peerIds then (remoteAudio.get k).bind fun state => (state.mixTurn now).1
            else remoteAudio.get k) ∧
        takenFrom k (mixPeers now remoteAudio peerIds).2 =
          if k ∈ peerIds then
            ((remoteAudio.get k).bind fun state => (state.mixTurn now).2).toList
          else [] := by
  induction peerIds with
  | nil => exact fun _ => ⟨rfl, rfl⟩
  | cons peerId peerIds ih =>
    obtain ⟨hnot, hrest⟩ := List.nodup_cons.mp hnodup
    intro remoteAudio
    rw [mixPeers]
    cases hget : remoteAudio.get peerId with
    | none =>
      obtain ⟨hstate, htaken⟩ := ih hrest remoteAudio
      dsimp only
      rw [hstate, htaken]
      by_cases hk : k = peerId
      · rw [hk, hget, if_neg hnot, if_neg hnot, if_pos List.mem_cons_self,
          if_pos List.mem_cons_self]
        exact ⟨rfl, rfl⟩
      · simp [hk]
    | some state =>
      obtain ⟨hstate, htaken⟩ := ih hrest (remoteAudio.set peerId (state.mixTurn now).1)
      dsimp only
      rw [takenFrom_append, takenFrom_map, hstate, htaken, FMap.get_set]
      by_cases hk : k = peerId
      · rw [hk, hget, if_neg hnot, if_neg hnot, if_pos List.mem_cons_self,
          if_pos List.mem_cons_self, if_pos rfl, if_pos rfl, List.append_nil]
        exact ⟨rfl, rfl⟩
      · simp [hk, Ne.symm hk]

/-- The number of frames in all queues. -/
def queued (p : RemotePlayback) : ℕ := p.remoteAudio.total RemoteAudioState.size

theorem total_mixPeers (peerIds : List Bytes) :
    ∀ remoteAudio : FMap Bytes RemoteAudioState,
      (mixPeers now remoteAudio peerIds).1.total RemoteAudioState.size +
        (mixPeers now remoteAudio peerIds).2.length =
          remoteAudio.total RemoteAudioState.size := by
  induction peerIds with
  | nil => exact fun _ => rfl
  | cons peerId peerIds ih =>
    intro remoteAudio
    rw [mixPeers]
    cases hget : remoteAudio.get peerId with
    | none => exact ih remoteAudio
    | some state =>
      have hrest := ih (remoteAudio.set peerId (state.mixTurn now).1)
      have hset := remoteAudio.total_set RemoteAudioState.size peerId (state.mixTurn now).1
      have hturn := state.size_mixTurn now
      rw [hget, Option.map_some, Option.getD_some] at hset
      dsimp only
      rw [List.length_append, List.length_map]
      omega

variable (p now)

/-- A mix is due: the last one is 20 ms ago, or there was none. A call of `pumpRemotePlayback` that
comes earlier does nothing. -/
def Due : Prop :=
  p.lastRemoteMix = 0 ∨ milliseconds kRemotePlaybackIntervalMs ≤ now - p.lastRemoteMix

instance : Decidable (p.Due now) := inferInstanceAs (Decidable (_ ∨ _))

variable {p now}

theorem not_due_iff : ¬ p.Due now ↔
    p.lastRemoteMix ≠ 0 ∧ now - p.lastRemoteMix < milliseconds kRemotePlaybackIntervalMs := by
  rw [Due, not_or, not_le]

/-- **A mix** treats each peer by itself, if it is due; otherwise nothing changes and nothing is
taken. -/
theorem get_pumpRemotePlayback (hopen : p.nativePlayback = true) (k : Bytes) :
    (p.pumpRemotePlayback now).1.remoteAudio.get k =
        (if p.Due now then (p.remoteAudio.get k).bind fun state => (state.mixTurn now).1
          else p.remoteAudio.get k) ∧
      takenFrom k (p.pumpRemotePlayback now).2.taken =
        if p.Due now then ((p.remoteAudio.get k).bind fun state => (state.mixTurn now).2).toList
        else [] := by
  have hkeys : k ∉ p.remoteAudio.keys → p.remoteAudio.get k = none := fun hk =>
    Option.eq_none_iff_forall_ne_some.mpr fun b hb => hk (FMap.mem_keys.mpr ⟨b, hb⟩)
  obtain ⟨hstate, htaken⟩ :=
    @mixPeers_peer now k p.remoteAudio.keys p.remoteAudio.keys_nodup p.remoteAudio
  rw [pumpRemotePlayback]
  by_cases hempty : p.remoteAudio.keys = []
  · have hnone := hkeys (by rw [hempty]; exact List.not_mem_nil)
    rw [if_pos (Or.inr hempty), hnone]
    exact ⟨(ite_self none).symm, (ite_self []).symm⟩
  · have hgoes : ¬ (p.nativePlayback = false ∨ p.remoteAudio.keys = []) := by
      rintro (h | h)
      · rw [hopen] at h
        exact Bool.noConfusion h
      · exact hempty h
    rw [if_neg hgoes]
    by_cases hdue : p.Due now
    · rw [if_neg fun h => not_due_iff.mpr h hdue, if_pos hdue, if_pos hdue]
      dsimp only
      rw [hstate, htaken]
      by_cases hk : k ∈ p.remoteAudio.keys
      · rw [if_pos hk, if_pos hk]
        exact ⟨rfl, rfl⟩
      · rw [if_neg hk, if_neg hk, hkeys hk]
        exact ⟨rfl, rfl⟩
    · rw [if_pos (not_due_iff.mp hdue), if_neg hdue, if_neg hdue]
      exact ⟨rfl, rfl⟩

theorem pumpRemotePlayback_same :
    (p.pumpRemotePlayback now).1.running = p.running ∧
      (p.pumpRemotePlayback now).1.nativePlayback = p.nativePlayback := by
  rw [pumpRemotePlayback]
  split
  · exact ⟨rfl, rfl⟩
  · split <;> exact ⟨rfl, rfl⟩

theorem lastRemoteMix_pumpRemotePlayback :
    (p.pumpRemotePlayback now).1.lastRemoteMix = p.lastRemoteMix ∨
      (p.pumpRemotePlayback now).1.lastRemoteMix = now := by
  rw [pumpRemotePlayback]
  split
  · exact Or.inl rfl
  · split
    · exact Or.inl rfl
    · exact Or.inr rfl

/-- A mix takes frames from the queues, and drops none. What it takes is handed to the mix, also
when it is silent. -/
theorem queued_pumpRemotePlayback :
    (p.pumpRemotePlayback now).1.queued + (p.pumpRemotePlayback now).2.taken.length = p.queued ∧
      (p.pumpRemotePlayback now).1.droppedFrames = p.droppedFrames := by
  rw [pumpRemotePlayback]
  split
  · exact ⟨rfl, rfl⟩
  · split
    · exact ⟨rfl, rfl⟩
    · exact ⟨total_mixPeers _ _, rfl⟩

/-- A received frame is queued or counted as dropped. The engine runs with an output device, and the
payload has two bytes at least; other frames are not counted at all. -/
theorem queued_playRemoteFrame {frame : EncodedVoiceFrame} (hrun : p.running = true)
    (hopen : p.nativePlayback = true) (hlen : 2 ≤ frame.payload.length) :
    (p.playRemoteFrame env now frame).queued + (p.playRemoteFrame env now frame).droppedFrames =
      p.queued + p.droppedFrames + 1 := by
  obtain ⟨remote, dropped, hreceipt, heq⟩ :=
    @playRemoteFrame_receipt env p now frame hrun hopen hlen
  have hput := p.remoteAudio.total_put RemoteAudioState.size (sourceOf frame) remote
  have hold : ((p.remoteAudio.get (sourceOf frame)).map RemoteAudioState.size).getD 0 =
      (p.remote now (sourceOf frame)).frames.length := by
    rw [RemotePlayback.remote]
    cases p.remoteAudio.get (sourceOf frame) <;> rfl
  have hlength := hreceipt.length
  have hsize : RemoteAudioState.size remote = remote.frames.length := rfl
  rw [heq, queued, queued]
  dsimp only
  omega

end RemotePlayback

end Audio

end TarkovVoice

import TarkovVoice.Audio.Playback
import TarkovVoice.Machine

/-!
# The jitter buffer

Runs of the playback side between `start` and `stop`, with the output device open: frames arrive
from any number of peers, in any order and at any times, and mixes take frames from the queues.

Every frame is accounted for, and what is taken from one peer is taken in the order of its numbers
until its entry is erased. An entry is erased when nothing was received for two seconds, but only
once its queue is empty, and a queue that never reached two frames is not played: its one frame
waits for the next utterance of the peer.

## Main definitions

* `Jitter.machine` — the runs
* `Jitter.Follows` — the entry of a peer, and what has been taken from it
* `Jitter.Schedule`, `Jitter.after` — mixes of a peer that has fallen silent
* `Jitter.Drained` — its queue is emptied and its entry erased

## Main results

* `Jitter.accounting`
* `Jitter.drained_iff`
-/

namespace TarkovVoice

namespace Audio

namespace Jitter

open Net (Bytes)
open RemotePlayback (Receipt sourceOf takenFrom)

/-- The calls of the playback side, each with the time it reads: a frame arrives, and the main loop
mixes what is due. -/
inductive Call
  | playRemoteFrame (now : ℕ) (frame : EncodedVoiceFrame)
  | pumpRemotePlayback (now : ℕ)

/-- What a call does, and what it takes from the queues: only a mix takes anything. -/
def call (env : DecoderEnv) (p : RemotePlayback) :
    Call → RemotePlayback × List (Bytes × QueuedFrame)
  | .playRemoteFrame now frame => (p.playRemoteFrame env now frame, [])
  | .pumpRemotePlayback now => ((p.pumpRemotePlayback now).1, (p.pumpRemotePlayback now).2.taken)

/-- The runs from a `start` that found an output device, up to `stop`. Frames may come from anybody,
with any number and payload, and the clock may show anything. -/
def machine (env : DecoderEnv) : Machine RemotePlayback Call :=
  .ofNext (fun p => p = .start true) (fun _ _ => True) (fun p c => (call env p c).1)

variable {env : DecoderEnv} {p : RemotePlayback} {t : List (RemotePlayback × Call)} {k : Bytes}

/-! ### What holds of every run -/

/-- What every call keeps: the engine runs, the output device is open, and no queue is longer than
it may be. -/
structure Running (p : RemotePlayback) : Prop where
  running : p.running = true
  nativePlayback : p.nativePlayback = true
  bounded : ∀ k state, p.remoteAudio.get k = some state →
    state.frames.length ≤ kMaxRemoteFramesPerPeer

/-- A peer whose turn it is keeps no more frames than it had. -/
theorem length_mixTurn {state state' : RemoteAudioState} {now : ℕ}
    (h : (state.mixTurn now).1 = some state') : state'.frames.length ≤ state.frames.length := by
  have hsize := state.size_mixTurn now
  rw [h, Option.map_some, Option.getD_some] at hsize
  exact Nat.le_of_add_right_le hsize.le

theorem Running.remote (hp : Running p) (now : ℕ) (k : Bytes) :
    (p.remote now k).frames.length ≤ kMaxRemoteFramesPerPeer := by
  rw [RemotePlayback.remote]
  cases hget : p.remoteAudio.get k with
  | none => exact Nat.zero_le _
  | some state => exact hp.bounded k state hget

theorem Running.call (hp : Running p) (c : Call) : Running (call env p c).1 := by
  cases c with
  | playRemoteFrame now frame =>
    obtain ⟨hrun, hopen, -⟩ := @RemotePlayback.playRemoteFrame_same env p now frame
    refine ⟨hrun.trans hp.running, hopen.trans hp.nativePlayback, fun k state hget => ?_⟩
    rcases Nat.lt_or_ge frame.payload.length 2 with hshort | hlen
    · have hsame := @RemotePlayback.playRemoteFrame_of_short env p now frame hshort
      exact hp.bounded k state (hsame ▸ hget)
    · obtain ⟨remote, dropped, hreceipt, heq⟩ :=
        @RemotePlayback.playRemoteFrame_receipt env p now frame hp.running hp.nativePlayback hlen
      change (p.playRemoteFrame env now frame).remoteAudio.get k = some state at hget
      rw [heq, FMap.get_put] at hget
      split at hget
      · obtain rfl := Option.some.inj hget
        exact hreceipt.length_le (hp.remote now _)
      · exact hp.bounded k state hget
  | pumpRemotePlayback now =>
    obtain ⟨hrun, hopen⟩ := @RemotePlayback.pumpRemotePlayback_same p now
    refine ⟨hrun.trans hp.running, hopen.trans hp.nativePlayback, fun k state hget => ?_⟩
    change (p.pumpRemotePlayback now).1.remoteAudio.get k = some state at hget
    rw [(RemotePlayback.get_pumpRemotePlayback hp.nativePlayback k).1] at hget
    split at hget
    · obtain ⟨before, hbefore, hturn⟩ := Option.bind_eq_some_iff.mp hget
      exact (length_mixTurn hturn).trans (hp.bounded k before hbefore)
    · exact hp.bounded k state hget

theorem running_of_run (h : (machine env).Run t p) : Running p := by
  refine h.invariant (I := Running) ?_ ?_
  · rintro p rfl
    exact ⟨rfl, rfl, fun k state hget => by simp [RemotePlayback.start] at hget⟩
  · rintro p c p' hp ⟨-, rfl⟩
    exact hp.call c

/-! ### The order of what is taken -/

/-- The entry of a peer, after the frames `l` have been taken from its queue since it was created:
their numbers and those of the queue increase, up to the last one. -/
def Follows (l : List QueuedFrame) : Option RemoteAudioState → Prop
  | none => l = []
  | some state =>
    (l ++ state.frames).Pairwise (fun f g => f.sequence < g.sequence) ∧
      ∀ f ∈ l ++ state.frames, state.hasLastSequence = true ∧ f.sequence ≤ state.lastSequence

theorem follows_nil {o : Option RemoteAudioState} {l : List QueuedFrame} (h : Follows l o) :
    Follows [] o := by
  cases o with
  | none => rfl
  | some state =>
    obtain ⟨hincreasing, hlast⟩ := h
    exact ⟨(List.pairwise_append.mp hincreasing).2.1,
      fun f hf => hlast f (List.mem_append_right _ hf)⟩

theorem Follows.remote {l : List QueuedFrame} (h : Follows l (p.remoteAudio.get k)) (now : ℕ) :
    Follows l (some (p.remote now k)) := by
  rw [RemotePlayback.remote]
  cases hget : p.remoteAudio.get k with
  | none =>
    rw [hget] at h
    obtain rfl : l = [] := h
    exact ⟨.nil, fun f hf => absurd hf List.not_mem_nil⟩
  | some state =>
    rw [hget] at h
    exact h

theorem Follows.receipt {l : List QueuedFrame} {remote remote' : RemoteAudioState}
    {sequence : UInt32} {dropped : ℕ} (h : Follows l (some remote))
    (hr : Receipt remote sequence remote' dropped) : Follows l (some remote') := by
  obtain ⟨hincreasing, hlast⟩ := h
  have hnewer : ¬ (remote.hasLastSequence = true ∧ sequence ≤ remote.lastSequence) →
      ∀ f ∈ l ++ remote.frames, f.sequence < sequence := by
    intro hnew f hf
    obtain ⟨hhas, hle⟩ := hlast f hf
    exact UInt32.lt_of_le_of_lt hle (UInt32.not_le.mp fun hle => hnew ⟨hhas, hle⟩)
  cases hr with
  | stale => exact ⟨hincreasing, hlast⟩
  | undecoded _ _ hnew =>
    exact ⟨hincreasing, fun f hf => ⟨rfl, UInt32.le_of_lt (hnewer hnew f hf)⟩⟩
  | queued _ _ pcm hnew =>
    have hsublist : (l ++ keepLast kMaxRemoteFramesPerPeer
        (remote.frames ++ [QueuedFrame.mk sequence pcm])).Sublist
          (l ++ remote.frames ++ [QueuedFrame.mk sequence pcm]) := by
      rw [List.append_assoc]
      exact (keepLast_sublist _ _).append_left l
    have hall : ∀ f ∈ l ++ remote.frames ++ [QueuedFrame.mk sequence pcm],
        f.sequence ≤ sequence := by
      intro f hf
      rcases List.mem_append.mp hf with hf | hf
      · exact UInt32.le_of_lt (hnewer hnew f hf)
      · rw [List.mem_singleton.mp hf]
        exact UInt32.le_refl sequence
    refine ⟨List.Pairwise.sublist hsublist ?_, fun f hf => ⟨rfl, hall f (hsublist.subset hf)⟩⟩
    refine List.pairwise_append.mpr ⟨hincreasing, List.pairwise_singleton _ _, ?_⟩
    intro f hf g hg
    rw [List.mem_singleton.mp hg]
    exact hnewer hnew f hf

/-- What is taken is at the front of the queue. -/
theorem Follows.mixTurn {l : List QueuedFrame} {state state' : RemoteAudioState} {now : ℕ}
    (h : Follows l (some state)) (hkept : (state.mixTurn now).1 = some state') :
    Follows (l ++ (state.mixTurn now).2.toList) (some state') := by
  obtain ⟨hincreasing, hlast⟩ := h
  rw [RemoteAudioState.mixTurn] at hkept ⊢
  split at hkept
  · next hnil =>
    split at hkept
    · exact absurd hkept (Option.some_ne_none _).symm
    · next hrecent =>
      obtain rfl := Option.some.inj hkept
      rw [if_neg hrecent, Option.toList_none, List.append_nil]
      exact ⟨hincreasing, hlast⟩
  · next frame frames hcons =>
    split at hkept
    · next hheld =>
      obtain rfl := Option.some.inj hkept
      rw [if_pos hheld, Option.toList_none, List.append_nil]
      exact ⟨hincreasing, hlast⟩
    · next hplays =>
      obtain rfl := Option.some.inj hkept
      rw [if_neg hplays]
      have happend : l ++ state.frames = l ++ [frame] ++ frames := by
        rw [hcons, List.append_assoc, List.singleton_append]
      rw [happend] at hincreasing hlast
      exact ⟨hincreasing, hlast⟩

/-- The call erases the entry of the peer: there is one before it and none after it. With the entry
goes the number of the last frame, so that the peer may start again from any number. -/
def Erases (env : DecoderEnv) (k : Bytes) (x : RemotePlayback × Call) : Prop :=
  (x.1.remoteAudio.get k).isSome ∧ (call env x.1 x.2).1.remoteAudio.get k = none

/-- The frames taken in a run, with their peers. -/
def taken (env : DecoderEnv) (t : List (RemotePlayback × Call)) : List (Bytes × QueuedFrame) :=
  t.flatMap fun x => (call env x.1 x.2).2

theorem taken_concat (x : RemotePlayback × Call) :
    taken env (t ++ [x]) = taken env t ++ (call env x.1 x.2).2 := by
  rw [taken, List.flatMap_append, List.flatMap_singleton]
  rfl

/-- A frame that comes leaves what has been taken in its place. -/
theorem Follows.receive {l : List QueuedFrame} (hp : Running p)
    (h : Follows l (p.remoteAudio.get k)) (now : ℕ) (frame : EncodedVoiceFrame) :
    Follows l ((p.playRemoteFrame env now frame).remoteAudio.get k) := by
  rcases Nat.lt_or_ge frame.payload.length 2 with hshort | hlen
  · rw [RemotePlayback.playRemoteFrame_of_short hshort]
    exact h
  · by_cases hk : k = sourceOf frame
    · obtain ⟨remote, dropped, hreceipt, heq⟩ :=
        @RemotePlayback.playRemoteFrame_receipt env p now frame hp.running hp.nativePlayback hlen
      rw [heq, ← hk, FMap.get_put_self]
      rw [← hk] at hreceipt
      exact (h.remote now).receipt hreceipt
    · rw [RemotePlayback.get_playRemoteFrame_of_ne hk]
      exact h

/-- A mix that does not erase the entry of the peer. -/
theorem Follows.mix {l : List QueuedFrame} (hp : Running p)
    (h : Follows l (p.remoteAudio.get k)) {now : ℕ}
    (hkept : ¬ Erases env k (p, .pumpRemotePlayback now)) :
    Follows (l ++ takenFrom k (p.pumpRemotePlayback now).2.taken)
      ((p.pumpRemotePlayback now).1.remoteAudio.get k) := by
  obtain ⟨hstate, htaken⟩ := @RemotePlayback.get_pumpRemotePlayback p now hp.nativePlayback k
  rw [Erases, Jitter.call] at hkept
  dsimp only at hkept
  rw [hstate] at hkept ⊢
  rw [htaken]
  by_cases hdue : p.Due now
  · rw [if_pos hdue] at hkept ⊢
    rw [if_pos hdue]
    cases hget : p.remoteAudio.get k with
    | none =>
      rw [hget] at h
      obtain rfl : l = [] := h
      rfl
    | some state =>
      rw [hget] at h hkept
      rw [Option.bind_some, Option.bind_some]
      cases hturn : (state.mixTurn now).1 with
      | none => exact absurd ⟨rfl, hturn⟩ hkept
      | some state' => exact h.mixTurn hturn
  · rw [if_neg hdue, if_neg hdue, List.append_nil]
    exact h

/-- **One call** takes the frames of a peer in the order of their numbers, unless it erases its
entry. -/
theorem Follows.call {l : List QueuedFrame} (hp : Running p)
    (h : Follows l (p.remoteAudio.get k)) {c : Call} (hkept : ¬ Erases env k (p, c)) :
    Follows (l ++ takenFrom k (call env p c).2) ((call env p c).1.remoteAudio.get k) := by
  cases c with
  | playRemoteFrame now frame =>
    change Follows (l ++ []) ((p.playRemoteFrame env now frame).remoteAudio.get k)
    rw [List.append_nil]
    exact h.receive hp now frame
  | pumpRemotePlayback now => exact h.mix hp hkept

/-- **Between two erasures.** The induction is on the run; a frame that was taken keeps its place
before the queue. -/
theorem follows_of_run (h : (machine env).Run t p) :
    ∀ before lives, t = before ++ lives → (∀ x ∈ lives, ¬ Erases env k x) →
      Follows (takenFrom k (taken env lives)) (p.remoteAudio.get k) := by
  induction h with
  | start h =>
    obtain rfl := h
    intro before lives hsplit _
    rw [(List.append_eq_nil_iff.mp hsplit.symm).2]
    rfl
  | @snoc t p p' c hrun hs ih =>
    obtain ⟨-, rfl⟩ := hs
    have hp := running_of_run hrun
    intro before lives hsplit hlives
    rcases List.eq_nil_or_concat lives with rfl | ⟨lives, x, rfl⟩
    · -- what came before does not matter
      by_cases hkept : Erases env k (p, c)
      · rw [hkept.2]
        rfl
      · exact follows_nil ((ih t [] (List.append_nil t).symm
          fun x hx => absurd hx List.not_mem_nil).call hp hkept)
    · rw [List.concat_eq_append] at hsplit hlives ⊢
      rw [← List.append_assoc] at hsplit
      obtain ⟨hbefore, hx⟩ := List.append_inj' hsplit rfl
      obtain rfl := List.singleton_inj.mp hx
      have hold := ih before lives hbefore fun y hy => hlives y (List.mem_append_left _ hy)
      rw [taken_concat, RemotePlayback.takenFrom_append]
      exact hold.call hp (hlives _ (List.mem_append_right _ (List.mem_singleton_self _)))

/-! ### Accounting -/

/-- The call brings a frame of two bytes or more. -/
def receives : Call → ℕ
  | .playRemoteFrame _ frame => if 2 ≤ frame.payload.length then 1 else 0
  | .pumpRemotePlayback _ => 0

/-- The number of frames of two bytes or more that came in a run. -/
def received (t : List (RemotePlayback × Call)) : ℕ := (t.map fun x => receives x.2).sum

variable (env) in
theorem Running.accounts (hp : Running p) (c : Call) :
    (Jitter.call env p c).1.queued + (Jitter.call env p c).1.droppedFrames +
      (Jitter.call env p c).2.length = p.queued + p.droppedFrames + receives c := by
  cases c with
  | playRemoteFrame now frame =>
    rcases Nat.lt_or_ge frame.payload.length 2 with hshort | hlen
    · rw [Jitter.call, RemotePlayback.playRemoteFrame_of_short hshort, receives,
        if_neg (not_le.mpr hshort)]
      rfl
    · rw [receives, if_pos hlen]
      exact RemotePlayback.queued_playRemoteFrame hp.running hp.nativePlayback hlen
  | pumpRemotePlayback now =>
    obtain ⟨hqueued, hdropped⟩ := @RemotePlayback.queued_pumpRemotePlayback p now
    rw [Jitter.call, receives]
    dsimp only
    omega

theorem received_of_run (h : (machine env).Run t p) :
    received t = (taken env t).length + p.queued + p.droppedFrames := by
  induction h with
  | start h =>
    obtain rfl := h
    rfl
  | @snoc t p p' c hrun hs ih =>
    obtain ⟨-, rfl⟩ := hs
    have hone := (running_of_run hrun).accounts env c
    have hreceived : received (t ++ [(p, c)]) = received t + receives c := by
      rw [received, List.map_append, List.sum_append]
      rfl
    rw [hreceived, taken_concat, List.length_append]
    dsimp only
    omega

/-- **Accounting for every frame.** In every run between `start` and `stop` with the output device
open: no queue holds more than 12 frames; what is taken from one peer between two erasures of its
entry has increasing numbers; and the frames of two bytes or more that came are those taken for
mixing, those still queued, and those counted as dropped. -/
theorem accounting (h : (machine env).Run t p) :
    (∀ k state, p.remoteAudio.get k = some state → state.frames.length ≤ 12) ∧
    (∀ k before lives after, t = before ++ lives ++ after → (∀ x ∈ lives, ¬ Erases env k x) →
      (takenFrom k (taken env lives)).Pairwise fun f g => f.sequence < g.sequence) ∧
    received t = (taken env t).length + p.queued + p.droppedFrames := by
  refine ⟨(running_of_run h).bounded, fun k before lives after hsplit hlives => ?_,
    received_of_run h⟩
  rw [hsplit] at h
  obtain ⟨p', hbefore⟩ := h.of_append
  have hfollows := follows_of_run hbefore before lives rfl hlives
  cases hget : p'.remoteAudio.get k with
  | none =>
    rw [hget] at hfollows
    rw [hfollows]
    exact .nil
  | some state =>
    rw [hget] at hfollows
    exact (List.pairwise_append.mp hfollows.1).1

/-- A voice frame of a peer with the given number. -/
def voice (peerId : Bytes) (sequence : UInt32) : EncodedVoiceFrame :=
  { sourcePeerId := peerId, sequence, payload := twoSamples }

/-- Two frames arrive, and one of them again; then there is a mix. -/
def burst : List Call :=
  [.playRemoteFrame 1 (voice [1] 1), .playRemoteFrame 2 (voice [1] 2),
    .playRemoteFrame 3 (voice [1] 2), .pumpRemotePlayback 20000000]

theorem burst_run : (machine withoutOpus).Run
    (Machine.trace (fun p c => (call withoutOpus p c).1) (.start true) burst)
    (burst.foldl (fun p c => (call withoutOpus p c).1) (.start true)) := by
  refine Machine.run_trace ?_ fun _ _ => trivial
  rfl

theorem accounting_burst :
    received (Machine.trace (fun p c => (call withoutOpus p c).1) (.start true) burst) =
      1 + 1 + 1 := by
  rw [(accounting burst_run).2.2]
  decide +kernel

/-! ### A peer that has fallen silent -/

/-- Mixes at certain times, and the frames that arrive before each of them, with the times at which
they arrive. Both go on for ever. -/
structure Schedule where
  time : ℕ → ℕ
  arrivals : ℕ → List (ℕ × EncodedVoiceFrame)

/-- The frames that arrive before a mix. -/
def receiveAll (env : DecoderEnv) (p : RemotePlayback) (arrivals : List (ℕ × EncodedVoiceFrame)) :
    RemotePlayback :=
  arrivals.foldl (fun p a => p.playRemoteFrame env a.1 a.2) p

/-- The state after some mixes. -/
def after (env : DecoderEnv) (σ : Schedule) (p : RemotePlayback) : ℕ → RemotePlayback
  | 0 => p
  | n + 1 => ((receiveAll env (after env σ p n) (σ.arrivals n)).pumpRemotePlayback (σ.time n)).1

/-- The mixes are at least 20 ms apart, so that each is due, and no frame is from the peer. The
other peers may send whatever they like. -/
structure Schedule.Silent (σ : Schedule) (k : Bytes) (p : RemotePlayback) : Prop where
  due : p.Due (σ.time 0)
  apart : ∀ n, σ.time n + milliseconds kRemotePlaybackIntervalMs ≤ σ.time (n + 1)
  others : ∀ n, ∀ a ∈ σ.arrivals n, k ≠ sourceOf a.2

/-- A mix is more than two seconds after the last frame of the peer that was accepted. Frames that
were dropped as old do not count. -/
def Late (state : RemoteAudioState) (now : ℕ) : Prop := now - state.lastReceived > seconds 2

/-- The mix `N` is the first late one. -/
def Schedule.FirstLate (σ : Schedule) (state : RemoteAudioState) (N : ℕ) : Prop :=
  Late state (σ.time N) ∧ ∀ i < N, ¬ Late state (σ.time i)

/-- The queue of the peer is empty after at most 12 mixes, and the first late mix erases its
entry. -/
def Drained (env : DecoderEnv) (σ : Schedule) (p : RemotePlayback) (k : Bytes) : Prop :=
  ∀ state, p.remoteAudio.get k = some state →
    (∃ n ≤ kMaxRemoteFramesPerPeer, ∀ state',
      (after env σ p n).remoteAudio.get k = some state' → state'.frames = []) ∧
    ∀ N, σ.FirstLate state N → (after env σ p (N + 1)).remoteAudio.get k = none

/-- The queue has one frame and is not played before it has two. If no second one comes, it waits
for ever. -/
def Waits (state : RemoteAudioState) : Prop :=
  state.frames.length = 1 ∧ state.playbackPrimed = false

variable {σ : Schedule}

variable (env) in
theorem receiveAll_others {arrivals : List (ℕ × EncodedVoiceFrame)}
    (h : ∀ a ∈ arrivals, k ≠ sourceOf a.2) : ∀ p,
      (receiveAll env p arrivals).remoteAudio.get k = p.remoteAudio.get k ∧
        (receiveAll env p arrivals).nativePlayback = p.nativePlayback ∧
        (receiveAll env p arrivals).lastRemoteMix = p.lastRemoteMix := by
  induction arrivals with
  | nil => exact fun _ => ⟨rfl, rfl, rfl⟩
  | cons a arrivals ih =>
    intro p
    obtain ⟨-, hopen, hmix⟩ := @RemotePlayback.playRemoteFrame_same env p a.1 a.2
    have hget := @RemotePlayback.get_playRemoteFrame_of_ne env p a.1 a.2 k
      (h a List.mem_cons_self)
    obtain ⟨hget', hopen', hmix'⟩ := ih (fun b hb => h b (List.mem_cons_of_mem a hb))
      (p.playRemoteFrame env a.1 a.2)
    exact ⟨hget'.trans hget, hopen'.trans hopen, hmix'.trans hmix⟩

variable (env) in
/-- Every mix of the schedule is due. -/
theorem due_after (hσ : σ.Silent k p) (hopen : p.nativePlayback = true) (n : ℕ) :
    (after env σ p n).nativePlayback = true ∧ (after env σ p n).Due (σ.time n) := by
  induction n with
  | zero => exact ⟨hopen, hσ.due⟩
  | succ n ih =>
    obtain ⟨hopen, hdue⟩ := ih
    obtain ⟨-, hopen', hmix'⟩ := receiveAll_others env (hσ.others n) (after env σ p n)
    have hlast := @RemotePlayback.lastRemoteMix_pumpRemotePlayback
      (receiveAll env (after env σ p n) (σ.arrivals n)) (σ.time n)
    have hapart := hσ.apart n
    rw [hmix'] at hlast
    refine ⟨RemotePlayback.pumpRemotePlayback_same.2.trans (hopen'.trans hopen), ?_⟩
    rw [RemotePlayback.Due] at hdue ⊢
    rw [after]
    omega

/-- **One mix** is one turn of the peer, as long as nothing of it arrives and the mixes are not too
close together. -/
theorem get_after_succ (hσ : σ.Silent k p) (hopen : p.nativePlayback = true) (n : ℕ) :
    (after env σ p (n + 1)).remoteAudio.get k =
      ((after env σ p n).remoteAudio.get k).bind fun state => (state.mixTurn (σ.time n)).1 := by
  obtain ⟨hopen, hdue⟩ := due_after env hσ hopen n
  obtain ⟨hget, hopen', hmix'⟩ :=
    receiveAll_others env (hσ.others n) (after env σ p n)
  have hdue' : (receiveAll env (after env σ p n) (σ.arrivals n)).Due (σ.time n) := by
    rw [RemotePlayback.Due, hmix']
    exact hdue
  rw [after, (RemotePlayback.get_pumpRemotePlayback (hopen'.trans hopen) k).1, if_pos hdue', hget]

/-- The entry of the peer in the course of the schedule. -/
def turns (σ : Schedule) (state : RemoteAudioState) : ℕ → Option RemoteAudioState
  | 0 => some state
  | n + 1 => (turns σ state n).bind fun state => (state.mixTurn (σ.time n)).1

variable (env) in
theorem get_after (hσ : σ.Silent k p) (hopen : p.nativePlayback = true)
    {state : RemoteAudioState} (hget : p.remoteAudio.get k = some state) (n : ℕ) :
    (after env σ p n).remoteAudio.get k = turns σ state n := by
  induction n with
  | zero => exact hget
  | succ n ih => rw [get_after_succ hσ hopen, ih, turns]

variable {state : RemoteAudioState}

/-- **A frame that waits stays**, however many mixes there are: nothing but another frame ends the
wait. -/
theorem turns_waits (h : Waits state) (n : ℕ) : turns σ state n = some state := by
  obtain ⟨hlength, hprimed⟩ := h
  obtain ⟨frame, hframe⟩ := List.length_eq_one_iff.mp hlength
  induction n with
  | zero => rfl
  | succ n ih =>
    have hheld : state.playbackPrimed = false ∧ [frame].length < kRemoteJitterTargetFrames :=
      ⟨hprimed, Nat.one_lt_two⟩
    rw [turns, ih, Option.bind_some, RemoteAudioState.mixTurn, hframe]
    dsimp only
    rw [if_pos hheld]

/-- A turn of a queue that is played. -/
theorem mixTurn_plays {frame : QueuedFrame} {frames : List QueuedFrame} {now : ℕ}
    (hcons : state.frames = frame :: frames) (h : ¬ Waits state) :
    (state.mixTurn now).1 = some { state with playbackPrimed := true, frames } := by
  have hplays : ¬ (state.playbackPrimed = false ∧
      (frame :: frames).length < kRemoteJitterTargetFrames) := by
    rintro ⟨hprimed, hlt⟩
    refine h ⟨?_, hprimed⟩
    rw [hcons]
    exact Nat.le_antisymm (Nat.le_of_lt_succ hlt) (Nat.succ_pos _)
  rw [RemoteAudioState.mixTurn, hcons]
  dsimp only
  rw [if_neg hplays]

variable (σ) in
/-- **A queue that is played** loses a frame with each mix, and goes on being played until it is
empty. -/
theorem turns_plays (h : ¬ Waits state) {n : ℕ} (hn : n ≤ state.frames.length) :
    ∃ state', turns σ state n = some state' ∧ state'.frames = state.frames.drop n ∧
      state'.lastReceived = state.lastReceived ∧ ¬ Waits state' := by
  induction n with
  | zero => exact ⟨state, rfl, rfl, rfl, h⟩
  | succ n ih =>
    obtain ⟨state', hturns, hframes, hlast, hplays⟩ := ih (Nat.le_of_succ_le hn)
    rw [List.drop_eq_getElem_cons hn] at hframes
    refine ⟨{ state' with playbackPrimed := true, frames := state.frames.drop (n + 1) }, ?_, rfl,
      hlast, fun hwaits => Bool.noConfusion hwaits.2⟩
    rw [turns, hturns, Option.bind_some, mixTurn_plays hframes hplays]

variable (σ) in
/-- An empty queue stays until a mix is late. -/
theorem turns_empty (h : ¬ Waits state) {n : ℕ} (hn : state.frames.length ≤ n)
    (hrecent : ∀ i < n, ¬ Late state (σ.time i)) :
    ∃ state', turns σ state n = some state' ∧ state'.frames = [] ∧
      state'.lastReceived = state.lastReceived := by
  induction n, hn using Nat.le_induction with
  | base =>
    obtain ⟨state', hturns, hframes, hlast, -⟩ := turns_plays σ h le_rfl
    exact ⟨state', hturns, by rw [hframes, List.drop_length], hlast⟩
  | succ n hn ih =>
    obtain ⟨state', hturns, hframes, hlast⟩ := ih fun i hi => hrecent i (Nat.lt_succ_of_lt hi)
    have hkept : ¬ σ.time n - state'.lastReceived > seconds 2 := by
      rw [hlast]
      exact hrecent n (Nat.lt_succ_self n)
    refine ⟨{ state' with playbackPrimed := false }, ?_, hframes, hlast⟩
    rw [turns, hturns, Option.bind_some, RemoteAudioState.mixTurn, hframes]
    dsimp only
    rw [if_neg hkept]

/-- **When a silent peer's queue drains.** In every state that a run reaches, for every peer and
every schedule of mixes at least 20 ms apart without frames from that peer: its queue is empty after
at most 12 mixes, and the first mix more than two seconds after its last frame erases its entry,
exactly if the queue is not one frame that waits for a second, and all its frames have been played
by that mix. -/
theorem drained_iff (h : (machine env).Run t p) (hσ : σ.Silent k p) :
    Drained env σ p k ↔ ∀ state, p.remoteAudio.get k = some state →
      ¬ Waits state ∧ ∀ N, σ.FirstLate state N → state.frames.length ≤ N := by
  have hp := running_of_run h
  refine forall_congr' fun state => forall_congr' fun hget => ?_
  have hafter := fun n => get_after env hσ hp.nativePlayback hget n
  simp only [hafter]
  constructor
  · rintro ⟨⟨n, -, hempty⟩, herased⟩
    have hplays : ¬ Waits state := by
      intro hwaits
      have hnil := hempty state (turns_waits hwaits n)
      rw [Waits, hnil] at hwaits
      exact absurd hwaits.1 (by decide)
    refine ⟨hplays, fun N hN => not_lt.mp fun hlt => ?_⟩
    obtain ⟨state', hturns, -⟩ := turns_plays σ hplays hlt
    rw [herased N hN] at hturns
    exact absurd hturns (Option.some_ne_none _).symm
  · rintro ⟨hplays, hlate⟩
    refine ⟨⟨state.frames.length, hp.bounded k state hget, fun state' hturns => ?_⟩,
      fun N hN => ?_⟩
    · obtain ⟨state'', hturns', hframes, -⟩ := turns_plays σ hplays le_rfl
      rw [hturns] at hturns'
      rw [Option.some.inj hturns', hframes, List.drop_length]
    · obtain ⟨state', hturns, hframes, hlast⟩ :=
        turns_empty σ hplays (hlate N hN) hN.2
      have herased : σ.time N - state'.lastReceived > seconds 2 := by
        rw [hlast]
        exact hN.1
      rw [turns, hturns, Option.bind_some, RemoteAudioState.mixTurn, hframes]
      dsimp only
      rw [if_pos herased]

/-- A mix every 20 ms, and no frames. -/
def everyInterval : Schedule where
  time n := (n + 2) * milliseconds kRemotePlaybackIntervalMs
  arrivals _ := []

theorem everyInterval_apart (n : ℕ) : everyInterval.time n +
    milliseconds kRemotePlaybackIntervalMs ≤ everyInterval.time (n + 1) :=
  (Nat.succ_mul (n + 2) _).ge

theorem drained_iff_burst : Drained withoutOpus everyInterval
    (burst.foldl (fun p c => (call withoutOpus p c).1) (.start true)) [1] := by
  have hσ : everyInterval.Silent [1]
      (burst.foldl (fun p c => (call withoutOpus p c).1) (.start true)) :=
    ⟨by decide +kernel, everyInterval_apart, fun _ _ ha => absurd ha List.not_mem_nil⟩
  refine (drained_iff burst_run hσ).mpr fun state hget => ?_
  have hstate : state.frames.length = 1 ∧ state.playbackPrimed = true ∧
      state.lastReceived = 2 := by
    have hall : ∀ state ∈ (burst.foldl (fun p c => (call withoutOpus p c).1)
        (.start true)).remoteAudio.get [1], state.frames.length = 1 ∧
          state.playbackPrimed = true ∧ state.lastReceived = 2 := by decide +kernel
    exact hall state hget
  obtain ⟨hlength, hprimed, hlast⟩ := hstate
  refine ⟨fun hwaits => ?_, fun N hN => ?_⟩
  · rw [hwaits.2] at hprimed
    exact Bool.noConfusion hprimed
  · have hlate := hN.1
    rw [Late, hlast] at hlate
    rw [hlength]
    by_contra hzero
    obtain rfl : N = 0 := by omega
    exact absurd hlate (by decide)

/-- One frame has arrived. -/
def lone : List Call := [.playRemoteFrame 1 (voice [1] 1)]

/-- **A lone frame stays.** It is neither played nor erased, and the peer's next frames will be
played after it. -/
theorem lone_frame_stays : ∃ t p σ, (machine withoutOpus).Run t p ∧ σ.Silent [1] p ∧
    ¬ Drained withoutOpus σ p [1] ∧ ∃ state, state.frames.length = 1 ∧
      ∀ n, (after withoutOpus σ p n).remoteAudio.get [1] = some state := by
  have hrun : (machine withoutOpus).Run
      (Machine.trace (fun p c => (call withoutOpus p c).1) (.start true) lone)
      (lone.foldl (fun p c => (call withoutOpus p c).1) (.start true)) := by
    refine Machine.run_trace ?_ fun _ _ => trivial
    rfl
  have hσ : everyInterval.Silent [1]
      (lone.foldl (fun p c => (call withoutOpus p c).1) (.start true)) :=
    ⟨by decide +kernel, everyInterval_apart, fun _ _ ha => absurd ha List.not_mem_nil⟩
  have hsome : ((lone.foldl (fun p c => (call withoutOpus p c).1)
      (.start true)).remoteAudio.get [1]).isSome = true := by decide +kernel
  obtain ⟨state, hget⟩ := Option.isSome_iff_exists.mp hsome
  have hall : ∀ state ∈ (lone.foldl (fun p c => (call withoutOpus p c).1)
      (.start true)).remoteAudio.get [1],
        state.frames.length = 1 ∧ state.playbackPrimed = false := by decide +kernel
  have hwaits : Waits state := hall state hget
  have hstays : ∀ n, (after withoutOpus everyInterval _ n).remoteAudio.get [1] = some state :=
    fun n => (get_after _ hσ rfl hget n).trans (turns_waits hwaits n)
  refine ⟨_, _, everyInterval, hrun, hσ, fun hdrained => ?_, state, hwaits.1, hstays⟩
  obtain ⟨n, -, hempty⟩ := (hdrained state hget).1
  have hnil := hempty state (hstays n)
  rw [Waits, hnil] at hwaits
  exact absurd hwaits.1 (by decide)

end Jitter

end Audio

end TarkovVoice

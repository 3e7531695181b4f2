import TarkovVoice.Machine
import TarkovVoice.Net.VoiceDelivery

/-!
# What a receiver passes on

Runs of a direct transport between `start` and `stop`. Datagrams may arrive in any order, be lost or
repeated, and come from anyone; in between the transport may be called in any way. Of the voice
packets that a peer's route has read, it passes on those whose number exceeds the numbers of all
read before, whether these were passed on or not. Whatever else arrives does not matter.

## Main definitions

* `Drained.machine` — a transport that has been started
* `Drained.drained`, `Drained.handed` — the datagrams read and the frames passed on in a run

## Main results

* `Drained.takes_of_run`
* `Drained.handed_eq`
-/

namespace TarkovVoice

namespace Net

namespace Drained

open Audio (EncodedVoiceFrame)
open DirectVoiceTransport (Keeps Takes framesOf frameKey readable voiceOf)

/-- The calls of a transport that has been started. A pump finds datagrams in its socket, and calls
that read the clock have its reading as an argument. -/
inductive Call
  | ensurePeer (now : ℕ) (peerId : Bytes) (initiateOffer : Bool)
  | removePeer (peerId : Bytes)
  | handleSignal (now : ℕ) (sourcePeerId : Bytes) (signalType : SignalType) (payloadJson : Bytes)
  | sendVoiceFrame (frame : EncodedVoiceFrame)
  | pump (now : ℕ) (arrivals : List Arrival)

/-- What a call does, and what it puts out. -/
def call (isNumericHost : Bytes → Bool) (d : DirectVoiceTransport) :
    Call → DirectVoiceTransport × List Output
  | .ensurePeer now peerId initiateOffer => d.ensurePeer now peerId initiateOffer
  | .removePeer peerId => (d.removePeer peerId, [])
  | .handleSignal now sourcePeerId signalType payloadJson =>
    d.handleSignal isNumericHost now sourcePeerId signalType payloadJson
  | .sendVoiceFrame frame => (d, d.sendVoiceFrame frame)
  | .pump now arrivals => ((d.pump now arrivals).1, (d.pump now arrivals).2.1)

/-- The runs of a transport with a frame callback, from a successful `start` on: any calls in any
order, with any datagrams from anybody. -/
def machine (isNumericHost : Bytes → Bool) : Machine DirectVoiceTransport Call :=
  .ofNext
    (fun d => ∃ d₀ roomId localPeerId discovered,
      d = DirectVoiceTransport.start d₀ roomId localPeerId discovered ∧ d.running = true ∧
        d.frameCallback = true)
    (fun _ _ => True) (fun d c => (call isNumericHost d c).1)

/-- The datagrams that a call reads. -/
def reads : Call → List Arrival
  | .pump _ arrivals => readable arrivals
  | _ => []

/-- The datagrams drained in a run. -/
def drained (t : List (DirectVoiceTransport × Call)) : List Arrival := t.flatMap fun x => reads x.2

/-- The frames handed to the frame callback in a run, for a peer. -/
def handed (isNumericHost : Bytes → Bool) (k : Bytes) (t : List (DirectVoiceTransport × Call)) :
    List EncodedVoiceFrame :=
  t.flatMap fun x => framesOf k (call isNumericHost x.1 x.2).2

variable {isNumericHost : Bytes → Bool} {k : Bytes} {d : DirectVoiceTransport}
  {t : List (DirectVoiceTransport × Call)}

theorem drained_concat (x : DirectVoiceTransport × Call) :
    drained (t ++ [x]) = drained t ++ reads x.2 := by
  rw [drained, List.flatMap_append, List.flatMap_singleton]
  rfl

theorem handed_concat (x : DirectVoiceTransport × Call) :
    handed isNumericHost k (t ++ [x]) =
      handed isNumericHost k t ++ framesOf k (call isNumericHost x.1 x.2).2 := by
  rw [handed, List.flatMap_append, List.flatMap_singleton]
  rfl

/-- A call changes the routes only. -/
theorem sameSetup_call (c : Call) :
    DirectVoiceTransport.SameSetup d (call isNumericHost d c).1 := by
  cases c with
  | ensurePeer now peerId initiateOffer =>
    exact (DirectVoiceTransport.ensurePeer_keeps now peerId initiateOffer []).setup
  | removePeer peerId => exact ⟨_, rfl⟩
  | handleSignal now sourcePeerId signalType payloadJson =>
    exact (DirectVoiceTransport.handleSignal_keeps isNumericHost now sourcePeerId signalType
      payloadJson []).setup
  | sendVoiceFrame frame => exact .refl d
  | pump now arrivals => exact DirectVoiceTransport.sameSetup_pump now arrivals

theorem sameSetup_calls (cs : List Call) :
    ∀ d : DirectVoiceTransport,
      DirectVoiceTransport.SameSetup d (cs.foldl (fun d c => (call isNumericHost d c).1) d) := by
  induction cs with
  | nil => exact .refl
  | cons c cs ih => exact fun d => (sameSetup_call c).trans (ih _)

/-- **One call.** What it reads counts, unless it removes the route of the peer. -/
theorem call_takes (hk : k ≠ []) (hlocal : k ≠ d.localPeerId) (hframe : d.frameCallback = true)
    (hrun : d.running = true) {c : Call} (hremove : c ≠ .removePeer k) :
    Takes d (call isNumericHost d c).1 k ((reads c).filterMap (voiceOf d.roomId k))
      (call isNumericHost d c).2 := by
  cases c with
  | ensurePeer now peerId initiateOffer =>
    exact (DirectVoiceTransport.ensurePeer_keeps now peerId initiateOffer k).takes
      (DirectVoiceTransport.filterMap_ensurePeer (fun _ _ _ => rfl) now peerId initiateOffer)
  | removePeer peerId =>
    have hne : k ≠ peerId := fun h => hremove (by rw [h])
    exact (DirectVoiceTransport.removePeer_keeps hne).takes rfl
  | handleSignal now sourcePeerId signalType payloadJson =>
    exact (DirectVoiceTransport.handleSignal_keeps isNumericHost now sourcePeerId signalType
      payloadJson k).takes (DirectVoiceTransport.filterMap_handleSignal (fun _ _ => rfl)
        (fun _ _ _ => rfl) isNumericHost now sourcePeerId signalType payloadJson)
  | sendVoiceFrame frame =>
    exact (Keeps.refl k).takes
      (DirectVoiceTransport.filterMap_sendVoiceFrame (fun _ _ => rfl) frame)
  | pump now arrivals =>
    exact (DirectVoiceTransport.pump_takes hk hlocal hframe hrun now arrivals).1

/-- **Receiving over a run** is the filter `newest` on what was drained, in the order it was
drained. -/
theorem takes_of_run (hk : k ≠ []) (h : (machine isNumericHost).Run t d)
    (hlocal : k ≠ d.localPeerId) (hremoved : ∀ x ∈ t, x.2 ≠ .removePeer k) :
    d.running = true ∧ d.frameCallback = true ∧
      handed isNumericHost k t =
        newest frameKey ⊥ ((drained t).filterMap (voiceOf d.roomId k)) ∧
      d.lastVoice k = lastKey frameKey ⊥ ((drained t).filterMap (voiceOf d.roomId k)) := by
  induction h with
  | start hinit =>
    obtain ⟨d₀, roomId, localPeerId, discovered, rfl, hrun, hframe⟩ := hinit
    have hpeers : (DirectVoiceTransport.start d₀ roomId localPeerId discovered).peers = ∅ := by
      unfold DirectVoiceTransport.start
      dsimp only
      split
      · rfl
      · split <;> rfl
    refine ⟨hrun, hframe, rfl, ?_⟩
    rw [DirectVoiceTransport.lastVoice, hpeers]
    rfl
  | @snoc t d d' c hrun hs ih =>
    obtain ⟨-, rfl⟩ := hs
    have hremove : c ≠ .removePeer k :=
      hremoved (d, c) (List.mem_append_right _ (List.mem_singleton_self _))
    have hsetup := @sameSetup_call isNumericHost d c
    rw [hsetup.localPeerId] at hlocal
    obtain ⟨hrunning, hframe, hhanded, hlast⟩ :=
      ih hlocal fun x hx => hremoved x (List.mem_append_left _ hx)
    obtain ⟨-, hdelivers, hvoice⟩ :=
      @call_takes isNumericHost k d hk hlocal hframe hrunning c hremove
    rw [hsetup.running, hsetup.frameCallback, hsetup.roomId, handed_concat, drained_concat,
      List.filterMap_append, newest_append, lastKey_append, ← hlast, ← hhanded]
    exact ⟨hrunning, hframe, congrArg _ hdelivers, hvoice⟩

/-- **What a receiver passes on.** In every run of a started transport, for every peer whose route
is not removed: of the voice packets drained from it, exactly those whose number exceeds the number
of every earlier one are handed to the frame callback, as they are and in the order they arrived.
Their numbers increase, so none is handed over twice or out of order, and what other peers send
makes no difference. A peer has an id, and it is not our own. -/
theorem handed_eq (h : (machine isNumericHost).Run t d) (hk : k ≠ [])
    (hlocal : k ≠ d.localPeerId) (hremoved : ∀ x ∈ t, x.2 ≠ .removePeer k) :
    let voice := (drained t).filterMap (voiceOf d.roomId k)
    (handed isNumericHost k t = (voice.zipIdx.filter fun x : EncodedVoiceFrame × ℕ =>
      decide (∀ y ∈ voice.take x.2, y.sequence.toNat < x.1.sequence.toNat)).map Prod.fst) ∧
    (handed isNumericHost k t).Pairwise (fun f g => f.sequence < g.sequence) ∧
    ∀ t' d', (machine isNumericHost).Run t' d' → k ≠ d'.localPeerId →
      (∀ x ∈ t', x.2 ≠ .removePeer k) → (drained t').filterMap (voiceOf d'.roomId k) = voice →
      handed isNumericHost k t' = handed isNumericHost k t := by
  obtain ⟨-, -, hhanded, -⟩ := takes_of_run hk h hlocal hremoved
  refine ⟨?_, ?_, fun t' d' h' hlocal' hremoved' hvoice => ?_⟩
  · rw [hhanded, newest_eq_filter]
    refine congrArg _ (List.filter_congr fun x _ => decide_eq_decide.mpr ?_)
    exact and_iff_right (WithBot.bot_lt_coe _)
  · rw [hhanded]
    exact newest_pairwise frameKey _
  · obtain ⟨-, -, hhanded', -⟩ := takes_of_run hk h' hlocal' hremoved'
    rw [hhanded', hvoice, hhanded]

/-- A transport in the room `[7]`, just started. -/
def listening : DirectVoiceTransport := .start { frameCallback := true } [7] [2] (some [])

/-- A voice frame with the given number. -/
def numbered (sequence : UInt32) : EncodedVoiceFrame := { sequence, payload := [0] }

/-- A datagram that carries a frame from a peer. -/
def arrival (peerId : Bytes) (sequence : UInt32) : Arrival where
  source := none
  data := DirectVoiceTransport.voicePacket [7] peerId (numbered sequence)

/-- Frames of two peers arrive out of order, one of them twice. -/
def muddle : List Call :=
  [.pump 1 [arrival [1] 5, arrival [3] 9, arrival [1] 4, arrival [1] 5],
    .pump 2 [arrival [3] 8, arrival [1] 6]]

theorem handed_eq_muddle :
    handed (fun _ => true) [1]
        (Machine.trace (fun d c => (call (fun _ => true) d c).1) listening muddle) =
      [{ numbered 5 with sourcePeerId := [1] }, { numbered 6 with sourcePeerId := [1] }] := by
  have hrun : (machine fun _ => true).Run
      (Machine.trace (fun d c => (call (fun _ => true) d c).1) listening muddle)
      (muddle.foldl (fun d c => (call (fun _ => true) d c).1) listening) :=
    Machine.run_trace ⟨_, _, _, _, rfl, rfl, rfl⟩ fun _ _ => trivial
  have hsetup := @sameSetup_calls (fun _ => true) muddle listening
  have hlocal : [1] ≠ (muddle.foldl (fun d c => (call (fun _ => true) d c).1)
      listening).localPeerId := by
    rw [hsetup.localPeerId]
    decide
  have hremoved : ∀ x ∈ Machine.trace (fun d c => (call (fun _ => true) d c).1) listening muddle,
      x.2 ≠ .removePeer [1] := by
    simp [muddle, Machine.trace]
  rw [(handed_eq hrun (List.cons_ne_nil 1 []) hlocal hremoved).1, hsetup.roomId]
  decide +kernel

end Drained

end Net

end TarkovVoice

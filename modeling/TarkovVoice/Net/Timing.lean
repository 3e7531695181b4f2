import TarkovVoice.Net.Tracked
import TarkovVoice.Retry

/-!
# When the direct transport sends by itself

Two things the direct transport does without being asked, each time it is pumped. As long as nothing
has been heard of a peer it repeats the candidates, but only some time after the peer was announced,
not too often and not for ever: for one peer this is a timer of `Retry`. And it pings every peer for
which that has not been done for a while, so that the way to the peer stays open.

## Main definitions

* `Timing.policy` — when the candidates are repeated
* `Timing.occasions` — what a call is to the timer of a peer
* `Timing.resent` — when a call repeats the candidates
* `Timing.PingedAt` — a ping that was sent to a peer

## Main results

* `Timing.resent_of_run`
* `Timing.pinged_of_run`
-/

namespace TarkovVoice

namespace Net

namespace Timing

open DirectVoiceTransport (Admits HasRoute SameSetup drainSocket drainSocket_rule pumpRoutes
  readable sameSetup_drainSocket sameSetup_receive)
open Drained (Call call machine)
open Retry (Occasion)
open Tracked (Ticks)

variable {isNumericHost : Bytes → Bool} {d : DirectVoiceTransport} {k : Bytes}

/-- The time of a call. What is not told the time does not need it, and has 0. -/
def clock : Call → ℕ
  | .ensurePeer now _ _ => now
  | .handleSignal now _ _ _ => now
  | .pump now _ => now
  | _ => 0

/-! ### Repeating the candidates -/

/-- Candidates are repeated two seconds after the announcement at the earliest, three seconds after
the last time, and eight times. -/
def policy : Retry.Policy where
  delay := 2000
  gap := 3000
  limit := 8

/-- What a route says about repeating the candidates. -/
def retry (r : PeerRoute) : Retry where
  start := r.createdAt
  last := r.lastCandidateSignalSent
  count := r.candidateSignalsSent
  answered := decide (r.lastHeard ≠ 0)

/-- The timer of a peer, which exists as long as its route does. A route that is made anew begins
with a new timer. -/
def retryOf (d : DirectVoiceTransport) (k : Bytes) : Option Retry := (d.peers.get k).map retry

/-- What a call is to the timer of a peer. -/
def occasions (d : DirectVoiceTransport) (k : Bytes) : Call → List Occasion
  | .ensurePeer now peerId _ => if peerId = k ∧ d.Admits k then [.set now] else []
  | .removePeer peerId => if peerId = k then [.discard] else []
  | .handleSignal now sourcePeerId _ _ =>
    if sourcePeerId = k ∧ d.Admits k then [.notice now] else []
  | .sendVoiceFrame _ => []
  | .pump now arrivals =>
    (((readable arrivals).filter fun a => d.sourceOf a = some k).map fun _ => .answer now) ++
      if d.signalCallback then [.poll now] else []

/-- When candidates are repeated among signals that are sent now. -/
def repetitions (now : ℕ) (signals : List Signal) : List ℕ :=
  (signals.filter fun s => s.1 = .iceCandidate).map fun _ => now

/-- When a call repeats the candidates for a peer. -/
def resent (isNumericHost : Bytes → Bool) (k : Bytes) (x : DirectVoiceTransport × Call) : List ℕ :=
  repetitions (clock x.2) (signalsTo k (call isNumericHost x.1 x.2).2)

theorem repetitions_eq_nil {signals : List Signal} (h : ∀ s ∈ signals, s.1 ≠ .iceCandidate)
    (now : ℕ) : repetitions now signals = [] := by
  have hnone : signals.filter (fun s => s.1 = .iceCandidate) = [] :=
    List.filter_eq_nil_iff.mpr fun s hs hc => h s hs (of_decide_eq_true hc)
  rw [repetitions, hnone]
  rfl

/-- What happens to the timer of a peer, and when it fires: the times at which the candidates are
repeated to the peer. -/
structure Runs (d d' : DirectVoiceTransport) (k : Bytes) (l : List Occasion) (times : List ℕ) :
    Prop where
  retry : retryOf d' k = l.foldl policy.after (retryOf d k)
  times : times = policy.fires (retryOf d k) l

theorem Runs.nil {d' : DirectVoiceTransport} (h : retryOf d' k = retryOf d k) :
    Runs d d' k [] [] := ⟨h, rfl⟩

theorem Runs.append {d' d'' : DirectVoiceTransport} {l l' : List Occasion} {times times' : List ℕ}
    (h : Runs d d' k l times) (h' : Runs d' d'' k l' times') :
    Runs d d'' k (l ++ l') (times ++ times') where
  retry := by rw [List.foldl_append, ← h.retry, h'.retry]
  times := by rw [Retry.Policy.fires_append, ← h.retry, ← h.times, ← h'.times]

theorem retry_route (now : ℕ) : retry (d.route now k) = (retryOf d k).getD { start := now } := by
  rw [DirectVoiceTransport.route, retryOf]
  cases d.peers.get k <;> rfl

theorem retryOf_setRoute (peerId : Bytes) (r : PeerRoute) :
    retryOf (d.setRoute peerId r) k = if k = peerId then some (retry r) else retryOf d k :=
  DirectVoiceTransport.view_setRoute (Option.map retry) peerId k r

theorem runs_ensurePeer (now : ℕ) (peerId : Bytes) (initiateOffer : Bool) :
    Runs d (d.ensurePeer now peerId initiateOffer).1 k
      (occasions d k (.ensurePeer now peerId initiateOffer)) [] := by
  rw [occasions]
  rcases DirectVoiceTransport.ensurePeer_cases (d := d) now peerId initiateOffer
    with ⟨hno, h⟩ | ⟨hadmits, _, h⟩
  · have hnot : ¬ (peerId = k ∧ d.Admits k) := by
      rintro ⟨rfl, hk⟩
      exact hno hk
    rw [h, if_neg hnot]
    exact .nil rfl
  · rw [h]
    by_cases hk : k = peerId
    · subst hk
      rw [if_pos ⟨rfl, hadmits⟩]
      refine ⟨?_, rfl⟩
      rw [retryOf_setRoute, if_pos rfl, List.foldl_cons, List.foldl_nil, Retry.Policy.after,
        ← retry_route]
      rfl
    · rw [if_neg fun h => hk h.1.symm]
      exact .nil ((retryOf_setRoute _ _).trans (if_neg hk))

theorem runs_removePeer (peerId : Bytes) :
    Runs d (d.removePeer peerId) k (occasions d k (.removePeer peerId)) [] := by
  rw [occasions]
  by_cases hk : peerId = k
  · subst hk
    rw [if_pos rfl]
    refine ⟨?_, rfl⟩
    rw [retryOf, DirectVoiceTransport.removePeer, FMap.get_delete_self]
    rfl
  · rw [if_neg hk]
    refine .nil ?_
    rw [retryOf, DirectVoiceTransport.removePeer, FMap.get_delete_of_ne _ (Ne.symm hk)]
    rfl

theorem runs_handleSignal (now : ℕ) (sourcePeerId : Bytes) (signalType : SignalType)
    (payloadJson : Bytes) :
    Runs d (d.handleSignal isNumericHost now sourcePeerId signalType payloadJson).1 k
      (occasions d k (.handleSignal now sourcePeerId signalType payloadJson)) [] := by
  rw [occasions]
  rcases DirectVoiceTransport.handleSignal_cases (d := d) isNumericHost now sourcePeerId signalType
    payloadJson with ⟨hno, h⟩ | ⟨hadmits, r, _, h, _, rfl⟩
  · have hnot : ¬ (sourcePeerId = k ∧ d.Admits k) := by
      rintro ⟨rfl, hk⟩
      exact hno hk
    rw [h, if_neg hnot]
    exact .nil rfl
  · rw [h]
    by_cases hk : k = sourcePeerId
    · subst hk
      have hnoticed : (if k = k ∧ d.Admits k then [Occasion.notice now] else []) = [.notice now] :=
        if_pos ⟨rfl, hadmits⟩
      rw [hnoticed]
      refine ⟨?_, rfl⟩
      rw [retryOf_setRoute, if_pos rfl, List.foldl_cons, List.foldl_nil, Retry.Policy.after,
        ← retry_route]
      refine congrArg some ?_
      simp only [retry]
      by_cases hset : (d.route now k).createdAt = 0
      · rw [if_pos hset]
        exact (if_pos hset).symm
      · rw [if_neg hset]
        exact (if_neg hset).symm
    · have hother : (if sourcePeerId = k ∧ d.Admits k then [Occasion.notice now] else []) = [] :=
        if_neg fun h => hk h.1.symm
      rw [hother]
      exact .nil ((retryOf_setRoute _ _).trans (if_neg hk))

/-- A datagram of a peer is an answer. -/
theorem runs_receive {now : ℕ} (hnow : now ≠ 0) (a : Arrival) :
    Runs d (d.receive now a).1 k (if d.sourceOf a = some k then [.answer now] else []) [] := by
  rcases DirectVoiceTransport.receive_cases (d := d) now a with ⟨hsource, h⟩ | ⟨p, _, _, hsource, h⟩
  · rw [hsource, h, if_neg (Option.some_ne_none k).symm]
    exact .nil rfl
  · rw [hsource, h]
    by_cases hk : k = p
    · subst hk
      rw [if_pos rfl]
      refine ⟨?_, rfl⟩
      rw [retryOf_setRoute, if_pos rfl, List.foldl_cons, List.foldl_nil, Retry.Policy.after,
        ← retry_route now]
      exact congrArg some (Retry.ext rfl rfl rfl (decide_eq_true hnow))
    · rw [if_neg fun h => hk (Option.some.inj h).symm]
      exact .nil ((retryOf_setRoute _ _).trans (if_neg hk))

theorem runs_drainSocket {now : ℕ} (hnow : now ≠ 0) (arrivals : List Arrival) :
    ∀ d : DirectVoiceTransport, Runs d (drainSocket now d arrivals).1 k
      (((readable arrivals).filter fun a => d.sourceOf a = some k).map
        fun _ => .answer now) [] := by
  refine drainSocket_rule now (P := fun d l d' _ => Runs d d' k
    ((l.filter fun a => d.sourceOf a = some k).map fun _ => .answer now) []) (fun _ => .nil rfl) ?_
    arrivals
  intro d a l d' out hrest
  have hcons : ((a :: l).filter fun a => d.sourceOf a = some k).map
      (fun _ => Occasion.answer now) =
      (if d.sourceOf a = some k then [.answer now] else []) ++
        (l.filter fun a => d.sourceOf a = some k).map fun _ => .answer now := by
    rw [List.filter_cons]
    by_cases h : d.sourceOf a = some k
    · rw [if_pos h, if_pos (decide_eq_true h)]
      rfl
    · rw [if_neg h, if_neg (by rw [decide_eq_false h]; exact Bool.false_ne_true)]
      rfl
  simp only [(sameSetup_receive now a).sourceOf_eq] at hrest
  rw [hcons]
  exact (runs_receive hnow a).append hrest

theorem due_iff (now : ℕ) (r : PeerRoute) : policy.Due now (retry r) ↔ r.lastHeard = 0 ∧
    r.candidateSignalsSent < 8 ∧ now - r.createdAt > 2000 ∧
      (r.lastCandidateSignalSent = 0 ∨ now - r.lastCandidateSignalSent > 3000) :=
  and_congr_left fun _ => decide_eq_false_iff_not.trans not_not

/-- What a turn of the loop has done once it may have pinged. -/
def pinged (d : DirectVoiceTransport) (now : ℕ) (r : PeerRoute) : PeerRoute × List Output :=
  if now - r.lastPingSent > 750 then d.sendPing now r else (r, [])

theorem pinged_cases (now : ℕ) (r : PeerRoute) :
    (now - r.lastPingSent > 750 ∧
      pinged d now r =
        ({ r with lastPingSent := now }, DirectVoiceTransport.sendPacket r d.pingPacket)) ∨
    (now - r.lastPingSent ≤ 750 ∧ pinged d now r = (r, [])) := by
  rw [pinged]
  by_cases h : now - r.lastPingSent > 750
  · rw [if_pos h]
    exact .inl ⟨h, rfl⟩
  · rw [if_neg h]
    exact .inr ⟨not_lt.mp h, rfl⟩

/-- After the ping, the candidates are repeated if the timer is due. -/
theorem pumpRoute_pinged (now : ℕ) (r : PeerRoute) : d.pumpRoute now k r =
    if d.signalCallback = true ∧ policy.Due now (retry r) then
      ({ (pinged d now r).1 with
          lastCandidateSignalSent := now
          candidateSignalsSent := (pinged d now r).1.candidateSignalsSent + 1 },
        (pinged d now r).2 ++ [.signal k .iceCandidate d.makeLocalPayloadJson])
    else pinged d now r := by
  simp only [due_iff]
  rcases @pinged_cases d now r with ⟨hlate, h⟩ | ⟨hearly, h⟩
  · rw [h, DirectVoiceTransport.pumpRoute, if_pos hlate]
    rfl
  · rw [h, DirectVoiceTransport.pumpRoute, if_neg (not_lt.mpr hearly)]

theorem retry_pinged (now : ℕ) (r : PeerRoute) :
    retry (pinged d now r).1 = retry r ∧ signalsTo k (pinged d now r).2 = [] := by
  rcases @pinged_cases d now r with ⟨-, h⟩ | ⟨-, h⟩
  · rw [h]
    exact ⟨rfl, DirectVoiceTransport.filterMap_sendPacket (fun _ _ => rfl) r _⟩
  · rw [h]
    exact ⟨rfl, rfl⟩

/-- One turn of the loop polls the timer, if there is somebody to tell. -/
theorem pumpRoute_retry (now : ℕ) (r : PeerRoute) :
    some (retry (d.pumpRoute now k r).1) =
        (if d.signalCallback then [.poll now] else []).foldl policy.after (some (retry r)) ∧
      repetitions now (signalsTo k (d.pumpRoute now k r).2) =
        policy.fires (some (retry r)) (if d.signalCallback then [.poll now] else []) := by
  obtain ⟨hretry, hsignals⟩ := @retry_pinged d k now r
  rw [pumpRoute_pinged]
  by_cases hcall : d.signalCallback = true
  · rw [if_pos hcall, List.foldl_cons, List.foldl_nil, Retry.Policy.fires_poll, Retry.Policy.after,
      Option.map_some, Retry.Policy.poll]
    by_cases hdue : policy.Due now (retry r)
    · rw [if_pos ⟨hcall, hdue⟩, if_pos hdue, if_pos hdue, signalsTo_append, hsignals,
        signalsTo_signal_self, ← hretry]
      exact ⟨rfl, rfl⟩
    · rw [if_neg fun h => hdue h.2, if_neg hdue, if_neg hdue, hretry, hsignals]
      exact ⟨rfl, rfl⟩
  · rw [if_neg hcall, if_neg fun h => hcall h.1, hretry, hsignals]
    exact ⟨rfl, rfl⟩

theorem runs_pumpRoutes (now : ℕ) :
    Runs d (pumpRoutes now d d.peersInOrder).1 k (if d.signalCallback then [.poll now] else [])
      (repetitions now (signalsTo k (pumpRoutes now d d.peersInOrder).2)) := by
  have hloop := DirectVoiceTransport.pumpRoutes_peersInOrder (d := d) (k := k) now
  cases hr : d.peers.get k with
  | none =>
    rw [hr] at hloop
    obtain ⟨hget, hsignals⟩ := hloop
    have hnone : retryOf d k = none := by rw [retryOf, hr]; rfl
    rw [hsignals]
    refine ⟨?_, ?_⟩
    · rw [retryOf, hget, hnone]
      split <;> rfl
    · rw [hnone]
      split <;> rfl
  | some r =>
    rw [hr] at hloop
    obtain ⟨hget, hsignals, -⟩ := hloop
    have hsome : retryOf d k = some (retry r) := by rw [retryOf, hr]; rfl
    obtain ⟨hretry, htimes⟩ := @pumpRoute_retry d k now r
    refine ⟨?_, ?_⟩
    · rw [retryOf, hget, hsome]
      exact hretry
    · rw [hsignals, hsome]
      exact htimes

/-- **A pump** is an answer for each packet of the peer, and then polls its timer. Its clock must
not read 0. -/
theorem runs_pump (hrun : d.running = true) {now : ℕ} (hnow : now ≠ 0) (arrivals : List Arrival) :
    Runs d (d.pump now arrivals).1 k (occasions d k (.pump now arrivals))
      (repetitions now (signalsTo k (d.pump now arrivals).2.1)) := by
  have hnot : ¬ d.running = false := by
    rw [hrun]
    exact Bool.noConfusion
  have hsame := sameSetup_drainSocket now arrivals d
  rw [DirectVoiceTransport.pump, if_neg hnot, occasions]
  dsimp only
  have hdrained := runs_drainSocket (k := k) hnow arrivals d
  have hquiet : signalsTo k (drainSocket now d arrivals).2.1 = [] :=
    DirectVoiceTransport.filterMap_drainSocket (fun _ => rfl) now arrivals d
  rw [signalsTo_append, hquiet, List.nil_append, ← hsame.signalCallback]
  exact hdrained.append (runs_pumpRoutes now)

/-- **One call** does to the timer of a peer what it is to it, and repeats the candidates when the
timer fires. -/
theorem runs_call (hrun : d.running = true) {c : Call} (hc : Ticks c) :
    Runs d (call isNumericHost d c).1 k (occasions d k c) (resent isNumericHost k (d, c)) := by
  cases c with
  | ensurePeer now peerId initiateOffer =>
    have hquiet : resent isNumericHost k (d, .ensurePeer now peerId initiateOffer) = [] := by
      refine repetitions_eq_nil (fun s hs hc => ?_) now
      have hoffer :=
        ((DirectVoiceTransport.ensurePeer_turn now peerId initiateOffer k).types s hs).1
      exact SignalType.noConfusion (hc.symm.trans hoffer)
    rw [hquiet]
    exact runs_ensurePeer now peerId initiateOffer
  | removePeer peerId => exact runs_removePeer peerId
  | handleSignal now sourcePeerId signalType payloadJson =>
    have hquiet : resent isNumericHost k
        (d, .handleSignal now sourcePeerId signalType payloadJson) = [] := by
      refine repetitions_eq_nil (fun s hs hc => ?_) now
      have hanswer := DirectVoiceTransport.handleSignal_types isNumericHost now sourcePeerId
        signalType payloadJson s hs
      exact SignalType.noConfusion (hc.symm.trans hanswer)
    rw [hquiet]
    exact runs_handleSignal now sourcePeerId signalType payloadJson
  | sendVoiceFrame frame =>
    have hquiet : signalsTo k (d.sendVoiceFrame frame) = [] :=
      DirectVoiceTransport.filterMap_sendVoiceFrame (fun _ _ => rfl) frame
    rw [resent, call, hquiet]
    exact .nil rfl
  | pump now arrivals => exact runs_pump hrun hc arrivals

/-! ### Repetitions of a run -/

/-- What a run is to the timer of a peer. -/
def past (k : Bytes) (t : List (DirectVoiceTransport × Call)) : List Occasion :=
  t.flatMap fun x => occasions x.1 k x.2

/-- When a run repeats the candidates for a peer. -/
def resentIn (isNumericHost : Bytes → Bool) (k : Bytes) (t : List (DirectVoiceTransport × Call)) :
    List ℕ :=
  t.flatMap (resent isNumericHost k)

theorem runs_run {t : List (DirectVoiceTransport × Call)}
    (h : (machine isNumericHost).Run t d) (hclock : ∀ x ∈ t, Ticks x.2) : d.running = true ∧
    retryOf d k = (past k t).foldl policy.after none ∧
      resentIn isNumericHost k t = policy.fires none (past k t) := by
  induction h with
  | start hinit =>
    obtain ⟨hrun, hpeers⟩ := Tracked.init_cases hinit
    refine ⟨hrun, ?_, rfl⟩
    rw [retryOf, hpeers]
    rfl
  | @snoc t d d' c _ hstep ih =>
    obtain ⟨-, rfl⟩ := hstep
    obtain ⟨hrun, hretry, htimes⟩ := ih fun x hx => hclock x (List.mem_append_left _ hx)
    have hcall := @runs_call isNumericHost d k hrun c
      (hclock _ (List.mem_append_right _ (List.mem_singleton_self _)))
    refine ⟨(Drained.sameSetup_call c).running.trans hrun, ?_, ?_⟩
    · rw [hcall.retry, hretry, past, past, List.flatMap_append, List.foldl_append,
        List.flatMap_singleton]
    · rw [past, resentIn, List.flatMap_append, List.flatMap_append, List.flatMap_singleton,
        List.flatMap_singleton, Retry.Policy.fires_append, ← past, ← resentIn, ← hretry, ← htimes,
        ← hcall.times]

/-- A part of a run, from some point on. -/
theorem resentIn_of_run {t l : List (DirectVoiceTransport × Call)}
    (h : (machine isNumericHost).Run (t ++ l) d) (hclock : ∀ x ∈ t ++ l, Ticks x.2) :
    resentIn isNumericHost k l = policy.fires ((past k t).foldl policy.after none) (past k l) := by
  obtain ⟨d₁, hbefore⟩ := h.of_append
  obtain ⟨-, -, htimes⟩ := @runs_run isNumericHost d₁ k t hbefore
    fun x hx => hclock x (List.mem_append_left _ hx)
  obtain ⟨-, -, hall⟩ := @runs_run isNumericHost d k _ h hclock
  rw [past, resentIn, List.flatMap_append, List.flatMap_append, ← past, ← past, ← resentIn,
    ← resentIn, Retry.Policy.fires_append, htimes] at hall
  exact List.append_cancel_left hall

/-- The call announces a peer to the transport, whether or not it is to be offered to. -/
def Announces (k : Bytes) (c : Call) : Prop :=
  ∃ now initiateOffer, c = .ensurePeer now k initiateOffer

/-- Which call discards the timer of a peer, and which sets it. -/
theorem occasions_cases {c : Call} {o : Occasion} (ho : o ∈ occasions d k c) :
    (o.isDiscard = true → c = .removePeer k) ∧ (o.isSet = true → Announces k c) := by
  cases c with
  | ensurePeer now peerId initiateOffer =>
    rw [occasions] at ho
    split at ho
    · next h =>
      obtain ⟨rfl, -⟩ := h
      rw [List.mem_singleton.mp ho]
      exact ⟨fun hd => Bool.noConfusion hd, fun _ => ⟨_, _, rfl⟩⟩
    · exact absurd ho List.not_mem_nil
  | removePeer peerId =>
    rw [occasions] at ho
    split at ho
    · next h =>
      obtain rfl := h
      rw [List.mem_singleton.mp ho]
      exact ⟨fun _ => rfl, fun hs => Bool.noConfusion hs⟩
    · exact absurd ho List.not_mem_nil
  | handleSignal now sourcePeerId signalType payloadJson =>
    rw [occasions] at ho
    split at ho
    · rw [List.mem_singleton.mp ho]
      exact ⟨fun hd => Bool.noConfusion hd, fun hs => Bool.noConfusion hs⟩
    · exact absurd ho List.not_mem_nil
  | sendVoiceFrame frame => exact absurd ho List.not_mem_nil
  | pump now arrivals =>
    rcases List.mem_append.mp ho with ho | ho
    · obtain ⟨_, -, rfl⟩ := List.mem_map.mp ho
      exact ⟨fun hd => Bool.noConfusion hd, fun hs => Bool.noConfusion hs⟩
    · split at ho
      · rw [List.mem_singleton.mp ho]
        exact ⟨fun hd => Bool.noConfusion hd, fun hs => Bool.noConfusion hs⟩
      · exact absurd ho List.not_mem_nil

theorem past_kept {l : List (DirectVoiceTransport × Call)} (hkept : ∀ x ∈ l, x.2 ≠ .removePeer k) :
    ∀ o ∈ past k l, o.isDiscard = false := by
  intro o ho
  obtain ⟨x, hx, ho⟩ := List.mem_flatMap.mp ho
  exact Bool.eq_false_of_not_eq_true fun hd => hkept x hx ((occasions_cases ho).1 hd)

theorem past_unset {l : List (DirectVoiceTransport × Call)} (hunset : ∀ x ∈ l, ¬ Announces k x.2) :
    ∀ o ∈ past k l, o.isSet = false := by
  intro o ho
  obtain ⟨x, hx, ho⟩ := List.mem_flatMap.mp ho
  exact Bool.eq_false_of_not_eq_true fun hs => hunset x hx ((occasions_cases ho).2 hs)

/-- A packet of the peer is read, in the pump that is the step. Arrivals behind one that cannot be
received are not read. -/
def Hears (k : Bytes) (x : DirectVoiceTransport × Call) : Prop :=
  ∃ a ∈ Drained.reads x.2, x.1.sourceOf a = some k

theorem occasions_hears {x : DirectVoiceTransport × Call} (h : Hears k x) :
    ∃ l, occasions x.1 k x.2 = .answer (clock x.2) :: l := by
  obtain ⟨d, c⟩ := x
  obtain ⟨a, ha, hsource⟩ := h
  cases c with
  | pump now arrivals =>
    have hmem : a ∈ (readable arrivals).filter fun a => d.sourceOf a = some k :=
      List.mem_filter.mpr ⟨ha, decide_eq_true hsource⟩
    obtain ⟨b, l, hl⟩ := List.exists_cons_of_ne_nil (List.ne_nil_of_mem hmem)
    rw [occasions, hl]
    exact ⟨_, rfl⟩
  | _ => exact absurd ha List.not_mem_nil

/-- **Repetitions.** From any point of any run of a started transport, as long as the route of a
peer is not removed: the candidates are repeated to it at most eight times, and more than three
seconds apart; more than two seconds after the peer was announced, until it is announced again; and
never once a packet of it has been read. A clock of 0 stands for "never" in a route, so no pump may
read 0, and neither may the announcement. -/
theorem resent_of_run {t l : List (DirectVoiceTransport × Call)}
    (h : (machine isNumericHost).Run (t ++ l) d) (hclock : ∀ x ∈ t ++ l, Ticks x.2)
    (hkept : ∀ x ∈ l, x.2 ≠ .removePeer k) :
    (resentIn isNumericHost k l).length ≤ 8 ∧
    (resentIn isNumericHost k l).Pairwise (fun a b => a + 3000 < b) ∧
    (∀ before d₁ now initiateOffer after,
      l = before ++ (d₁, .ensurePeer now k initiateOffer) :: after → d₁.Admits k → now ≠ 0 →
      (∀ x ∈ after, ¬ Announces k x.2) → ∀ a ∈ resentIn isNumericHost k after, now + 2000 < a) ∧
    ∀ before x after, l = before ++ x :: after → Hears k x →
      resentIn isNumericHost k (x :: after) = [] := by
  have hspaced := Retry.Policy.fires_spaced (p := policy) (past k l) (past_kept hkept)
    ((past k t).foldl policy.after none)
  rw [← resentIn_of_run h hclock] at hspaced
  obtain ⟨hpairwise, hlength, -⟩ := hspaced
  refine ⟨?_, hpairwise, ?_, ?_⟩
  · have hlimit : policy.limit = 8 := rfl
    omega
  · rintro before d₁ now initiateOffer after rfl hadmits hnow hunset a ha
    have hset : occasions d₁ k (.ensurePeer now k initiateOffer) = [.set now] :=
      if_pos ⟨rfl, hadmits⟩
    have hcut : t ++ (before ++ (d₁, .ensurePeer now k initiateOffer) :: after) =
        (t ++ before ++ [(d₁, .ensurePeer now k initiateOffer)]) ++ after := by
      simp only [List.append_assoc, List.singleton_append]
    rw [hcut] at h hclock
    rw [resentIn_of_run h hclock, past, List.flatMap_append, List.flatMap_singleton, hset,
      List.foldl_append, List.foldl_cons, List.foldl_nil, Retry.Policy.after] at ha
    refine Retry.Policy.fires_delayed _ (fun o ho => ⟨?_, past_unset hunset o ho⟩) _ rfl hnow a ha
    exact past_kept (fun x hx => hkept x (List.mem_append_right _ (List.mem_cons_of_mem _ hx))) o ho
  · rintro before x after rfl hears
    obtain ⟨rest, hrest⟩ := occasions_hears hears
    have hpast : past k (x :: after) = .answer (clock x.2) :: (rest ++ past k after) := by
      rw [past, List.flatMap_cons, hrest]
      rfl
    rw [← List.append_assoc] at h hclock
    have hkept' := past_kept fun y hy => hkept y (List.mem_append_right _ hy)
    rw [hpast] at hkept'
    rw [resentIn_of_run h hclock, hpast]
    exact Retry.Policy.fires_of_answered _ (fun o ho => hkept' o (List.mem_cons_of_mem _ ho)) _ rfl

/-- A transport that can signal, just started. -/
def announcing : DirectVoiceTransport :=
  .start { signalCallback := true, frameCallback := true } [7] [2] (some [])

/-- A peer that is announced and never answers. -/
def unanswered : List Call :=
  [.ensurePeer 1 [1] true, .pump 2001 [], .pump 2002 [], .pump 5002 [], .pump 5003 []]

theorem resent_of_run_unanswered :
    let t := Machine.trace (fun d c => (call (fun _ => true) d c).1) announcing unanswered
    resentIn (fun _ => true) [1] t = [2002, 5003] ∧
      (resentIn (fun _ => true) [1] t).length ≤ 8 := by
  have hrun : (machine fun _ => true).Run
      ([] ++ Machine.trace (fun d c => (call (fun _ => true) d c).1) announcing unanswered)
      (unanswered.foldl (fun d c => (call (fun _ => true) d c).1) announcing) :=
    Machine.run_trace ⟨_, _, _, _, rfl, rfl, rfl⟩ fun _ _ => trivial
  have hclock : ∀ x ∈ Machine.trace (fun d c => (call (fun _ => true) d c).1) announcing
      unanswered, Ticks x.2 := by
    simp only [unanswered, Machine.forall_trace_cons, Machine.forall_trace_nil, Ticks]
    decide
  have hkept : ∀ x ∈ Machine.trace (fun d c => (call (fun _ => true) d c).1) announcing unanswered,
      x.2 ≠ .removePeer [1] := by
    simp only [unanswered, Machine.forall_trace_cons, Machine.forall_trace_nil]
    exact ⟨nofun, nofun, nofun, nofun, nofun, trivial⟩
  exact ⟨by decide +kernel, (resent_of_run hrun hclock hkept).1⟩

/-! ### Pings -/

/-- When a peer was last pinged. Without a route it was not. -/
def lastPing (d : DirectVoiceTransport) (k : Bytes) : ℕ :=
  ((d.peers.get k).map PeerRoute.lastPingSent).getD 0

/-- A call sends the ping to a peer, wherever it is sent to, unless the ids are too long for a
packet. -/
def Pings (isNumericHost : Bytes → Bool) (k : Bytes) (x : DirectVoiceTransport × Call) : Prop :=
  x.1.pingPacket ≠ [] → ∀ e ∈ (call isNumericHost x.1 x.2).1.targetsOf k,
    .datagram e x.1.pingPacket ∈ (call isNumericHost x.1 x.2).2

theorem mem_sendPacket {r : PeerRoute} {packet : Bytes} (hpacket : packet ≠ []) {e : SocketEndpoint}
    (he : e ∈ DirectVoiceTransport.targets r) :
    .datagram e packet ∈ DirectVoiceTransport.sendPacket r packet := by
  rw [DirectVoiceTransport.sendPacket, if_neg hpacket]
  exact List.mem_map_of_mem he

theorem lastPing_setRoute (peerId : Bytes) (r : PeerRoute) :
    lastPing (d.setRoute peerId r) k = if k = peerId then r.lastPingSent else lastPing d k :=
  DirectVoiceTransport.view_setRoute (fun o => (o.map PeerRoute.lastPingSent).getD 0) peerId k r

/-- A route that was pinged at the same time may replace another. -/
theorem lastPing_setRoute_same (now : ℕ) (peerId : Bytes) {r : PeerRoute}
    (h : r.lastPingSent = (d.route now peerId).lastPingSent) :
    lastPing (d.setRoute peerId r) k = lastPing d k :=
  DirectVoiceTransport.view_setRoute_same (f := fun o => (o.map PeerRoute.lastPingSent).getD 0)
    (fun _ => rfl) now peerId k h

theorem lastPing_drainSocket (now : ℕ) (arrivals : List Arrival) :
    ∀ d : DirectVoiceTransport, lastPing (drainSocket now d arrivals).1 k = lastPing d k := by
  refine drainSocket_rule now (P := fun d _ d' _ => lastPing d' k = lastPing d k) (fun _ => rfl) ?_
    arrivals
  intro d a l d' out hrest
  rw [hrest]
  rcases DirectVoiceTransport.receive_cases (d := d) now a with ⟨-, h⟩ | ⟨p, _, _, -, h⟩
  · rw [h]
  · rw [h]
    exact lastPing_setRoute_same now p rfl

/-- What the loop does: a peer that was not pinged for a while is pinged. -/
theorem lastPing_pumpRoutes (now : ℕ) :
    (d.HasRoute k → now - lastPing (pumpRoutes now d d.peersInOrder).1 k ≤ 750) ∧
    (lastPing (pumpRoutes now d d.peersInOrder).1 k = lastPing d k ∨
      lastPing (pumpRoutes now d d.peersInOrder).1 k = now ∧
        (d.pingPacket ≠ [] → ∀ e ∈ (pumpRoutes now d d.peersInOrder).1.targetsOf k,
          .datagram e d.pingPacket ∈ (pumpRoutes now d d.peersInOrder).2)) := by
  have hloop := DirectVoiceTransport.pumpRoutes_peersInOrder (d := d) (k := k) now
  rw [DirectVoiceTransport.hasRoute_iff, lastPing, lastPing]
  cases hr : d.peers.get k with
  | none =>
    rw [hr] at hloop
    rw [hloop.1]
    exact ⟨fun h => (nomatch h), .inl rfl⟩
  | some r =>
    rw [hr] at hloop
    obtain ⟨hget, -, hsub⟩ := hloop
    have hping : (d.pumpRoute now k r).1.lastPingSent = (pinged d now r).1.lastPingSent ∧
        (pinged d now r).2 ⊆ (d.pumpRoute now k r).2 := by
      rw [pumpRoute_pinged]
      split
      · exact ⟨rfl, List.subset_append_left _ _⟩
      · exact ⟨rfl, List.Subset.refl _⟩
    have htargets : (pumpRoutes now d d.peersInOrder).1.targetsOf k =
        DirectVoiceTransport.targets r := by
      rw [DirectVoiceTransport.targetsOf_eq hget]
      exact (DirectVoiceTransport.pumpRoute_targets now k r).1
    rw [hget, htargets, Option.map_some, Option.getD_some, Option.map_some, Option.getD_some,
      hping.1]
    rcases @pinged_cases d now r with ⟨hlate, h⟩ | ⟨hearly, h⟩
    · rw [h] at hping ⊢
      refine ⟨fun _ => ?_, .inr ⟨rfl, fun hpacket e he => ?_⟩⟩
      · dsimp only
        omega
      · exact hsub (hping.2 (mem_sendPacket hpacket he))
    · rw [h]
      exact ⟨fun _ => hearly, .inl rfl⟩

theorem lastPing_pump (hrun : d.running = true) (now : ℕ) (arrivals : List Arrival) :
    ((d.pump now arrivals).1.HasRoute k → now - lastPing (d.pump now arrivals).1 k ≤ 750) ∧
    (lastPing (d.pump now arrivals).1 k = lastPing d k ∨
      lastPing (d.pump now arrivals).1 k = now ∧
        Pings isNumericHost k (d, .pump now arrivals)) := by
  have hnot : ¬ d.running = false := by
    rw [hrun]
    exact Bool.noConfusion
  have hpacket : (drainSocket now d arrivals).1.pingPacket = d.pingPacket := by
    obtain ⟨_, h⟩ := sameSetup_drainSocket now arrivals d
    rw [h]
    rfl
  obtain ⟨hrecent, hcases⟩ := @lastPing_pumpRoutes (drainSocket now d arrivals).1 k now
  rw [Pings, call, DirectVoiceTransport.pump, if_neg hnot]
  dsimp only
  rw [DirectVoiceTransport.hasRoute_pumpRoutes]
  rw [lastPing_drainSocket, hpacket] at hcases
  refine ⟨hrecent, hcases.imp_right (And.imp_right fun hsent hne e he => ?_)⟩
  exact List.mem_append_right _ (hsent hne e he)

/-- A signal pings its peer. -/
theorem pings_handleSignal (hadmits : d.Admits k) (now : ℕ) (signalType : SignalType)
    (payloadJson : Bytes) :
    Pings isNumericHost k (d, .handleSignal now k signalType payloadJson) := by
  rw [Pings, call]
  rcases DirectVoiceTransport.handleSignal_cases (d := d) isNumericHost now k signalType payloadJson
    with ⟨hno, -⟩ | ⟨-, r, answer, h, -⟩
  · exact absurd hadmits hno
  · rw [h, DirectVoiceTransport.targetsOf_setRoute, if_pos rfl]
    exact fun hne e he => List.mem_append_right _ (mem_sendPacket hne he)

/-- **One call.** A peer was pinged when it was before, unless the call pings it or removes it. -/
theorem lastPing_call (hrun : d.running = true) (c : Call) :
    lastPing (call isNumericHost d c).1 k = 0 ∨
    (c ≠ .removePeer k ∧ lastPing (call isNumericHost d c).1 k = lastPing d k) ∨
    (lastPing (call isNumericHost d c).1 k = clock c ∧ Pings isNumericHost k (d, c)) := by
  cases c with
  | ensurePeer now peerId initiateOffer =>
    refine .inr (.inl ⟨fun h => Call.noConfusion h, ?_⟩)
    rw [call]
    rcases DirectVoiceTransport.ensurePeer_cases (d := d) now peerId initiateOffer
      with ⟨-, h⟩ | ⟨-, _, h⟩
    · rw [h]
    · rw [h]
      exact lastPing_setRoute_same now peerId rfl
  | removePeer peerId =>
    by_cases hk : peerId = k
    · subst hk
      left
      rw [call, lastPing, DirectVoiceTransport.removePeer, FMap.get_delete_self]
      rfl
    · refine .inr (.inl ⟨fun h => hk (Call.removePeer.inj h), ?_⟩)
      rw [call, lastPing, DirectVoiceTransport.removePeer, FMap.get_delete_of_ne _ (Ne.symm hk)]
      rfl
  | handleSignal now sourcePeerId signalType payloadJson =>
    rcases DirectVoiceTransport.handleSignal_cases (d := d) isNumericHost now sourcePeerId
      signalType payloadJson with ⟨-, h⟩ | ⟨hadmits, r, answer, h, hr⟩
    · rw [call, h]
      exact .inr (.inl ⟨fun h => Call.noConfusion h, rfl⟩)
    · have htime : r.lastPingSent = now := by
        obtain ⟨_, rfl⟩ := hr
        rfl
      rw [call, h, lastPing_setRoute]
      by_cases hk : k = sourcePeerId
      · subst hk
        rw [if_pos rfl]
        exact .inr (.inr ⟨htime, pings_handleSignal hadmits now signalType payloadJson⟩)
      · rw [if_neg hk]
        exact .inr (.inl ⟨fun h => Call.noConfusion h, rfl⟩)
  | sendVoiceFrame frame => exact .inr (.inl ⟨fun h => Call.noConfusion h, rfl⟩)
  | pump now arrivals =>
    exact .inr ((lastPing_pump hrun now arrivals).2.imp_left
      fun h => ⟨fun h => Call.noConfusion h, h⟩)

/-- A step of a run pinged a peer at the time, and the peer's route was not removed since. -/
def PingedAt (isNumericHost : Bytes → Bool) (k : Bytes) (t : List (DirectVoiceTransport × Call))
    (time : ℕ) : Prop :=
  ∃ before x after, t = before ++ x :: after ∧ clock x.2 = time ∧ Pings isNumericHost k x ∧
    ∀ y ∈ after, y.2 ≠ .removePeer k

theorem pinged_run {t : List (DirectVoiceTransport × Call)}
    (h : (machine isNumericHost).Run t d) :
    d.running = true ∧ (lastPing d k = 0 ∨ PingedAt isNumericHost k t (lastPing d k)) := by
  induction h with
  | start hinit =>
    obtain ⟨hrun, hpeers⟩ := Tracked.init_cases hinit
    refine ⟨hrun, .inl ?_⟩
    rw [lastPing, hpeers]
    rfl
  | @snoc t d d' c _ hstep ih =>
    obtain ⟨-, rfl⟩ := hstep
    obtain ⟨hrun, hbefore⟩ := ih
    refine ⟨(Drained.sameSetup_call c).running.trans hrun, ?_⟩
    rcases @lastPing_call isNumericHost d k hrun c with hnone | ⟨hkept, hsame⟩ | ⟨htime, hpings⟩
    · exact .inl hnone
    · rw [hsame]
      refine hbefore.imp_right ?_
      rintro ⟨before, x, after, rfl, htime, hpings, hafter⟩
      refine ⟨before, x, after ++ [(d, c)], by rw [List.append_assoc]; rfl, htime, hpings, ?_⟩
      intro y hy
      rcases List.mem_append.mp hy with hy | hy
      · exact hafter y hy
      · rw [List.mem_singleton.mp hy]
        exact hkept
    · rw [htime]
      exact .inr ⟨t, (d, c), [], rfl, rfl, hpings, fun y hy => absurd hy List.not_mem_nil⟩

/-- **Pings.** After a pump in any run of a started transport, for every peer that has a route: at
most 750 milliseconds before, and not before its route was last removed, a ping was sent wherever
the peer was to be reached then. A fresh route was last pinged at time 0, so the clock has to be
later than 750 ms; and ids that are too long for a packet make no ping. -/
theorem pinged_of_run {t : List (DirectVoiceTransport × Call)} {d' : DirectVoiceTransport}
    {now : ℕ} {arrivals : List Arrival}
    (h : (machine isNumericHost).Run (t ++ [(d, .pump now arrivals)]) d') (hnow : 750 < now) :
    ∀ k, d'.HasRoute k → ∃ time, now ≤ time + 750 ∧
      PingedAt isNumericHost k (t ++ [(d, .pump now arrivals)]) time := by
  intro k hk
  have hstep : d.running = true ∧ (d.pump now arrivals).1 = d' := by
    generalize hr : t ++ [(d, Call.pump now arrivals)] = r at h
    cases h with
    | start => exact absurd hr (List.append_ne_nil_of_right_ne_nil _ (List.cons_ne_nil _ _))
    | snoc hbefore hstep =>
      obtain ⟨rfl, hlast⟩ := List.append_inj' hr rfl
      obtain ⟨rfl, rfl⟩ := Prod.mk.inj (List.singleton_inj.mp hlast)
      exact ⟨(@pinged_run isNumericHost d k _ hbefore).1, hstep.2.symm⟩
  obtain ⟨hrun, rfl⟩ := hstep
  have hrecent := (@lastPing_pump isNumericHost d k hrun now arrivals).1 hk
  rcases (@pinged_run isNumericHost _ k _ h).2 with hnever | hpinged
  · rw [hnever] at hrecent
    omega
  · exact ⟨_, by omega, hpinged⟩

/-- A transport that has heard a peer. -/
def acquainted : DirectVoiceTransport :=
  Tracked.acquaintance.foldl (fun d c => (call (fun _ => true) d c).1) Drained.listening

theorem pinged_of_run_acquaintance : ∃ time, 1000 ≤ time + 750 ∧
    PingedAt (fun _ => true) [1]
      (Machine.trace (fun d c => (call (fun _ => true) d c).1) Drained.listening
        Tracked.acquaintance ++ [(acquainted, .pump 1000 [])]) time := by
  have hrun : (machine fun _ => true).Run
      (Machine.trace (fun d c => (call (fun _ => true) d c).1) Drained.listening
        Tracked.acquaintance) acquainted :=
    Machine.run_trace ⟨_, _, _, _, rfl, rfl, rfl⟩ fun _ _ => trivial
  have hlast : (machine fun _ => true).step acquainted (.pump 1000 [])
      (acquainted.pump 1000 []).1 := ⟨trivial, rfl⟩
  exact pinged_of_run (hrun.snoc hlast) (by decide) [1] (by decide +kernel)

end Timing

end Net

end TarkovVoice

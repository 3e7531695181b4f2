import TarkovVoice.Client.Application
import TarkovVoice.Machine
import TarkovVoice.Net.Routes
import TarkovVoice.Net.Signals
import TarkovVoice.Protocol.Candidates

/-!
# The exchange of candidates

Two direct transports whose signals reach each other, in any order and with any delay. Each may
announce the other, pump, and take signals as often as it likes, and deal with other peers in
between; neither removes the other. The side with the smaller id offers, the other answers, and
whoever has handled a signal knows the candidates of the other.

A signal that is sent goes into the inbox of the other side, and stays there until it is handled.

## Main definitions

* `Side`, `Call`, `machine`
* `Agrees` — what holds of each side in every state

## Main results

* `Inv.step`, `inv_of_run`, `exchange_settles`
-/

namespace TarkovVoice

namespace Client

namespace IceExchange

open Net (Bytes Candidate DirectVoiceTransport SignalType Signal Exchange Arrival Output signalsTo
  bytesLt)
open Net.DirectVoiceTransport (SameSetup parseCandidates)
open Net.Exchange (Turn)
open Protocol (LocalCandidate)

/-- The two sides. -/
inductive Party
  | first
  | second
  deriving DecidableEq

def Party.other : Party → Party
  | .first => .second
  | .second => .first

theorem Party.other_other (p : Party) : p.other.other = p := by cases p <;> rfl

theorem Party.other_ne (p : Party) : p.other ≠ p := by cases p <;> decide

theorem Party.eq_other {p q : Party} (h : q ≠ p) : q = p.other := by
  cases p <;> cases q <;> first | rfl | exact absurd rfl h

/-- What does not change: which addresses the system takes for numeric, the id of each side, and the
candidates that its `start` has gathered. -/
structure Setting where
  isNumericHost : Bytes → Bool
  id : Party → Bytes
  candidates : Party → List Candidate

/-- One side: its transport, the signals of the other that it has not handled yet, those it has
handled, and what it has sent to the other. -/
structure Side where
  transport : DirectVoiceTransport
  inbox : List Signal := []
  handled : List Signal := []
  sent : List Signal := []

abbrev State := Party → Side

/-- The calls of a transport. The callers may announce and remove anybody, pump with any datagrams,
and hand over signals of anybody. -/
inductive Call
  | ensurePeer (now : ℕ) (peerId : Bytes)
  | removePeer (peerId : Bytes)
  | pump (now : ℕ) (arrivals : List Arrival)
  | handleSignal (now : ℕ) (sourcePeerId : Bytes) (signalType : SignalType) (payloadJson : Bytes)
  deriving DecidableEq

variable (g : Setting)

/-- What a call does to the transport, and its outputs. Who makes the offer is decided as the
application decides it. -/
def Call.run (d : DirectVoiceTransport) : Call → DirectVoiceTransport × List Output
  | .ensurePeer now peerId =>
    d.ensurePeer now peerId (Application.shouldInitiateDirectVoiceOffer d.localPeerId peerId)
  | .removePeer peerId => (d.removePeer peerId, [])
  | .pump now arrivals => ((d.pump now arrivals).1, (d.pump now arrivals).2.1)
  | .handleSignal now sourcePeerId signalType payloadJson =>
    d.handleSignal g.isNumericHost now sourcePeerId signalType payloadJson

/-- The signal of the peer `k` that a call handles. -/
def Call.hears (k : Bytes) : Call → Option Signal
  | .handleSignal _ sourcePeerId signalType payloadJson =>
    if sourcePeerId = k then some (signalType, payloadJson) else none
  | _ => none

/-- A side does not remove the other, and handles signals of the other that have arrived, in any
order. Signals of third parties are not restricted. -/
def Enabled (s : State) (step : Party × Call) : Prop :=
  step.2 ≠ .removePeer (g.id step.1.other) ∧
    ∀ m ∈ step.2.hears (g.id step.1.other), m ∈ (s step.1).inbox

/-- The signals for the other side that a call sends. -/
def signals (s : State) (step : Party × Call) : List Signal :=
  signalsTo (g.id step.1.other) (step.2.run g (s step.1).transport).2

/-- The side that takes the step. A signal that it handles is taken out of its inbox, and what it
sends is recorded. -/
def act (s : State) (step : Party × Call) : Side where
  transport := (step.2.run g (s step.1).transport).1
  inbox := (s step.1).inbox.diff (step.2.hears (g.id step.1.other)).toList
  handled := (s step.1).handled ++ (step.2.hears (g.id step.1.other)).toList
  sent := (s step.1).sent ++ signals g s step

/-- The other side. -/
def receive (s : State) (step : Party × Call) : Side :=
  { s step.1.other with inbox := (s step.1.other).inbox ++ signals g s step }

/-- What a step does. -/
def next (s : State) (step : Party × Call) : State := fun q =>
  if q = step.1 then act g s step else receive g s step

/-- Both transports are running, under different ids and with candidates as `start` gathers them.
They do not know each other yet, and nothing has been sent. -/
structure Init (s : State) : Prop where
  named : ∀ p, g.id p ≠ []
  distinct : ∀ p : Party, g.id p.other ≠ g.id p
  candidates : ∀ p, ∀ c ∈ g.candidates p, LocalCandidate c
  running : ∀ p, (s p).transport.running = true
  localPeerId : ∀ p, (s p).transport.localPeerId = g.id p
  localCandidates : ∀ p, (s p).transport.localCandidates = g.candidates p
  unknown : ∀ p, (s p).transport.peers.get (g.id p.other) = none
  silent : ∀ p, (s p).inbox = [] ∧ (s p).handled = [] ∧ (s p).sent = []

def machine : Machine State (Party × Call) := .ofNext (Init g) (Enabled g) (next g)

/-! ### The invariant -/

/-- The side with the smaller id offers, the other answers. -/
def Role (p : Party) (type : SignalType) : Prop :=
  (type = .iceOffer → bytesLt (g.id p) (g.id p.other) = true) ∧
    (type = .iceAnswer → bytesLt (g.id p.other) (g.id p) = true)

/-- What holds of a side `x` and the other side `y`: what `x` has sent is what its route has
counted, carries its candidates and fits its role; and what it knows of `y` are the candidates of
`y`. -/
structure Agrees (p : Party) (x y : Side) : Prop where
  running : x.transport.running = true
  localPeerId : x.transport.localPeerId = g.id p
  localCandidates : x.transport.localCandidates = g.candidates p
  counted : ∀ type, Exchange.count type x.sent =
    (x.transport.exchange (g.id p.other)).spent type
  within : (x.transport.exchange (g.id p.other)).candidateSignalsSent ≤ 8
  payload : ∀ m ∈ x.sent, m.2 = x.transport.makeLocalPayloadJson
  role : ∀ m ∈ x.sent, Role g p m.1
  arrived : ∀ m ∈ x.inbox, m ∈ y.sent
  heard : x.handled ≠ [] → x.transport.HasRoute (g.id p.other) ∧
    (x.transport.exchange (g.id p.other)).candidates = g.candidates p.other

/-- What holds in every state of a run. -/
structure Inv (s : State) : Prop where
  named : ∀ p, g.id p ≠ []
  distinct : ∀ p : Party, g.id p.other ≠ g.id p
  candidates : ∀ p, ∀ c ∈ g.candidates p, LocalCandidate c
  agrees : ∀ p, Agrees g p (s p) (s p.other)

variable {g}

theorem Init.inv {s : State} (h : Init g s) : Inv g s where
  named := h.named
  distinct := h.distinct
  candidates := h.candidates
  agrees := fun p => by
    obtain ⟨hinbox, hhandled, hsent⟩ := h.silent p
    have hexchange : (s p).transport.exchange (g.id p.other) = {} := by
      rw [DirectVoiceTransport.exchange, h.unknown p]
    refine ⟨h.running p, h.localPeerId p, h.localCandidates p, fun type => ?_, ?_, ?_, ?_, ?_, ?_⟩
    · rw [hsent, hexchange]
      cases type <;> rfl
    · rw [hexchange]
      exact Nat.zero_le 8
    · rw [hsent]
      exact fun _ hm => absurd hm List.not_mem_nil
    · rw [hsent]
      exact fun _ hm => absurd hm List.not_mem_nil
    · rw [hinbox]
      exact fun _ hm => absurd hm List.not_mem_nil
    · exact fun hne => absurd hhandled hne

/-! ### One call -/

theorem sameSetup_run (d : DirectVoiceTransport) (call : Call) : SameSetup d (call.run g d).1 := by
  cases call with
  | ensurePeer now peerId =>
    exact (DirectVoiceTransport.ensurePeer_keeps now peerId _ []).setup
  | removePeer peerId => exact ⟨_, rfl⟩
  | pump now arrivals => exact DirectVoiceTransport.sameSetup_pump now arrivals
  | handleSignal now sourcePeerId signalType payloadJson =>
    exact (DirectVoiceTransport.handleSignal_keeps g.isNumericHost now sourcePeerId signalType
      payloadJson []).setup

/-- Whoever has been heard has a route, and routes stay. -/
theorem hasRoute_run {d : DirectVoiceTransport} {k : Bytes} (hadmits : d.Admits k) {call : Call}
    (hkeep : call ≠ .removePeer k) (h : d.HasRoute k ∨ call.hears k ≠ none) :
    (call.run g d).1.HasRoute k := by
  cases call with
  | ensurePeer now peerId =>
    refine (DirectVoiceTransport.hasRoute_ensurePeer now peerId _).mpr (Or.inl ?_)
    exact h.resolve_right fun hne => hne rfl
  | removePeer peerId =>
    refine (DirectVoiceTransport.hasRoute_removePeer peerId).mpr ⟨?_, ?_⟩
    · rintro rfl
      exact hkeep rfl
    · exact h.resolve_right fun hne => hne rfl
  | pump now arrivals =>
    refine (DirectVoiceTransport.hasRoute_pump now arrivals).mpr (Or.inl ?_)
    exact h.resolve_right fun hne => hne rfl
  | handleSignal now sourcePeerId signalType payloadJson =>
    refine (DirectVoiceTransport.hasRoute_handleSignal g.isNumericHost now sourcePeerId signalType
      payloadJson).mpr (h.imp_right fun hne => ?_)
    rw [Call.hears] at hne
    by_cases hsource : sourcePeerId = k
    · exact ⟨hsource.symm, hsource ▸ hadmits⟩
    · exact absurd (if_neg hsource) hne

/-- **One call** is a turn of the exchange with the other side. -/
theorem turn_run {p : Party} {d : DirectVoiceTransport} (hid : d.localPeerId = g.id p)
    (hadmits : d.Admits (g.id p.other)) {call : Call} (hkeep : call ≠ .removePeer (g.id p.other))
    (hrole : ∀ m ∈ call.hears (g.id p.other), Role g p.other m.1) :
    Turn d.makeLocalPayloadJson (Role g p)
      ((call.hears (g.id p.other)).map fun m => parseCandidates m.2)
      (d.exchange (g.id p.other)) ((call.run g d).1.exchange (g.id p.other))
      (signalsTo (g.id p.other) (call.run g d).2) := by
  cases call with
  | ensurePeer now peerId =>
    by_cases hpeer : g.id p.other = peerId
    · refine (DirectVoiceTransport.ensurePeer_turn now peerId _ (g.id p.other)).mono ?_
      rintro type ⟨rfl, hinitiate⟩
      rw [← hpeer, hid, Application.shouldInitiateDirectVoiceOffer, Bool.and_eq_true] at hinitiate
      exact ⟨fun _ => hinitiate.2, fun h => by cases h⟩
    · exact DirectVoiceTransport.ensurePeer_turn_of_ne hpeer now _
  | removePeer peerId =>
    have hne : g.id p.other ≠ peerId := by
      rintro rfl
      exact hkeep rfl
    exact DirectVoiceTransport.removePeer_turn hne
  | pump now arrivals =>
    refine (DirectVoiceTransport.pump_turn now arrivals (g.id p.other)).mono ?_
    rintro type rfl
    exact ⟨fun h => (by cases h), fun h => by cases h⟩
  | handleSignal now sourcePeerId signalType payloadJson =>
    rw [Call.hears] at hrole ⊢
    by_cases hsource : sourcePeerId = g.id p.other
    · rw [if_pos hsource] at hrole ⊢
      subst hsource
      obtain ⟨hrun, hname, hlocal⟩ := hadmits
      refine (DirectVoiceTransport.handleSignal_turn hrun hname hlocal g.isNumericHost now
        signalType payloadJson).mono ?_
      rintro type ⟨rfl, rfl⟩
      have hoffers := (hrole _ rfl).1 rfl
      rw [Party.other_other] at hoffers
      exact ⟨fun h => (by cases h), fun _ => hoffers⟩
    · rw [if_neg hsource]
      exact DirectVoiceTransport.handleSignal_turn_of_ne (Ne.symm hsource) g.isNumericHost now
        signalType payloadJson

/-! ### Steps and runs -/

theorem next_self (s : State) (step : Party × Call) : next g s step step.1 = act g s step :=
  if_pos rfl

theorem next_other (s : State) (step : Party × Call) :
    next g s step step.1.other = receive g s step :=
  if_neg step.1.other_ne

/-- **The side that takes a step** goes on agreeing with the other on what was sent and what was
heard. -/
theorem agrees_act {s : State} (h : Inv g s) {step : Party × Call} (hen : Enabled g s step) :
    Agrees g step.1 (act g s step) (receive g s step) := by
  obtain ⟨p, call⟩ := step
  obtain ⟨hkeep, hinbox⟩ := hen
  have hx := h.agrees p
  have hy := h.agrees p.other
  rw [Party.other_other] at hy
  -- a signal that is handled was sent by the other side, with its candidates
  have hheard : ∀ m ∈ call.hears (g.id p.other), Role g p.other m.1 ∧
      parseCandidates m.2 = g.candidates p.other := by
    intro m hm
    have hsent := hx.arrived m (hinbox m hm)
    refine ⟨hy.role m hsent, ?_⟩
    rw [hy.payload m hsent, ← hy.localCandidates]
    refine Protocol.parseCandidates_makeLocalPayloadJson _ ?_
    rw [hy.localCandidates]
    exact h.candidates p.other
  have hadmits : (s p).transport.Admits (g.id p.other) := by
    refine ⟨hx.running, h.named p.other, ?_⟩
    rw [hx.localPeerId]
    exact h.distinct p
  have hturn := turn_run hx.localPeerId hadmits hkeep fun m hm => (hheard m hm).1
  have hsame := @sameSetup_run g (s p).transport call
  have hpayload := DirectVoiceTransport.makeLocalPayloadJson_eq_of_same hsame
  refine ⟨?_, ?_, ?_, fun type => ?_, hturn.within hx.within, fun m hm => ?_, fun m hm => ?_,
    fun m hm => hx.arrived m (List.diff_subset _ _ hm), fun hne => ?_⟩
  · exact hsame.running.trans hx.running
  · exact hsame.localPeerId.trans hx.localPeerId
  · exact hsame.localCandidates.trans hx.localCandidates
  · refine (Exchange.count_append type _ _).trans ?_
    rw [hx.counted]
    exact (hturn.spent type).symm
  · refine Eq.trans ?_ hpayload.symm
    exact (List.mem_append.mp hm).elim (hx.payload m) (hturn.payload m)
  · exact (List.mem_append.mp hm).elim (hx.role m) (hturn.types m)
  · have hcandidates := hturn.candidates
    cases hhears : call.hears (g.id p.other) with
    | none =>
      have hhandled : (s p).handled ≠ [] := by
        intro hnil
        refine hne ?_
        show (s p).handled ++ (call.hears (g.id p.other)).toList = []
        rw [hnil, hhears]
        rfl
      obtain ⟨hroute, hknown⟩ := hx.heard hhandled
      rw [hhears] at hcandidates
      exact ⟨hasRoute_run hadmits hkeep (Or.inl hroute), hcandidates.trans hknown⟩
    | some m =>
      rw [hhears] at hcandidates
      refine ⟨hasRoute_run hadmits hkeep (Or.inr ?_), hcandidates.trans (hheard m hhears).2⟩
      rw [hhears]
      exact Option.some_ne_none m

/-- **The other side** does so too: what is sent to it is added to its inbox. -/
theorem agrees_receive {s : State} (h : Inv g s) (step : Party × Call) :
    Agrees g step.1.other (receive g s step) (act g s step) := by
  have hy := h.agrees step.1.other
  rw [Party.other_other] at hy
  refine { hy with arrived := fun m hm => ?_ }
  exact (List.mem_append.mp hm).elim (fun hm => List.mem_append_left _ (hy.arrived m hm))
    (List.mem_append_right _)

/-- **One step** keeps the invariant of both sides, whoever takes it and whatever the call is. -/
theorem Inv.step {s : State} (h : Inv g s) {step : Party × Call} (hen : Enabled g s step) :
    Inv g (next g s step) := by
  refine ⟨h.named, h.distinct, h.candidates, fun q => ?_⟩
  by_cases hq : q = step.1
  · rw [hq, next_self, next_other]
    exact agrees_act h hen
  · rw [Party.eq_other hq, Party.other_other, next_self, next_other]
    exact agrees_receive h step

theorem inv_of_run {t : List (State × Party × Call)} {s : State} (h : (machine g).Run t s) :
    Inv g s := by
  refine @Machine.Run.invariant _ _ (machine g) (Inv g) (fun _ hs => Init.inv hs) ?_ t s h
  rintro s step _ hi ⟨hen, rfl⟩
  exact hi.step hen

/-- **The exchange settles.** In every run, for both sides: only the one with the smaller id offers
and only the other answers, each at most once; a side repeats its candidates at most eight times;
and a side that has handled a signal of the other knows the candidates of the other. Third parties
may send what they like, and the clocks may show anything. -/
theorem exchange_settles {t : List (State × Party × Call)} {s : State} (h : (machine g).Run t s)
    (p : Party) :
    ((∃ m ∈ (s p).sent, m.1 = .iceOffer) → bytesLt (g.id p) (g.id p.other) = true) ∧
    Exchange.count .iceOffer (s p).sent ≤ 1 ∧
    ((∃ m ∈ (s p).sent, m.1 = .iceAnswer) → bytesLt (g.id p.other) (g.id p) = true) ∧
    Exchange.count .iceAnswer (s p).sent ≤ 1 ∧
    Exchange.count .iceCandidate (s p).sent ≤ 8 ∧
    ((s p).handled ≠ [] → ∃ route, (s p).transport.peers.get (g.id p.other) = some route ∧
      route.candidates = (s p.other).transport.localCandidates) := by
  have hx := (inv_of_run h).agrees p
  have hy := (inv_of_run h).agrees p.other
  refine ⟨?_, ?_, ?_, ?_, ?_, fun hhandled => ?_⟩
  · rintro ⟨m, hm, htype⟩
    exact (hx.role m hm).1 htype
  · rw [hx.counted]
    exact Bool.toNat_le _
  · rintro ⟨m, hm, htype⟩
    exact (hx.role m hm).2 htype
  · rw [hx.counted]
    exact Bool.toNat_le _
  · rw [hx.counted]
    exact hx.within
  · obtain ⟨hroute, hknown⟩ := hx.heard hhandled
    obtain ⟨route, hget⟩ := DirectVoiceTransport.hasRoute_iff.mp hroute
    refine ⟨route, hget, ?_⟩
    rw [hy.localCandidates, ← hknown, DirectVoiceTransport.exchange, hget]
    rfl

/-! ### An offer and an answer -/

/-- Two clients, the first with two candidates and the second with none. -/
def duet : Setting where
  isNumericHost := fun _ => true
  id := fun p => match p with
    | .first => [2]
    | .second => [3]
  candidates := fun p => match p with
    | .first => Protocol.twoCandidates.localCandidates
    | .second => []

/-- Their transports have just been started. -/
def started : State := fun p =>
  { transport :=
      { signalCallback := true
        localPeerId := duet.id p
        localCandidates := duet.candidates p
        running := true } }

theorem started_init : Init duet started where
  named := fun p => by cases p <;> decide
  distinct := fun p => by cases p <;> decide
  candidates := fun p => by
    cases p
    · exact Protocol.localCandidate_twoCandidates
    · exact fun _ hc => absurd hc List.not_mem_nil
  running := fun _ => rfl
  localPeerId := fun _ => rfl
  localCandidates := fun _ => rfl
  unknown := fun _ => rfl
  silent := fun _ => ⟨rfl, rfl, rfl⟩

/-- The payload of a side. -/
def payloadOf (p : Party) : Bytes := (started p).transport.makeLocalPayloadJson

/-- Both are announced, and the offer is answered. -/
def greeting : List (Party × Call) :=
  [ (.first, .ensurePeer 10 [3]),
    (.second, .ensurePeer 11 [2]),
    (.second, .handleSignal 20 [2] .iceOffer (payloadOf .first)),
    (.first, .handleSignal 30 [3] .iceAnswer (payloadOf .second)) ]

theorem greeting_run : (machine duet).Run (Machine.trace (next duet) started greeting)
    (greeting.foldl (next duet) started) := by
  refine Machine.run_trace started_init ?_
  simp only [greeting, Machine.forall_trace_cons, Machine.forall_trace_nil, and_true]
  refine ⟨⟨by decide, ?_⟩, ⟨by decide, ?_⟩, ⟨by decide, ?_⟩, ⟨by decide, ?_⟩⟩
  · decide +kernel
  · decide +kernel
  · decide +kernel
  · decide +kernel

theorem exchange_settles_greeting :
    (greeting.foldl (next duet) started .second).sent = [(.iceAnswer, payloadOf .second)] ∧
      ∃ route, (greeting.foldl (next duet) started .second).transport.peers.get [2] = some route ∧
        route.candidates = Protocol.twoCandidates.localCandidates := by
  refine ⟨by decide +kernel, ?_⟩
  obtain ⟨-, -, -, -, -, hknown⟩ := exchange_settles greeting_run .second
  exact hknown (by decide +kernel)

end IceExchange

end Client

end TarkovVoice

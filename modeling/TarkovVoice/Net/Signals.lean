import TarkovVoice.Net.VoiceDelivery

/-!
# Signals of the direct transport

What the calls of the direct transport do to the exchange of signals with one peer. A route counts
what has been sent: one offer, one answer, and up to eight repetitions of the candidates. Every
signal carries the same payload, the local candidates.

## Main definitions

* `Exchange` — what a route remembers of the exchange
* `signalsTo` — the signals of a call that are for one peer
* `Turn` — what a call does to an exchange

## Main results

* `ensurePeer_turn`, `handleSignal_turn`, `pump_turn`
-/

namespace TarkovVoice

namespace Net

/-- A signal without its target. -/
abbrev Signal := SignalType × Bytes

/-- What a route remembers of the exchange of signals: what the peer told, and what it was sent. -/
structure Exchange where
  candidates : List Candidate := []
  offerSent : Bool := false
  answerSent : Bool := false
  candidateSignalsSent : ℕ := 0

namespace Exchange

/-- How many signals of a type have been sent. Offer and answer are only remembered as sent
or not. -/
def spent (x : Exchange) : SignalType → ℕ
  | .iceOffer => x.offerSent.toNat
  | .iceAnswer => x.answerSent.toNat
  | .iceCandidate => x.candidateSignalsSent

/-- How many signals of a type there are, whatever they carry. -/
def count (type : SignalType) (signals : List Signal) : ℕ :=
  (signals.map Prod.fst).count type

theorem count_append (type : SignalType) (l l' : List Signal) :
    count type (l ++ l') = count type l + count type l' := by
  rw [count, List.map_append, List.count_append]
  rfl

/-- A call turns `x` into `x'` and sends the signals: they carry the payload, are of certain types,
and are counted. The candidates stay as they are, or are replaced by those that were heard. -/
structure Turn (payload : Bytes) (types : SignalType → Prop) (heard : Option (List Candidate))
    (x x' : Exchange) (signals : List Signal) : Prop where
  payload : ∀ s ∈ signals, s.2 = payload
  types : ∀ s ∈ signals, types s.1
  candidates : x'.candidates = heard.getD x.candidates
  spent : ∀ type, x'.spent type = x.spent type + count type signals
  within : x.candidateSignalsSent ≤ 8 → x'.candidateSignalsSent ≤ 8

variable {payload : Bytes} {types : SignalType → Prop} {heard : Option (List Candidate)}
  {x x' x'' : Exchange} {signals signals' : List Signal}

/-- Nothing is sent, and nothing counts as sent that did not before. The candidates are replaced if
the peer told any. -/
theorem Turn.quiet (hcandidates : x'.candidates = heard.getD x.candidates)
    (hspent : ∀ type, x'.spent type = x.spent type) : Turn payload types heard x x' [] where
  payload := fun s hs => by cases hs
  types := fun s hs => by cases hs
  candidates := hcandidates
  spent := hspent
  within := fun hx => (hspent .iceCandidate).le.trans hx

theorem Turn.refl : Turn payload types none x x [] := Turn.quiet rfl fun _ => rfl

/-- One signal is sent, and counts. If it repeats the candidates, their number stays within the
limit. -/
theorem Turn.one {type : SignalType} (htype : types type)
    (hcandidates : x'.candidates = heard.getD x.candidates)
    (hspent : ∀ t, x'.spent t = x.spent t + if t = type then 1 else 0)
    (hwithin : x.candidateSignalsSent ≤ 8 → x'.candidateSignalsSent ≤ 8) :
    Turn payload types heard x x' [(type, payload)] where
  payload := fun s hs => by rw [List.mem_singleton.mp hs]
  types := fun s hs => by rwa [List.mem_singleton.mp hs]
  candidates := hcandidates
  spent := fun t => by
    rw [hspent t, count, List.map_singleton]
    by_cases ht : t = type
    · rw [if_pos ht, ht, List.count_singleton_self]
    · rw [if_neg ht, List.count_eq_zero_of_not_mem fun h => ht (List.mem_singleton.mp h)]
  within := hwithin

theorem Turn.mono {types' : SignalType → Prop} (h : Turn payload types heard x x' signals)
    (htypes : ∀ type, types type → types' type) : Turn payload types' heard x x' signals where
  payload := h.payload
  types := fun s hs => htypes s.1 (h.types s hs)
  candidates := h.candidates
  spent := h.spent
  within := h.within

theorem Turn.trans (h : Turn payload types none x x' signals)
    (h' : Turn payload types none x' x'' signals') :
    Turn payload types none x x'' (signals ++ signals') where
  payload := fun s hs => (List.mem_append.mp hs).elim (h.payload s) (h'.payload s)
  types := fun s hs => (List.mem_append.mp hs).elim (h.types s) (h'.types s)
  candidates := h'.candidates.trans h.candidates
  spent := fun type => by rw [h'.spent, h.spent, count_append, Nat.add_assoc]
  within := fun hx => h'.within (h.within hx)

end Exchange

open Exchange (Turn)

def PeerRoute.exchange (r : PeerRoute) : Exchange where
  candidates := r.candidates
  offerSent := r.offerSent
  answerSent := r.answerSent
  candidateSignalsSent := r.candidateSignalsSent

/-- The signals for a peer among the outputs of a call, in their order. -/
def signalsTo (k : Bytes) (out : List Output) : List Signal :=
  out.filterMap fun
    | .signal targetPeerId type payloadJson =>
      if targetPeerId = k then some (type, payloadJson) else none
    | _ => none

theorem signalsTo_append (k : Bytes) (out out' : List Output) :
    signalsTo k (out ++ out') = signalsTo k out ++ signalsTo k out' := List.filterMap_append

theorem signalsTo_signal_self (k : Bytes) (type : SignalType) (payloadJson : Bytes) :
    signalsTo k [.signal k type payloadJson] = [(type, payloadJson)] := by
  simp [signalsTo]

theorem signalsTo_signal_of_ne {k k' : Bytes} (h : k' ≠ k) (type : SignalType)
    (payloadJson : Bytes) : signalsTo k [.signal k' type payloadJson] = [] := by
  simp [signalsTo, h]

namespace DirectVoiceTransport

/-- The exchange with a peer. Without a route nothing has been sent. -/
def exchange (d : DirectVoiceTransport) (k : Bytes) : Exchange :=
  match d.peers.get k with
  | some route => route.exchange
  | none => {}

variable {d : DirectVoiceTransport} {k : Bytes}

theorem exchange_route (now : ℕ) (peerId : Bytes) :
    (d.route now peerId).exchange = d.exchange peerId :=
  view_route (f := fun | some route => route.exchange | none => {}) (fun _ => rfl) now peerId

theorem exchange_setRoute (peerId k : Bytes) (r : PeerRoute) :
    (d.setRoute peerId r).exchange k = if k = peerId then r.exchange else d.exchange k :=
  view_setRoute (fun | some route => route.exchange | none => {}) peerId k r

section Turns

variable {payload : Bytes} {types : SignalType → Prop} {heard : Option (List Candidate)}
  {peerId : Bytes} {r : PeerRoute} {out : List Output}

theorem turn_setRoute_self
    (h : Turn payload types heard (d.exchange peerId) r.exchange (signalsTo peerId out)) :
    Turn payload types heard (d.exchange peerId) ((d.setRoute peerId r).exchange peerId)
      (signalsTo peerId out) := by
  rw [exchange_setRoute, if_pos rfl]
  exact h

theorem turn_setRoute_of_ne (hk : k ≠ peerId) (hout : signalsTo k out = []) :
    Turn payload types none (d.exchange k) ((d.setRoute peerId r).exchange k)
      (signalsTo k out) := by
  rw [exchange_setRoute, if_neg hk, hout]
  exact .refl

/-- Replacing the route of a peer is a turn of its exchange, and of no other. -/
theorem turn_setRoute
    (hself : Turn payload types none (d.exchange peerId) r.exchange (signalsTo peerId out))
    (hother : k ≠ peerId → signalsTo k out = []) :
    Turn payload types none (d.exchange k) ((d.setRoute peerId r).exchange k)
      (signalsTo k out) := by
  by_cases hk : k = peerId
  · subst hk
    exact turn_setRoute_self hself
  · exact turn_setRoute_of_ne hk (hother hk)

end Turns

/-! ### Announcements and signals -/

/-- **`ensurePeer`** sends at most an offer, and only when it is asked to. An offer is not sent
twice while the route is there. -/
theorem ensurePeer_turn (now : ℕ) (peerId : Bytes) (initiateOffer : Bool) (k : Bytes) :
    Turn d.makeLocalPayloadJson (fun type => type = .iceOffer ∧ initiateOffer = true) none
      (d.exchange k) ((d.ensurePeer now peerId initiateOffer).1.exchange k)
      (signalsTo k (d.ensurePeer now peerId initiateOffer).2) := by
  rw [ensurePeer]
  split
  · exact .refl
  · dsimp only
    have hroute := @exchange_route d now peerId
    split
    · next h =>
      obtain ⟨hinitiate, hnew, -⟩ := h
      refine turn_setRoute ?_ fun hk => signalsTo_signal_of_ne (Ne.symm hk) _ _
      rw [signalsTo_signal_self, ← hroute]
      refine .one ⟨rfl, hinitiate⟩ rfl (fun type => ?_) id
      cases type with
      | iceOffer => simp [Exchange.spent, PeerRoute.exchange, hnew]
      | iceAnswer => rfl
      | iceCandidate => rfl
    · refine turn_setRoute ?_ fun _ => rfl
      rw [← hroute]
      exact .quiet rfl fun type => by cases type <;> rfl

/-- An announcement of somebody else. -/
theorem ensurePeer_turn_of_ne {peerId : Bytes} (hne : k ≠ peerId) (now : ℕ) (initiateOffer : Bool)
    {payload : Bytes} {types : SignalType → Prop} :
    Turn payload types none (d.exchange k) ((d.ensurePeer now peerId initiateOffer).1.exchange k)
      (signalsTo k (d.ensurePeer now peerId initiateOffer).2) := by
  rw [ensurePeer]
  split
  · exact .refl
  · dsimp only
    split
    · exact turn_setRoute_of_ne hne (signalsTo_signal_of_ne (Ne.symm hne) _ _)
    · exact turn_setRoute_of_ne hne rfl

theorem removePeer_turn {peerId : Bytes} (hne : k ≠ peerId) {payload : Bytes}
    {types : SignalType → Prop} :
    Turn payload types none (d.exchange k) ((d.removePeer peerId).exchange k) [] := by
  have hsame : (d.removePeer peerId).exchange k = d.exchange k := by
    rw [exchange, removePeer, FMap.get_delete_of_ne _ hne]
    rfl
  rw [hsame]
  exact .refl

/-- Whether a signal is answered: it is an offer, the first that is answered, and there is a
callback to send the answer with. -/
def Answers (d : DirectVoiceTransport) (sourcePeerId : Bytes) (signalType : SignalType) : Prop :=
  signalType = .iceOffer ∧ (d.exchange sourcePeerId).answerSent = false ∧ d.signalCallback = true

instance (sourcePeerId : Bytes) (signalType : SignalType) :
    Decidable (d.Answers sourcePeerId signalType) := inferInstanceAs (Decidable (_ ∧ _ ∧ _))

/-- What `handleSignal` does: it takes the candidates, and answers an offer once. Nothing but the
route of the one who sent it is touched. -/
theorem handleSignal_eq (hrun : d.running = true) {sourcePeerId : Bytes}
    (hsource : sourcePeerId ≠ []) (hlocal : sourcePeerId ≠ d.localPeerId)
    (isNumericHost : Bytes → Bool) (now : ℕ) (signalType : SignalType) (payloadJson k : Bytes) :
    ∃ r, (d.handleSignal isNumericHost now sourcePeerId signalType payloadJson).1 =
        d.setRoute sourcePeerId r ∧
      r.exchange = { d.exchange sourcePeerId with
        candidates := parseCandidates payloadJson
        answerSent := (d.exchange sourcePeerId).answerSent ||
          decide (d.Answers sourcePeerId signalType) } ∧
      signalsTo k (d.handleSignal isNumericHost now sourcePeerId signalType payloadJson).2 =
        if d.Answers sourcePeerId signalType then
          signalsTo k [.signal sourcePeerId .iceAnswer d.makeLocalPayloadJson]
        else [] := by
  have hopen : ¬ (d.running = false ∨ sourcePeerId = [] ∨ sourcePeerId = d.localPeerId) := by
    simp [hrun, hsource, hlocal]
  have hroute := @exchange_route d now sourcePeerId
  generalize hresult : d.handleSignal isNumericHost now sourcePeerId signalType payloadJson = result
  rw [handleSignal, if_neg hopen] at hresult
  extract_lets found created candidates known answers answered at hresult
  subst hresult
  have hcreated : created.exchange = d.exchange sourcePeerId := by
    rw [← hroute]
    show (if found.createdAt = 0 then { found with createdAt := now } else found).exchange =
      found.exchange
    split <;> rfl
  have hanswers : answers ↔ d.Answers sourcePeerId signalType := by
    rw [Answers, ← hcreated]
    exact Iff.rfl
  refine ⟨_, rfl, ?_, ?_⟩
  · show answered.exchange = _
    rw [← hcreated]
    show (if answers then { known with answerSent := true } else known).exchange = _
    by_cases ha : d.Answers sourcePeerId signalType
    · rw [if_pos (hanswers.mpr ha), decide_eq_true ha, Bool.or_true]
      rfl
    · rw [if_neg fun h => ha (hanswers.mp h), decide_eq_false ha, Bool.or_false]
      rfl
  · show signalsTo k ((if answers then _ else _) ++ sendPacket answered d.pingPacket) = _
    have hping : signalsTo k (sendPacket answered d.pingPacket) = [] :=
      filterMap_sendPacket (fun _ _ => rfl) answered d.pingPacket
    rw [signalsTo_append, hping, List.append_nil]
    by_cases ha : d.Answers sourcePeerId signalType
    · rw [if_pos (hanswers.mpr ha), if_pos ha]
    · rw [if_neg fun h => ha (hanswers.mp h), if_neg ha]
      rfl

/-- **`handleSignal`** takes the candidates, and sends at most an answer, only to an offer. The
sender has an id, which is not the transport's own, and the transport runs; otherwise nothing
happens. -/
theorem handleSignal_turn (hrun : d.running = true) (hk : k ≠ []) (hlocal : k ≠ d.localPeerId)
    (isNumericHost : Bytes → Bool) (now : ℕ) (signalType : SignalType) (payloadJson : Bytes) :
    Turn d.makeLocalPayloadJson (fun type => type = .iceAnswer ∧ signalType = .iceOffer)
      (some (parseCandidates payloadJson)) (d.exchange k)
      ((d.handleSignal isNumericHost now k signalType payloadJson).1.exchange k)
      (signalsTo k (d.handleSignal isNumericHost now k signalType payloadJson).2) := by
  obtain ⟨r, hset, hr, hout⟩ := handleSignal_eq hrun hk hlocal isNumericHost now signalType
    payloadJson k
  rw [hset]
  refine turn_setRoute_self ?_
  rw [hr, hout]
  by_cases ha : d.Answers k signalType
  · obtain ⟨htype, hnew, -⟩ := id ha
    rw [if_pos ha, signalsTo_signal_self, decide_eq_true ha]
    refine .one ⟨rfl, htype⟩ rfl (fun type => ?_) id
    cases type with
    | iceOffer => rfl
    | iceAnswer => simp [Exchange.spent, hnew]
    | iceCandidate => rfl
  · rw [if_neg ha, decide_eq_false ha, Bool.or_false]
    exact .quiet rfl fun type => by cases type <;> rfl

/-- A signal of somebody else. -/
theorem handleSignal_turn_of_ne {sourcePeerId : Bytes} (hne : k ≠ sourcePeerId)
    (isNumericHost : Bytes → Bool) (now : ℕ) (signalType : SignalType) (payloadJson : Bytes)
    {payload : Bytes} {types : SignalType → Prop} :
    Turn payload types none (d.exchange k)
      ((d.handleSignal isNumericHost now sourcePeerId signalType payloadJson).1.exchange k)
      (signalsTo k (d.handleSignal isNumericHost now sourcePeerId signalType payloadJson).2) := by
  by_cases hclosed : d.running = false ∨ sourcePeerId = [] ∨ sourcePeerId = d.localPeerId
  · rw [handleSignal, if_pos hclosed]
    exact .refl
  · obtain ⟨hrun, hsource, hlocal⟩ :
        d.running = true ∧ sourcePeerId ≠ [] ∧ sourcePeerId ≠ d.localPeerId := by
      simpa [not_or] using hclosed
    obtain ⟨r, hset, -, hout⟩ := handleSignal_eq hrun hsource hlocal isNumericHost now signalType
      payloadJson k
    rw [hset]
    refine turn_setRoute_of_ne hne ?_
    rw [hout, signalsTo_signal_of_ne (Ne.symm hne)]
    exact ite_self _

/-! ### `pump` -/

theorem makeLocalPayloadJson_eq_of_same {d' : DirectVoiceTransport} (h : SameSetup d d') :
    d'.makeLocalPayloadJson = d.makeLocalPayloadJson := by
  obtain ⟨_, rfl⟩ := h
  rfl

/-- A voice packet says nothing about signals. -/
theorem receiveVoice_exchange (r : PeerRoute) (packet : DecodedPacket) (k : Bytes) :
    (receiveVoice r packet).1.exchange = r.exchange ∧
      signalsTo k (receiveVoice r packet).2 = [] := by
  rw [receiveVoice]
  split
  · exact ⟨rfl, rfl⟩
  · exact ⟨rfl, rfl⟩

/-- A datagram sends nothing and tells no candidates, whatever it holds and whoever it is from. -/
theorem receive_turn (now : ℕ) (a : Arrival) (k : Bytes) {payload : Bytes}
    {types : SignalType → Prop} :
    Turn payload types none (d.exchange k) ((d.receive now a).1.exchange k)
      (signalsTo k (d.receive now a).2) := by
  rw [receive]
  cases decodePacket a.data a.data.length with
  | error _ => exact .refl
  | ok packet =>
    dsimp only
    split
    · exact .refl
    · have hroute := @exchange_route d now packet.sourcePeerId
      rw [receivePacket]
      dsimp only
      split
      · obtain ⟨hexchange, -⟩ := receiveVoice_exchange
          { d.route now packet.sourcePeerId with
            learnedEndpoint :=
              a.source.orElse fun _ => (d.route now packet.sourcePeerId).learnedEndpoint
            lastHeard := now } packet k
        have hout := fun k r => (receiveVoice_exchange r packet k).2
        refine turn_setRoute ?_ fun _ => hout k _
        rw [hout, hexchange, ← hroute]
        exact .refl
      · refine turn_setRoute ?_ fun _ => rfl
        rw [← hroute]
        exact .refl

theorem drainSocket_turn (now : ℕ) (k : Bytes) {payload : Bytes} {types : SignalType → Prop}
    (arrivals : List Arrival) : ∀ d : DirectVoiceTransport,
      Turn payload types none (d.exchange k) ((drainSocket now d arrivals).1.exchange k)
        (signalsTo k (drainSocket now d arrivals).2.1) := by
  refine drainSocket_rule now (P := fun d _ d' out =>
    Turn payload types none (d.exchange k) (d'.exchange k) (signalsTo k out)) (fun _ => .refl) ?_
    arrivals
  intro d a l d' out hrest
  rw [signalsTo_append]
  exact (receive_turn now a k).trans hrest

/-- One route of the loop: at most one repetition of the candidates, for the peer of the route. A
ping may go out as well, which is no signal. -/
theorem pumpRoute_turn (now : ℕ) (peerId : Bytes) (r : PeerRoute) :
    Turn d.makeLocalPayloadJson (fun type => type = .iceCandidate) none r.exchange
      (d.pumpRoute now peerId r).1.exchange (signalsTo peerId (d.pumpRoute now peerId r).2) ∧
    ∀ k ≠ peerId, signalsTo k (d.pumpRoute now peerId r).2 = [] := by
  obtain ⟨_, _, ping, resends, heq, hping, hless⟩ := @pumpRoute_eq d now peerId r
  have hsilent : ∀ k, signalsTo k ping = [] := by
    rcases hping with rfl | rfl
    · exact fun _ => rfl
    · exact fun k => filterMap_sendPacket (fun _ _ => rfl) r _
  rw [heq]
  cases resends with
  | false =>
    have hnone : ∀ k, signalsTo k (ping ++ []) = [] := by
      intro k
      rw [List.append_nil, hsilent]
    refine ⟨?_, fun k _ => hnone k⟩
    rw [if_neg Bool.false_ne_true, hnone]
    exact .refl
  | true =>
    refine ⟨?_, fun k hk => ?_⟩
    · rw [signalsTo_append, hsilent, List.nil_append, if_pos rfl, signalsTo_signal_self]
      refine .one rfl rfl (fun type => ?_) fun _ => hless rfl
      cases type <;> rfl
    · rw [signalsTo_append, hsilent, List.nil_append, if_pos rfl,
        signalsTo_signal_of_ne (Ne.symm hk)]

theorem pumpRoutes_turn (now : ℕ) (k : Bytes) (peerIds : List Bytes) :
    ∀ d : DirectVoiceTransport,
      Turn d.makeLocalPayloadJson (fun type => type = .iceCandidate) none (d.exchange k)
        ((pumpRoutes now d peerIds).1.exchange k) (signalsTo k (pumpRoutes now d peerIds).2) := by
  refine pumpRoutes_rule now (P := fun d d' out =>
    Turn d.makeLocalPayloadJson (fun type => type = .iceCandidate) none (d.exchange k)
      (d'.exchange k) (signalsTo k out)) (fun _ => .refl) ?_ peerIds
  intro d p r d' out hr hrest
  obtain ⟨hself, hother⟩ := @pumpRoute_turn d now p r
  have hroute : r.exchange = d.exchange p := by rw [exchange, hr]
  rw [hroute] at hself
  rw [signalsTo_append]
  exact (turn_setRoute hself fun hk => hother k hk).trans hrest

/-- **`pump`** repeats the candidates, at most eight times in all, and sends no other signal. The
datagrams it reads first make no difference to that. -/
theorem pump_turn (now : ℕ) (arrivals : List Arrival) (k : Bytes) :
    Turn d.makeLocalPayloadJson (fun type => type = .iceCandidate) none (d.exchange k)
      ((d.pump now arrivals).1.exchange k) (signalsTo k (d.pump now arrivals).2.1) := by
  rw [pump]
  split
  · exact .refl
  · dsimp only
    rw [signalsTo_append]
    have hroutes := pumpRoutes_turn now k (drainSocket now d arrivals).1.peersInOrder
      (drainSocket now d arrivals).1
    rw [makeLocalPayloadJson_eq_of_same (sameSetup_drainSocket now arrivals d)] at hroutes
    exact (drainSocket_turn now k arrivals d).trans hroutes

end DirectVoiceTransport

end Net

end TarkovVoice

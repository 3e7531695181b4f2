import TarkovVoice.Net.VoiceDelivery

/-!
# Routes of the direct transport

Which calls create a route and which remove one, and that datagrams go along routes. A route is
created when a peer is announced, when it sends a signal, and when a datagram of it is read.

## Main definitions

* `HasRoute`, `Admits`
* `sourceOf` — the peer a datagram is taken to be from
* `Routed` — what is sent goes along the routes there are

## Main results

* `hasRoute_ensurePeer`, `hasRoute_handleSignal`, `hasRoute_removePeer`, `hasRoute_pump`
* `routed_handleSignal`, `routed_pump`, `routed_sendVoiceFrame`
-/

namespace TarkovVoice

namespace Net

namespace DirectVoiceTransport

/-- There is a route for a peer, that is, `peers_` has an entry under its id. -/
def HasRoute (d : DirectVoiceTransport) (k : Bytes) : Prop := k ∈ d.peers.keys

/-- The peers that an announcement or a signal creates a route for, once the transport is running:
those that have an id which is not our own. -/
def Admits (d : DirectVoiceTransport) (k : Bytes) : Prop :=
  d.running = true ∧ k ≠ [] ∧ k ≠ d.localPeerId

/-- The peer that a datagram is from, if it is a packet of another peer in the room. -/
def sourceOf (d : DirectVoiceTransport) (a : Arrival) : Option Bytes :=
  match decodePacket a.data a.data.length with
  | .ok packet =>
    if packet.roomId ≠ d.roomId ∨ packet.sourcePeerId = [] ∨
        packet.sourcePeerId = d.localPeerId then none
    else some packet.sourcePeerId
  | .error _ => none

variable {d : DirectVoiceTransport} {k : Bytes}

instance : Decidable (d.HasRoute k) := inferInstanceAs (Decidable (k ∈ d.peers.keys))

theorem hasRoute_iff : d.HasRoute k ↔ ∃ r, d.peers.get k = some r := FMap.mem_keys

theorem not_admits_iff :
    ¬ d.Admits k ↔ d.running = false ∨ k = [] ∨ k = d.localPeerId := by
  rw [Admits, not_and_or, not_and_or, not_not, not_not, Bool.not_eq_true]

theorem SameSetup.sourceOf_eq {d' : DirectVoiceTransport} (h : SameSetup d d') (a : Arrival) :
    d'.sourceOf a = d.sourceOf a := by
  obtain ⟨_, rfl⟩ := h
  rfl

/-! ### Creating and removing routes -/

theorem hasRoute_setRoute (peerId : Bytes) (r : PeerRoute) :
    (d.setRoute peerId r).HasRoute k ↔ d.HasRoute k ∨ k = peerId :=
  FMap.mem_keys_put.trans or_comm

theorem hasRoute_ensurePeer (now : ℕ) (peerId : Bytes) (initiateOffer : Bool) :
    (d.ensurePeer now peerId initiateOffer).1.HasRoute k ↔
      d.HasRoute k ∨ (k = peerId ∧ d.Admits peerId) := by
  rw [ensurePeer]
  split
  · next h => exact (or_iff_left fun hk => not_admits_iff.mpr h hk.2).symm
  · next h =>
    have hroute : k = peerId ∧ d.Admits peerId ↔ k = peerId :=
      and_iff_left (not_not.mp (not_admits_iff.not.mpr h))
    rw [hroute]
    dsimp only
    split <;> exact hasRoute_setRoute peerId _

theorem hasRoute_handleSignal (isNumericHost : Bytes → Bool) (now : ℕ) (sourcePeerId : Bytes)
    (signalType : SignalType) (payloadJson : Bytes) :
    (d.handleSignal isNumericHost now sourcePeerId signalType payloadJson).1.HasRoute k ↔
      d.HasRoute k ∨ (k = sourcePeerId ∧ d.Admits sourcePeerId) := by
  rw [handleSignal]
  split
  · next h => exact (or_iff_left fun hk => not_admits_iff.mpr h hk.2).symm
  · next h =>
    have hroute : k = sourcePeerId ∧ d.Admits sourcePeerId ↔ k = sourcePeerId :=
      and_iff_left (not_not.mp (not_admits_iff.not.mpr h))
    rw [hroute]
    exact hasRoute_setRoute sourcePeerId _

theorem hasRoute_removePeer (peerId : Bytes) :
    (d.removePeer peerId).HasRoute k ↔ k ≠ peerId ∧ d.HasRoute k :=
  FMap.mem_keys_delete

theorem not_hasRoute_stop : ¬ d.stop.HasRoute k := List.not_mem_nil

theorem hasRoute_receive (now : ℕ) (a : Arrival) :
    (d.receive now a).1.HasRoute k ↔ d.HasRoute k ∨ d.sourceOf a = some k := by
  rw [receive, sourceOf]
  cases decodePacket a.data a.data.length with
  | error _ => exact (or_iff_left (Option.some_ne_none k).symm).symm
  | ok packet =>
    dsimp only
    split
    · exact (or_iff_left (Option.some_ne_none k).symm).symm
    · rw [Option.some_inj, eq_comm]
      exact hasRoute_setRoute packet.sourcePeerId _

theorem hasRoute_drainSocket (now : ℕ) (arrivals : List Arrival) :
    ∀ d : DirectVoiceTransport, (drainSocket now d arrivals).1.HasRoute k ↔
      d.HasRoute k ∨ ∃ a ∈ readable arrivals, d.sourceOf a = some k := by
  refine drainSocket_rule now (P := fun d l d' _ => d'.HasRoute k ↔
    d.HasRoute k ∨ ∃ a ∈ l, d.sourceOf a = some k) ?_ ?_ arrivals
  · intro d
    refine (or_iff_left ?_).symm
    rintro ⟨a, ha, -⟩
    exact absurd ha List.not_mem_nil
  · intro d a l d' out hrest
    simp only [(sameSetup_receive now a).sourceOf_eq] at hrest
    rw [List.exists_mem_cons_iff, ← or_assoc, ← hasRoute_receive now]
    exact hrest

theorem hasRoute_pumpRoutes (now : ℕ) (peerIds : List Bytes) :
    ∀ d : DirectVoiceTransport, (pumpRoutes now d peerIds).1.HasRoute k ↔ d.HasRoute k := by
  refine pumpRoutes_rule now (P := fun d d' _ => d'.HasRoute k ↔ d.HasRoute k) (fun _ => Iff.rfl) ?_
    peerIds
  intro d p r d' out hr hrest
  refine hrest.trans ((hasRoute_setRoute p _).trans (or_iff_left_of_imp ?_))
  rintro rfl
  exact hasRoute_iff.mpr ⟨r, hr⟩

/-- **A pump** creates a route for every peer it reads a packet from, if it runs, and removes none.
What it reads ends at the first datagram that does not fit its buffer. -/
theorem hasRoute_pump (now : ℕ) (arrivals : List Arrival) :
    (d.pump now arrivals).1.HasRoute k ↔ d.HasRoute k ∨
      (d.running = true ∧ ∃ a ∈ readable arrivals, d.sourceOf a = some k) := by
  rw [pump]
  by_cases hrun : d.running = true
  · rw [if_neg (by rw [hrun]; exact Bool.noConfusion), and_iff_right hrun]
    exact (hasRoute_pumpRoutes now _ _).trans (hasRoute_drainSocket now arrivals d)
  · rw [if_pos (Bool.not_eq_true _ ▸ hrun)]
    exact (or_iff_left fun h => hrun h.1).symm

/-! ### Sending along routes -/

/-- The endpoints of a peer, as `sendPacket` would choose them. A peer without a route has none. -/
def targetsOf (d : DirectVoiceTransport) (k : Bytes) : List SocketEndpoint :=
  match d.peers.get k with
  | some route => targets route
  | none => []

/-- The endpoints that outputs go to. -/
def sentTo (out : List Output) : List SocketEndpoint :=
  out.filterMap fun
    | .datagram endpoint _ => some endpoint
    | _ => none

/-- What is sent goes along the routes there are: each datagram to an endpoint of a peer that has
one. -/
def Routed (d : DirectVoiceTransport) (out : List Output) : Prop :=
  ∀ e ∈ sentTo out, ∃ k, d.HasRoute k ∧ e ∈ d.targetsOf k

theorem targetsOf_eq {r : PeerRoute} (h : d.peers.get k = some r) : d.targetsOf k = targets r := by
  rw [targetsOf, h]

theorem targetsOf_setRoute (peerId : Bytes) (r : PeerRoute) :
    (d.setRoute peerId r).targetsOf k = if k = peerId then targets r else d.targetsOf k :=
  view_setRoute (fun | some route => targets route | none => []) peerId k r

/-- A way on which every datagram arrives. -/
def everywhere : Path := ⟨fun _ => true, id⟩

theorem sentTo_eq_carry (out : List Output) :
    sentTo out = (everywhere.carry out).filterMap Arrival.source := by
  rw [sentTo, Path.carry, List.filterMap_filterMap]
  refine congrArg (fun f => out.filterMap f) (funext fun o => ?_)
  cases o <;> rfl

theorem sentTo_append (out out' : List Output) : sentTo (out ++ out') = sentTo out ++ sentTo out' :=
  List.filterMap_append

theorem mem_sentTo_sendPacket {r : PeerRoute} {packet : Bytes} {e : SocketEndpoint}
    (h : e ∈ sentTo (sendPacket r packet)) : e ∈ targets r := by
  rw [sendPacket] at h
  split at h
  · exact absurd h List.not_mem_nil
  · rw [sentTo, List.filterMap_map] at h
    obtain ⟨e', he', heq⟩ := List.mem_filterMap.mp h
    rwa [← Option.some.inj heq]

theorem Routed.nil : d.Routed [] := fun _ he => absurd he List.not_mem_nil

theorem routed_of_sentTo_eq_nil {out : List Output} (h : sentTo out = []) : d.Routed out := by
  intro e he
  rw [h] at he
  exact absurd he List.not_mem_nil

theorem Routed.append {out out' : List Output} (h : d.Routed out) (h' : d.Routed out') :
    d.Routed (out ++ out') := by
  intro e he
  rw [sentTo_append] at he
  exact (List.mem_append.mp he).elim (h e) (h' e)

/-- A packet for a peer whose route has just been replaced. It goes to the endpoints of the new
route. -/
theorem routed_setRoute (peerId : Bytes) (r : PeerRoute) {out : List Output}
    (h : ∀ e ∈ sentTo out, e ∈ targets r) : (d.setRoute peerId r).Routed out := by
  refine fun e he => ⟨peerId, (hasRoute_setRoute peerId r).mpr (Or.inr rfl), ?_⟩
  rw [targetsOf_setRoute, if_pos rfl]
  exact h e he

/-- Routes that stay, with their endpoints. What went along routes before still does, whatever
routes are added. -/
theorem Routed.mono {d' : DirectVoiceTransport} {out : List Output} (h : d.Routed out)
    (hroute : ∀ k, d.HasRoute k → d'.HasRoute k)
    (htargets : ∀ k, d'.targetsOf k = d.targetsOf k) : d'.Routed out := by
  intro e he
  obtain ⟨k, hk, hmem⟩ := h e he
  exact ⟨k, hroute k hk, (htargets k).symm ▸ hmem⟩

theorem routed_handleSignal (isNumericHost : Bytes → Bool) (now : ℕ) (sourcePeerId : Bytes)
    (signalType : SignalType) (payloadJson : Bytes) :
    (d.handleSignal isNumericHost now sourcePeerId signalType payloadJson).1.Routed
      (d.handleSignal isNumericHost now sourcePeerId signalType payloadJson).2 := by
  generalize hresult : d.handleSignal isNumericHost now sourcePeerId signalType payloadJson = result
  rw [handleSignal] at hresult
  split at hresult
  · subst hresult
    exact .nil
  · extract_lets found created candidates known answers answered at hresult
    have hanswer : sentTo (if answers then
        [.signal sourcePeerId .iceAnswer d.makeLocalPayloadJson] else []) = [] := by
      split <;> rfl
    subst hresult
    refine routed_setRoute sourcePeerId _ fun e he => ?_
    change e ∈ sentTo (_ ++ sendPacket answered d.pingPacket) at he
    rw [sentTo_append, hanswer, List.nil_append] at he
    exact mem_sentTo_sendPacket he

theorem pumpRoute_targets (now : ℕ) (peerId : Bytes) (r : PeerRoute) :
    targets (d.pumpRoute now peerId r).1 = targets r ∧
      ∀ e ∈ sentTo (d.pumpRoute now peerId r).2, e ∈ targets r := by
  obtain ⟨_, _, ping, resends, heq, hping, -⟩ := @pumpRoute_eq d now peerId r
  have hsignal : sentTo (if resends then
      [.signal peerId .iceCandidate d.makeLocalPayloadJson] else []) = [] := by
    cases resends <;> rfl
  rw [heq, sentTo_append, hsignal, List.append_nil]
  refine ⟨rfl, fun e he => ?_⟩
  rcases hping with rfl | rfl
  · exact absurd he List.not_mem_nil
  · exact mem_sentTo_sendPacket he

theorem pumpRoutes_routed (now : ℕ) (peerIds : List Bytes) :
    ∀ d : DirectVoiceTransport, (∀ k, (pumpRoutes now d peerIds).1.targetsOf k = d.targetsOf k) ∧
      (∀ k, d.HasRoute k → (pumpRoutes now d peerIds).1.HasRoute k) ∧
      (pumpRoutes now d peerIds).1.Routed (pumpRoutes now d peerIds).2 := by
  refine pumpRoutes_rule now (P := fun d d' out => (∀ k, d'.targetsOf k = d.targetsOf k) ∧
    (∀ k, d.HasRoute k → d'.HasRoute k) ∧ d'.Routed out) ?_ ?_ peerIds
  · exact fun d => ⟨fun _ => rfl, fun _ => id, .nil⟩
  · intro d p r d' out hr hrest
    obtain ⟨htargets, hroutes, hrest⟩ := hrest
    obtain ⟨hsame, hsent⟩ := @pumpRoute_targets d now p r
    refine ⟨fun k => ?_, fun k hk => hroutes k ((hasRoute_setRoute p _).mpr (Or.inl hk)), ?_⟩
    · rw [htargets, targetsOf_setRoute]
      split
      · next hk => rw [hk, hsame, targetsOf_eq hr]
      · rfl
    · have hone := @routed_setRoute d p _ _ fun e he => hsame.symm ▸ hsent e he
      exact (hone.mono hroutes htargets).append hrest

theorem routed_pump (now : ℕ) (arrivals : List Arrival) :
    (d.pump now arrivals).1.Routed (d.pump now arrivals).2.1 := by
  rw [pump]
  split
  · exact .nil
  · have hquiet : sentTo (drainSocket now d arrivals).2.1 = [] :=
      filterMap_drainSocket (fun _ => rfl) now arrivals d
    exact (routed_of_sentTo_eq_nil hquiet).append
      (pumpRoutes_routed now _ _).2.2

theorem routed_sendVoiceFrame (f : Audio.EncodedVoiceFrame) : d.Routed (d.sendVoiceFrame f) := by
  intro e he
  rw [sendVoiceFrame] at he
  split at he
  · exact absurd he List.not_mem_nil
  · obtain ⟨o, ho, heq⟩ := List.mem_filterMap.mp he
    obtain ⟨k, -, hk⟩ := List.mem_flatMap.mp ho
    cases hr : d.peers.get k with
    | none =>
      rw [hr] at hk
      exact absurd hk List.not_mem_nil
    | some r =>
      rw [hr] at hk
      refine ⟨k, hasRoute_iff.mpr ⟨r, hr⟩, ?_⟩
      rw [targetsOf_eq hr]
      exact mem_sentTo_sendPacket (List.mem_filterMap.mpr ⟨o, hk, heq⟩)

end DirectVoiceTransport

end Net

end TarkovVoice

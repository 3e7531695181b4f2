import TarkovVoice.Net.Drained
import TarkovVoice.Net.Peerwise

/-!
# Where a peer is reached

A route is all that the direct transport remembers of a peer, and three of its fields decide where
the peer is sent to and whether it counts as connected. This file reads them off what has happened
to the peer since its route was last removed: the packets of it that were read, and the signals of
it that were handled. Nothing else matters, in particular nothing that is said about other peers.

The answer has the shape of a fold over happenings in which a removal forgets everything before, so
the fold is described first, by the happenings since the last removal.

## Main definitions

* `Happening`, `Contact` — what happens to a peer, and what is remembered of it
* `Tracked.since` — the happenings since the last removal
* `Tracked.happenings` — those of a call

## Main results

* `Contact.foldl_eq` — the fold, by the happenings since the last removal
* `Tracked.contactOf_call` — a call does to a peer what its happenings say
* `Tracked.contact_of_run`
-/

namespace TarkovVoice

namespace Net

/-- What happens to a peer, as far as it concerns where the peer is: all else that a transport does
leaves that as it is. -/
inductive Happening
  /-- A packet of it is read, which came from `source`. -/
  | packet (source : Option SocketEndpoint)
  /-- A signal of it is handled, which names the endpoints. -/
  | signal (endpoints : List SocketEndpoint)
  | removal

namespace Happening

/-- The source of a packet, if it is known. -/
def source : Happening → Option SocketEndpoint
  | .packet source => source
  | _ => none

/-- The endpoints of a signal. -/
def endpoints : Happening → Option (List SocketEndpoint)
  | .signal endpoints => some endpoints
  | _ => none

def isPacket : Happening → Bool
  | .packet _ => true
  | _ => false

def isRemoval : Happening → Bool
  | .removal => true
  | _ => false

end Happening

/-- What a route says about where its peer is. Without a route nothing is known. -/
@[ext] structure Contact where
  heard : Bool := false
  learned : Option SocketEndpoint := none
  endpoints : List SocketEndpoint := []

namespace Contact

/-- What a happening does. A packet whose source is unknown is heard, but teaches nothing. -/
def after (c : Contact) : Happening → Contact
  | .packet source => { c with heard := true, learned := source.orElse fun _ => c.learned }
  | .signal endpoints => { c with endpoints }
  | .removal => {}

/-- Where the peer is sent to: the endpoint that was learned, or else all that it named. -/
def targets (c : Contact) : List SocketEndpoint :=
  match c.learned with
  | some endpoint => [endpoint]
  | none => c.endpoints

end Contact

namespace Tracked

/-- The happenings since the last removal. With it the route is gone, and with the route all that
was remembered. -/
def since (l : List Happening) : List Happening := l.rtakeWhile fun h => !h.isRemoval

theorem since_concat (l : List Happening) (h : Happening) :
    since (l ++ [h]) = if h.isRemoval then [] else since l ++ [h] := by
  by_cases hr : h.isRemoval = true
  · rw [if_pos hr, since, List.rtakeWhile_concat_neg _ _ _ (by rw [hr]; exact Bool.noConfusion)]
  · have hkept : (!h.isRemoval) = true := by rw [Bool.eq_false_of_not_eq_true hr]; rfl
    rw [if_neg hr]
    exact List.rtakeWhile_concat_pos _ _ _ hkept

end Tracked

open Tracked (since)

/-- The last of the things that happenings say, with one more. -/
theorem getLast?_filterMap_concat {γ : Type*} (f : Happening → Option γ) (l : List Happening)
    (h : Happening) :
    ((l ++ [h]).filterMap f).getLast? = (f h).orElse fun _ => (l.filterMap f).getLast? := by
  rw [List.filterMap_append]
  cases hf : f h with
  | none => rw [List.filterMap_cons_none hf, List.filterMap_nil, List.append_nil]; rfl
  | some x => rw [List.filterMap_cons_some hf, List.filterMap_nil, List.getLast?_concat]; rfl

/-- **What is remembered** of a peer: whether a packet of it was read since the last removal, where
the last one whose source is known came from, and the endpoints of the last signal. -/
theorem Contact.foldl_eq (l : List Happening) : l.foldl Contact.after {} =
    { heard := (since l).any Happening.isPacket
      learned := ((since l).filterMap Happening.source).getLast?
      endpoints := (((since l).filterMap Happening.endpoints).getLast?).getD [] } := by
  induction l using List.reverseRecOn with
  | nil => rfl
  | append_singleton l h ih =>
    rw [List.foldl_append, List.foldl_cons, List.foldl_nil, ih, Tracked.since_concat]
    cases h with
    | removal => rfl
    | packet source =>
      rw [if_neg (by exact Bool.noConfusion), getLast?_filterMap_concat, getLast?_filterMap_concat,
        List.any_append]
      ext1
      · exact (Bool.or_true _).symm
      · rfl
      · rfl
    | signal endpoints =>
      rw [if_neg (by exact Bool.noConfusion), getLast?_filterMap_concat, getLast?_filterMap_concat,
        List.any_append]
      ext1
      · exact (Bool.or_false _).symm
      · rfl
      · rfl

namespace Tracked

open DirectVoiceTransport (HasRoute SameSetup drainSocket drainSocket_rule parseCandidates
  pumpRoutes pumpRoutes_rule readable rebuildEndpoints sameSetup_receive)
open Drained (Call call machine)

variable {isNumericHost : Bytes → Bool} {d : DirectVoiceTransport} {k : Bytes}

/-- What datagrams that are read are to a peer: a packet for each that is from it, with the endpoint
it came from. -/
def packets (d : DirectVoiceTransport) (k : Bytes) (arrivals : List Arrival) : List Happening :=
  (arrivals.filter fun a => d.sourceOf a = some k).map fun a => .packet a.source

/-- What a call is to a peer. -/
def happenings (isNumericHost : Bytes → Bool) (d : DirectVoiceTransport) (k : Bytes) :
    Call → List Happening
  | .handleSignal _ sourcePeerId _ payloadJson =>
    if sourcePeerId = k ∧ d.Admits k then
      [.signal (rebuildEndpoints isNumericHost (parseCandidates payloadJson))]
    else []
  | .removePeer peerId => if peerId = k then [.removal] else []
  | .pump _ arrivals => packets d k (readable arrivals)
  | _ => []

/-- What a route says about where its peer is. -/
def contact (r : PeerRoute) : Contact where
  heard := decide (r.lastHeard ≠ 0)
  learned := r.learnedEndpoint
  endpoints := r.endpoints

/-- What is remembered of a peer, by its route. A peer without a route is one of which nothing is
known. -/
def contactOf (d : DirectVoiceTransport) (k : Bytes) : Contact :=
  ((d.peers.get k).map contact).getD {}

theorem hasPeerConnection_eq : d.hasPeerConnection k = (contactOf d k).heard := by
  rw [DirectVoiceTransport.hasPeerConnection, contactOf]
  cases d.peers.get k <;> rfl

theorem targetsOf_eq : d.targetsOf k = (contactOf d k).targets := by
  rw [DirectVoiceTransport.targetsOf, contactOf]
  cases d.peers.get k <;> rfl

theorem contact_route (now : ℕ) (k : Bytes) : contact (d.route now k) = contactOf d k :=
  DirectVoiceTransport.view_route (f := fun o => (o.map contact).getD {}) (fun _ => rfl) now k

theorem contactOf_setRoute (peerId : Bytes) (r : PeerRoute) :
    contactOf (d.setRoute peerId r) k = if k = peerId then contact r else contactOf d k :=
  DirectVoiceTransport.view_setRoute (fun o => (o.map contact).getD {}) peerId k r

/-- A route that says the same of its peer may replace that. The other peers are not touched
at all. -/
theorem contactOf_setRoute_same (now : ℕ) (peerId : Bytes) {r : PeerRoute}
    (h : contact r = contact (d.route now peerId)) :
    contactOf (d.setRoute peerId r) k = contactOf d k :=
  DirectVoiceTransport.view_setRoute_same (f := fun o => (o.map contact).getD {}) (fun _ => rfl) now
    peerId k h

/-! ### The calls -/

theorem contactOf_ensurePeer (now : ℕ) (peerId : Bytes) (initiateOffer : Bool) :
    contactOf (d.ensurePeer now peerId initiateOffer).1 k = contactOf d k := by
  rcases DirectVoiceTransport.ensurePeer_cases (d := d) now peerId initiateOffer
    with ⟨-, h⟩ | ⟨-, _, h⟩
  · rw [h]
  · rw [h]
    exact contactOf_setRoute_same now peerId rfl

theorem contactOf_removePeer (peerId : Bytes) :
    contactOf (d.removePeer peerId) k = if peerId = k then {} else contactOf d k := by
  rw [contactOf, DirectVoiceTransport.removePeer]
  by_cases h : peerId = k
  · rw [if_pos h, h, FMap.get_delete_self]
    rfl
  · rw [if_neg h, FMap.get_delete_of_ne _ (Ne.symm h)]
    rfl

theorem contactOf_handleSignal (now : ℕ) (sourcePeerId : Bytes) (signalType : SignalType)
    (payloadJson : Bytes) :
    contactOf (d.handleSignal isNumericHost now sourcePeerId signalType payloadJson).1 k =
      (happenings isNumericHost d k (.handleSignal now sourcePeerId signalType payloadJson)).foldl
        Contact.after (contactOf d k) := by
  rw [happenings]
  rcases DirectVoiceTransport.handleSignal_cases (d := d) isNumericHost now sourcePeerId signalType
    payloadJson with ⟨hno, h⟩ | ⟨hadmits, r, _, h, _, rfl⟩
  · have hnot : ¬ (sourcePeerId = k ∧ d.Admits k) := by
      rintro ⟨rfl, hk⟩
      exact hno hk
    rw [h, if_neg hnot]
    rfl
  · rw [h, contactOf_setRoute]
    by_cases hk : k = sourcePeerId
    · subst hk
      rw [if_pos rfl, if_pos (And.intro rfl hadmits), List.foldl_cons, List.foldl_nil,
        ← contact_route now]
      rfl
    · rw [if_neg hk, if_neg fun h => hk h.1.symm]
      rfl

/-- A datagram is a packet of the peer it is from, and nothing to the others. The clock is not 0,
which would count as never heard. -/
theorem contactOf_receive {now : ℕ} (hnow : now ≠ 0) (a : Arrival) :
    contactOf (d.receive now a).1 k =
      (packets d k [a]).foldl Contact.after (contactOf d k) := by
  have hpackets : packets d k [a] = if d.sourceOf a = some k then [.packet a.source] else [] := by
    rw [packets, List.filter_singleton]
    by_cases h : d.sourceOf a = some k
    · rw [if_pos h, decide_eq_true h]
      rfl
    · rw [if_neg h, decide_eq_false h]
      rfl
  rw [hpackets]
  rcases DirectVoiceTransport.receive_cases (d := d) now a with ⟨hsource, h⟩ | ⟨p, _, _, hsource, h⟩
  · rw [hsource, h, if_neg (Option.some_ne_none k).symm]
    rfl
  · rw [hsource, h, contactOf_setRoute]
    by_cases hk : k = p
    · subst hk
      rw [if_pos rfl, if_pos rfl, List.foldl_cons, List.foldl_nil, ← contact_route now]
      exact Contact.ext (decide_eq_true hnow) rfl rfl
    · rw [if_neg hk, if_neg fun h => hk (Option.some.inj h).symm]
      rfl

theorem packets_same {d' : DirectVoiceTransport} (h : SameSetup d d') (arrivals : List Arrival) :
    packets d' k arrivals = packets d k arrivals := by
  simp only [packets, h.sourceOf_eq]

theorem contactOf_drainSocket {now : ℕ} (hnow : now ≠ 0) (arrivals : List Arrival) :
    ∀ d : DirectVoiceTransport, contactOf (drainSocket now d arrivals).1 k =
      (packets d k (readable arrivals)).foldl Contact.after (contactOf d k) := by
  refine drainSocket_rule now (P := fun d l d' _ =>
    contactOf d' k = (packets d k l).foldl Contact.after (contactOf d k)) (fun _ => rfl) ?_ arrivals
  intro d a l d' out hrest
  have hcons : packets d k (a :: l) = packets d k [a] ++ packets d k l := by
    rw [packets, packets, packets, ← List.map_append, ← List.filter_append]
    rfl
  rw [hcons, List.foldl_append, ← contactOf_receive hnow, hrest,
    packets_same (sameSetup_receive now a)]

theorem contactOf_pumpRoutes (now : ℕ) (peerIds : List Bytes) :
    ∀ d : DirectVoiceTransport, contactOf (pumpRoutes now d peerIds).1 k = contactOf d k := by
  refine pumpRoutes_rule now (P := fun d d' _ => contactOf d' k = contactOf d k) (fun _ => rfl) ?_
    peerIds
  intro d p r d' out hr hrest
  obtain ⟨_, _, _, _, heq, -⟩ := @DirectVoiceTransport.pumpRoute_eq d now p r
  have hroute : d.route now p = r := by rw [DirectVoiceTransport.route, hr, Option.getD_some]
  rw [hrest]
  refine contactOf_setRoute_same now p ?_
  rw [heq, hroute]
  rfl

/-- If the call is a pump, then its clock is not 0. A route whose peer was last heard at time 0 is
taken for one whose peer was never heard. -/
def Ticks : Call → Prop
  | .pump now _ => now ≠ 0
  | _ => True

/-- **One call** does to a peer what it is to it: what the route says afterwards is what its
happenings make of what it said before. -/
theorem contactOf_call (hrun : d.running = true) {c : Call} (hc : Ticks c) :
    contactOf (call isNumericHost d c).1 k =
      (happenings isNumericHost d k c).foldl Contact.after (contactOf d k) := by
  cases c with
  | ensurePeer now peerId initiateOffer => exact contactOf_ensurePeer now peerId initiateOffer
  | handleSignal now sourcePeerId signalType payloadJson =>
    exact contactOf_handleSignal now sourcePeerId signalType payloadJson
  | sendVoiceFrame frame => rfl
  | removePeer peerId =>
    rw [happenings]
    refine (contactOf_removePeer peerId).trans ?_
    split <;> rfl
  | pump now arrivals =>
    have hnot : ¬ d.running = false := by
      rw [hrun]
      exact Bool.noConfusion
    show contactOf (d.pump now arrivals).1 k = _
    rw [DirectVoiceTransport.pump, if_neg hnot]
    exact (contactOf_pumpRoutes now _ _).trans (contactOf_drainSocket hc arrivals d)

/-! ### Runs -/

/-- What a run has been to a peer: what each of its calls is, in the state in which it was made. -/
def past (isNumericHost : Bytes → Bool) (k : Bytes) (t : List (DirectVoiceTransport × Call)) :
    List Happening :=
  t.flatMap fun x => happenings isNumericHost x.1 k x.2

/-- There are no routes at the start. -/
theorem init_cases (h : (machine isNumericHost).init d) : d.running = true ∧ d.peers = ∅ := by
  obtain ⟨d₀, roomId, localPeerId, discovered, rfl, hrun, -⟩ := h
  refine ⟨hrun, ?_⟩
  simp only [DirectVoiceTransport.start]
  split
  · rfl
  · cases discovered <;> rfl

theorem contactOf_run {t : List (DirectVoiceTransport × Call)}
    (h : (machine isNumericHost).Run t d) (hclock : ∀ x ∈ t, Ticks x.2) :
    d.running = true ∧ contactOf d k = (past isNumericHost k t).foldl Contact.after {} := by
  induction h with
  | start hinit =>
    obtain ⟨hrun, hpeers⟩ := init_cases hinit
    refine ⟨hrun, ?_⟩
    rw [contactOf, hpeers]
    rfl
  | @snoc t d d' c _ hstep ih =>
    obtain ⟨-, rfl⟩ := hstep
    obtain ⟨hrun, hcontact⟩ := ih fun x hx => hclock x (List.mem_append_left _ hx)
    refine ⟨(Drained.sameSetup_call c).running.trans hrun, ?_⟩
    rw [contactOf_call hrun (hclock _ (List.mem_append_right _ (List.mem_singleton_self _))),
      hcontact, past, past, List.flatMap_append, List.foldl_append, List.flatMap_singleton]

/-- A call sends along the routes there are after it. A call that removes a route sends nothing. -/
theorem routed_call (c : Call) :
    (call isNumericHost d c).1.Routed (call isNumericHost d c).2 := by
  cases c with
  | ensurePeer now peerId initiateOffer =>
    exact DirectVoiceTransport.routed_of_sentTo_eq_nil
      (DirectVoiceTransport.filterMap_ensurePeer (fun _ _ _ => rfl) now peerId initiateOffer)
  | removePeer peerId => exact .nil
  | handleSignal now sourcePeerId signalType payloadJson =>
    exact DirectVoiceTransport.routed_handleSignal isNumericHost now sourcePeerId signalType
      payloadJson
  | sendVoiceFrame frame => exact DirectVoiceTransport.routed_sendVoiceFrame frame
  | pump now arrivals => exact DirectVoiceTransport.routed_pump now arrivals

/-- **Where a peer is reached.** In every run of a started transport, for every peer: it counts as
connected exactly if a packet of it was read since its route was last removed. It is sent to where
the last such packet whose source is known came from, and before there is one to the endpoints that
its last signal since the removal named; if there was none, nowhere. Nothing else matters, and no
call sends a datagram anywhere else. The only condition is that no pump reads 0 from the clock. -/
theorem contact_of_run {t : List (DirectVoiceTransport × Call)}
    (h : (machine isNumericHost).Run t d) (hclock : ∀ x ∈ t, Ticks x.2) :
    (∀ k, d.hasPeerConnection k = (since (past isNumericHost k t)).any Happening.isPacket) ∧
    (∀ k, d.targetsOf k =
      match ((since (past isNumericHost k t)).filterMap Happening.source).getLast? with
      | some endpoint => [endpoint]
      | none =>
        (((since (past isNumericHost k t)).filterMap Happening.endpoints).getLast?).getD []) ∧
    ∀ x ∈ t, ∀ e ∈ DirectVoiceTransport.sentTo (call isNumericHost x.1 x.2).2,
      ∃ k, (call isNumericHost x.1 x.2).1.HasRoute k ∧
        e ∈ (call isNumericHost x.1 x.2).1.targetsOf k := by
  have hcontact := fun k => (@contactOf_run isNumericHost d k t h hclock).2
  refine ⟨fun k => ?_, fun k => ?_, fun x _ => routed_call x.2⟩
  · rw [hasPeerConnection_eq, hcontact, Contact.foldl_eq]
  · rw [targetsOf_eq, hcontact, Contact.foldl_eq]
    rfl

/-- A peer names an endpoint, and a packet of it comes from another. -/
def acquaintance : List Call :=
  [.handleSignal 1 [1] .iceOffer
      (utf8 "\x7b\"candidates\":[\x7b\"address\":\"a\",\"port\":5\x7d]\x7d"),
    .pump 2 [{ Drained.arrival [1] 5 with source := some ⟨utf8 "c", 7⟩ }]]

theorem contact_of_run_acquaintance :
    (acquaintance.foldl (fun d c => (call (fun _ => true) d c).1)
      Drained.listening).targetsOf [1] = [⟨utf8 "c", 7⟩] := by
  have hrun : (machine fun _ => true).Run
      (Machine.trace (fun d c => (call (fun _ => true) d c).1) Drained.listening acquaintance)
      (acquaintance.foldl (fun d c => (call (fun _ => true) d c).1) Drained.listening) :=
    Machine.run_trace ⟨_, _, _, _, rfl, rfl, rfl⟩ fun _ _ => trivial
  have hclock : ∀ x ∈ Machine.trace (fun d c => (call (fun _ => true) d c).1) Drained.listening
      acquaintance, Ticks x.2 := by
    simp only [acquaintance, Machine.forall_trace_cons, Machine.forall_trace_nil]
    exact ⟨trivial, two_ne_zero, trivial⟩
  rw [(contact_of_run hrun hclock).2.1]
  decide +kernel

end Tracked

end Net

end TarkovVoice

import Mathlib.Data.List.TakeWhile
import TarkovVoice.Net.DirectVoice
import TarkovVoice.Newest

/-!
# Voice over the direct transport

What the calls of the direct transport do to voice frames. A receiver keeps, for each peer, the
number of the last frame it has taken, and passes on what is newer: draining its socket is the
filter `newest` on the frames of that peer among the datagrams that arrived. A sender turns a frame
into one datagram for each endpoint of each route.

## Main definitions

* `PeerRoute.lastVoice`, `voiceOf`, `framesOf`, `Path.carry`
* `Keeps`, `Takes` — what a call does to the frames of one peer

## Main results

* `drainSocket_rule`, `pumpRoutes_rule` — what a loop does, from what one turn of it does
* `drainSocket_takes`, `pump_takes` — receiving is the filter `newest`
* `voiceOf_carry_sendVoiceFrame` — what a receiver reads from a frame that was sent
-/

namespace TarkovVoice

namespace Net

open Audio (EncodedVoiceFrame)

/-- The number of the last voice packet that the route has taken, or `⊥` if it has not taken any. -/
def PeerRoute.lastVoice (r : PeerRoute) : WithBot ℕ :=
  if r.hasLastVoiceSequenceReceived then WithBot.some r.lastVoiceSequenceReceived.toNat else ⊥

namespace DirectVoiceTransport

variable (d : DirectVoiceTransport)

/-! ### What a call leaves as it is -/

/-- Everything but the routes is the same: whether it is running, who and where it is, its
candidates and its callbacks. -/
def SameSetup (d d' : DirectVoiceTransport) : Prop := ∃ peers, d' = { d with peers }

theorem SameSetup.refl : SameSetup d d := ⟨_, rfl⟩

variable {d}

theorem SameSetup.trans {d' d'' : DirectVoiceTransport} (h : SameSetup d d')
    (h' : SameSetup d' d'') : SameSetup d d'' := by
  obtain ⟨_, rfl⟩ := h
  obtain ⟨_, rfl⟩ := h'
  exact ⟨_, rfl⟩

theorem SameSetup.roomId {d' : DirectVoiceTransport} (h : SameSetup d d') :
    d'.roomId = d.roomId := by
  obtain ⟨_, rfl⟩ := h
  rfl

theorem SameSetup.localPeerId {d' : DirectVoiceTransport} (h : SameSetup d d') :
    d'.localPeerId = d.localPeerId := by
  obtain ⟨_, rfl⟩ := h
  rfl

theorem SameSetup.localCandidates {d' : DirectVoiceTransport} (h : SameSetup d d') :
    d'.localCandidates = d.localCandidates := by
  obtain ⟨_, rfl⟩ := h
  rfl

theorem SameSetup.running {d' : DirectVoiceTransport} (h : SameSetup d d') :
    d'.running = d.running := by
  obtain ⟨_, rfl⟩ := h
  rfl

theorem SameSetup.frameCallback {d' : DirectVoiceTransport} (h : SameSetup d d') :
    d'.frameCallback = d.frameCallback := by
  obtain ⟨_, rfl⟩ := h
  rfl

section Views

variable {γ : Type*}

/-- **What is read of a peer's route** after a route is replaced: it is read of the new route for
its own peer, and as before for the others. -/
theorem view_setRoute (f : Option PeerRoute → γ) (peerId k : Bytes) (r : PeerRoute) :
    f ((d.setRoute peerId r).peers.get k) =
      if k = peerId then f (some r) else f (d.peers.get k) := by
  rw [setRoute, FMap.get_put, apply_ite f]

variable {f : Option PeerRoute → γ} (hnew : ∀ now, f (some { createdAt := now }) = f none)

include hnew

/-- What a new route does not tell from none is read of the route a call starts from. -/
theorem view_route (now : ℕ) (peerId : Bytes) :
    f (some (d.route now peerId)) = f (d.peers.get peerId) := by
  rw [route]
  cases d.peers.get peerId with
  | none => exact hnew now
  | some r => rfl

/-- It stays as it is when a route is replaced by one of which the same is read. The other routes
are not touched at all. -/
theorem view_setRoute_same (now : ℕ) (peerId k : Bytes) {r : PeerRoute}
    (h : f (some r) = f (some (d.route now peerId))) :
    f ((d.setRoute peerId r).peers.get k) = f (d.peers.get k) := by
  rw [view_setRoute f, h, view_route hnew]
  split
  · next hk => rw [hk]
  · rfl

end Views

theorem sameSetup_setRoute (peerId : Bytes) (r : PeerRoute) : SameSetup d (d.setRoute peerId r) :=
  ⟨_, rfl⟩

/-! ### The loops -/

/-- What `drainSocket` reads before it stops: a datagram that does not fit ends the loop. `recvfrom`
fails on it, and the loop cannot tell that from an empty socket. -/
def readable (arrivals : List Arrival) : List Arrival :=
  arrivals.takeWhile fun a => a.data.length ≤ 1500

/-- What stays in the socket. The datagram that did not fit is lost, and what is behind it waits for
the next pump. -/
def unread (arrivals : List Arrival) : List Arrival :=
  (arrivals.dropWhile fun a => a.data.length ≤ 1500).tail

theorem readable_eq_self {arrivals : List Arrival} (h : ∀ a ∈ arrivals, a.data.length ≤ 1500) :
    readable arrivals = arrivals :=
  List.takeWhile_eq_self_iff.mpr fun a ha => decide_eq_true (h a ha)

theorem unread_eq_nil {arrivals : List Arrival} (h : ∀ a ∈ arrivals, a.data.length ≤ 1500) :
    unread arrivals = [] := by
  rw [unread, List.dropWhile_eq_nil_iff.mpr fun a ha => decide_eq_true (h a ha)]
  rfl

/-- **What draining the socket does** is what one datagram after the other does. A relation that
holds of nothing, and goes on through one datagram, holds of the whole. -/
theorem drainSocket_rule (now : ℕ)
    {P : DirectVoiceTransport → List Arrival → DirectVoiceTransport → List Output → Prop}
    (hnil : ∀ d, P d [] d [])
    (hcons : ∀ d a arrivals d' out, P (d.receive now a).1 arrivals d' out →
      P d (a :: arrivals) d' ((d.receive now a).2 ++ out)) (arrivals : List Arrival) :
    ∀ d : DirectVoiceTransport,
      P d (readable arrivals) (drainSocket now d arrivals).1 (drainSocket now d arrivals).2.1 := by
  induction arrivals with
  | nil => exact hnil
  | cons a arrivals ih =>
    intro d
    rw [drainSocket, readable]
    by_cases hfits : a.data.length ≤ 1500
    · rw [if_neg (not_lt.mpr hfits), List.takeWhile_cons_of_pos (by simpa using hfits)]
      exact hcons d a _ _ _ (ih _)
    · rw [if_pos (not_le.mp hfits), List.takeWhile_cons_of_neg (by simpa using hfits)]
      exact hnil d

/-- What draining leaves does not depend on the routes. -/
theorem left_drainSocket (now : ℕ) (arrivals : List Arrival) :
    ∀ d : DirectVoiceTransport, (drainSocket now d arrivals).2.2 = unread arrivals := by
  induction arrivals with
  | nil => exact fun _ => rfl
  | cons a arrivals ih =>
    intro d
    rw [drainSocket, unread]
    by_cases hfits : a.data.length ≤ 1500
    · rw [if_neg (not_lt.mpr hfits), List.dropWhile_cons_of_pos (by simpa using hfits)]
      exact ih _
    · rw [if_pos (not_le.mp hfits), List.dropWhile_cons_of_neg (by simpa using hfits)]
      rfl

/-- A turn of the loop over the routes: perhaps a ping, perhaps the candidates once more. -/
theorem pumpRoute_eq (now : ℕ) (peerId : Bytes) (r : PeerRoute) :
    ∃ (lastPingSent lastCandidateSignalSent : ℕ) (ping : List Output) (resends : Bool),
      d.pumpRoute now peerId r =
        ({ r with
            lastPingSent
            lastCandidateSignalSent
            candidateSignalsSent := r.candidateSignalsSent + resends.toNat },
          ping ++ if resends then [.signal peerId .iceCandidate d.makeLocalPayloadJson] else []) ∧
      (ping = [] ∨ ping = sendPacket r d.pingPacket) ∧
      (resends = true → r.candidateSignalsSent < 8) := by
  rw [pumpRoute]
  by_cases hlate : now - r.lastPingSent > 750
  · rw [if_pos hlate]
    dsimp only [sendPing]
    split
    · next h => exact ⟨_, _, _, true, rfl, Or.inr rfl, fun _ => h.2.2.1⟩
    · exact ⟨_, _, _, false, by rw [if_neg Bool.false_ne_true, List.append_nil]; rfl, Or.inr rfl,
        fun h => absurd h Bool.false_ne_true⟩
  · rw [if_neg hlate]
    dsimp only
    split
    · next h => exact ⟨_, _, _, true, rfl, Or.inl rfl, fun _ => h.2.2.1⟩
    · exact ⟨_, _, _, false, rfl, Or.inl rfl, fun h => absurd h Bool.false_ne_true⟩

/-- **What the loop over the routes does** is what one turn after the other does. Peers without a
route are passed over. -/
theorem pumpRoutes_rule (now : ℕ)
    {P : DirectVoiceTransport → DirectVoiceTransport → List Output → Prop}
    (hnil : ∀ d, P d d [])
    (hcons : ∀ (d : DirectVoiceTransport) p r d' out, d.peers.get p = some r →
      P (d.setRoute p (d.pumpRoute now p r).1) d' out →
      P d d' ((d.pumpRoute now p r).2 ++ out)) (peerIds : List Bytes) :
    ∀ d : DirectVoiceTransport,
      P d (pumpRoutes now d peerIds).1 (pumpRoutes now d peerIds).2 := by
  induction peerIds with
  | nil => exact hnil
  | cons p peerIds ih =>
    intro d
    rw [pumpRoutes]
    cases hr : d.peers.get p with
    | none => exact ih d
    | some r => exact hcons d p r _ _ hr (ih _)

/-! ### What has been taken -/

/-- The number of the last voice packet that the route of a peer has taken, and nothing, which is
below all numbers, if it has taken none. -/
def lastVoice (d : DirectVoiceTransport) (peerId : Bytes) : WithBot ℕ :=
  match d.peers.get peerId with
  | some route => route.lastVoice
  | none => ⊥

theorem lastVoice_route (now : ℕ) (peerId : Bytes) :
    (d.route now peerId).lastVoice = d.lastVoice peerId :=
  view_route (f := fun | some route => route.lastVoice | none => ⊥) (fun _ => rfl) now peerId

theorem lastVoice_setRoute (peerId k : Bytes) (r : PeerRoute) :
    (d.setRoute peerId r).lastVoice k = if k = peerId then r.lastVoice else d.lastVoice k :=
  view_setRoute (fun | some route => route.lastVoice | none => ⊥) peerId k r

/-- Replacing a route by one that has taken the same voice packets. -/
theorem lastVoice_setRoute_same (now : ℕ) (peerId k : Bytes) {r : PeerRoute}
    (h : r.lastVoice = (d.route now peerId).lastVoice) :
    (d.setRoute peerId r).lastVoice k = d.lastVoice k :=
  view_setRoute_same (f := fun | some route => route.lastVoice | none => ⊥) (fun _ => rfl) now
    peerId k h

/-- A call that does not receive: the setup is the same, and so is the number of the last voice
packet taken of a peer. -/
structure Keeps (d d' : DirectVoiceTransport) (k : Bytes) : Prop where
  setup : SameSetup d d'
  voice : d'.lastVoice k = d.lastVoice k

theorem Keeps.refl (k : Bytes) : Keeps d d k := ⟨.refl d, rfl⟩

theorem Keeps.trans {d' d'' : DirectVoiceTransport} {k : Bytes} (h : Keeps d d' k)
    (h' : Keeps d' d'' k) : Keeps d d'' k :=
  ⟨h.setup.trans h'.setup, h'.voice.trans h.voice⟩

theorem keeps_setRoute (now : ℕ) (peerId k : Bytes) {r : PeerRoute}
    (h : r.lastVoice = (d.route now peerId).lastVoice) : Keeps d (d.setRoute peerId r) k :=
  ⟨⟨_, rfl⟩, lastVoice_setRoute_same now peerId k h⟩

theorem ensurePeer_keeps (now : ℕ) (peerId : Bytes) (initiateOffer : Bool) (k : Bytes) :
    Keeps d (d.ensurePeer now peerId initiateOffer).1 k := by
  rw [ensurePeer]
  split
  · exact .refl k
  · dsimp only
    split <;> exact keeps_setRoute now peerId k rfl

theorem handleSignal_keeps (isNumericHost : Bytes → Bool) (now : ℕ) (sourcePeerId : Bytes)
    (signalType : SignalType) (payloadJson k : Bytes) :
    Keeps d (d.handleSignal isNumericHost now sourcePeerId signalType payloadJson).1 k := by
  rw [handleSignal]
  split
  · exact .refl k
  · dsimp only [sendPing]
    refine keeps_setRoute now sourcePeerId k ?_
    split <;> split <;> rfl

theorem removePeer_keeps {peerId k : Bytes} (h : k ≠ peerId) : Keeps d (d.removePeer peerId) k := by
  refine ⟨⟨_, rfl⟩, ?_⟩
  rw [lastVoice, removePeer, FMap.get_delete_of_ne _ h]
  rfl

theorem pumpRoutes_keeps (now : ℕ) (k : Bytes) (peerIds : List Bytes) :
    ∀ d : DirectVoiceTransport, Keeps d (pumpRoutes now d peerIds).1 k := by
  refine pumpRoutes_rule now (P := fun d d' _ => Keeps d d' k) (fun d => .refl k) ?_ peerIds
  intro d p r d' out hr hrest
  refine (keeps_setRoute now p k ?_).trans hrest
  have hroute : d.route now p = r := by
    rw [route, hr]
    rfl
  obtain ⟨_, _, _, _, heq, -, -⟩ := @pumpRoute_eq d now p r
  rw [hroute, heq]
  rfl

/-! ### What a call puts out -/

section Readers

variable {γ : Type*} {f : Output → Option γ}

/-- Who does not read datagrams reads nothing of what is sent. -/
theorem filterMap_sendPacket (hdatagram : ∀ e data, f (.datagram e data) = none) (r : PeerRoute)
    (packet : Bytes) : (sendPacket r packet).filterMap f = [] := by
  rw [sendPacket]
  split
  · rfl
  · rw [List.filterMap_map]
    exact List.filterMap_eq_nil_iff.mpr fun e _ => hdatagram e packet

/-- An announcement puts out a signal, if anything. So whoever does not read signals reads nothing
of it. -/
theorem filterMap_ensurePeer (hsignal : ∀ k type payload, f (.signal k type payload) = none)
    (now : ℕ) (peerId : Bytes) (initiateOffer : Bool) :
    (d.ensurePeer now peerId initiateOffer).2.filterMap f = [] := by
  rw [ensurePeer]
  split
  · rfl
  · dsimp only
    split
    · exact List.filterMap_cons_none (hsignal _ _ _)
    · rfl

/-- A signal is answered by a signal and a datagram. -/
theorem filterMap_handleSignal (hdatagram : ∀ e data, f (.datagram e data) = none)
    (hsignal : ∀ k type payload, f (.signal k type payload) = none) (isNumericHost : Bytes → Bool)
    (now : ℕ) (sourcePeerId : Bytes) (signalType : SignalType) (payloadJson : Bytes) :
    (d.handleSignal isNumericHost now sourcePeerId signalType payloadJson).2.filterMap f = [] := by
  rw [handleSignal]
  split
  · rfl
  · dsimp only [sendPing]
    rw [List.filterMap_append, filterMap_sendPacket hdatagram, List.append_nil]
    split <;> split <;> first | rfl | exact List.filterMap_cons_none (hsignal _ _ _)

/-- The loop over the routes pings, and repeats the candidates. -/
theorem filterMap_pumpRoutes (hdatagram : ∀ e data, f (.datagram e data) = none)
    (hsignal : ∀ k type payload, f (.signal k type payload) = none) (now : ℕ)
    (peerIds : List Bytes) :
    ∀ d : DirectVoiceTransport, (pumpRoutes now d peerIds).2.filterMap f = [] := by
  refine pumpRoutes_rule now (P := fun _ _ out => out.filterMap f = []) (fun _ => rfl) ?_ peerIds
  intro d p r d' out _ hrest
  obtain ⟨_, _, ping, resends, heq, hping, -⟩ := @pumpRoute_eq d now p r
  have hsilent : ping.filterMap f = [] := by
    rcases hping with rfl | rfl
    · rfl
    · exact filterMap_sendPacket hdatagram r _
  rw [List.filterMap_append, hrest, List.append_nil, heq, List.filterMap_append, hsilent,
    List.nil_append]
  cases resends with
  | true => exact List.filterMap_cons_none (hsignal _ _ _)
  | false => rfl

/-- A datagram that is received puts out a frame, if anything. So whoever does not read frames reads
nothing of it. -/
theorem filterMap_receive (hframe : ∀ frame, f (.frame frame) = none) (now : ℕ) (a : Arrival) :
    (d.receive now a).2.filterMap f = [] := by
  rw [receive]
  cases decodePacket a.data a.data.length with
  | error _ => rfl
  | ok packet =>
    dsimp only
    split
    · rfl
    · rw [receivePacket]
      dsimp only
      split
      · rw [receiveVoice]
        split
        · rfl
        · exact List.filterMap_cons_none (hframe _)
      · rfl

theorem filterMap_drainSocket (hframe : ∀ frame, f (.frame frame) = none) (now : ℕ)
    (arrivals : List Arrival) :
    ∀ d : DirectVoiceTransport, (drainSocket now d arrivals).2.1.filterMap f = [] := by
  refine drainSocket_rule now (P := fun _ _ _ out => out.filterMap f = []) (fun _ => rfl) ?_
    arrivals
  intro d a l d' out hrest
  rw [List.filterMap_append, filterMap_receive hframe, hrest]
  rfl

end Readers

/-! ### What arrives -/

/-- The number of a frame. -/
def frameKey (f : EncodedVoiceFrame) : ℕ := f.sequence.toNat

/-- The frame of a voice packet. -/
def voiceFrame (packet : DecodedPacket) : EncodedVoiceFrame where
  sourcePeerId := packet.sourcePeerId
  sequence := packet.sequence
  captureUnixMs := packet.captureUnixMs
  payload := packet.payload

/-- The frame that an arrival carries, if it is a voice packet of a peer in a room. Where it came
from does not matter. -/
def voiceOf (roomId peerId : Bytes) (a : Arrival) : Option EncodedVoiceFrame :=
  match decodePacket a.data a.data.length with
  | .ok packet =>
    if packet.roomId = roomId ∧ packet.sourcePeerId = peerId ∧ packet.type = kPacketVoice then
      some (voiceFrame packet)
    else none
  | .error _ => none

/-- The frames of a peer among the outputs of a call. -/
def framesOf (peerId : Bytes) (out : List Output) : List EncodedVoiceFrame :=
  out.filterMap fun
    | .frame f => if f.sourcePeerId = peerId then some f else none
    | _ => none

theorem framesOf_append (peerId : Bytes) (out out' : List Output) :
    framesOf peerId (out ++ out') = framesOf peerId out ++ framesOf peerId out' :=
  List.filterMap_append

theorem framesOf_frame (peerId : Bytes) (f : EncodedVoiceFrame) :
    framesOf peerId [.frame f] = if f.sourcePeerId = peerId then [f] else [] := by
  by_cases h : f.sourcePeerId = peerId <;> simp [framesOf, h]

/-- What a receiver makes of arrivals that carry the frames `frames` of the peer `k`: it passes
on those that are newer than what it has taken. -/
structure Takes (d d' : DirectVoiceTransport) (k : Bytes) (frames : List EncodedVoiceFrame)
    (out : List Output) : Prop where
  setup : SameSetup d d'
  delivers : framesOf k out = newest frameKey (d.lastVoice k) frames
  voice : d'.lastVoice k = lastKey frameKey (d.lastVoice k) frames

theorem Keeps.takes {d' : DirectVoiceTransport} {k : Bytes} {out : List Output}
    (h : Keeps d d' k) (hout : framesOf k out = []) : Takes d d' k [] out :=
  ⟨h.setup, hout, h.voice⟩

theorem Takes.trans {d' d'' : DirectVoiceTransport} {k : Bytes}
    {frames frames' : List EncodedVoiceFrame} {out out' : List Output}
    (h : Takes d d' k frames out) (h' : Takes d' d'' k frames' out') :
    Takes d d'' k (frames ++ frames') (out ++ out') := by
  refine ⟨h.setup.trans h'.setup, ?_, ?_⟩
  · rw [framesOf_append, newest_append, h.delivers, h'.delivers, h.voice]
  · rw [lastKey_append, ← h.voice, h'.voice]

theorem receiveVoice_takes (r : PeerRoute) (packet : DecodedPacket) :
    framesOf packet.sourcePeerId (receiveVoice r packet).2 =
        newest frameKey r.lastVoice [voiceFrame packet] ∧
      (receiveVoice r packet).1.lastVoice = lastKey frameKey r.lastVoice [voiceFrame packet] := by
  rw [receiveVoice, newest_cons, lastKey_cons]
  have hlt : ¬ (r.hasLastVoiceSequenceReceived = true ∧
      packet.sequence ≤ r.lastVoiceSequenceReceived) ↔
      r.lastVoice < WithBot.some (frameKey (voiceFrame packet)) := by
    rw [PeerRoute.lastVoice]
    by_cases hlast : r.hasLastVoiceSequenceReceived = true
    · rw [if_pos hlast, WithBot.coe_lt_coe, UInt32.le_iff_toNat_le]
      exact ⟨fun h => not_le.mp fun hle => h ⟨hlast, hle⟩, fun h ⟨_, hle⟩ => not_le.mpr h hle⟩
    · rw [if_neg hlast]
      exact ⟨fun _ => WithBot.bot_lt_coe _, fun _ h => hlast h.1⟩
  by_cases hold : r.hasLastVoiceSequenceReceived = true ∧
      packet.sequence ≤ r.lastVoiceSequenceReceived
  · have hle := not_lt.mp (hlt.not.mp (not_not.mpr hold))
    rw [if_pos hold, if_neg (not_lt.mpr hle), max_eq_left hle]
    exact ⟨rfl, rfl⟩
  · have hnew := hlt.mp hold
    rw [if_neg hold, if_pos hnew, max_eq_right hnew.le]
    refine ⟨?_, rfl⟩
    show framesOf packet.sourcePeerId [.frame (voiceFrame packet)] = [voiceFrame packet]
    rw [framesOf_frame]
    exact if_pos rfl

theorem framesOf_receiveVoice_of_ne {k : Bytes} (r : PeerRoute) {packet : DecodedPacket}
    (h : packet.sourcePeerId ≠ k) : framesOf k (receiveVoice r packet).2 = [] := by
  rw [receiveVoice]
  split
  · rfl
  · rw [framesOf_frame, if_neg h]

/-- **One datagram.** It counts for the peer `k` if it is a voice packet of `k`, and then it is
passed on if it is new. -/
theorem receive_takes {k : Bytes} (hk : k ≠ []) (hlocal : k ≠ d.localPeerId)
    (hframe : d.frameCallback = true) (now : ℕ) (a : Arrival) :
    Takes d (d.receive now a).1 k (voiceOf d.roomId k a).toList (d.receive now a).2 := by
  rw [receive, voiceOf]
  cases decodePacket a.data a.data.length with
  | error _ => exact (Keeps.refl k).takes rfl
  | ok packet =>
    dsimp only
    by_cases hskip : packet.roomId ≠ d.roomId ∨ packet.sourcePeerId = [] ∨
        packet.sourcePeerId = d.localPeerId
    · have hnot : ¬ (packet.roomId = d.roomId ∧ packet.sourcePeerId = k ∧
          packet.type = kPacketVoice) := by
        rintro ⟨hroom, rfl, -⟩
        exact hskip.elim (fun h => h hroom) fun h => h.elim hk hlocal
      rw [if_pos hskip, if_neg hnot]
      exact (Keeps.refl k).takes rfl
    · have hroom : packet.roomId = d.roomId := not_not.mp fun h => hskip (Or.inl h)
      rw [if_neg hskip, receivePacket]
      by_cases htype : packet.type = kPacketVoice
      · rw [if_pos ⟨htype, hframe⟩]
        obtain ⟨hout, hvoice⟩ := receiveVoice_takes
          { d.route now packet.sourcePeerId with
            learnedEndpoint :=
              a.source.orElse fun _ => (d.route now packet.sourcePeerId).learnedEndpoint
            lastHeard := now } packet
        change framesOf _ _ = newest _ (d.route now packet.sourcePeerId).lastVoice _ at hout
        change _ = lastKey _ (d.route now packet.sourcePeerId).lastVoice _ at hvoice
        rw [lastVoice_route] at hout hvoice
        by_cases hsource : packet.sourcePeerId = k
        · rw [if_pos ⟨hroom, hsource, htype⟩, ← hsource]
          refine ⟨⟨_, rfl⟩, hout, ?_⟩
          rw [lastVoice_setRoute, if_pos rfl]
          exact hvoice
        · rw [if_neg fun h => hsource h.2.1]
          refine ⟨⟨_, rfl⟩, ?_, ?_⟩
          · exact framesOf_receiveVoice_of_ne _ hsource
          · rw [lastVoice_setRoute, if_neg (Ne.symm hsource)]
            rfl
      · have hnot : ¬ (packet.roomId = d.roomId ∧ packet.sourcePeerId = k ∧
            packet.type = kPacketVoice) := fun h => htype h.2.2
        rw [if_neg hnot]
        dsimp only
        rw [if_neg fun h => htype h.1]
        refine Keeps.takes ?_ rfl
        exact keeps_setRoute now packet.sourcePeerId k rfl

/-- **Draining the socket.** Of the frames of a peer, those that are newer than every earlier one
are passed on, in the order they arrived. -/
theorem drainSocket_takes {k : Bytes} (hk : k ≠ []) (now : ℕ) (arrivals : List Arrival) :
    ∀ d : DirectVoiceTransport, k ≠ d.localPeerId → d.frameCallback = true →
      Takes d (drainSocket now d arrivals).1 k
        ((readable arrivals).filterMap (voiceOf d.roomId k)) (drainSocket now d arrivals).2.1 := by
  refine drainSocket_rule now (P := fun d l d' out => k ≠ d.localPeerId → d.frameCallback = true →
    Takes d d' k (l.filterMap (voiceOf d.roomId k)) out) ?_ ?_ arrivals
  · exact fun d _ _ => (Keeps.refl k).takes rfl
  · intro d a l d' out hrest hlocal hframe
    have hone := receive_takes hk hlocal hframe now a
    rw [hone.setup.localPeerId, hone.setup.frameCallback, hone.setup.roomId] at hrest
    have hboth := hone.trans (hrest hlocal hframe)
    have hlist : (voiceOf d.roomId k a).toList ++ l.filterMap (voiceOf d.roomId k) =
        (a :: l).filterMap (voiceOf d.roomId k) := by
      rw [List.filterMap_cons]
      cases voiceOf d.roomId k a <;> rfl
    rw [hlist] at hboth
    exact hboth

/-- **A pump** passes on what draining the socket does. Its loop over the routes sends pings and
candidates, and takes no frame. -/
theorem pump_takes {k : Bytes} (hk : k ≠ []) (hlocal : k ≠ d.localPeerId)
    (hframe : d.frameCallback = true) (hrun : d.running = true) (now : ℕ)
    (arrivals : List Arrival) :
    Takes d (d.pump now arrivals).1 k ((readable arrivals).filterMap (voiceOf d.roomId k))
        (d.pump now arrivals).2.1 ∧
      (d.pump now arrivals).2.2 = unread arrivals := by
  have htakes := drainSocket_takes hk now arrivals d hlocal hframe
  rw [pump, if_neg (by rw [hrun]; exact Bool.noConfusion)]
  refine ⟨?_, left_drainSocket now arrivals d⟩
  have hrest := pumpRoutes_keeps now k (drainSocket now d arrivals).1.peersInOrder
    (drainSocket now d arrivals).1
  have hsilent : framesOf k _ = [] := filterMap_pumpRoutes (fun _ _ => rfl) (fun _ _ _ => rfl) now
    (drainSocket now d arrivals).1.peersInOrder (drainSocket now d arrivals).1
  have hboth := htakes.trans (hrest.takes hsilent)
  rw [List.append_nil] at hboth
  exact hboth

/-- What a pump leaves in the socket had arrived. -/
theorem mem_left_pump {now : ℕ} {arrivals : List Arrival} {a : Arrival}
    (h : a ∈ (d.pump now arrivals).2.2) : a ∈ arrivals := by
  rw [pump] at h
  split at h
  · exact h
  · change a ∈ (drainSocket now d arrivals).2.2 at h
    rw [left_drainSocket] at h
    exact (List.dropWhile_sublist _).subset (List.mem_of_mem_tail h)

/-! ### What is carried -/

/-- What the network between two sockets does: the endpoints through which datagrams of the
one reach the other, and where they then seem to come from. Address translation on the way
changes both. -/
structure Path where
  reaches : SocketEndpoint → Bool
  source : SocketEndpoint → SocketEndpoint

/-- The datagrams among the outputs of a call that arrive, with the endpoint that they seem to come
from. -/
def Path.carry (p : Path) (out : List Output) : List Arrival :=
  out.filterMap fun
    | .datagram endpoint data =>
      if p.reaches endpoint then some { source := some (p.source endpoint), data } else none
    | _ => none

/-- The endpoints a voice frame is sent to from which it arrives, over all routes. -/
def reached (p : Path) (d : DirectVoiceTransport) : List SocketEndpoint :=
  d.peersInOrder.flatMap fun peerId =>
    match d.peers.get peerId with
    | some route => (targets route).filter p.reaches
    | none => []

/-- The frame as the receiver of its datagram gets it. The source is who sent the packet, and a
capture time before 1970 becomes 0. -/
def arrived (peerId : Bytes) (f : EncodedVoiceFrame) : EncodedVoiceFrame :=
  { f with sourcePeerId := peerId, captureUnixMs := max 0 f.captureUnixMs }

theorem carry_flatMap {γ : Type*} (p : Path) (l : List γ) (f : γ → List Output) :
    p.carry (l.flatMap f) = l.flatMap fun x => p.carry (f x) := by
  induction l with
  | nil => rfl
  | cons x l ih =>
    rw [List.flatMap_cons, List.flatMap_cons, ← ih]
    exact List.filterMap_append

theorem carry_append (p : Path) (out out' : List Output) :
    p.carry (out ++ out') = p.carry out ++ p.carry out' := List.filterMap_append

theorem carry_sendPacket (p : Path) (r : PeerRoute) {packet : Bytes} (h : packet ≠ []) :
    p.carry (sendPacket r packet) =
      ((targets r).filter p.reaches).map
        fun e => { source := some (p.source e), data := packet } := by
  rw [sendPacket, if_neg h, Path.carry, List.filterMap_map]
  induction targets r with
  | nil => rfl
  | cons e l ih =>
    by_cases he : p.reaches e = true
    · rw [List.filter_cons_of_pos he, List.map_cons, ← ih]
      simp [he]
    · rw [List.filter_cons_of_neg he, ← ih]
      simp [he]

/-- The ids that go into the datagrams of a transport leave room for the payload: the coordinator
makes ids of 21 bytes. -/
def IdsFit (d : DirectVoiceTransport) : Prop := d.roomId.length + d.localPeerId.length ≤ 272

theorem SameSetup.idsFit {d' : DirectVoiceTransport} (h : SameSetup d d') (hfit : d.IdsFit) :
    d'.IdsFit := by
  obtain ⟨_, rfl⟩ := h
  exact hfit

/-! ### Pings -/

/-- Arrivals that are pings of a transport, in any number. -/
def Pings (d : DirectVoiceTransport) (arrivals : List Arrival) : Prop :=
  ∀ a ∈ arrivals, a.data = d.pingPacket

theorem Pings.nil : d.Pings [] := fun _ ha => absurd ha List.not_mem_nil

theorem Pings.append {l l' : List Arrival} (h : d.Pings l) (h' : d.Pings l') : d.Pings (l ++ l') :=
  fun a ha => (List.mem_append.mp ha).elim (h a) (h' a)

theorem SameSetup.pings {d' : DirectVoiceTransport} (hs : SameSetup d d') {l : List Arrival}
    (h : d'.Pings l) : d.Pings l := by
  obtain ⟨_, rfl⟩ := hs
  exact h

/-- A ping carries no voice and fits the receiver's buffer. -/
theorem Pings.noVoice (hids : d.IdsFit) {l : List Arrival} (h : d.Pings l) (roomId k : Bytes) :
    l.filterMap (voiceOf roomId k) = [] ∧ ∀ a ∈ l, a.data.length ≤ 1500 := by
  have hlen : d.roomId.length + d.localPeerId.length ≤ 272 := hids
  have hdecode := @decodePacket_encode_append kPacketPing d.roomId d.localPeerId 0 0 []
    (by omega) (by omega) (Nat.zero_le _) []
  rw [List.append_nil] at hdecode
  refine ⟨List.filterMap_eq_nil_iff.mpr fun a ha => ?_, fun a ha => ?_⟩
  · rw [voiceOf, h a ha, pingPacket, hdecode]
    exact if_neg fun hvoice => absurd hvoice.2.2 (show kPacketPing ≠ kPacketVoice by decide)
  · rw [h a ha, pingPacket, encodePacket_eq (Nat.zero_le _) (by omega) (by omega), length_frame,
      List.length_nil]
    omega

theorem pings_sendPacket (p : Path) (r : PeerRoute) :
    d.Pings (p.carry (sendPacket r d.pingPacket)) := by
  by_cases hnil : d.pingPacket = []
  · rw [sendPacket, if_pos hnil]
    exact .nil
  · rw [carry_sendPacket p r hnil]
    intro a ha
    obtain ⟨_, -, rfl⟩ := List.mem_map.mp ha
    rfl

theorem pings_ensurePeer (p : Path) (now : ℕ) (peerId : Bytes) (initiateOffer : Bool) :
    d.Pings (p.carry (d.ensurePeer now peerId initiateOffer).2) := by
  rw [ensurePeer]
  split
  · exact .nil
  · dsimp only
    split <;> exact .nil

theorem pings_handleSignal (p : Path) (isNumericHost : Bytes → Bool) (now : ℕ)
    (sourcePeerId : Bytes) (signalType : SignalType) (payloadJson : Bytes) :
    d.Pings (p.carry (d.handleSignal isNumericHost now sourcePeerId signalType payloadJson).2) := by
  rw [handleSignal]
  split
  · exact .nil
  · dsimp only [sendPing]
    rw [carry_append]
    refine Pings.append ?_ (pings_sendPacket p _)
    split <;> split <;> exact .nil

theorem pings_pumpRoute (p : Path) (now : ℕ) (peerId : Bytes) (r : PeerRoute) :
    d.Pings (p.carry (d.pumpRoute now peerId r).2) := by
  obtain ⟨_, _, ping, resends, heq, hping, -⟩ := @pumpRoute_eq d now peerId r
  rw [heq, carry_append]
  refine Pings.append ?_ ?_
  · rcases hping with rfl | rfl
    · exact .nil
    · exact pings_sendPacket p r
  · cases resends <;> exact .nil

theorem pings_pumpRoutes (p : Path) (now : ℕ) (peerIds : List Bytes) :
    ∀ d : DirectVoiceTransport, d.Pings (p.carry (pumpRoutes now d peerIds).2) := by
  refine pumpRoutes_rule now (P := fun d _ out => d.Pings (p.carry out)) (fun _ => .nil) ?_ peerIds
  intro d q r d' out _ hrest
  rw [carry_append]
  exact (pings_pumpRoute p now q r).append ((sameSetup_setRoute q _).pings hrest)

theorem sameSetup_receive (now : ℕ) (a : Arrival) : SameSetup d (d.receive now a).1 := by
  rw [receive]
  cases decodePacket a.data a.data.length with
  | error _ => exact .refl d
  | ok packet =>
    dsimp only
    split
    · exact .refl d
    · exact ⟨_, rfl⟩

theorem sameSetup_drainSocket (now : ℕ) (arrivals : List Arrival) :
    ∀ d : DirectVoiceTransport, SameSetup d (drainSocket now d arrivals).1 := by
  refine drainSocket_rule now (P := fun d _ d' _ => SameSetup d d') .refl ?_ arrivals
  exact fun d a l d' out hrest => (sameSetup_receive now a).trans hrest

theorem sameSetup_pump (now : ℕ) (arrivals : List Arrival) :
    SameSetup d (d.pump now arrivals).1 := by
  rw [pump]
  split
  · exact .refl d
  · exact (sameSetup_drainSocket now arrivals d).trans (pumpRoutes_keeps now [] _ _).setup

theorem pings_pump (p : Path) (now : ℕ) (arrivals : List Arrival) :
    d.Pings (p.carry (d.pump now arrivals).2.1) := by
  rw [pump]
  split
  · exact .nil
  · dsimp only
    have hquiet : p.carry (drainSocket now d arrivals).2.1 = [] :=
      filterMap_drainSocket (fun _ => rfl) now arrivals d
    rw [carry_append, hquiet, List.nil_append]
    exact (sameSetup_drainSocket now arrivals d).pings (pings_pumpRoutes p now _ _)

/-! ### Voice -/

theorem datagrams_sendVoiceFrame (f : EncodedVoiceFrame) :
    ∀ o ∈ d.sendVoiceFrame f, ∃ endpoint data, o = .datagram endpoint data := by
  intro o ho
  rw [sendVoiceFrame] at ho
  split at ho
  · exact absurd ho List.not_mem_nil
  obtain ⟨peerId, -, ho⟩ := List.mem_flatMap.mp ho
  split at ho
  · rw [sendPacket] at ho
    split at ho
    · exact absurd ho List.not_mem_nil
    · obtain ⟨e, -, rfl⟩ := List.mem_map.mp ho
      exact ⟨e, _, rfl⟩
  · exact absurd ho List.not_mem_nil

theorem filterMap_sendVoiceFrame {γ : Type*} {f : Output → Option γ}
    (hdatagram : ∀ e data, f (.datagram e data) = none) (frame : EncodedVoiceFrame) :
    (d.sendVoiceFrame frame).filterMap f = [] := by
  refine List.filterMap_eq_nil_iff.mpr fun o ho => ?_
  obtain ⟨_, _, rfl⟩ := datagrams_sendVoiceFrame frame o ho
  exact hdatagram _ _

/-- A frame that `sendVoiceFrame` does not ignore: its payload is not empty and fits into a
datagram. -/
def Sendable (f : EncodedVoiceFrame) : Prop := 0 < f.payload.length ∧ f.payload.length ≤ 1200

section Sending

variable {f : EncodedVoiceFrame} (hids : d.IdsFit) (hf : Sendable f)

include hids hf

theorem length_voicePacket :
    28 ≤ (voicePacket d.roomId d.localPeerId f).length ∧
      (voicePacket d.roomId d.localPeerId f).length ≤ 1500 := by
  have hlen : d.roomId.length + d.localPeerId.length ≤ 272 := hids
  obtain ⟨-, hpayload⟩ := hf
  rw [voicePacket, encodePacket_eq hpayload (by omega) (by omega), length_frame]
  omega

theorem voiceOf_voicePacket (source : Option SocketEndpoint) :
    voiceOf d.roomId d.localPeerId
        { source, data := voicePacket d.roomId d.localPeerId f } =
      some (arrived d.localPeerId f) := by
  have hlen : d.roomId.length + d.localPeerId.length ≤ 272 := hids
  have hdecode := @decodePacket_encode_append kPacketVoice d.roomId d.localPeerId f.sequence
    f.captureUnixMs f.payload (by omega) (by omega) hf.2 []
  rw [List.append_nil] at hdecode
  rw [voiceOf]
  dsimp only
  rw [voicePacket, hdecode]
  exact if_pos ⟨rfl, rfl, rfl⟩

/-- **What a voice frame becomes on the way**: one datagram for each endpoint that reaches. An
endpoint that two routes name is sent to twice. -/
theorem carry_sendVoiceFrame (hrun : d.running = true) (p : Path) :
    p.carry (d.sendVoiceFrame f) = (d.reached p).map fun e =>
      { source := some (p.source e), data := voicePacket d.roomId d.localPeerId f } := by
  have hne : voicePacket d.roomId d.localPeerId f ≠ [] := fun h0 => by
    have hlen := (length_voicePacket hids hf).1
    rw [h0] at hlen
    exact absurd hlen (by simp)
  have hskip : ¬ (d.running = false ∨ f.payload = [] ∨ f.payload.length > kMaxUdpPayloadBytes) := by
    rintro (h | h | h)
    · rw [hrun] at h
      exact Bool.noConfusion h
    · exact absurd hf.1 (by rw [h]; exact lt_irrefl 0)
    · exact absurd h (not_lt.mpr hf.2)
  rw [sendVoiceFrame, if_neg hskip, carry_flatMap, reached, List.map_flatMap]
  refine congrArg (fun g => d.peersInOrder.flatMap g) (funext fun peerId => ?_)
  cases d.peers.get peerId with
  | none => rfl
  | some r => exact carry_sendPacket p r hne

/-- What the receiver reads from them: the same frame, once for each. Whether it passes on any of
them is decided by its number. -/
theorem voiceOf_carry_sendVoiceFrame (hrun : d.running = true) (p : Path) :
    (p.carry (d.sendVoiceFrame f)).filterMap (voiceOf d.roomId d.localPeerId) =
      List.replicate (d.reached p).length (arrived d.localPeerId f) := by
  have hone : ∀ e : SocketEndpoint, (voiceOf d.roomId d.localPeerId ∘ fun e =>
      ({ source := some (p.source e), data := voicePacket d.roomId d.localPeerId f } : Arrival)) e =
        some (arrived d.localPeerId f) :=
    fun e => voiceOf_voicePacket hids hf (some (p.source e))
  rw [carry_sendVoiceFrame hids hf hrun, List.filterMap_map]
  induction d.reached p with
  | nil => rfl
  | cons e l ih =>
    rw [List.filterMap_cons_some (hone e), ih]
    rfl

/-- All of them fit the receiver's buffer. -/
theorem readable_carry_sendVoiceFrame (hrun : d.running = true) (p : Path) :
    ∀ a ∈ p.carry (d.sendVoiceFrame f), a.data.length ≤ 1500 := by
  rw [carry_sendVoiceFrame hids hf hrun]
  intro a ha
  obtain ⟨e, -, rfl⟩ := List.mem_map.mp ha
  exact (length_voicePacket hids hf).2

end Sending

end DirectVoiceTransport

end Net

end TarkovVoice

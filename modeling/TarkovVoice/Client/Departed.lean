import TarkovVoice.Client.Effects
import TarkovVoice.Machine
import TarkovVoice.Net.Routes

/-!
# Peers that have left

`handleSignalingEvent` removes the route of a peer that leaves, so that nothing more is sent to it.
The socket is not asked: a datagram of the peer that is read later, because it was on the way or
because the peer still sends, brings the route back.

A run records which peers have left and have not been heard of since in an event of the coordinator.

## Main definitions

* `SignalingEvent.announced`, `SignalingEvent.left`
* `State`, `Step`, `machine`
* `Quiet` — nothing is kept for, or sent to, a peer that has left
* `Unheard` — no datagram of such a peer is read

## Main results

* `quiet_step`, `quiet_iff_unheard`
* `departed_peer_returns`
-/

namespace TarkovVoice

namespace Client

open Net (Bytes Arrival SocketEndpoint DirectVoiceTransport SignalType)
open Net.DirectVoiceTransport (Routed sentTo readable)
open Audio (EncodedVoiceFrame)

/-- The endpoints that datagrams go to. -/
def Effect.sentTo (effects : List Effect) : List SocketEndpoint :=
  effects.filterMap fun
    | .datagram endpoint _ => some endpoint
    | _ => none

theorem Effect.sentTo_eq_carried (effects : List Effect) :
    sentTo effects =
      (carried DirectVoiceTransport.everywhere effects).filterMap Arrival.source := by
  rw [sentTo, carried, List.filterMap_filterMap]
  refine congrArg (fun f => effects.filterMap f) (funext fun e => ?_)
  cases e <;> rfl

theorem Effect.sentTo_append (l l' : List Effect) : sentTo (l ++ l') = sentTo l ++ sentTo l' :=
  List.filterMap_append

/-- The peers that an event announces, or that it is a signal of. -/
def SignalingEvent.announced : SignalingEvent → List Bytes
  | .joinedRoom room => room.peerIds
  | .peerJoined peer => [peer.id]
  | .ice sourcePeerId _ _ => [sourcePeerId]
  | _ => []

/-- The peer that an event says has left. An event without an id says it of nobody, and is
ignored. -/
def SignalingEvent.left : SignalingEvent → List Bytes
  | .peerLeft peerId => if peerId = [] then [] else [peerId]
  | _ => []

namespace Application

variable {α β : Type*} {app : Application α β} {k : Bytes}

/-! ### Routes -/

/-- Callbacks leave the direct transport as it is, and its datagrams are what is sent. Signals and
frames go elsewhere. -/
theorem callbacks_routes (now : ℕ) (out : List Net.Output) :
    (callbacks now app out).1.directVoice = app.directVoice ∧
      Effect.sentTo (callbacks now app out).2 = sentTo out := by
  obtain ⟨⟨⟨_, hsame⟩, -⟩, hcarried, -⟩ :=
    callbacks_effects now DirectVoiceTransport.everywhere [] out app
  refine ⟨by rw [hsame], ?_⟩
  rw [Effect.sentTo_eq_carried, hcarried, DirectVoiceTransport.sentTo_eq_carry]

theorem ensurePeer_routes (now : ℕ) (peerId : Bytes) :
    ((app.ensurePeer now peerId).1.directVoice.HasRoute k →
        app.directVoice.HasRoute k ∨ k = peerId) ∧
      Effect.sentTo (app.ensurePeer now peerId).2 = [] := by
  have hcallbacks := fun directVoice => @callbacks_routes _ _ { app with directVoice } now
    (app.directVoice.ensurePeer now peerId
      (shouldInitiateDirectVoiceOffer app.session.localPeer.id peerId)).2
  rw [ensurePeer]
  dsimp only
  rw [(hcallbacks _).1, (hcallbacks _).2]
  refine ⟨fun hk => ?_, DirectVoiceTransport.filterMap_ensurePeer (fun _ _ _ => rfl) now peerId _⟩
  exact ((DirectVoiceTransport.hasRoute_ensurePeer now peerId _).mp hk).imp_right And.left

theorem meetPeers_routes (now : ℕ) (peerIds : List Bytes) :
    ∀ app : Application α β,
      ((meetPeers now app peerIds).1.directVoice.HasRoute k →
          app.directVoice.HasRoute k ∨ k ∈ peerIds) ∧
        Effect.sentTo (meetPeers now app peerIds).2 = [] := by
  induction peerIds with
  | nil => exact fun app => ⟨Or.inl, rfl⟩
  | cons peerId peerIds ih =>
    intro app
    rw [meetPeers]
    split
    · obtain ⟨hroute, hsent⟩ := ih app
      exact ⟨fun hk => (hroute hk).imp_right (List.mem_cons_of_mem _), hsent⟩
    · obtain ⟨hone, hquiet⟩ := @ensurePeer_routes _ _
        { app with
          session := app.session.addOrUpdatePeer now
            { id := peerId, nick := Net.utf8 "Player", lastSeen := now } } k now peerId
      obtain ⟨hrest, hsent⟩ := ih (Application.ensurePeer _ now peerId).1
      refine ⟨fun hk => ?_, ?_⟩
      · rcases hrest hk with hk | hk
        · exact (hone hk).imp_right fun h => List.mem_cons.mpr (Or.inl h)
        · exact Or.inr (List.mem_cons_of_mem _ hk)
      · dsimp only
        rw [Effect.sentTo_append, hquiet, hsent]
        rfl

/-- **Events.** A peer that has left has no route, and a route that is new is for a peer that the
event announces. What is sent goes along the routes there are then. -/
theorem handleSignalingEvent_routes (isNumericHost : Bytes → Bool) (now : ℕ)
    (event : SignalingEvent) :
    ((app.handleSignalingEvent isNumericHost now event).1.directVoice.HasRoute k →
        k ∉ event.left ∧ (app.directVoice.HasRoute k ∨ k ∈ event.announced)) ∧
      ∀ e ∈ Effect.sentTo (app.handleSignalingEvent isNumericHost now event).2,
        ∃ k, (app.handleSignalingEvent isNumericHost now event).1.directVoice.HasRoute k ∧
          e ∈ (app.handleSignalingEvent isNumericHost now event).1.directVoice.targetsOf k := by
  have hnone : ∀ {P : SocketEndpoint → Prop}, ∀ e ∈ Effect.sentTo [], P e :=
    fun _ he => absurd he List.not_mem_nil
  have hstays : app.directVoice.HasRoute k → k ∉ ([] : List Bytes) ∧
      (app.directVoice.HasRoute k ∨ k ∈ event.announced) :=
    fun hk => ⟨List.not_mem_nil, Or.inl hk⟩
  cases event with
  | joinedRoom room =>
    obtain ⟨hroute, hsent⟩ := @meetPeers_routes _ _ k now room.peerIds app
    refine ⟨fun hk => ⟨List.not_mem_nil, hroute hk⟩, ?_⟩
    rw [handleSignalingEvent, hsent]
    exact hnone
  | peerStatus peer =>
    rw [handleSignalingEvent]
    split <;> exact ⟨hstays, hnone⟩
  | peerJoined peer =>
    rw [handleSignalingEvent]
    split
    · exact ⟨hstays, hnone⟩
    · obtain ⟨hroute, hsent⟩ := @ensurePeer_routes _ _
        { app with session := app.session.addOrUpdatePeer now peer } k now peer.id
      rw [hsent]
      exact ⟨fun hk => ⟨List.not_mem_nil, (hroute hk).imp_right List.mem_singleton.mpr⟩, hnone⟩
  | ice sourcePeerId type payloadJson =>
    have hcallbacks := fun directVoice => @callbacks_routes _ _ { app with directVoice } now
      (app.directVoice.handleSignal isNumericHost now sourcePeerId type payloadJson).2
    rw [handleSignalingEvent]
    dsimp only
    rw [(hcallbacks _).1, (hcallbacks _).2]
    refine ⟨fun hk => ⟨List.not_mem_nil, ?_⟩, DirectVoiceTransport.routed_handleSignal isNumericHost
      now sourcePeerId type payloadJson⟩
    exact ((DirectVoiceTransport.hasRoute_handleSignal isNumericHost now sourcePeerId type
      payloadJson).mp hk).imp_right fun h => List.mem_singleton.mpr h.1
  | voiceFrame frame =>
    rw [handleSignalingEvent]
    split
    · exact ⟨hstays, hnone⟩
    · split <;> exact ⟨hstays, hnone⟩
  | peerLeft peerId =>
    rw [handleSignalingEvent, SignalingEvent.left]
    split
    · exact ⟨hstays, hnone⟩
    · refine ⟨fun hk => ?_, hnone⟩
      obtain ⟨hne, hroute⟩ := (DirectVoiceTransport.hasRoute_removePeer peerId).mp hk
      exact ⟨fun hmem => hne (List.mem_singleton.mp hmem), Or.inl hroute⟩
  | roomClosed => exact ⟨fun hk => absurd hk DirectVoiceTransport.not_hasRoute_stop, hnone⟩

theorem pumpDirectVoice_routes (now : ℕ) (arrivals : List Arrival) :
    (app.pumpDirectVoice now arrivals).1.directVoice = (app.directVoice.pump now arrivals).1 ∧
      Effect.sentTo (app.pumpDirectVoice now arrivals).2.1 =
        sentTo (app.directVoice.pump now arrivals).2.1 :=
  callbacks_routes now (app.directVoice.pump now arrivals).2.1

theorem sendVoiceFrame_routes (now : ℕ) (f : EncodedVoiceFrame) :
    (app.sendVoiceFrame now f).1 = app ∧
      Effect.sentTo (app.sendVoiceFrame now f).2 = sentTo (app.directVoice.sendVoiceFrame f) := by
  obtain ⟨hsame, hcarried, -⟩ := app.sendVoiceFrame_eq now f
  refine ⟨hsame, ?_⟩
  rw [Effect.sentTo_eq_carried, hcarried, DirectVoiceTransport.sentTo_eq_carry]

end Application

namespace Departed

variable {α β : Type*}

/-- The application, the peers that have left and have not been announced since, and what the last
step did. -/
structure State (α β : Type*) where
  app : Application α β
  departed : List Bytes := []
  effects : List Effect := []

/-- What happens: an event of the coordinator is handled, the direct transport is pumped and finds
datagrams from anywhere, a frame is sent. -/
inductive Step
  | handle (now : ℕ) (event : SignalingEvent)
  | pump (now : ℕ) (arrivals : List Arrival)
  | sendVoiceFrame (now : ℕ) (frame : EncodedVoiceFrame)

variable (isNumericHost : Bytes → Bool)

/-- What a step does. -/
def next (s : State α β) : Step → State α β
  | .handle now event =>
    { app := (s.app.handleSignalingEvent isNumericHost now event).1
      departed := event.left ++ s.departed.filter fun k => k ∉ event.announced
      effects := (s.app.handleSignalingEvent isNumericHost now event).2 }
  | .pump now arrivals =>
    { s with
      app := (s.app.pumpDirectVoice now arrivals).1
      effects := (s.app.pumpDirectVoice now arrivals).2.1 }
  | .sendVoiceFrame now frame =>
    { s with
      app := (s.app.sendVoiceFrame now frame).1
      effects := (s.app.sendVoiceFrame now frame).2 }

/-- Nobody has left yet. -/
def Init (s : State α β) : Prop := s.departed = [] ∧ s.effects = []

def machine : Machine (State α β) Step := .ofNext Init (fun _ _ => True) (next isNumericHost)

/-- Nothing is kept for a peer that has left, and what the last step sent went along the routes of
others. A peer that is announced again has not left any more. -/
structure Quiet (s : State α β) : Prop where
  forgotten : ∀ k ∈ s.departed, ¬ s.app.directVoice.HasRoute k
  unsent : ∀ e ∈ Effect.sentTo s.effects,
    ∃ k, k ∉ s.departed ∧ s.app.directVoice.HasRoute k ∧ e ∈ s.app.directVoice.targetsOf k

/-- No packet that a pump reads is from a peer that has left. Datagrams of it may still be on their
way. -/
def Unheard (s : State α β) : Step → Prop
  | .pump _ arrivals => s.app.directVoice.running = true →
      ∀ a ∈ readable arrivals, ∀ k ∈ s.departed, s.app.directVoice.sourceOf a ≠ some k
  | _ => True

variable {isNumericHost}

/-- What is sent goes along routes, so that it is enough to look at these. -/
theorem quiet_iff_forgotten {s : State α β}
    (h : ∀ e ∈ Effect.sentTo s.effects,
      ∃ k, s.app.directVoice.HasRoute k ∧ e ∈ s.app.directVoice.targetsOf k) :
    Quiet s ↔ ∀ k ∈ s.departed, ¬ s.app.directVoice.HasRoute k := by
  refine ⟨Quiet.forgotten, fun hforgotten => ⟨hforgotten, fun e he => ?_⟩⟩
  obtain ⟨k, hroute, hmem⟩ := h e he
  exact ⟨k, fun hk => hforgotten k hk hroute, hroute, hmem⟩

/-- **One step.** Whoever has left is still unknown after it, if and only if no packet of it was
read. -/
theorem quiet_step {s : State α β} (h : Quiet s) (step : Step) :
    Quiet (next isNumericHost s step) ↔ Unheard s step := by
  cases step with
  | handle now event =>
    have hroutes := fun k => @Application.handleSignalingEvent_routes _ _ s.app k isNumericHost now
      event
    refine (quiet_iff_forgotten (hroutes []).2).trans (iff_of_true (fun k hk hroute => ?_) trivial)
    obtain ⟨hleft, hroute⟩ := (hroutes k).1 hroute
    have hmem := List.mem_filter.mp ((List.mem_append.mp hk).resolve_left hleft)
    have hnew : k ∉ event.announced := by simpa using hmem.2
    exact hroute.elim (h.forgotten k hmem.1) hnew
  | pump now arrivals =>
    obtain ⟨hsame, hsent⟩ := @Application.pumpDirectVoice_routes _ _ s.app now arrivals
    refine (quiet_iff_forgotten ?_).trans ?_
    · show ∀ e ∈ Effect.sentTo (s.app.pumpDirectVoice now arrivals).2.1, ∃ k,
        (s.app.pumpDirectVoice now arrivals).1.directVoice.HasRoute k ∧
          e ∈ (s.app.pumpDirectVoice now arrivals).1.directVoice.targetsOf k
      rw [hsame, hsent]
      exact DirectVoiceTransport.routed_pump now arrivals
    · show (∀ k ∈ s.departed, ¬ (s.app.pumpDirectVoice now arrivals).1.directVoice.HasRoute k) ↔ _
      rw [hsame]
      constructor
      · intro hforgotten hrun a ha k hk hsource
        exact hforgotten k hk ((DirectVoiceTransport.hasRoute_pump now arrivals).mpr
          (Or.inr ⟨hrun, a, ha, hsource⟩))
      · intro hunheard k hk hroute
        rcases (DirectVoiceTransport.hasRoute_pump now arrivals).mp hroute with
          hroute | ⟨hrun, a, ha, hsource⟩
        · exact h.forgotten k hk hroute
        · exact hunheard hrun a ha k hk hsource
  | sendVoiceFrame now frame =>
    obtain ⟨hsame, hsent⟩ := @Application.sendVoiceFrame_routes _ _ s.app now frame
    refine (quiet_iff_forgotten ?_).trans (iff_of_true ?_ trivial)
    · show ∀ e ∈ Effect.sentTo (s.app.sendVoiceFrame now frame).2, ∃ k,
        (s.app.sendVoiceFrame now frame).1.directVoice.HasRoute k ∧
          e ∈ (s.app.sendVoiceFrame now frame).1.directVoice.targetsOf k
      rw [hsame, hsent]
      exact DirectVoiceTransport.routed_sendVoiceFrame frame
    · show ∀ k ∈ s.departed, ¬ (s.app.sendVoiceFrame now frame).1.directVoice.HasRoute k
      rw [hsame]
      exact h.forgotten

/-- **A peer that has left comes back** when it is heard. In every run of the application: nothing
is kept for or sent to a peer that has left, in every state it visits, exactly when no pump reads a
packet of such a peer. Such a packet may have been on the way when the peer left. -/
theorem quiet_iff_unheard {t : List (State α β × Step)} {s : State α β}
    (h : (machine isNumericHost).Run t s) :
    ((∀ x ∈ t, Quiet x.1) ∧ Quiet s) ↔ ∀ x ∈ t, Unheard x.1 x.2 := by
  refine @Machine.Run.visited_iff _ _ (machine isNumericHost) Quiet Unheard ?_ ?_ t s h
  · rintro s ⟨hdeparted, heffects⟩
    refine ⟨?_, ?_⟩
    · rw [hdeparted]
      exact fun _ hk => absurd hk List.not_mem_nil
    · rw [heffects]
      exact fun _ he => absurd he List.not_mem_nil
  · rintro s step _ - hquiet ⟨-, rfl⟩
    exact quiet_step hquiet step

/-! ### A datagram on the way -/

/-- A client that knows one other. -/
def inRoom : State Int16 Int16 where
  app :=
    { voice := {}
      session := { localPeer := { id := Net.utf8 "peer_2", lastSeen := 0 } }
      directVoice :=
        { roomId := Net.utf8 "room_a1"
          localPeerId := Net.utf8 "peer_2"
          peers := FMap.put ∅ (Net.utf8 "peer_3") { createdAt := 1 }
          running := true } }

/-- Where the datagrams of the others come from. -/
def outside : SocketEndpoint := ⟨Net.utf8 "203.0.113.9", 40771⟩

/-- A ping of a peer. -/
def pingOf (peerId : Bytes) : Arrival where
  source := some outside
  data := Net.encodePacket Net.kPacketPing (Net.utf8 "room_a1") peerId 0 0 []

def hello : EncodedVoiceFrame := { payload := [7] }

/-- The other leaves, and somebody else is heard. -/
def replaced : List Step :=
  [.handle 10 (.peerLeft (Net.utf8 "peer_3")), .pump 1000 [pingOf (Net.utf8 "peer_4")]]

/-- The other leaves, a ping of it is read, and a frame is sent. -/
def belated : List Step :=
  [.handle 10 (.peerLeft (Net.utf8 "peer_3")), .pump 1000 [pingOf (Net.utf8 "peer_3")],
    .sendVoiceFrame 1020 hello]

theorem run_of_steps (steps : List Step) :
    (machine fun _ => true).Run (Machine.trace (next fun _ => true) inRoom steps)
      (steps.foldl (next fun _ => true) inRoom) :=
  Machine.run_trace ⟨rfl, rfl⟩ fun _ _ => trivial

theorem quiet_iff_unheard_replaced :
    Quiet (replaced.foldl (next fun _ => true) inRoom) ∧
      (replaced.foldl (next fun _ => true) inRoom).app.directVoice.HasRoute
        (Net.utf8 "peer_4") := by
  refine ⟨((quiet_iff_unheard (run_of_steps replaced)).mpr ?_).2, by decide +kernel⟩
  simp only [replaced, Machine.forall_trace_cons, Machine.forall_trace_nil, and_true]
  refine ⟨trivial, fun _ => ?_⟩
  decide +kernel

/-- **A datagram that was on the way.** The route is back, and a frame is sent along it to whoever
has left. -/
theorem departed_peer_returns : ∃ t s, (@machine Int16 Int16 fun _ => true).Run t s ∧
    Net.utf8 "peer_3" ∈ s.departed ∧ s.app.directVoice.HasRoute (Net.utf8 "peer_3") ∧
    .datagram outside (DirectVoiceTransport.voicePacket (Net.utf8 "room_a1") (Net.utf8 "peer_2")
      hello) ∈ s.effects ∧ ¬ Quiet s := by
  have hleft : Net.utf8 "peer_3" ∈ (belated.foldl (next fun _ => true) inRoom).departed := by
    decide +kernel
  have hroute : (belated.foldl (next fun _ => true) inRoom).app.directVoice.HasRoute
      (Net.utf8 "peer_3") := by
    decide +kernel
  refine ⟨_, _, run_of_steps belated, hleft, hroute, ?_, fun h => h.forgotten _ hleft hroute⟩
  decide +kernel

end Departed

end Client

end TarkovVoice

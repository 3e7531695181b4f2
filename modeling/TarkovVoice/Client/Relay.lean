import TarkovVoice.Client.Effects
import TarkovVoice.Machine
import TarkovVoice.TwoPaths

/-!
# Voice between two clients, direct and relayed

Two clients in one room. Each sends its frames as datagrams, and through the coordinator while it
has not heard some participant. Each plays what arrives in datagrams, and relayed frames of those
it has not heard. Datagrams get lost while the way is down, in either direction; the coordinator
delivers everything in order.

What a client has heard says nothing about what arrives of its own datagrams. So a frame can be
lost in two ways: it is not relayed, and its datagram is lost; or its datagram is lost, and the
other client, which has heard earlier ones, ignores the relayed frame. These are the only two.

The datagrams on their way to a client, and the events the coordinator has for it, may include
those of other members of the room.

## Main definitions

* `Party`, `Party.act` — a client, and what it does to itself and to the other
* `Relay.machine`
* `Relay.Reached` — what was sent is played, or about to be
* `Relay.Covered` — the condition on a step

## Main results

* `Relay.reached_iff_covered` — nothing is lost exactly when every step is covered
* `Relay.deaf_sender` — a frame that is lost
-/

namespace TarkovVoice

namespace Client

open Net (Arrival Bytes DirectVoiceTransport RoomInfo)
open Net.DirectVoiceTransport (Path Sendable arrived frameKey voiceOf)
open Audio (EncodedVoiceFrame)

/-- A client, the datagrams on their way to it, and the events that the coordinator has for it.
The frames it passed to `HybridVoiceTransport::sendVoiceFrame`, those of them whose datagrams are
not lost, and the frames it passed to `playRemoteFrame` are kept. -/
structure Party (α β : Type*) where
  app : Application α β
  socket : List Arrival := []
  link : List SignalingEvent := []
  sent : List EncodedVoiceFrame := []
  carried : List EncodedVoiceFrame := []
  played : List EncodedVoiceFrame := []

namespace Relay

/-- What a client does, or what happens to it. What arrives over the two ways comes in order, and
anything may come from elsewhere in between. -/
inductive Action
  | sendVoiceFrame (now : ℕ) (frame : EncodedVoiceFrame)
  /-- The direct transport is pumped, and finds the first `count` datagrams. -/
  | pump (now count : ℕ)
  /-- The next event is handled. -/
  | handle (now : ℕ)
  /-- The coordinator has an event that is not due to the other client. -/
  | announce (event : SignalingEvent)
  /-- A datagram comes from elsewhere. -/
  | stray (a : Arrival)

variable {α β : Type*}

/-- What the coordinator makes of a message of the client `me` for the client `peerId`: signals for
the other reach it, and frames go to everybody else. -/
def forward (me peerId : Bytes) : Effect → Option SignalingEvent
  | .sendIce _ targetPeerId type payloadJson =>
    if targetPeerId = peerId then some (.ice me type payloadJson) else none
  | .sendVoiceFrame _ frame => some (.voiceFrame (arrived me frame))
  | _ => none

/-- What the effects of the client `me` are to the other: datagrams in its socket while the way is
up, and messages on the link from the coordinator. -/
def deliver (p : Path) (up : Bool) (me peerId : Bytes) (effects : List Effect) (x : Party α β) :
    Party α β :=
  { x with
    socket := x.socket ++ (if up then Effect.carried p effects else [])
    link := x.link ++ effects.filterMap (forward me peerId) }

/-- What an action of the client `me` makes of it and of the other. What it sends is on its way at
once, in order. -/
def act (isNumericHost : Bytes → Bool) (p : Path) (up : Bool) (me peerId : Bytes)
    (x y : Party α β) : Action → Party α β × Party α β
  | .sendVoiceFrame now frame =>
    let (app, effects) := x.app.sendVoiceFrame now frame
    ({ x with
        app
        sent := x.sent ++ [frame]
        carried :=
          if up = true ∧ x.app.directVoice.reached p ≠ [] then x.carried ++ [frame]
          else x.carried },
      deliver p up me peerId effects y)
  | .pump now count =>
    let (app, effects, left) := x.app.pumpDirectVoice now (x.socket.take count)
    ({ x with
        app
        socket := left ++ x.socket.drop count
        played := x.played ++ Effect.played effects },
      deliver p up me peerId effects y)
  | .handle now =>
    match x.link with
    | [] => (x, y)
    | event :: link =>
      let (app, effects) := x.app.handleSignalingEvent isNumericHost now event
      ({ x with app, link, played := x.played ++ Effect.played effects },
        deliver p up me peerId effects y)
  | .announce event => ({ x with link := x.link ++ [event] }, y)
  | .stray a => ({ x with socket := x.socket ++ [a] }, y)

/-- Frames are sent with increasing numbers, and what comes from elsewhere is not about the voice
of the other client. -/
def Enabled (roomId peerId : Bytes) (x : Party α β) : Action → Prop
  | .sendVoiceFrame _ frame => Sendable frame ∧ ∀ f ∈ x.sent, f.sequence < frame.sequence
  | .announce event => event ≠ .roomClosed ∧ event.about ≠ some peerId
  | .stray a => voiceOf roomId peerId a = none ∧ a.data.length ≤ 1500
  | _ => True

/-- The two clients, and whether the ways from the one to the other are up. A way that is down loses
every datagram; the way over the coordinator is always up. -/
structure State (α β : Type*) where
  a : Party α β
  b : Party α β
  upA : Bool := true
  upB : Bool := true

/-- The steps of the system. -/
inductive Step
  | a (action : Action)
  | b (action : Action)
  | link (upA upB : Bool)

/-- What is fixed: which addresses are numeric, the two ways, the room and the two clients. -/
structure Setting where
  isNumericHost : Bytes → Bool
  pathA : Path
  pathB : Path
  roomId : Bytes
  idA : Bytes
  idB : Bytes

variable (g : Setting)

/-- What a step does. -/
def next (s : State α β) : Step → State α β
  | .a action =>
    let (a, b) := act g.isNumericHost g.pathA s.upA g.idA g.idB s.a s.b action
    { s with a, b }
  | .b action =>
    let (b, a) := act g.isNumericHost g.pathB s.upB g.idB g.idA s.b s.a action
    { s with a, b }
  | .link upA upB => { s with upA, upB }

/-- A client in the room, with a running transport that has its callback, the relay switched on, ids
that fit a datagram, and nothing in its socket that does not fit its buffer. -/
structure Member (roomId me : Bytes) (x : Party α β) : Prop where
  running : x.app.directVoice.running = true
  callback : x.app.directVoice.frameCallback = true
  room : x.app.directVoice.roomId = roomId
  localPeer : x.app.directVoice.localPeerId = me
  fits : x.app.directVoice.IdsFit
  relays : x.app.relayEnabled = true
  session : x.app.session.room.map RoomInfo.id = some roomId
  readable : ∀ a ∈ x.socket, a.data.length ≤ 1500
  stays : ∀ e ∈ x.link, e ≠ .roomClosed

/-- The frames of the peer among those relayed. -/
def voiceFrom (peerId : Bytes) : SignalingEvent → Option EncodedVoiceFrame
  | .voiceFrame frame => if frame.sourcePeerId = peerId then some frame else none
  | _ => none

/-- The two paths from a client `me` to another: what was sent, what is in the socket and on the
link, and what has been played. -/
def paths (roomId me : Bytes) (x y : Party α β) : TwoPaths EncodedVoiceFrame ℕ where
  sent := x.sent.map (arrived me)
  carried := x.carried.map (arrived me)
  flight := y.socket.filterMap (voiceOf roomId me)
  relay := y.link.filterMap (voiceFrom me)
  played := y.played.filter fun f => f.sourcePeerId = me
  last := y.app.directVoice.lastVoice me

/-- Both clients have joined the room and know each other, and no voice has been sent. -/
structure Init (s : State α β) : Prop where
  a : Member g.roomId g.idA s.a
  b : Member g.roomId g.idB s.b
  distinct : g.idA ≠ g.idB
  named : g.roomId ≠ [] ∧ g.idA ≠ [] ∧ g.idB ≠ []
  metA : (∃ peer, s.a.app.session.peers.get g.idB = some peer) ∧
    ∃ route, s.a.app.directVoice.peers.get g.idB = some route
  metB : (∃ peer, s.b.app.session.peers.get g.idA = some peer) ∧
    ∃ route, s.b.app.directVoice.peers.get g.idA = some route
  about : ∀ e ∈ s.b.link, e.about ≠ some g.idA
  silent : paths g.roomId g.idA s.a s.b = ⟨[], [], [], [], [], ⊥⟩

/-- The steps that are possible. -/
def EnabledStep (s : State α β) : Step → Prop
  | .a action => Enabled g.roomId g.idB s.a action
  | .b action => Enabled g.roomId g.idA s.b action
  | .link _ _ => True

/-- The runs of the two clients. -/
def machine : Machine (State α β) Step := .ofNext (Init g) (EnabledStep g) (next g)

/-- Every frame of the first client has been played by the second, or is played when that reads its
socket, or waits as a relayed frame. -/
def Reached (s : State α β) : Prop :=
  ∀ f ∈ s.a.sent, arrived g.idA f ∈ s.b.played ∨
    (∀ now, arrived g.idA f ∈ Effect.played (s.b.app.pumpDirectVoice now s.b.socket).2.1) ∨
    .voiceFrame (arrived g.idA f) ∈ s.b.link

/-- The first client sends a frame while the way is up and it knows an endpoint of the second, or
while it has not heard some participant; the second handles a relayed frame of the first while it
has not heard it, or the datagram of the frame is not lost. -/
def Covered (s : State α β) : Step → Prop
  | .a (.sendVoiceFrame _ _) =>
    (s.upA = true ∧ s.a.app.directVoice.reached g.pathA ≠ []) ∨ s.a.app.needsRelay = true
  | .b (.handle _) => ∀ f, s.b.link.head? = some (.voiceFrame f) → f.sourcePeerId = g.idA →
    s.b.app.directVoice.hasPeerConnection g.idA = false ∨ f ∈ s.a.carried.map (arrived g.idA)
  | _ => True

/-! ### What is delivered -/

variable {isNumericHost : Bytes → Bool} {p : Path} {up : Bool} {roomId me peerId : Bytes}
  {x y : Party α β}

/-- The coordinator passes on signals and the relayed frames. -/
theorem mem_forward {effects : List Effect} {e : SignalingEvent}
    (h : e ∈ effects.filterMap (forward me peerId)) :
    (∃ type payloadJson, e = .ice me type payloadJson) ∨
      ∃ f ∈ Effect.relayed effects, e = .voiceFrame (arrived me f) := by
  obtain ⟨effect, hmem, heq⟩ := List.mem_filterMap.mp h
  cases effect with
  | datagram endpoint data => exact absurd heq (by simp [forward])
  | playRemoteFrame frame => exact absurd heq (by simp [forward])
  | sendIce room target type payloadJson =>
    rw [forward] at heq
    split at heq
    · exact Or.inl ⟨type, payloadJson, (Option.some.inj heq).symm⟩
    · exact absurd heq (by simp)
  | sendVoiceFrame room frame =>
    exact Or.inr ⟨frame, List.mem_filterMap.mpr ⟨_, hmem, rfl⟩, (Option.some.inj heq).symm⟩

theorem voiceFrom_forward (effects : List Effect) :
    (effects.filterMap (forward me peerId)).filterMap (voiceFrom me) =
      (Effect.relayed effects).map (arrived me) := by
  rw [List.filterMap_filterMap, Effect.relayed, List.map_filterMap]
  refine congrArg (List.filterMap · effects) (funext fun effect => ?_)
  cases effect with
  | datagram endpoint data => rfl
  | playRemoteFrame frame => rfl
  | sendIce room target type payloadJson =>
    rw [forward]
    split <;> rfl
  | sendVoiceFrame room frame => exact if_pos rfl

/-- **What the effects of a client add** to the two paths to the other: the datagrams that arrive,
and the frames that are relayed. -/
theorem paths_deliver (effects : List Effect) :
    paths roomId me x (deliver p up me peerId effects y) =
      { paths roomId me x y with
        flight := (paths roomId me x y).flight ++
          (if up then Effect.carried p effects else []).filterMap (voiceOf roomId me)
        relay := (paths roomId me x y).relay ++ (Effect.relayed effects).map (arrived me) } := by
  rw [paths, deliver]
  dsimp only
  rw [List.filterMap_append, List.filterMap_append, voiceFrom_forward]
  rfl

/-- The other client has joined as before. -/
theorem Member.deliver (h : Member roomId me y) {id : Bytes} {effects : List Effect}
    (hfit : ∀ a ∈ Effect.carried p effects, a.data.length ≤ 1500) :
    Member roomId me (deliver p up id peerId effects y) := by
  refine ⟨h.running, h.callback, h.room, h.localPeer, h.fits, h.relays, h.session, fun a ha => ?_,
    fun e he => ?_⟩
  · rcases List.mem_append.mp ha with ha | ha
    · exact h.readable a ha
    · split at ha
      · exact hfit a ha
      · exact absurd ha List.not_mem_nil
  · rcases List.mem_append.mp he with he | he
    · exact h.stays e he
    · rcases mem_forward he with ⟨_, _, rfl⟩ | ⟨_, _, rfl⟩ <;> exact SignalingEvent.noConfusion

/-- The client itself has joined as before. -/
theorem Member.step (h : Member roomId me x) {x' : Party α β}
    (hroom : x.app.SameRoom x'.app)
    (hsetup : DirectVoiceTransport.SameSetup x.app.directVoice x'.app.directVoice)
    (hreadable : ∀ a ∈ x'.socket, a.data.length ≤ 1500)
    (hstays : ∀ e ∈ x'.link, e ≠ .roomClosed) : Member roomId me x' := by
  exact ⟨hsetup.running.trans h.running, hsetup.frameCallback.trans h.callback,
    hsetup.roomId.trans h.room, hsetup.localPeerId.trans h.localPeer, hsetup.idsFit h.fits,
    hroom.1.trans h.relays, hroom.2.trans h.session, hreadable, hstays⟩

/-- A call that sends only pings and signals. -/
theorem paths_deliver_quiet (h : Member roomId me x) {effects : List Effect}
    (hpings : x.app.directVoice.Pings (Effect.carried p effects))
    (hrelayed : Effect.relayed effects = []) :
    paths roomId me x (deliver p up me peerId effects y) = paths roomId me x y ∧
      ∀ a ∈ Effect.carried p effects, a.data.length ≤ 1500 := by
  obtain ⟨hnone, hfit⟩ := hpings.noVoice h.fits roomId me
  refine ⟨?_, hfit⟩
  rw [paths_deliver, hrelayed]
  have hflight :
      (if up then Effect.carried p effects else []).filterMap (voiceOf roomId me) = [] := by
    split
    · exact hnone
    · rfl
  rw [hflight, List.append_nil, List.map_nil, List.append_nil]

theorem split_filterMap {γ δ : Type*} (f : γ → Option δ) (count : ℕ) (l : List γ) :
    l.filterMap f = (l.take count).filterMap f ++ (l.drop count).filterMap f := by
  rw [← List.filterMap_append, List.take_append_drop]

/-- What the transport leaves in the socket. -/
theorem socket_pump (h : Member roomId me x) {k : Bytes} (hk : k ≠ []) (hne : k ≠ me)
    (now count : ℕ) :
    (x.app.pumpDirectVoice now (x.socket.take count)).2.2 = [] ∧
      Application.playedOf k (x.app.pumpDirectVoice now (x.socket.take count)).2.1 =
        newest frameKey (x.app.directVoice.lastVoice k)
          ((x.socket.take count).filterMap (voiceOf roomId k)) ∧
      (x.app.pumpDirectVoice now (x.socket.take count)).1.directVoice.lastVoice k =
        lastKey frameKey (x.app.directVoice.lastVoice k)
          ((x.socket.take count).filterMap (voiceOf roomId k)) := by
  have hread : ∀ a ∈ x.socket.take count, a.data.length ≤ 1500 :=
    fun a ha => h.readable a (List.mem_of_mem_take ha)
  obtain ⟨hplayed, hlast, hleft⟩ := @Application.pumpDirectVoice_takes _ _ x.app k hk
    (by rw [h.localPeer]; exact hne) h.callback h.running now (x.socket.take count)
  rw [DirectVoiceTransport.readable_eq_self hread, h.room] at hplayed hlast
  rw [DirectVoiceTransport.unread_eq_nil hread] at hleft
  exact ⟨hleft, hplayed, hlast⟩

/-- **Relaying** is decided by `needsRelay`, as long as relaying is on and the client is in the
room. -/
theorem relay_eq_nil_iff (h : Member roomId me x) (hroom : roomId ≠ []) {f : EncodedVoiceFrame}
    (hf : Sendable f) : x.app.relay f = [] ↔ x.app.needsRelay = false := by
  obtain ⟨room, hsome, hid⟩ := Option.map_eq_some_iff.mp h.session
  have hpayload : f.payload ≠ [] := List.length_pos_iff.mp hf.1
  rw [Application.relay, h.relays, if_neg Bool.noConfusion, hsome]
  dsimp only
  cases x.app.needsRelay with
  | false => exact ⟨fun _ => rfl, fun _ => rfl⟩
  | true =>
    rw [if_pos rfl, Application.signalVoiceFrame, if_neg (by rw [hid]; simp [hroom, hpayload])]
    exact ⟨fun h => absurd h (List.cons_ne_nil _ _), Bool.noConfusion⟩

/-! ### What a client does as the sender -/

/-- **Sending a frame** gives it to the direct path for each endpoint that reaches the other, and
to the relay path if some participant has not been heard. -/
theorem paths_sendVoiceFrame (h : Member roomId me x) (hroom : roomId ≠ []) (now : ℕ)
    {f : EncodedVoiceFrame} (hf : Sendable f) :
    paths roomId me (act isNumericHost p up me peerId x y (.sendVoiceFrame now f)).1
        (act isNumericHost p up me peerId x y (.sendVoiceFrame now f)).2 =
      (paths roomId me x y).send (arrived me f)
        (if up then (x.app.directVoice.reached p).length else 0) x.app.needsRelay := by
  obtain ⟨-, hcarried, -, hrelayed⟩ := x.app.sendVoiceFrame_eq now f
  have hflight := @DirectVoiceTransport.voiceOf_carry_sendVoiceFrame _ f h.fits hf h.running p
  rw [h.room, h.localPeer] at hflight
  have hcopies : 0 < (if up then (x.app.directVoice.reached p).length else 0) ↔
      up = true ∧ x.app.directVoice.reached p ≠ [] := by
    cases up with
    | false => simp
    | true => simp [List.length_pos_iff]
  rw [act]
  dsimp only
  rw [paths_deliver, hcarried, hrelayed, TwoPaths.send]
  refine TwoPaths.ext List.map_append ?_ ?_ ?_ rfl rfl
  · show (if _ then _ else _ : List EncodedVoiceFrame).map _ = if _ then _ else _
    by_cases hdirect : up = true ∧ x.app.directVoice.reached p ≠ []
    · rw [if_pos hdirect, if_pos (hcopies.mpr hdirect), List.map_append]
      rfl
    · rw [if_neg hdirect, if_neg (hcopies.not.mpr hdirect)]
      rfl
  · cases up with
    | false => rfl
    | true => exact congrArg ((paths roomId me x y).flight ++ ·) hflight
  · show _ ++ List.map _ (if _ then _ else _) = if _ then _ else _
    have hrelay := relay_eq_nil_iff h hroom hf
    cases hneeds : x.app.needsRelay with
    | false =>
      rw [if_pos (hrelay.mpr hneeds), List.map_nil, List.append_nil]
      rfl
    | true =>
      rw [if_neg (hrelay.not.mpr (by rw [hneeds]; exact Bool.noConfusion))]
      rfl

/-- **What a client does otherwise** does not touch the paths from it. -/
theorem paths_act (h : Member roomId me x) {action : Action}
    (hsend : ∀ now f, action ≠ .sendVoiceFrame now f) :
    paths roomId me (act isNumericHost p up me peerId x y action).1
      (act isNumericHost p up me peerId x y action).2 = paths roomId me x y := by
  cases action with
  | sendVoiceFrame now f => exact absurd rfl (hsend now f)
  | pump now count =>
    obtain ⟨-, -, -, hpings, hrelayed⟩ :=
      x.app.pumpDirectVoice_same now (x.socket.take count)
    exact (paths_deliver_quiet h (hpings p) hrelayed).1
  | handle now =>
    rw [act]
    cases hlink : x.link with
    | nil => rfl
    | cons e link =>
      have hcalm := @Application.handleSignalingEvent_calm _ _ x.app isNumericHost now e
        (h.stays e (by rw [hlink]; exact List.mem_cons_self))
      exact (paths_deliver_quiet h (hcalm.pings p) hcalm.relayed).1
  | announce event => rfl
  | stray a => rfl

/-! ### What a client does as the receiver -/

/-- The other client sends nothing by this. -/
theorem paths_act_right {k : Bytes} (z : Party α β) (action : Action) :
    paths roomId k (act isNumericHost p up me peerId x y action).2 z = paths roomId k y z := by
  cases action with
  | handle now =>
    rw [act]
    cases x.link <;> rfl
  | sendVoiceFrame _ _ | pump _ _ | announce _ | stray _ => rfl

theorem voiceFrom_eq_none {e : SignalingEvent} {k : Bytes} (h : e.about ≠ some k) :
    voiceFrom k e = none := by
  cases e with
  | voiceFrame frame => exact if_neg fun hk => h (congrArg some hk)
  | joinedRoom _ | peerStatus _ | peerJoined _ | ice _ _ _ | peerLeft _ | roomClosed => rfl

/-- **Reading the socket** is reading the direct path: what is newer than all before is played, and
the rest is not. -/
theorem paths_pump (h : Member roomId me x) {k : Bytes} (hk : k ≠ []) (hne : k ≠ me)
    (now count : ℕ) :
    paths roomId k y (act isNumericHost p up me peerId x y (.pump now count)).1 =
      (paths roomId k y x).read frameKey ((x.socket.take count).filterMap (voiceOf roomId k))
        ((x.socket.drop count).filterMap (voiceOf roomId k)) := by
  obtain ⟨hleft, hplayed, hlast⟩ := socket_pump h hk hne now count
  rw [act]
  dsimp only
  rw [TwoPaths.read, hleft, paths]
  congr 1
  show (x.played ++ _).filter _ = x.played.filter _ ++ _
  rw [List.filter_append]
  exact congrArg (x.played.filter _ ++ ·) hplayed

/-- **Handling a relayed frame** is taking it off the relay path: it is played unless its sender
counts as connected. -/
theorem paths_handle {k : Bytes} {f : EncodedVoiceFrame} (hf : f.payload ≠ [])
    (hk : f.sourcePeerId = k) {link : List SignalingEvent} (hlink : x.link = .voiceFrame f :: link)
    (now : ℕ) :
    paths roomId k y (act isNumericHost p up me peerId x y (.handle now)).1 =
      (paths roomId k y x).take f (link.filterMap (voiceFrom k))
        (!x.app.directVoice.hasPeerConnection k) := by
  rw [act, hlink]
  dsimp only
  rw [Application.handleSignalingEvent, if_neg hf, hk, TwoPaths.take, paths]
  cases x.app.directVoice.hasPeerConnection k with
  | false =>
    congr 1
    show (x.played ++ [f]).filter _ = _
    rw [List.filter_append, List.filter_cons_of_pos (by simpa using hk)]
    rfl
  | true =>
    congr 1
    show (x.played ++ []).filter _ = _
    rw [List.append_nil]
    rfl

/-- Handling an event that is not about the voice of the peer. -/
theorem paths_handle_other (h : Member roomId me x) {k : Bytes}
    (hhead : ∀ e, x.link.head? = some e → e.about ≠ some k) (now : ℕ) :
    paths roomId k y (act isNumericHost p up me peerId x y (.handle now)).1 =
      paths roomId k y x := by
  rw [act]
  cases hlink : x.link with
  | nil => rfl
  | cons e link =>
    have habout : e.about ≠ some k := hhead e (by rw [hlink]; rfl)
    have hcalm := @Application.handleSignalingEvent_calm _ _ x.app isNumericHost now e
      (h.stays e (by rw [hlink]; exact List.mem_cons_self))
    have hplayed := hcalm.played k habout.symm
    rw [Application.playedOf] at hplayed
    dsimp only
    rw [paths, paths, hcalm.lastVoice k habout.symm, List.filter_append, hplayed, List.append_nil,
      hlink, List.filterMap_cons_none (voiceFrom_eq_none habout)]

/-! ### What stays -/

/-- **Both clients stay** in the room. -/
theorem member_act {you : Bytes} (hx : Member roomId me x) (hy : Member roomId you y)
    {action : Action} (hen : Enabled roomId peerId x action) :
    Member roomId me (act isNumericHost p up me peerId x y action).1 ∧
      Member roomId you (act isNumericHost p up me peerId x y action).2 := by
  cases action with
  | sendVoiceFrame now f =>
    obtain ⟨hsame, hcarried, -, -⟩ := x.app.sendVoiceFrame_eq now f
    refine ⟨hx.step ?_ ?_ hx.readable hx.stays, hy.deliver ?_⟩
    · show x.app.SameRoom (x.app.sendVoiceFrame now f).1
      rw [hsame]
      exact ⟨rfl, rfl⟩
    · show DirectVoiceTransport.SameSetup _ (x.app.sendVoiceFrame now f).1.directVoice
      rw [hsame]
      exact .refl _
    · show ∀ a ∈ Effect.carried p (x.app.sendVoiceFrame now f).2, _
      rw [hcarried]
      exact DirectVoiceTransport.readable_carry_sendVoiceFrame hx.fits hen.1 hx.running p
  | pump now count =>
    obtain ⟨-, hroom, hsetup, hpings, -⟩ := x.app.pumpDirectVoice_same now (x.socket.take count)
    have hread : ∀ a ∈ x.socket.take count, a.data.length ≤ 1500 :=
      fun a ha => hx.readable a (List.mem_of_mem_take ha)
    refine ⟨hx.step hroom hsetup (fun a ha => ?_) hx.stays,
      hy.deliver ((hpings p).noVoice hx.fits [] []).2⟩
    rcases List.mem_append.mp ha with ha | ha
    · exact hread a (Application.mem_left_pumpDirectVoice ha)
    · exact hx.readable a (List.mem_of_mem_drop ha)
  | handle now =>
    rw [act]
    cases hlink : x.link with
    | nil => exact ⟨hx, hy⟩
    | cons e link =>
      have hstays : ∀ e' ∈ e :: link, e' ≠ .roomClosed := hlink ▸ hx.stays
      have hcalm := @Application.handleSignalingEvent_calm _ _ x.app isNumericHost now e
        (hstays e List.mem_cons_self)
      exact ⟨hx.step hcalm.room hcalm.setup hx.readable
          fun e' he => hstays e' (List.mem_cons_of_mem e he),
        hy.deliver ((hcalm.pings p).noVoice hx.fits [] []).2⟩
  | announce event =>
    refine ⟨hx.step ⟨rfl, rfl⟩ (.refl _) hx.readable fun e he => ?_, hy⟩
    rcases List.mem_append.mp he with he | he
    · exact hx.stays e he
    · rw [List.mem_singleton.mp he]
      exact hen.1
  | stray a =>
    refine ⟨hx.step ⟨rfl, rfl⟩ (.refl _) (fun a' ha => ?_) hx.stays, hy⟩
    rcases List.mem_append.mp ha with ha | ha
    · exact hx.readable a' ha
    · rw [List.mem_singleton.mp ha]
      exact hen.2

/-- An event about the voice of a peer is a frame of it. -/
def Sound (k : Bytes) (e : SignalingEvent) : Prop :=
  e.about = some k → ∃ f, e = .voiceFrame f ∧ f.payload ≠ []

/-- The events that a client causes are sound. -/
theorem sound_act_right {action : Action} (hx : Member roomId me x)
    (hen : Enabled roomId peerId x action) (h : ∀ e ∈ y.link, Sound me e) :
    ∀ e ∈ (act isNumericHost p up me peerId x y action).2.link, Sound me e := by
  have hdeliver : ∀ effects : List Effect, (∀ f ∈ Effect.relayed effects, f.payload ≠ []) →
      ∀ e ∈ (deliver p up me peerId effects y).link, Sound me e := by
    intro effects hrelayed e he
    rcases List.mem_append.mp he with he | he
    · exact h e he
    · rcases mem_forward he with ⟨_, _, rfl⟩ | ⟨f, hf, rfl⟩
      · exact fun habout => absurd habout (by simp [SignalingEvent.about])
      · exact fun _ => ⟨_, rfl, hrelayed f hf⟩
  cases action with
  | sendVoiceFrame now f =>
    refine hdeliver (x.app.sendVoiceFrame now f).2 fun f' hf' => ?_
    rw [(x.app.sendVoiceFrame_eq now f).2.2.2] at hf'
    split at hf'
    · exact absurd hf' List.not_mem_nil
    · rw [List.mem_singleton.mp hf']
      exact List.length_pos_iff.mp hen.1.1
  | pump now count =>
    refine hdeliver (x.app.pumpDirectVoice now (x.socket.take count)).2.1 fun f' hf' => ?_
    rw [(x.app.pumpDirectVoice_same now (x.socket.take count)).2.2.2.2] at hf'
    exact absurd hf' List.not_mem_nil
  | handle now =>
    rw [act]
    cases hlink : x.link with
    | nil => exact h
    | cons e link =>
      have hcalm := @Application.handleSignalingEvent_calm _ _ x.app isNumericHost now e
        (hx.stays e (by rw [hlink]; exact List.mem_cons_self))
      refine hdeliver (x.app.handleSignalingEvent isNumericHost now e).2 fun f' hf' => ?_
      rw [hcalm.relayed] at hf'
      exact absurd hf' List.not_mem_nil
  | announce event => exact h
  | stray a => exact h

/-- The events that wait for a client stay sound. -/
theorem sound_act_left {action : Action} {k : Bytes} (hen : Enabled roomId k x action)
    (h : ∀ e ∈ x.link, Sound k e) :
    ∀ e ∈ (act isNumericHost p up me k x y action).1.link, Sound k e := by
  cases action with
  | sendVoiceFrame now f => exact h
  | pump now count => exact h
  | handle now =>
    rw [act]
    cases hlink : x.link with
    | nil => exact h
    | cons e link => exact fun e' he => h e' (hlink ▸ List.mem_cons_of_mem e he)
  | announce event =>
    intro e he
    rcases List.mem_append.mp he with he | he
    · exact h e he
    · rw [List.mem_singleton.mp he]
      exact fun habout => absurd habout hen.2
  | stray a => exact h

/-! ### Steps and runs -/

variable {g}

/-- What holds in every state of a run: both clients are members, the events under way about the
first are its frames, and the frames that came over the two paths are those that were sent over
them. -/
structure Inv (g : Setting) (s : State α β) : Prop where
  a : Member g.roomId g.idA s.a
  b : Member g.roomId g.idB s.b
  distinct : g.idA ≠ g.idB
  room : g.roomId ≠ []
  named : g.idA ≠ []
  sound : ∀ e ∈ s.b.link, Sound g.idA e
  paths : (paths g.roomId g.idA s.a s.b).Inv frameKey

theorem Init.inv {s : State α β} (h : Init g s) : Inv g s := by
  refine ⟨h.a, h.b, h.distinct, h.named.1, h.named.2.1,
    fun e he habout => absurd habout (h.about e he), ?_⟩
  rw [h.silent]
  refine ⟨.nil, fun _ hx => hx, .nil, fun _ hx => hx, .nil, fun _ hx => hx, bot_le, fun x hx => ?_,
    fun x hx => ?_⟩
  · exact absurd hx List.not_mem_nil
  · exact absurd hx List.not_mem_nil

/-- `Reached` is about the two paths. -/
theorem Inv.reached_iff {s : State α β} (h : Inv g s) :
    Reached g s ↔ (Relay.paths g.roomId g.idA s.a s.b).Reaches frameKey := by
  have hplayed : ∀ (f : EncodedVoiceFrame) (l : List EncodedVoiceFrame),
      arrived g.idA f ∈ l.filter (fun f => f.sourcePeerId = g.idA) ↔
      arrived g.idA f ∈ l := fun f l => by
    rw [List.mem_filter]
    exact and_iff_left (decide_eq_true rfl)
  have hread : ∀ now f, arrived g.idA f ∈
      Effect.played (s.b.app.pumpDirectVoice now s.b.socket).2.1 ↔
        arrived g.idA f ∈ newest frameKey (s.b.app.directVoice.lastVoice g.idA)
          (s.b.socket.filterMap (voiceOf g.roomId g.idA)) := by
    intro now f
    have hpump := (@socket_pump _ _ g.roomId g.idB s.b h.b g.idA h.named h.distinct now
      s.b.socket.length).2.1
    rw [List.take_length] at hpump
    rw [← hpump, Application.playedOf, hplayed]
  have hlink : ∀ f, arrived g.idA f ∈ s.b.link.filterMap (voiceFrom g.idA) ↔
      .voiceFrame (arrived g.idA f) ∈ s.b.link := by
    intro f
    rw [List.mem_filterMap]
    constructor
    swap
    · exact fun hf => ⟨_, hf, if_pos rfl⟩
    rintro ⟨e, he, hf⟩
    cases e with
    | voiceFrame frame =>
      rw [voiceFrom] at hf
      split at hf
      · rwa [← Option.some.inj hf]
      · exact absurd hf (by simp)
    | joinedRoom _ | peerStatus _ | peerJoined _ | ice _ _ _ | peerLeft _ | roomClosed =>
      exact absurd hf (by simp [voiceFrom])
  show Reached g s ↔ ∀ f' ∈ s.a.sent.map (arrived g.idA), f' ∈ s.b.played.filter _ ∨
    f' ∈ newest frameKey _ _ ∨ f' ∈ s.b.link.filterMap _
  rw [List.forall_mem_map]
  refine forall₂_congr fun f _ => ?_
  rw [hplayed, hlink]
  exact or_congr_right (or_congr_left ⟨fun hf => (hread 0 f).mp (hf 0), fun hf now =>
    (hread now f).mpr hf⟩)

/-- **A step of the first client** keeps the invariant, and every frame in reach if and only if the
step covers what it sends and ignores. -/
theorem Inv.step_a {s : State α β} (h : Inv g s) {action : Action}
    (hen : Enabled g.roomId g.idB s.a action) :
    Inv g (next g s (.a action)) ∧
      (Reached g s → (Reached g (next g s (.a action)) ↔ Covered g s (.a action))) := by
  obtain ⟨ha, hb⟩ := @member_act _ _ g.isNumericHost g.pathA s.upA g.roomId g.idA g.idB s.a s.b
    g.idB h.a h.b action hen
  have hsound := @sound_act_right _ _ g.isNumericHost g.pathA s.upA g.roomId g.idA g.idB s.a s.b
    action h.a hen h.sound
  by_cases hsend : ∃ now f, action = .sendVoiceFrame now f
  · obtain ⟨now, f, rfl⟩ := hsend
    have hpaths := @paths_sendVoiceFrame _ _ g.isNumericHost g.pathA s.upA g.roomId g.idA g.idB
      s.a s.b h.a h.room now f hen.1
    have hnew : ∀ y ∈ (Relay.paths g.roomId g.idA s.a s.b).sent,
        frameKey y < frameKey (arrived g.idA f) := by
      intro y hy
      obtain ⟨f', hf', rfl⟩ := List.mem_map.mp hy
      exact UInt32.lt_iff_toNat_lt.mp (hen.2 f' hf')
    have hinv : Inv g (next g s (.a (.sendVoiceFrame now f))) :=
      ⟨ha, hb, h.distinct, h.room, h.named, hsound, hpaths ▸ h.paths.send hnew _ _⟩
    refine ⟨hinv, fun hs => ?_⟩
    rw [hinv.reached_iff]
    refine (iff_of_eq (congrArg (TwoPaths.Reaches frameKey) hpaths)).trans ?_
    rw [h.paths.reaches_send hnew _ _ (h.reached_iff.mp hs), Covered]
    refine or_congr_left ?_
    cases s.upA with
    | false => simp
    | true => simp [List.length_pos_iff]
  · have hother : ∀ now f, action ≠ .sendVoiceFrame now f :=
      fun now f heq => hsend ⟨now, f, heq⟩
    have hpaths := @paths_act _ _ g.isNumericHost g.pathA s.upA g.roomId g.idA g.idB s.a s.b h.a
      action hother
    have hinv : Inv g (next g s (.a action)) :=
      ⟨ha, hb, h.distinct, h.room, h.named, hsound, hpaths ▸ h.paths⟩
    refine ⟨hinv, fun hs => ?_⟩
    have hcovered : Covered g s (.a action) := by
      cases action with
      | sendVoiceFrame now f => exact absurd rfl (hother now f)
      | pump _ _ | handle _ | announce _ | stray _ => trivial
    rw [hinv.reached_iff]
    refine (iff_of_eq (congrArg (TwoPaths.Reaches frameKey) hpaths)).trans ?_
    exact iff_of_true (h.reached_iff.mp hs) hcovered

/-- **A step of the second client** does the same, with the parts exchanged. -/
theorem Inv.step_b {s : State α β} (h : Inv g s) {action : Action}
    (hen : Enabled g.roomId g.idA s.b action) :
    Inv g (next g s (.b action)) ∧
      (Reached g s → (Reached g (next g s (.b action)) ↔ Covered g s (.b action))) := by
  obtain ⟨hb, ha⟩ := @member_act _ _ g.isNumericHost g.pathB s.upB g.roomId g.idB g.idA s.b s.a
    g.idA h.b h.a action hen
  have hsound := @sound_act_left _ _ g.isNumericHost g.pathB s.upB g.roomId g.idB s.b s.a
    action g.idA hen h.sound
  -- what the action does to the two paths decides everything else
  have hfinish : ∀ {q : TwoPaths EncodedVoiceFrame ℕ},
      Relay.paths g.roomId g.idA s.a (next g s (.b action)).b = q → q.Inv frameKey →
      ((Relay.paths g.roomId g.idA s.a s.b).Reaches frameKey →
        (q.Reaches frameKey ↔ Covered g s (.b action))) →
      Inv g (next g s (.b action)) ∧
        (Reached g s → (Reached g (next g s (.b action)) ↔ Covered g s (.b action))) := by
    intro q hpaths hq hcovered
    replace hpaths : Relay.paths g.roomId g.idA (next g s (.b action)).a
        (next g s (.b action)).b = q := (paths_act_right _ action).trans hpaths
    have hinv : Inv g (next g s (.b action)) :=
      ⟨ha, hb, h.distinct, h.room, h.named, hsound, hpaths ▸ hq⟩
    refine ⟨hinv, fun hs => ?_⟩
    rw [hinv.reached_iff]
    exact (iff_of_eq (congrArg (TwoPaths.Reaches frameKey) hpaths)).trans
      (hcovered (h.reached_iff.mp hs))
  have hkeep : Relay.paths g.roomId g.idA s.a (next g s (.b action)).b =
      Relay.paths g.roomId g.idA s.a s.b → Covered g s (.b action) →
      Inv g (next g s (.b action)) ∧
        (Reached g s → (Reached g (next g s (.b action)) ↔ Covered g s (.b action))) :=
    fun hpaths hcovered => hfinish hpaths h.paths fun hs => iff_of_true hs hcovered
  cases action with
  | sendVoiceFrame now f =>
    refine hkeep ?_ trivial
    have hsame := congrArg (fun app => app.directVoice.lastVoice g.idA)
      (s.b.app.sendVoiceFrame_eq now f).1
    exact TwoPaths.ext rfl rfl rfl rfl rfl hsame
  | pump now count =>
    have hpaths := @paths_pump _ _ g.isNumericHost g.pathB s.upB g.roomId g.idB g.idA s.b s.a h.b
      g.idA h.named h.distinct now count
    refine hfinish hpaths (h.paths.read ?_) fun hs => ?_
    · exact split_filterMap _ count s.b.socket
    · exact iff_of_true
        ((TwoPaths.reaches_read (split_filterMap _ count s.b.socket)).mpr hs) trivial
  | handle now =>
    by_cases hvoice : ∃ f link, s.b.link = .voiceFrame f :: link ∧ f.sourcePeerId = g.idA
    · obtain ⟨f, link, hlink, hsource⟩ := hvoice
      obtain ⟨f', hf', hpayload⟩ := h.sound (.voiceFrame f)
        (by rw [hlink]; exact List.mem_cons_self) (congrArg some hsource)
      obtain rfl := SignalingEvent.voiceFrame.inj hf'
      have hrelay : (Relay.paths g.roomId g.idA s.a s.b).relay =
          f :: link.filterMap (voiceFrom g.idA) := by
        have hfrom : voiceFrom g.idA (.voiceFrame f) = some f := if_pos hsource
        show s.b.link.filterMap _ = _
        rw [hlink, List.filterMap_cons_some hfrom]
      have hpaths := @paths_handle _ _ g.isNumericHost g.pathB s.upB g.roomId g.idB g.idA s.b s.a
        g.idA f hpayload hsource link hlink now
      refine hfinish hpaths (h.paths.take hrelay _) fun hs => ?_
      rw [h.paths.reaches_take hrelay _ hs, Covered, hlink]
      constructor
      · rintro hor f'' hf'' -
        obtain rfl := SignalingEvent.voiceFrame.inj (Option.some.inj hf'')
        exact hor.imp (Bool.not_eq_true' _).mp id
      · exact fun hall => (hall f rfl hsource).imp (Bool.not_eq_true' _).mpr id
    · have hpaths := @paths_handle_other _ _ g.isNumericHost g.pathB s.upB g.roomId g.idB g.idA
        s.b s.a h.b g.idA
      refine hkeep (hpaths (fun e he habout => ?_) now) fun f hf hsource => ?_
      · obtain ⟨link, hlink⟩ := List.head?_eq_some_iff.mp he
        obtain ⟨f, rfl, -⟩ := h.sound e (by rw [hlink]; exact List.mem_cons_self) habout
        exact hvoice ⟨f, link, hlink, Option.some.inj habout⟩
      · obtain ⟨link, hlink⟩ := List.head?_eq_some_iff.mp hf
        exact absurd ⟨f, link, hlink, hsource⟩ hvoice
  | announce event =>
    refine hkeep ?_ trivial
    refine TwoPaths.ext rfl rfl rfl ?_ rfl rfl
    show (s.b.link ++ [event]).filterMap _ = _
    rw [List.filterMap_append, List.filterMap_cons_none (voiceFrom_eq_none hen.2)]
    exact List.append_nil _
  | stray a =>
    refine hkeep ?_ trivial
    refine TwoPaths.ext rfl rfl ?_ rfl rfl rfl
    show (s.b.socket ++ [a]).filterMap _ = _
    rw [List.filterMap_append, List.filterMap_cons_none hen.1]
    exact List.append_nil _

/-- **When a frame is lost.** In every run of the two clients: every frame that the first sends is
played by the second, or is on the way to be, in every state it visits exactly when every step is
covered. Two kinds of step are not: the first sends without the relay, because it has heard every
participant, while nothing it sends directly arrives; and the second drops a relayed frame, because
it has heard the first, although the datagram of that frame was lost. -/
theorem reached_iff_covered {t : List (State α β × Step)} {s : State α β}
    (h : (machine g).Run t s) :
    ((∀ x ∈ t, Reached g x.1) ∧ Reached g s) ↔ ∀ x ∈ t, Covered g x.1 x.2 := by
  have hstep : ∀ (s : State α β) step s', Inv g s → (machine g).step s step s' →
      Inv g s' ∧ (Reached g s → (Reached g s' ↔ Covered g s step)) := by
    rintro s step s' hinv ⟨hen, rfl⟩
    cases step with
    | a action => exact hinv.step_a hen
    | b action => exact hinv.step_b hen
    | link upA upB =>
      exact ⟨⟨hinv.a, hinv.b, hinv.distinct, hinv.room, hinv.named, hinv.sound, hinv.paths⟩,
        fun hs => iff_of_true hs trivial⟩
  refine @Machine.Run.visited_iff_of_inv _ _ _ (Inv g) (Reached g) (Covered g)
    (fun s hs => ⟨Init.inv hs, ?_⟩) (fun s a s' hinv _ hs => (hstep s a s' hinv hs).1)
    (fun s a s' hinv hreached hs => (hstep s a s' hinv hs).2 hreached) t s h
  rw [(Init.inv hs).reached_iff, Init.silent hs]
  exact fun _ hx => absurd hx List.not_mem_nil

/-! ### A sender that hears but is not heard -/

/-- Every datagram arrives while the way is up. -/
def setting : Setting where
  isNumericHost := fun _ => true
  pathA := ⟨fun _ => true, id⟩
  pathB := ⟨fun _ => true, id⟩
  roomId := [1]
  idA := [2]
  idB := [3]

/-- A client that has joined and knows an endpoint of the other. -/
def joined (me peerId : Bytes) : Party Int16 Int16 where
  app :=
    { voice := {}
      session :=
        { room := some { RoomInfo.empty with id := [1], hostPeerId := [2], peerCount := 2 }
          localPeer := { id := me, lastSeen := 0 }
          peers := FMap.put ∅ peerId { id := peerId, lastSeen := 0 } }
      directVoice :=
        { frameCallback := true
          roomId := [1]
          localPeerId := me
          peers := FMap.put ∅ peerId { createdAt := 1, endpoints := [⟨[4], 5⟩] }
          running := true } }

theorem joined_member (me peerId : Bytes) (h : me.length ≤ 100) :
    Member [1] me (joined me peerId) where
  running := rfl
  callback := rfl
  room := rfl
  localPeer := rfl
  fits := by
    show 1 + me.length ≤ 272
    omega
  relays := rfl
  session := rfl
  readable := fun _ ha => absurd ha List.not_mem_nil
  stays := fun _ he => absurd he List.not_mem_nil

/-- Both have joined. -/
def both : State Int16 Int16 := { a := joined [2] [3], b := joined [3] [2] }

theorem both_init : Init setting both where
  a := joined_member [2] [3] (by decide)
  b := joined_member [3] [2] (by decide)
  distinct := by decide
  named := by decide
  metA := ⟨⟨_, rfl⟩, _, rfl⟩
  metB := ⟨⟨_, rfl⟩, _, rfl⟩
  about := fun _ he => absurd he List.not_mem_nil
  silent := rfl

instance (roomId peerId : Bytes) (x : Party Int16 Int16) (action : Action) :
    Decidable (Enabled roomId peerId x action) :=
  match action with
  | .sendVoiceFrame _ frame => inferInstanceAs (Decidable
      ((0 < frame.payload.length ∧ frame.payload.length ≤ 1200) ∧
        ∀ f ∈ x.sent, f.sequence < frame.sequence))
  | .pump _ _ => isTrue trivial
  | .handle _ => isTrue trivial
  | .announce event =>
    inferInstanceAs (Decidable (event ≠ .roomClosed ∧ event.about ≠ some peerId))
  | .stray a => inferInstanceAs (Decidable (voiceOf roomId peerId a = none ∧ a.data.length ≤ 1500))

instance (s : State Int16 Int16) (step : Step) : Decidable (EnabledStep setting s step) :=
  match step with
  | .a action => inferInstanceAs (Decidable (Enabled [1] [3] s.a action))
  | .b action => inferInstanceAs (Decidable (Enabled [1] [2] s.b action))
  | .link _ _ => isTrue trivial

/-- A frame. -/
def hello : EncodedVoiceFrame := { payload := [7] }

/-- The first client sends a frame, and the second reads it. -/
def greet : List Step := [.a (.sendVoiceFrame 10 hello), .b (.pump 20 1)]

/-- The second client pings the first, the way to the second goes down, and the first sends. -/
def deaf : List Step :=
  [.b (.pump 1000 0), .a (.pump 1010 1), .link false true, .a (.sendVoiceFrame 1020 hello)]

/-- The state after some steps. -/
def play (steps : List Step) : State Int16 Int16 := steps.foldl (next setting) both

theorem greet_run :
    (machine setting).Run (Machine.trace (next setting) both greet) (play greet) :=
  Machine.run_trace both_init (by decide +kernel)

theorem reached_iff_covered_greet :
    Reached setting (play greet) ∧ (play greet).b.played = [arrived [2] hello] := by
  have hcovered : ∀ x ∈ Machine.trace (next setting) both greet, Covered setting x.1 x.2 :=
    Machine.forall_trace_cons.mpr ⟨Or.inl ⟨rfl, by decide +kernel⟩,
      Machine.forall_trace_cons.mpr ⟨trivial, Machine.forall_trace_nil.mpr trivial⟩⟩
  exact ⟨((reached_iff_covered greet_run).mpr hcovered).2, by decide +kernel⟩

theorem deaf_run : (machine setting).Run (Machine.trace (next setting) both deaf) (play deaf) :=
  Machine.run_trace both_init (by decide +kernel)

/-- **A frame that is lost.** The first client has heard the second, so that it does not relay. -/
theorem deaf_sender : ∃ t s, (@machine Int16 Int16 setting).Run t s ∧
    ¬ Reached setting s := by
  refine ⟨_, _, deaf_run, fun hall => ?_⟩
  have hsent : hello ∈ (play deaf).a.sent := by decide +kernel
  rcases hall hello hsent with hplayed | hread | hlink
  · exact absurd hplayed (by decide +kernel)
  · exact absurd (hread 0) (by decide +kernel)
  · exact absurd hlink (by decide +kernel)

end Relay

end Client

end TarkovVoice

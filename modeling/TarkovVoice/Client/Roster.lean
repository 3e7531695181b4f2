import Mathlib.Data.Finset.Basic
import Mathlib.Data.Finset.Lattice.Lemmas
import TarkovVoice.Client.Inbox

/-!
# Who is shown

The participants a session shows besides oneself, as a set of ids, and what becomes of it when the
main loop runs. Only events of the signaling client change it: an event adds those it announces or
reports the status of, and removes the one it says has left. Nothing else that the application does
adds or removes anybody.

## Main definitions

* `Application.roster` — the ids of the others in the session
* `rosterStep` — what an event makes of them

## Main results

* `Application.roster_handleSignalingEvent`, `MainLoop.sameRoster_next`
* `Inbox.roster_settled` — over runs, with both threads
-/

namespace TarkovVoice

namespace Client

open Net (Bytes)
open Audio (Platform)

/-- What an event makes of the set of participants a session shows besides oneself. The session
never shows itself or an empty id. -/
def rosterStep (own : Bytes) (known : Finset Bytes) : SignalingEvent → Finset Bytes
  | .joinedRoom room => known ∪ room.peerIds.toFinset.filter fun k => k ≠ [] ∧ k ≠ own
  | .peerStatus peer | .peerJoined peer =>
    if peer.id = [] ∨ peer.id = own then known else insert peer.id known
  | .peerLeft peerId => if peerId = [] then known else known.erase peerId
  | .ice _ _ _ | .voiceFrame _ => known
  | .roomClosed => ∅

/-- What a queued event makes of it. Events that the application ignores leave it as it is. -/
def rosterEvent (own : Bytes) (known : Finset Bytes) (event : Event) : Finset Bytes :=
  match event.toSignalingEvent with
  | some event => rosterStep own known event
  | none => known

namespace Application

variable {α β : Type*} {app app' app'' : Application α β}

/-- The ids of the participants in the session besides oneself. -/
def roster (app : Application α β) : Finset Bytes := app.session.peers.keys.toFinset

theorem mem_roster {k : Bytes} : k ∈ app.roster ↔ k ∈ app.session.peers.keys :=
  List.mem_toFinset

/-- The same participants. -/
structure SameRoster (app app' : Application α β) : Prop where
  own : app'.session.localPeer.id = app.session.localPeer.id
  others : app'.roster = app.roster

theorem SameRoster.trans (h : SameRoster app app') (h' : SameRoster app' app'') :
    SameRoster app app'' := ⟨h'.own.trans h.own, h'.others.trans h.others⟩

/-- Changing the status of a participant adds and removes nobody. -/
theorem keys_updatePeer (s : VoiceSession) (peerId : Bytes) (f : PeerStatus → PeerStatus)
    (k : Bytes) : k ∈ (s.updatePeer peerId f).peers.keys ↔ k ∈ s.peers.keys := by
  rw [VoiceSession.updatePeer]
  split
  · next peer hpeer =>
    rw [FMap.mem_keys_put, or_iff_right_iff_imp]
    rintro rfl
    exact FMap.mem_keys.mpr ⟨peer, hpeer⟩
  · rfl

theorem sameRoster_updatePeer (peerId : Bytes) (f : PeerStatus → PeerStatus) :
    SameRoster app { app with session := app.session.updatePeer peerId f } := by
  refine ⟨congrArg PeerStatus.id (VoiceSession.localPeer_updatePeer peerId f), ?_⟩
  ext k
  rw [mem_roster, mem_roster]
  exact keys_updatePeer app.session peerId f k

theorem sameRoster_callbacks (now : ℕ) (out : List Net.Output) :
    ∀ app : Application α β, SameRoster app (callbacks now app out).1 := by
  induction out with
  | nil => exact fun _ => ⟨rfl, rfl⟩
  | cons o out ih =>
    intro app
    have hone : SameRoster app (app.callback now o).1 := by
      cases o with
      | datagram endpoint data => exact ⟨rfl, rfl⟩
      | signal targetPeerId type payloadJson =>
        rw [callback]
        split <;> exact ⟨rfl, rfl⟩
      | frame frame => exact sameRoster_updatePeer frame.sourcePeerId _
    exact hone.trans (ih (app.callback now o).1)

/-- A call of the direct transport and its callbacks. -/
theorem sameRoster_directVoice (now : ℕ) (directVoice : Net.DirectVoiceTransport)
    (out : List Net.Output) :
    SameRoster app (callbacks now { app with directVoice } out).1 := by
  have hcall : SameRoster app { app with directVoice } := ⟨rfl, rfl⟩
  exact hcall.trans (sameRoster_callbacks now out _)

/-! ### Events -/

/-- A participant is added under its own id, unless that is empty or oneself. -/
theorem roster_addOrUpdatePeer (now : ℕ) (peer : PeerStatus) :
    (app.session.addOrUpdatePeer now peer).localPeer.id = app.session.localPeer.id ∧
      ({ app with session := app.session.addOrUpdatePeer now peer } : Application α β).roster =
        if peer.id = [] ∨ peer.id = app.session.localPeer.id then app.roster
        else insert peer.id app.roster := by
  rw [VoiceSession.addOrUpdatePeer]
  split
  · exact ⟨rfl, rfl⟩
  · refine ⟨rfl, ?_⟩
    ext k
    rw [mem_roster, FMap.mem_keys_put, Finset.mem_insert, mem_roster]

/-- The same when a route is made for somebody afterwards. -/
theorem roster_announced (now : ℕ) (peer : PeerStatus) (peerId : Bytes) :
    (ensurePeer { app with session := app.session.addOrUpdatePeer now peer } now
        peerId).1.session.localPeer.id = app.session.localPeer.id ∧
      (ensurePeer { app with session := app.session.addOrUpdatePeer now peer } now
        peerId).1.roster =
        if peer.id = [] ∨ peer.id = app.session.localPeer.id then app.roster
        else insert peer.id app.roster := by
  obtain ⟨hlocal, hadd⟩ := app.roster_addOrUpdatePeer now peer
  rw [ensurePeer]
  have hensure := @sameRoster_directVoice _ _
    { app with session := app.session.addOrUpdatePeer now peer } now
  exact ⟨(hensure _ _).own.trans hlocal, (hensure _ _).others.trans hadd⟩

/-- **The members of a room that was joined** are shown, besides those that are shown already;
oneself and an empty id are not. -/
theorem roster_meetPeers (now : ℕ) (peerIds : List Bytes) :
    ∀ app : Application α β,
      (meetPeers now app peerIds).1.session.localPeer.id = app.session.localPeer.id ∧
        (meetPeers now app peerIds).1.roster =
          app.roster ∪ peerIds.toFinset.filter fun k =>
            k ≠ [] ∧ k ≠ app.session.localPeer.id := by
  induction peerIds with
  | nil => exact fun app => ⟨rfl, by rw [meetPeers]; simp⟩
  | cons peerId peerIds ih =>
    intro app
    rw [meetPeers, List.toFinset_cons, Finset.filter_insert]
    split
    · next hself =>
      rw [if_neg fun h => h.2 hself]
      exact ih app
    · next hself =>
      dsimp only
      obtain ⟨hlocal, hroster⟩ := app.roster_announced now
        ⟨peerId, Net.utf8 "Player", 0, .disconnected, false, false, 0, 0, now⟩ peerId
      obtain ⟨hlocal', hroster'⟩ := ih _
      refine ⟨hlocal'.trans hlocal, hroster'.trans ?_⟩
      rw [hroster, hlocal]
      by_cases hempty : peerId = []
      · rw [if_pos (Or.inl hempty), if_neg fun h => h.1 hempty]
      · rw [if_neg (not_or.mpr ⟨hempty, hself⟩), if_pos ⟨hempty, hself⟩, Finset.insert_union,
          Finset.union_insert]

/-- **Events** other than the closing of the room change who is shown as `rosterStep` says, and
never who one is. -/
theorem roster_handleSignalingEvent (isNumericHost : Bytes → Bool) (now : ℕ)
    {event : SignalingEvent} (h : event ≠ .roomClosed) :
    (app.handleSignalingEvent isNumericHost now event).1.session.localPeer.id =
        app.session.localPeer.id ∧
      (app.handleSignalingEvent isNumericHost now event).1.roster =
        rosterStep app.session.localPeer.id app.roster event := by
  have hsame : ∀ {app' : Application α β}, SameRoster app app' →
      app'.session.localPeer.id = app.session.localPeer.id ∧ app'.roster = app.roster :=
    fun hs => ⟨hs.own, hs.others⟩
  cases event with
  | joinedRoom room => exact app.roster_meetPeers now room.peerIds
  | peerStatus peer =>
    rw [handleSignalingEvent, rosterStep]
    split
    · next hempty => exact ⟨rfl, by rw [if_pos (Or.inl hempty)]⟩
    · exact app.roster_addOrUpdatePeer now peer
  | peerJoined peer =>
    rw [handleSignalingEvent, rosterStep]
    split
    · next hempty => exact ⟨rfl, by rw [if_pos (Or.inl hempty)]⟩
    · exact app.roster_announced now peer peer.id
  | ice sourcePeerId type payloadJson =>
    rw [handleSignalingEvent]
    exact hsame (sameRoster_directVoice now _ _)
  | voiceFrame frame =>
    rw [handleSignalingEvent]
    split
    · exact ⟨rfl, rfl⟩
    · split
      · exact hsame (sameRoster_updatePeer frame.sourcePeerId _)
      · exact ⟨rfl, rfl⟩
  | peerLeft peerId =>
    rw [handleSignalingEvent, rosterStep]
    split
    · exact ⟨rfl, rfl⟩
    · refine ⟨rfl, ?_⟩
      ext k
      rw [mem_roster, Finset.mem_erase, mem_roster]
      exact FMap.mem_keys_delete
  | roomClosed => exact absurd rfl h

/-! ### The main loop -/

theorem keys_tick (s : VoiceSession) (now : ℕ) (k : Bytes) :
    k ∈ (s.tick now).peers.keys ↔ k ∈ s.peers.keys := by
  have hall : ∀ (l : List Bytes) (s : VoiceSession),
      k ∈ (l.foldl (fun s peerId => s.updatePeer peerId (VoiceSession.tickPeer now)) s).peers.keys ↔
        k ∈ s.peers.keys := by
    intro l
    induction l with
    | nil => exact fun _ => Iff.rfl
    | cons peerId l ih => exact fun s => (ih _).trans (keys_updatePeer s peerId _ k)
  exact hall s.peers.keys s

variable (env : Platform α β) (isNumericHost : Bytes → Bool)

/-- **Nothing but events** adds or removes anybody. -/
theorem sameRoster_next {a : MainLoop.Action α} (h : Inbox.isEvent a = false) :
    SameRoster app (MainLoop.next env isNumericHost app a) := by
  cases a with
  | signalingEvent now event => exact absurd h (by simp [Inbox.isEvent])
  | record i samples | complete i | muteHotkey now | setPushToTalkActive active => exact ⟨rfl, rfl⟩
  | applyAudioSettings now audioSettings =>
    rw [MainLoop.next, applyAudioSettings]
    split <;> exact ⟨rfl, rfl⟩
  | pumpDirectVoice now arrivals => exact sameRoster_directVoice now _ _
  | pumpVoice now isKeyDown =>
    have hpump : SameRoster app (app.pumpVoice env now).1 := by
      rw [(app.pumpVoice_eq env now).1]
      exact ⟨rfl, rfl⟩
    rw [MainLoop.next]
    split
    · exact hpump.trans ⟨rfl, rfl⟩
    · exact hpump
  | tick now =>
    refine ⟨congrArg PeerStatus.id (VoiceSession.tick_same now).2, ?_⟩
    ext k
    rw [mem_roster, mem_roster]
    exact keys_tick app.session now k

/-- An event that does not close the room. -/
theorem roster_signalingEvent (now : ℕ) {event : Event}
    (h : event.toSignalingEvent ≠ some .roomClosed) :
    (MainLoop.next env isNumericHost app (.signalingEvent now event)).session.localPeer.id =
        app.session.localPeer.id ∧
      (MainLoop.next env isNumericHost app (.signalingEvent now event)).roster =
        rosterEvent app.session.localPeer.id app.roster event := by
  rw [MainLoop.next, rosterEvent]
  cases hevent : event.toSignalingEvent with
  | none => exact ⟨rfl, rfl⟩
  | some e =>
    exact roster_handleSignalingEvent isNumericHost now fun hclosed => h (hclosed ▸ hevent)

end Application

namespace Inbox

variable {α β : Type*} {env : Platform α β} {isNumericHost : Bytes → Bool} {own : Bytes}

/-- The application has just entered a room under the id `own`, and knows nobody in it. Whoever was
in the room is announced by events that follow. -/
def Alone (own : Bytes) (app : Application α β) : Prop :=
  app.session.localPeer.id = own ∧ app.session.peers = ∅

variable (env isNumericHost) in
theorem roster_emit (now : ℕ) (events : List Event) :
    ∀ app : Application α β, (∀ e ∈ events, e.toSignalingEvent ≠ some .roomClosed) →
      app.session.localPeer.id = own →
      (emit env isNumericHost now app events).session.localPeer.id = own ∧
        (emit env isNumericHost now app events).roster =
          events.foldl (rosterEvent own) app.roster := by
  induction events with
  | nil => exact fun _ _ hown => ⟨hown, rfl⟩
  | cons event events ih =>
    intro app hclosed hown
    obtain ⟨hlocal, hroster⟩ := app.roster_signalingEvent env
      isNumericHost now (hclosed event List.mem_cons_self)
    obtain ⟨hlocal', hroster'⟩ := ih _ (fun e he => hclosed e (List.mem_cons_of_mem _ he))
      (hlocal.trans hown)
    refine ⟨hlocal', hroster'.trans ?_⟩
    rw [hroster, hown, List.foldl_cons]

/-- **Who is shown** is what the events passed on so far make of nobody. -/
theorem roster_settled {t : List (Inbox α β × Step α)} {s : Inbox α β}
    (h : (machine env isNumericHost (Alone own)).Run t s) :
    (∀ e ∈ s.emitted, e.toSignalingEvent ≠ some .roomClosed) →
      s.app.session.localPeer.id = own ∧
        s.app.roster = s.emitted.foldl (rosterEvent own) ∅ := by
  induction h with
  | start h =>
    intro _
    refine ⟨h.app.1, ?_⟩
    rw [h.emitted, Application.roster, h.app.2]
    rfl
  | @snoc t s s' a hrun hstep ih =>
    obtain ⟨hen, rfl⟩ := hstep
    cases a with
    | receive now received =>
      have hsame : (s.receiveLoop now received).app = s.app ∧
          (s.receiveLoop now received).emitted = s.emitted := by
        cases received with
        | failed => exact ⟨rfl, rfl⟩
        | buffer type data => cases type <;> exact ⟨rfl, rfl⟩
      intro hclosed
      rw [next, hsame.1, hsame.2]
      exact ih (hsame.2 ▸ hclosed)
    | pump now =>
      intro hclosed
      obtain ⟨hown, hroster⟩ := ih fun e he => hclosed e (List.mem_append_left _ he)
      obtain ⟨hown', hroster'⟩ := roster_emit env isNumericHost now
        s.signaling.pump.2 s.app (fun e he => hclosed e (List.mem_append_right _ he)) hown
      refine ⟨hown', hroster'.trans ?_⟩
      rw [hroster, next, Inbox.pump, List.foldl_append]
    | call call => exact ih
    | act action =>
      intro hclosed
      obtain ⟨hown, hroster⟩ := ih hclosed
      have hsame := s.app.sameRoster_next env isNumericHost hen
      exact ⟨hsame.own.trans hown, hsame.others.trans hroster⟩

/-- The application ignores the errors of the signaling client itself. -/
theorem toSignalingEvent_of_mem_failures {t : List (Inbox α β × Step α)} {e : Event}
    (he : e ∈ failures t) : e.toSignalingEvent = none := by
  obtain ⟨⟨s, step⟩, -, he⟩ := List.mem_flatMap.mp he
  cases step with
  | receive now received =>
    cases received with
    | failed =>
      rw [List.mem_singleton.mp he]
      rfl
    | buffer type data => exact absurd he List.not_mem_nil
  | call call =>
    cases call with
    | sendText now taken =>
      by_cases hfails : s.signaling.connected = true ∧ taken = false
      · rw [failuresOf, ClientCall.failures, if_pos hfails] at he
        rw [List.mem_singleton.mp he]
        rfl
      · rw [failuresOf, ClientCall.failures, if_neg hfails] at he
        exact absurd he List.not_mem_nil
    | _ => exact absurd he List.not_mem_nil
  | _ => exact absurd he List.not_mem_nil

end Inbox

end Client

end TarkovVoice

import Mathlib.Tactic.NormNum
import TarkovVoice.Client.VoiceSession
import TarkovVoice.Machine

/-!
# Runs of the voice session

Sequences of all operations of a `VoiceSession`, with any arguments and at any times.

The count of a room is written by four operations. Three of them keep it within the capacity of the
room; `removePeer` writes the number of participants that are left, and nothing keeps that number
within the capacity. What is shown of a participant has four fields that say whether it speaks. Of
a muted one, two operations fed by the network keep what they are given: `addOrUpdatePeer` a level
and a flag, and `markPeerSpeaking` a level.

## Main definitions

* `VoiceSession.Operation`, `VoiceSession.machine`
* `VoiceSession.WithinCapacity`, `VoiceSession.KeepsCapacity`
* `VoiceSession.Consistent`, `VoiceSession.Shown`, `VoiceSession.KeepsShown`

## Main results

* `VoiceSession.withinCapacity_iff` — the count within the capacity, over runs
* `VoiceSession.shown_iff` — the participants consistent, over runs
-/

namespace TarkovVoice

namespace Client

open Net (Bytes RoomInfo kMaxPeersPerRoom)

namespace VoiceSession

/-- The operations of the class, with the time at which they are called. Their arguments are what
the server and the window say, and are not restricted. -/
inductive Operation
  | createRoom (now : ℕ) (room : RoomInfo) (localPeerId localNick : Bytes)
  | joinRoom (now : ℕ) (room : RoomInfo) (localPeerId localNick : Bytes)
  | leaveRoom (now : ℕ)
  | addOrUpdatePeer (now : ℕ) (peer : PeerStatus)
  | removePeer (peerId : Bytes)
  | setLocalMuted (now : ℕ) (muted : Bool)
  | toggleLocalMute (now : ℕ)
  | setLocalIcon (now : ℕ) (iconIndex : ℤ)
  | setLocalMicLevel (now : ℕ) (level : ℚ)
  | setLocalSpectrum (now : ℕ)
  | markPeerSpeaking (now : ℕ) (peerId : Bytes) (level : ℚ) (latencyMs : ℤ)
  | markPeerMuted (now : ℕ) (peerId : Bytes) (muted : Bool)
  | tick (now : ℕ)

/-- What the operation does. A `joinRoom` that fails leaves the session as it is. -/
def apply (s : VoiceSession) : Operation → VoiceSession
  | .createRoom now room localPeerId localNick => createRoom now room localPeerId localNick
  | .joinRoom now room localPeerId localNick => (joinRoom now room localPeerId localNick).getD s
  | .leaveRoom now => leaveRoom now
  | .addOrUpdatePeer now peer => s.addOrUpdatePeer now peer
  | .removePeer peerId => s.removePeer peerId
  | .setLocalMuted now muted => s.setLocalMuted now muted
  | .toggleLocalMute now => s.toggleLocalMute now
  | .setLocalIcon now iconIndex => s.setLocalIcon now iconIndex
  | .setLocalMicLevel now level => s.setLocalMicLevel now level
  | .setLocalSpectrum now => s.setLocalSpectrum now
  | .markPeerSpeaking now peerId level latencyMs => s.markPeerSpeaking now peerId level latencyMs
  | .markPeerMuted now peerId muted => s.markPeerMuted now peerId muted
  | .tick now => s.tick now

/-- The runs of a session that has just been made. -/
def machine : Machine VoiceSession Operation :=
  .ofNext (fun s => ∃ now, s = { localPeer := { lastSeen := now } }) (fun _ _ => True) apply

variable {s : VoiceSession} {t : List (VoiceSession × Operation)}

/-! ### The count of the room -/

/-- In a room, the count is at most the capacity. Without a room there is nothing to count. -/
def WithinCapacity (s : VoiceSession) : Prop :=
  ∀ room, s.room = some room → room.peerCount ≤ room.maxPeers

/-- A participant is removed only if those that are left fit the room, which they do not if more
were added than it holds. -/
def KeepsCapacity (s : VoiceSession) : Operation → Prop
  | .removePeer peerId => ∀ room, s.room = some room →
      (s.peers.delete peerId).len + 1 ≤ room.maxPeers
  | _ => True

theorem withinCapacity_of_room {s' : VoiceSession} (h : WithinCapacity s)
    (hroom : s'.room = s.room) : WithinCapacity s' := by
  intro room hr
  rw [hroom] at hr
  exact h room hr

theorem withinCapacity_createRoom (now : ℕ) (room : RoomInfo) (localPeerId localNick : Bytes) :
    WithinCapacity (createRoom now room localPeerId localNick) := by
  intro room' hr
  obtain rfl := Option.some.inj hr
  dsimp only
  split
  · decide
  · next hmax => exact Nat.one_le_iff_ne_zero.mpr fun hzero => hmax (Or.inl hzero)

theorem withinCapacity_joinRoom (h : WithinCapacity s) (now : ℕ) (room : RoomInfo)
    (localPeerId localNick : Bytes) :
    WithinCapacity ((joinRoom now room localPeerId localNick).getD s) := by
  rw [joinRoom]
  split
  · exact h
  · next hfull =>
    intro room' hr
    obtain rfl := Option.some.inj hr
    exact not_le.mp hfull

theorem withinCapacity_addOrUpdatePeer (h : WithinCapacity s) (now : ℕ) (peer : PeerStatus) :
    WithinCapacity (s.addOrUpdatePeer now peer) := by
  rw [addOrUpdatePeer]
  split
  · exact h
  · intro room' hr
    obtain ⟨room, -, rfl⟩ := Option.map_eq_some_iff.mp hr
    exact min_le_left _ _

theorem withinCapacity_removePeer_iff (peerId : Bytes) :
    WithinCapacity (s.removePeer peerId) ↔ KeepsCapacity s (.removePeer peerId) := by
  constructor
  · intro h room hr
    refine h { room with peerCount := (s.peers.delete peerId).len + 1 } ?_
    rw [removePeer]
    exact Option.map_eq_some_iff.mpr ⟨room, hr, rfl⟩
  · intro h room' hr
    obtain ⟨room, hroom, rfl⟩ := Option.map_eq_some_iff.mp hr
    exact h room hroom

theorem localPeer_updatePeer (peerId : Bytes) (f : PeerStatus → PeerStatus) :
    (s.updatePeer peerId f).localPeer = s.localPeer := by
  rw [updatePeer]
  split <;> rfl

/-- **What holds of a tick** is what holds of changing one participant after the other. The order in
which they are visited does not matter then. -/
theorem tick_rule (now : ℕ) {P : VoiceSession → Prop} (hs : P s)
    (hstep : ∀ s peerId, P s → P (s.updatePeer peerId (tickPeer now))) : P (s.tick now) := by
  have hfold : ∀ (peerIds : List Bytes) (s : VoiceSession), P s →
      P (peerIds.foldl (fun s peerId => s.updatePeer peerId (tickPeer now)) s) := by
    intro peerIds
    induction peerIds with
    | nil => exact fun _ hs => hs
    | cons peerId peerIds ih => exact fun s hs => ih _ (hstep s peerId hs)
  exact hfold s.peers.keys s hs

/-- A tick changes neither the room nor the local participant. -/
theorem tick_same (now : ℕ) :
    (s.tick now).room = s.room ∧ (s.tick now).localPeer = s.localPeer := by
  refine tick_rule now (P := fun s' => s'.room = s.room ∧ s'.localPeer = s.localPeer) ⟨rfl, rfl⟩ ?_
  rintro s' peerId ⟨hroom, hlocal⟩
  exact ⟨(room_updatePeer peerId _).trans hroom, (localPeer_updatePeer peerId _).trans hlocal⟩

/-- **One operation** keeps the count of the room within its limit if and only if it does not remove
somebody from too full a room. -/
theorem withinCapacity_apply_iff (h : WithinCapacity s) (op : Operation) :
    WithinCapacity (s.apply op) ↔ KeepsCapacity s op := by
  cases op with
  | createRoom now room localPeerId localNick =>
    exact iff_of_true (withinCapacity_createRoom now room localPeerId localNick) trivial
  | joinRoom now room localPeerId localNick =>
    exact iff_of_true (withinCapacity_joinRoom h now room localPeerId localNick) trivial
  | leaveRoom now => exact iff_of_true (fun _ hr => absurd hr (Option.some_ne_none _).symm) trivial
  | addOrUpdatePeer now peer =>
    exact iff_of_true (withinCapacity_addOrUpdatePeer h now peer) trivial
  | removePeer peerId => exact withinCapacity_removePeer_iff peerId
  | setLocalMuted now muted => exact iff_of_true h trivial
  | toggleLocalMute now => exact iff_of_true h trivial
  | setLocalIcon now iconIndex => exact iff_of_true h trivial
  | setLocalMicLevel now level => exact iff_of_true h trivial
  | setLocalSpectrum now => exact iff_of_true h trivial
  | markPeerSpeaking now peerId level latencyMs =>
    exact iff_of_true (withinCapacity_of_room h (room_updatePeer peerId _)) trivial
  | markPeerMuted now peerId muted =>
    exact iff_of_true (withinCapacity_of_room h (room_updatePeer peerId _)) trivial
  | tick now => exact iff_of_true (withinCapacity_of_room h (tick_same now).1) trivial

/-- **The count within the capacity.** In every run of a session, with any operations in any order:
the count of its room is at most the capacity in every state, exactly if every `removePeer` in a
room leaves no more participants than the room has places. `addOrUpdatePeer` bounds the count by the
capacity, and `removePeer` does not. -/
theorem withinCapacity_iff (h : machine.Run t s) :
    ((∀ x ∈ t, WithinCapacity x.1) ∧ WithinCapacity s) ↔ ∀ x ∈ t, KeepsCapacity x.1 x.2 := by
  refine h.visited_iff ?_ ?_
  · rintro s ⟨now, rfl⟩ room hr
    exact absurd hr (Option.some_ne_none _).symm
  · rintro s op s' - hs ⟨-, rfl⟩
    exact withinCapacity_apply_iff hs op

/-- A participant of the given id. -/
def someone (id : Bytes) : PeerStatus := { id, lastSeen := 0 }

/-- A room with two places. -/
def smallRoom : RoomInfo := { RoomInfo.empty with id := [1], name := [1], maxPeers := 2 }

/-- A session that has just been made. -/
def fresh : VoiceSession := { localPeer := { lastSeen := 0 } }

/-- Another participant comes and goes. -/
def visit : List Operation :=
  [.createRoom 0 smallRoom [2] [2], .addOrUpdatePeer 1 (someone [3]), .removePeer [3]]

theorem withinCapacity_iff_visit :
    (∀ x ∈ Machine.trace apply fresh visit, WithinCapacity x.1) ∧
      WithinCapacity (visit.foldl apply fresh) := by
  refine (withinCapacity_iff (Machine.run_trace ⟨0, rfl⟩ fun _ _ => trivial)).mpr ?_
  simp only [visit, Machine.forall_trace_cons, Machine.forall_trace_nil, KeepsCapacity, true_and,
    and_true]
  intro room hr
  obtain rfl := Option.some.inj hr
  decide +kernel

/-- Three others come, and one of them goes. -/
def crowd : List Operation :=
  [.createRoom 0 smallRoom [2] [2], .addOrUpdatePeer 1 (someone [3]),
    .addOrUpdatePeer 1 (someone [4]), .addOrUpdatePeer 1 (someone [5]), .removePeer [5]]

/-- **A count over the capacity.** While the third comes it stays at 2; when it goes it is 3. -/
theorem count_over_capacity : ∃ t s, machine.Run t s ∧ ¬ WithinCapacity s := by
  refine ⟨_, crowd.foldl apply fresh, Machine.run_trace ⟨0, rfl⟩ fun _ _ => trivial, fun h => ?_⟩
  have hroom : ((crowd.foldl apply fresh).room.map fun room => (room.peerCount, room.maxPeers)) =
      some (3, 2) := by decide +kernel
  obtain ⟨room, hr, hcount⟩ := Option.map_eq_some_iff.mp hroom
  obtain ⟨hpeers, hmax⟩ := Prod.mk.inj hcount
  have hle := h room hr
  rw [hpeers, hmax] at hle
  exact absurd hle (by decide)

/-! ### What is shown of a participant -/

/-- A muted participant is shown as muted or disconnected, silent and without a level, and no other
one as muted. -/
structure Consistent (peer : PeerStatus) : Prop where
  muted : peer.muted = true →
    (peer.mediaState = .muted ∨ peer.mediaState = .disconnected) ∧ peer.speaking = false ∧
      peer.micLevel = 0
  unmuted : peer.muted = false → peer.mediaState ≠ .muted

/-- What `peers` returns is consistent. -/
def Shown (s : VoiceSession) : Prop := ∀ peer ∈ s.participants, Consistent peer

/-- A participant that is muted comes without a level and a flag, and is given no level.
`addOrUpdatePeer` takes a status over as it comes. -/
def KeepsShown (s : VoiceSession) : Operation → Prop
  | .addOrUpdatePeer _ peer => peer.id = [] ∨ peer.id = s.localPeer.id ∨
      (peer.muted = true → peer.speaking = false ∧ peer.micLevel = 0)
  | .markPeerSpeaking _ peerId level _ => ∀ peer, s.peers.get peerId = some peer →
      peer.muted = true → level ≤ 0
  | _ => True

/-- The others are consistent. -/
def OthersShown (s : VoiceSession) : Prop :=
  ∀ peerId peer, s.peers.get peerId = some peer → Consistent peer

theorem shown_iff_others (hlocal : Consistent s.localPeer) : Shown s ↔ OthersShown s := by
  constructor
  · intro h peerId peer hget
    exact h peer (List.mem_append_right _ (List.mem_map_of_mem (FMap.mem_entries.mpr hget)))
  · intro h peer hmem
    rcases List.mem_append.mp hmem with hmem | hmem
    · split at hmem
      · exact absurd hmem List.not_mem_nil
      · rw [List.mem_singleton.mp hmem]
        exact hlocal
    · obtain ⟨⟨peerId, peer⟩, hentry, rfl⟩ := List.mem_map.mp hmem
      exact h peerId peer (FMap.mem_entries.mp hentry)

theorem othersShown_empty {room : Option RoomInfo} {localPeer : PeerStatus} :
    OthersShown { room, localPeer, peers := ∅ } :=
  fun _ _ hget => absurd (hget.symm.trans (FMap.get_empty _)) (Option.some_ne_none _)

/-- The media state follows the flags. So a participant is consistent if it has no speech and no
level while it is muted. -/
theorem consistent_mediaStateOf {peer : PeerStatus}
    (hstate : peer.mediaState = mediaStateOf peer.muted peer.speaking) :
    Consistent peer ↔ (peer.muted = true → peer.speaking = false ∧ peer.micLevel = 0) := by
  rw [mediaStateOf] at hstate
  refine ⟨fun h hmuted => (h.muted hmuted).2, fun h => ⟨fun hmuted => ⟨Or.inl ?_, h hmuted⟩, ?_⟩⟩
  · rw [hstate, if_pos hmuted]
  · intro hunmuted
    rw [hstate, hunmuted, if_neg Bool.false_ne_true]
    split <;> decide

theorem consistent_withMuted (now : ℕ) (peer : PeerStatus) (muted : Bool) :
    Consistent (withMuted now peer muted) := by
  cases muted with
  | true => exact ⟨fun _ => ⟨Or.inl rfl, rfl, rfl⟩, fun h => Bool.noConfusion h⟩
  | false =>
    exact ⟨fun h => Bool.noConfusion h, fun _ => (by decide : PeerMediaState.silent ≠ .muted)⟩

theorem consistent_tickPeer (now : ℕ) {peer : PeerStatus} (h : Consistent peer) :
    Consistent (tickPeer now peer) := by
  rw [tickPeer]
  split
  · exact ⟨fun _ => ⟨Or.inr rfl, rfl, rfl⟩,
      fun _ => (by decide : PeerMediaState.disconnected ≠ .muted)⟩
  · split
    · next hquiet =>
      refine ⟨fun hmuted => ?_, h.unmuted⟩
      change peer.muted = true at hmuted
      rw [hmuted] at hquiet
      exact absurd hquiet Bool.false_ne_true
    · exact h

/-- Storing the status of another participant. The others stay as they are, so the one that is
stored decides. -/
theorem othersShown_put_iff (h : OthersShown s) {s' : VoiceSession} {peerId : Bytes}
    {peer : PeerStatus} (hpeers : s'.peers = s.peers.put peerId peer) :
    OthersShown s' ↔ Consistent peer := by
  constructor
  · intro h'
    refine h' peerId peer ?_
    rw [hpeers, FMap.get_put_self]
  · intro hpeer k p hget
    rw [hpeers, FMap.get_put] at hget
    split at hget
    · rwa [← Option.some.inj hget]
    · exact h k p hget

theorem othersShown_updatePeer_iff (h : OthersShown s) (peerId : Bytes)
    (f : PeerStatus → PeerStatus) : OthersShown (s.updatePeer peerId f) ↔
      ∀ peer, s.peers.get peerId = some peer → Consistent (f peer) := by
  rw [updatePeer]
  cases hget : s.peers.get peerId with
  | none => exact iff_of_true h fun peer hsome => absurd hsome (Option.some_ne_none peer).symm
  | some peer =>
    rw [othersShown_put_iff h rfl]
    refine ⟨fun hpeer p hp => ?_, fun hall => hall peer rfl⟩
    rwa [← Option.some.inj hp]

theorem othersShown_tick (h : OthersShown s) (now : ℕ) : OthersShown (s.tick now) := by
  refine tick_rule now h fun s peerId hs => (othersShown_updatePeer_iff hs peerId _).mpr ?_
  exact fun peer hget => consistent_tickPeer now (hs peerId peer hget)

theorem othersShown_addOrUpdatePeer_iff (h : OthersShown s) (now : ℕ) (peer : PeerStatus) :
    OthersShown (s.addOrUpdatePeer now peer) ↔ KeepsShown s (.addOrUpdatePeer now peer) := by
  rw [addOrUpdatePeer, KeepsShown]
  split
  · next hskip =>
    refine iff_of_true h ?_
    rcases hskip with hid | hid
    · exact Or.inl hid
    · exact Or.inr (Or.inl hid)
  · next hkeep =>
    obtain ⟨hne, hother⟩ := not_or.mp hkeep
    rw [othersShown_put_iff h rfl, consistent_mediaStateOf rfl]
    exact ⟨fun hp => Or.inr (Or.inr hp), fun hp => (hp.resolve_left hne).resolve_left hother⟩

theorem othersShown_markPeerSpeaking_iff (h : OthersShown s) (now : ℕ) (peerId : Bytes)
    (level : ℚ) (latencyMs : ℤ) :
    OthersShown (s.markPeerSpeaking now peerId level latencyMs) ↔
      KeepsShown s (.markPeerSpeaking now peerId level latencyMs) := by
  rw [markPeerSpeaking, othersShown_updatePeer_iff h]
  refine forall_congr' fun peer => forall_congr' fun _ => ?_
  rw [consistent_mediaStateOf rfl]
  refine forall_congr' fun hmuted => ?_
  change peer.muted = true at hmuted
  dsimp only
  rw [hmuted]
  constructor
  · rintro ⟨-, hzero⟩
    by_contra hpos
    have hlevel : 0 < min level 1 := lt_min (not_le.mp hpos) one_pos
    rw [max_eq_right hlevel.le] at hzero
    exact hlevel.ne' hzero
  · intro hle
    exact ⟨rfl, max_eq_left ((min_le_left _ _).trans hle)⟩

/-- What is shown of oneself stays consistent, whatever the operation: none of them gives oneself a
level or speech while muted. -/
theorem consistent_localPeer_apply (h : Consistent s.localPeer) (op : Operation) :
    Consistent (s.apply op).localPeer := by
  have hnew : ∀ now localPeerId localNick,
      Consistent (newLocalPeer now localPeerId localNick) := fun now localPeerId localNick =>
    ⟨fun hmuted => Bool.noConfusion hmuted, fun _ => (by decide : PeerMediaState.silent ≠ .muted)⟩
  cases op with
  | createRoom now room localPeerId localNick => exact hnew now localPeerId localNick
  | joinRoom now room localPeerId localNick =>
    rw [apply, joinRoom]
    split
    · exact h
    · exact hnew now localPeerId localNick
  | leaveRoom now =>
    exact ⟨fun hmuted => Bool.noConfusion hmuted,
      fun _ => (by decide : PeerMediaState.disconnected ≠ .muted)⟩
  | addOrUpdatePeer now peer =>
    rw [apply, addOrUpdatePeer]
    split <;> exact h
  | removePeer peerId => exact h
  | setLocalMuted now muted => exact consistent_withMuted now s.localPeer muted
  | toggleLocalMute now => exact consistent_withMuted now s.localPeer _
  | setLocalIcon now iconIndex => exact ⟨h.muted, h.unmuted⟩
  | setLocalMicLevel now level =>
    refine (consistent_mediaStateOf rfl).mpr fun hmuted => ?_
    change s.localPeer.muted = true at hmuted
    refine ⟨?_, if_pos hmuted⟩
    show (!s.localPeer.muted && _) = false
    rw [hmuted]
    rfl
  | setLocalSpectrum now => exact ⟨h.muted, h.unmuted⟩
  | markPeerSpeaking now peerId level latencyMs =>
    rw [apply, markPeerSpeaking, localPeer_updatePeer]
    exact h
  | markPeerMuted now peerId muted =>
    rw [apply, markPeerMuted, localPeer_updatePeer]
    exact h
  | tick now =>
    rw [apply, (tick_same now).2]
    exact h

/-- **One operation** keeps levels and flags of the muted at nothing if and only if it does not
bring any with it. -/
theorem othersShown_apply_iff (h : OthersShown s) (op : Operation) :
    OthersShown (s.apply op) ↔ KeepsShown s op := by
  cases op with
  | createRoom now room localPeerId localNick => exact iff_of_true othersShown_empty trivial
  | joinRoom now room localPeerId localNick =>
    refine iff_of_true ?_ trivial
    rw [apply, joinRoom]
    split
    · exact h
    · exact othersShown_empty
  | leaveRoom now => exact iff_of_true othersShown_empty trivial
  | addOrUpdatePeer now peer => exact othersShown_addOrUpdatePeer_iff h now peer
  | removePeer peerId =>
    exact iff_of_true (fun k peer hget => h k peer (FMap.get_of_get_delete hget).2) trivial
  | setLocalMuted now muted => exact iff_of_true h trivial
  | toggleLocalMute now => exact iff_of_true h trivial
  | setLocalIcon now iconIndex => exact iff_of_true h trivial
  | setLocalMicLevel now level => exact iff_of_true h trivial
  | setLocalSpectrum now => exact iff_of_true h trivial
  | markPeerSpeaking now peerId level latencyMs =>
    exact othersShown_markPeerSpeaking_iff h now peerId level latencyMs
  | markPeerMuted now peerId muted =>
    refine iff_of_true ((othersShown_updatePeer_iff h peerId _).mpr ?_) trivial
    exact fun peer _ => consistent_withMuted now peer muted
  | tick now => exact iff_of_true (othersShown_tick h now) trivial

/-- **The participants consistent.** In every run of a session, in every state each participant that
is muted is shown as muted or disconnected, silent and with level 0, and no other one is shown as
muted, exactly if every muted participant that is added comes silent and with level 0, and none is
marked as speaking with a level above 0 while muted. -/
theorem shown_iff (h : machine.Run t s) :
    ((∀ x ∈ t, Shown x.1) ∧ Shown s) ↔ ∀ x ∈ t, KeepsShown x.1 x.2 := by
  refine h.visited_iff_of_inv (J := fun s => Consistent s.localPeer) ?_ ?_ ?_
  · rintro s ⟨now, rfl⟩
    have hlocal : Consistent { lastSeen := now } :=
      ⟨fun hmuted => Bool.noConfusion hmuted,
        fun _ => (by decide : PeerMediaState.disconnected ≠ .muted)⟩
    exact ⟨hlocal, (shown_iff_others hlocal).mpr othersShown_empty⟩
  · rintro s op s' hlocal - ⟨-, rfl⟩
    exact consistent_localPeer_apply hlocal op
  · rintro s op s' hlocal hs ⟨-, rfl⟩
    rw [shown_iff_others (consistent_localPeer_apply hlocal op)]
    exact othersShown_apply_iff ((shown_iff_others hlocal).mp hs) op

/-- A muted participant comes, and is given the level 0. -/
def quietGuest : List Operation :=
  [.createRoom 0 smallRoom [2] [2], .addOrUpdatePeer 1 { someone [3] with muted := true },
    .markPeerSpeaking 2 [3] 0 30, .tick 100]

theorem shown_iff_quietGuest :
    (∀ x ∈ Machine.trace apply fresh quietGuest, Shown x.1) ∧
      Shown (quietGuest.foldl apply fresh) := by
  refine (shown_iff (Machine.run_trace ⟨0, rfl⟩ fun _ _ => trivial)).mpr ?_
  simp only [quietGuest, Machine.forall_trace_cons, Machine.forall_trace_nil, KeepsShown, true_and,
    and_true]
  exact ⟨Or.inr (Or.inr fun _ => ⟨rfl, rfl⟩), fun _ _ _ => le_rfl⟩

/-- A muted participant comes, and is given a level. -/
def loudGuest : List Operation :=
  [.createRoom 0 smallRoom [2] [2], .addOrUpdatePeer 1 { someone [3] with muted := true },
    .markPeerSpeaking 2 [3] (1 / 2) 30]

/-- A participant comes that is muted and speaks. -/
def speakingGuest : List Operation :=
  [.createRoom 0 smallRoom [2] [2],
    .addOrUpdatePeer 1 { someone [3] with muted := true, speaking := true }]

/-- **A level while muted**, and a flag. -/
theorem shown_muted_with_level :
    (∃ t s, machine.Run t s ∧ ¬ Shown s ∧
      ∃ peer ∈ s.participants, peer.muted = true ∧ peer.micLevel = 1 / 2) ∧
    ∃ t s, machine.Run t s ∧ ¬ Shown s ∧
      ∃ peer ∈ s.participants, peer.muted = true ∧ peer.speaking = true := by
  refine ⟨⟨_, loudGuest.foldl apply fresh, Machine.run_trace ⟨0, rfl⟩ fun _ _ => trivial, ?_⟩,
    _, speakingGuest.foldl apply fresh, Machine.run_trace ⟨0, rfl⟩ fun _ _ => trivial, ?_⟩
  · have hloud : ∃ peer ∈ (loudGuest.foldl apply fresh).participants,
        peer.muted = true ∧ peer.micLevel = 1 / 2 := by decide +kernel
    refine ⟨fun h => ?_, hloud⟩
    obtain ⟨peer, hpeer, hmuted, hlevel⟩ := hloud
    rw [((h peer hpeer).muted hmuted).2.2] at hlevel
    norm_num at hlevel
  · have hspeaks : ∃ peer ∈ (speakingGuest.foldl apply fresh).participants,
        peer.muted = true ∧ peer.speaking = true := by decide +kernel
    refine ⟨fun h => ?_, hspeaks⟩
    obtain ⟨peer, hpeer, hmuted, hspeaking⟩ := hspeaks
    rw [((h peer hpeer).muted hmuted).2.1] at hspeaking
    exact Bool.noConfusion hspeaking

end VoiceSession

end Client

end TarkovVoice

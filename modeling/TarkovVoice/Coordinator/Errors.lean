import TarkovVoice.Coordinator.History

/-!
# Requests that fail

A request can fail in three handlers, and each fails before it has done anything: `joinRoom`
looks for the room and for a free place before it leaves the old room, `routeToPeer` checks its
target before it stamps the envelope, and a type nobody knows is answered at once. What the other
handlers send their sender is never an `error`.

## Main results

* `Hub.Handled.eq_of_error` — a request answered with an error is that answer and nothing else
* `Hub.error_changes_nothing`
-/

namespace TarkovVoice

namespace Coordinator

namespace Hub

variable {w : Ambient} {h h' : Hub} {c q : ClientPtr} {env answer : Envelope}

/-- A step that sends nobody an error. -/
def ErrorFree (h h' : Hub) : Prop :=
  ∀ q, ∃ l, (h'.send q).offered = (h.send q).offered ++ l ∧ ∀ env ∈ l, env.type ≠ "error"

theorem errorFree_of_send (hsend : h'.send = h.send) : h.ErrorFree h' := by
  intro q
  exact ⟨[], by rw [hsend, List.append_nil], by simp⟩

theorem ErrorFree.deliver (hf : h.ErrorFree h') {mail : Mail}
    (hmail : ∀ q, ∀ env ∈ mail q, env.type ≠ "error") : h.ErrorFree (h'.deliver mail) := by
  intro q
  obtain ⟨l, hoff, hl⟩ := hf q
  refine ⟨l ++ mail q, by rw [offered_deliver, hoff, List.append_assoc], fun env henv => ?_⟩
  rcases List.mem_append.mp henv with henv | henv
  · exact hl env henv
  · exact hmail q env henv

theorem ErrorFree.ne_error (hf : h.ErrorFree h') (hmem : answer ∈ h.news h' q) :
    answer.type ≠ "error" := by
  obtain ⟨l, hoff, hl⟩ := hf q
  rw [news_of_offered hoff] at hmem
  exact hl answer hmem

theorem ne_error_toAll : ∀ q, ∀ env ∈ h.toAll w q, env.type ≠ "error" :=
  forall_toAll (by simp [roomsEnvelope])

/-- Forwarded envelopes keep their types. -/
theorem ne_error_stamp (htype : IsIce env.type ∨ IsStatus env.type) :
    (h.stamp w c env).type ≠ "error" := by
  rcases htype with (htype | htype | htype) | (htype | htype) <;> simp [stamp, htype]

theorem Inv.errorFree_leaveRoomLocked (hi : h.Inv) (hc : h.Registered c) :
    h.ErrorFree (h.leaveRoomLocked w c) := by
  intro q
  refine ⟨_, hi.offered_leaveRoomLocked hc q, fun env henv => ?_⟩
  rw [(mem_toRoommates.mp henv).2]
  simp [peerLeft]

theorem Inv.errorFree_vacated (hi : h.Inv) (hc : h.Registered c) (env : Envelope) :
    h.ErrorFree (h.vacated w c env) := by
  rw [Hub.vacated, updateNick_eq]
  exact hi.errorFree_leaveRoomLocked hc

/-- **A request answered with an error is that answer and nothing else.** -/
theorem Handled.eq_of_error (hi : h.Inv) (hc : h.Registered c) (hh : Handled w h c env h')
    (hmem : answer ∈ h.news h' c) (herror : answer.type = "error") :
    h' = h.deliver (toOne c answer) := by
  have hstay : h.ErrorFree h := errorFree_of_send rfl
  have hvacated := hi.errorFree_vacated (w := w) hc env
  have hself : ∀ {answer' : Envelope}, answer ∈ h.news (h.deliver (toOne c answer')) c →
      h.deliver (toOne c answer') = h.deliver (toOne c answer) := by
    intro answer' hmem
    rw [news_of_offered (offered_deliver _ _)] at hmem
    rw [(mem_toOne.mp hmem).2]
  cases hh with
  | create =>
    have hcreated : h.ErrorFree (h.created w c env) := hvacated
    exact absurd herror (((hcreated.deliver (forall_toOne (by simp [roomCreated]))).deliver
      ne_error_toAll).ne_error hmem)
  | @join r =>
    have hjoined : h.ErrorFree (h.joined w c env r) := hvacated
    exact absurd herror ((((hjoined.deliver (forall_toOne (by simp [joinedRoom]))).deliver
      (forall_toRoom (by simp [peerJoined]))).deliver ne_error_toAll).ne_error hmem)
  | leave =>
    exact absurd herror
      (((hi.errorFree_leaveRoomLocked hc).deliver ne_error_toAll).ne_error hmem)
  | hello =>
    have hnick : h.ErrorFree (h.updateNick c env) := errorFree_of_send (by rw [updateNick_eq])
    exact absurd herror (((hnick.deliver (forall_toOne (by simp [helloEnvelope]))).deliver
      (forall_toOne (by simp [roomsEnvelope]))).ne_error hmem)
  | listRooms =>
    exact absurd herror
      ((hstay.deliver (forall_toOne (by simp [roomsEnvelope]))).ne_error hmem)
  | route htype =>
    exact absurd herror
      ((hstay.deliver (forall_toOne (ne_error_stamp (Or.inl htype)))).ne_error hmem)
  | unavailable => exact hself hmem
  | status htype =>
    exact absurd herror
      ((hstay.deliver (forall_toRoom (ne_error_stamp (Or.inr htype)))).ne_error hmem)
  | voice => exact absurd herror ((hstay.deliver (forall_toRoom (by simp))).ne_error hmem)
  | silent => exact absurd herror (hstay.ne_error hmem)
  | reply => exact hself hmem

/-- **A failed request changes nothing.** In every reachable hub, whatever a registered client
sends: if it is answered with an `error`, then the rooms, their members, hosts and locks, every
client's room and nick and every other client's queue are as they were. -/
theorem error_changes_nothing (hreach : machine.Reachable h) (hc : h.Registered c) (w : Ambient)
    (env : Envelope) (herror : ∃ answer ∈ h.news (h.handle w c env) c, answer.type = "error") :
    (h.handle w c env).rooms = h.rooms ∧ (h.handle w c env).room = h.room ∧
    (h.handle w c env).clients = h.clients ∧ (h.handle w c env).client = h.client ∧
    ∀ q, q ≠ c → (h.handle w c env).send q = h.send q := by
  have hi := inv_of_reachable hreach
  obtain ⟨answer, hmem, htype⟩ := herror
  rw [(handle_handled hi hc env).eq_of_error hi hc hmem htype]
  refine ⟨rfl, rfl, rfl, rfl, fun q hq => ?_⟩
  simp only [deliver, toOne, if_neg hq, SendQueue.offerAll_nil]

/-- The second member of `shared` asks for a room that is not there, under a new nick. -/
def strayed : Hub :=
  shared.handle (Ambient.plain 30 "a3") 1 { type := "join_room", roomID := "room_b2", nick := "Cy" }

theorem error_changes_nothing_shared :
    strayed.client 1 = ⟨"peer_2", "Bo", "room_a1"⟩ ∧ strayed.send 0 = shared.send 0 := by
  have hkept := error_changes_nothing (c := 1) shared_reachable (by decide) (Ambient.plain 30 "a3")
    { type := "join_room", roomID := "room_b2", nick := "Cy" } (by decide)
  refine ⟨?_, hkept.2.2.2.2 0 (by decide)⟩
  rw [strayed, hkept.2.2.2.1]
  decide

end Hub

end Coordinator

end TarkovVoice

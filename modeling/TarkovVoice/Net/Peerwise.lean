import TarkovVoice.Net.Routes
import TarkovVoice.Net.Signals

/-!
# What a call does to one peer

For each call of the direct transport, which route it replaces and by what. A call that is about one
peer replaces the route of that peer, a datagram that of the peer it is from. A pump replaces every
route once, and its loop does to each peer what a single turn does.

## Main results

* `ensurePeer_cases`, `handleSignal_cases`, `receive_cases`
* `pumpRoutes_at`, `pumpRoutes_peersInOrder` — one peer of a pump
-/

namespace TarkovVoice

namespace Net

namespace DirectVoiceTransport

variable {d : DirectVoiceTransport} {k : Bytes}

instance : Decidable (d.Admits k) := inferInstanceAs (Decidable (_ ∧ _ ∧ _))

/-! ### Announcements, signals and datagrams -/

/-- **`ensurePeer`** counts the time of the route from now, and may note that an offer is sent. -/
theorem ensurePeer_cases (now : ℕ) (peerId : Bytes) (initiateOffer : Bool) :
    (¬ d.Admits peerId ∧ d.ensurePeer now peerId initiateOffer = (d, [])) ∨
    (d.Admits peerId ∧ ∃ offerSent, (d.ensurePeer now peerId initiateOffer).1 =
      d.setRoute peerId { d.route now peerId with createdAt := now, offerSent }) := by
  rw [ensurePeer]
  by_cases h : d.Admits peerId
  · rw [if_neg (mt not_admits_iff.mpr (not_not.mpr h))]
    refine .inr ⟨h, ?_⟩
    dsimp only
    split <;> exact ⟨_, rfl⟩
  · rw [if_pos (not_admits_iff.mp h)]
    exact .inl ⟨h, rfl⟩

/-- **`handleSignal`** takes the candidates and pings; it may set the time of the route, if that was
never set, and note that an answer is sent. -/
theorem handleSignal_cases (isNumericHost : Bytes → Bool) (now : ℕ) (sourcePeerId : Bytes)
    (signalType : SignalType) (payloadJson : Bytes) :
    (¬ d.Admits sourcePeerId ∧
      d.handleSignal isNumericHost now sourcePeerId signalType payloadJson = (d, [])) ∨
    (d.Admits sourcePeerId ∧ ∃ r answer,
      d.handleSignal isNumericHost now sourcePeerId signalType payloadJson =
        (d.setRoute sourcePeerId r, answer ++ sendPacket r d.pingPacket) ∧
      ∃ answerSent, r =
        { d.route now sourcePeerId with
          createdAt := if (d.route now sourcePeerId).createdAt = 0 then now
            else (d.route now sourcePeerId).createdAt
          candidates := parseCandidates payloadJson
          endpoints := rebuildEndpoints isNumericHost (parseCandidates payloadJson)
          answerSent
          lastPingSent := now }) := by
  rw [handleSignal]
  by_cases h : d.Admits sourcePeerId
  · rw [if_neg (mt not_admits_iff.mpr (not_not.mpr h))]
    extract_lets found created candidates known answers answered
    have hcreated : created =
        { found with createdAt := if found.createdAt = 0 then now else found.createdAt } := by
      simp only [created]
      split <;> rfl
    have hanswered : ∃ answerSent, answered = { known with answerSent } := by
      simp only [answered]
      split <;> exact ⟨_, rfl⟩
    obtain ⟨answerSent, hanswered⟩ := hanswered
    refine .inr ⟨h, _, _, rfl, answerSent, ?_⟩
    rw [hanswered]
    simp only [known]
    rw [hcreated]
  · rw [if_pos (not_admits_iff.mp h)]
    exact .inl ⟨h, rfl⟩

theorem receiveVoice_fst (r : PeerRoute) (packet : DecodedPacket) :
    ∃ hasLastVoiceSequenceReceived lastVoiceSequenceReceived, (receiveVoice r packet).1 =
      { r with hasLastVoiceSequenceReceived, lastVoiceSequenceReceived } := by
  rw [receiveVoice]
  split <;> exact ⟨_, _, rfl⟩

/-- **A datagram** is ignored, or its peer is heard, and perhaps learned where it is. It is ignored
if it is no packet, of another room, of nobody, or of the transport itself. -/
theorem receive_cases (now : ℕ) (a : Arrival) :
    (d.sourceOf a = none ∧ d.receive now a = (d, [])) ∨
    ∃ peerId hasLastVoiceSequenceReceived lastVoiceSequenceReceived, d.sourceOf a = some peerId ∧
      (d.receive now a).1 = d.setRoute peerId
        { d.route now peerId with
          learnedEndpoint := a.source.orElse fun _ => (d.route now peerId).learnedEndpoint
          lastHeard := now
          hasLastVoiceSequenceReceived
          lastVoiceSequenceReceived } := by
  rw [receive, sourceOf]
  cases decodePacket a.data a.data.length with
  | error _ => exact .inl ⟨rfl, rfl⟩
  | ok packet =>
    dsimp only
    split
    · exact .inl ⟨rfl, rfl⟩
    · refine .inr ⟨packet.sourcePeerId, ?_⟩
      rw [receivePacket]
      by_cases hvoice : packet.type = kPacketVoice ∧ d.frameCallback = true
      · rw [if_pos hvoice]
        obtain ⟨_, _, heq⟩ := receiveVoice_fst _ packet
        exact ⟨_, _, rfl, congrArg (d.setRoute packet.sourcePeerId) heq⟩
      · rw [if_neg hvoice]
        exact ⟨_, _, rfl, rfl⟩

/-! ### Signals and frames -/

/-- A signal that is not admitted says nothing, and one that is says no more than an answer. Offers
and candidates are never sent in return for a signal. -/
theorem handleSignal_types (isNumericHost : Bytes → Bool) (now : ℕ) (sourcePeerId : Bytes)
    (signalType : SignalType) (payloadJson : Bytes) :
    ∀ s ∈ signalsTo k (d.handleSignal isNumericHost now sourcePeerId signalType payloadJson).2,
      s.1 = .iceAnswer := by
  by_cases hk : k = sourcePeerId
  · subst hk
    rcases handleSignal_cases (d := d) isNumericHost now k signalType payloadJson
      with ⟨-, h⟩ | ⟨⟨hrun, hname, hlocal⟩, -⟩
    · rw [h]
      exact fun s hs => absurd hs List.not_mem_nil
    · exact fun s hs => ((handleSignal_turn hrun hname hlocal isNumericHost now signalType
        payloadJson).types s hs).1
  · have hother : Exchange.Turn [] (fun type => type = .iceAnswer) none _ _ _ :=
      handleSignal_turn_of_ne (d := d) hk isNumericHost now signalType payloadJson
    exact hother.types

/-! ### Pumps -/

theorem SameSetup.signalCallback {d' : DirectVoiceTransport} (h : SameSetup d d') :
    d'.signalCallback = d.signalCallback := by
  obtain ⟨_, rfl⟩ := h
  rfl

theorem SameSetup.pumpRoute_eq {d' : DirectVoiceTransport} (h : SameSetup d d') (now : ℕ)
    (peerId : Bytes) (r : PeerRoute) : d'.pumpRoute now peerId r = d.pumpRoute now peerId r := by
  obtain ⟨peers, rfl⟩ := h
  rfl

/-- The loop over other peers. It leaves the route of `k` as it is, and sends it no signal. -/
theorem pumpRoutes_of_notMem (now : ℕ) (peerIds : List Bytes) (hk : k ∉ peerIds) :
    ∀ d : DirectVoiceTransport, (pumpRoutes now d peerIds).1.peers.get k = d.peers.get k ∧
      signalsTo k (pumpRoutes now d peerIds).2 = [] := by
  induction peerIds with
  | nil => exact fun _ => ⟨rfl, rfl⟩
  | cons p peerIds ih =>
    intro d
    have hne : k ≠ p := fun h => hk (h ▸ List.mem_cons_self)
    have hrest := ih fun h => hk (List.mem_cons_of_mem p h)
    rw [pumpRoutes]
    cases d.peers.get p with
    | none => exact hrest d
    | some r =>
      obtain ⟨hget, hsignals⟩ := hrest (d.setRoute p (d.pumpRoute now p r).1)
      refine ⟨hget.trans (FMap.get_put_of_ne _ hne _), ?_⟩
      rw [signalsTo_append, hsignals, (pumpRoute_turn now p r).2 k hne]
      rfl

/-- **One peer of a pump.** The loop does to it what its turn does, and sends it no other signal.
What its turn puts out is among what the loop puts out. -/
theorem pumpRoutes_at (now : ℕ) {r : PeerRoute} {peerIds : List Bytes} (hk : k ∈ peerIds)
    (hnodup : peerIds.Nodup) : ∀ d : DirectVoiceTransport, d.peers.get k = some r →
      (pumpRoutes now d peerIds).1.peers.get k = some (d.pumpRoute now k r).1 ∧
      signalsTo k (pumpRoutes now d peerIds).2 = signalsTo k (d.pumpRoute now k r).2 ∧
      (d.pumpRoute now k r).2 ⊆ (pumpRoutes now d peerIds).2 := by
  induction peerIds with
  | nil => exact absurd hk List.not_mem_nil
  | cons p peerIds ih =>
    intro d hr
    obtain ⟨hp, hnodup⟩ := List.nodup_cons.mp hnodup
    rw [pumpRoutes]
    by_cases hkp : k = p
    · subst hkp
      obtain ⟨hget, hsignals⟩ :=
        pumpRoutes_of_notMem now peerIds hp (d.setRoute k (d.pumpRoute now k r).1)
      rw [hr]
      refine ⟨hget.trans (FMap.get_put_self _ _ _), ?_, List.subset_append_left _ _⟩
      rw [signalsTo_append, hsignals, List.append_nil]
    · have hmem : k ∈ peerIds := (List.mem_cons.mp hk).resolve_left hkp
      cases d.peers.get p with
      | none => exact ih hmem hnodup d hr
      | some r' =>
        obtain ⟨hget, hsignals, hsub⟩ := ih hmem hnodup (d.setRoute p (d.pumpRoute now p r').1)
          ((FMap.get_put_of_ne _ hkp _).trans hr)
        rw [(sameSetup_setRoute p _).pumpRoute_eq] at hget hsignals hsub
        refine ⟨hget, ?_, List.Subset.trans hsub (List.subset_append_right _ _)⟩
        rw [signalsTo_append, (pumpRoute_turn now p r').2 k hkp, List.nil_append, hsignals]

theorem mem_peersInOrder : k ∈ d.peersInOrder ↔ d.HasRoute k := List.mem_mergeSort

theorem peersInOrder_nodup : d.peersInOrder.Nodup :=
  (List.mergeSort_perm _ _).nodup_iff.mpr d.peers.keys_nodup

/-- The loop over all peers. -/
theorem pumpRoutes_peersInOrder (now : ℕ) :
    match d.peers.get k with
    | some r =>
      (pumpRoutes now d d.peersInOrder).1.peers.get k = some (d.pumpRoute now k r).1 ∧
        signalsTo k (pumpRoutes now d d.peersInOrder).2 = signalsTo k (d.pumpRoute now k r).2 ∧
        (d.pumpRoute now k r).2 ⊆ (pumpRoutes now d d.peersInOrder).2
    | none =>
      (pumpRoutes now d d.peersInOrder).1.peers.get k = none ∧
        signalsTo k (pumpRoutes now d d.peersInOrder).2 = [] := by
  cases hr : d.peers.get k with
  | some r =>
    exact pumpRoutes_at now (mem_peersInOrder.mpr (hasRoute_iff.mpr ⟨r, hr⟩)) peersInOrder_nodup d
      hr
  | none =>
    have hno : ¬ d.HasRoute k := by
      rw [hasRoute_iff, hr]
      exact fun h => nomatch h
    obtain ⟨hget, hsignals⟩ := pumpRoutes_of_notMem now _ (mt mem_peersInOrder.mp hno) d
    exact ⟨hget.trans hr, hsignals⟩

end DirectVoiceTransport

end Net

end TarkovVoice

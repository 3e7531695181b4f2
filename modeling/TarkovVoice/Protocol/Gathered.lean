import TarkovVoice.Net.Gathering
import TarkovVoice.Net.Peerwise
import TarkovVoice.Protocol.Candidates

/-!
# Where a new peer is looked for

From `start` of one direct transport to the route of another. Whatever the system, the STUN servers
and the web servers answer, the candidates that `start` gathers are of the kind that survives its
own payload, and the endpoints at which the other transport looks for it are all of theirs.

## Main results

* `localCandidate_gathered` — what is gathered is written so that it can be read
* `rebuildEndpoints_eq`
* `gathered_reaches`
-/

namespace TarkovVoice

namespace Protocol

open Net
open DirectVoiceTransport (makeLocalPayloadJson parseCandidates rebuildEndpoints)
open Surroundings (Documented Tellable hostCandidate mappedCandidate publicCandidate)

/-! ### What is gathered -/

theorem bytes_four (n : ℕ) : ∃ b₀ b₁ b₂ b₃, BigEndian.bytes 4 n = [b₀, b₁, b₂, b₃] := by
  exact ⟨_, _, _, _, rfl⟩

/-- Four numbers with dots between them. -/
theorem exists_dotted (ip : UInt32) : ∃ n₀ n₁ n₂ n₃ : ℕ, dotted ip =
    decimal n₀ ++ 46 :: (decimal n₁ ++ 46 :: (decimal n₂ ++ 46 :: decimal n₃)) := by
  obtain ⟨b₀, b₁, b₂, b₃, h⟩ := bytes_four ip.toNat
  refine ⟨b₀.toNat, b₁.toNat, b₂.toNat, b₃.toNat, ?_⟩
  rw [dotted, h]
  simp [List.intercalate]

theorem dotted_ne_nil (ip : UInt32) : dotted ip ≠ [] := by
  obtain ⟨n₀, n₁, n₂, n₃, h⟩ := exists_dotted ip
  rw [h]
  exact List.append_ne_nil_of_left_ne_nil (decimal_ne_nil n₀) _

theorem dotted_addressByte (ip : UInt32) : ∀ b ∈ dotted ip, isdigit b = true ∨ b = 46 := by
  obtain ⟨n₀, n₁, n₂, n₃, h⟩ := exists_dotted ip
  rw [h]
  intro b hb
  simp only [List.mem_append, List.mem_cons] at hb
  rcases hb with hb | rfl | hb | rfl | hb | rfl | hb
  · exact .inl (decimal_isdigit n₀ b hb)
  · exact .inr rfl
  · exact .inl (decimal_isdigit n₁ b hb)
  · exact .inr rfl
  · exact .inl (decimal_isdigit n₂ b hb)
  · exact .inr rfl
  · exact .inl (decimal_isdigit n₃ b hb)

variable {s : Surroundings} {localPort : UInt16}

/-- An address of a candidate: digits and dots, and a numeric host, so that it survives the payload
and gives an endpoint. -/
structure Usable (s : Surroundings) (address : Bytes) : Prop where
  ne_nil : address ≠ []
  digits : ∀ b ∈ address, isdigit b = true ∨ b = 46
  numeric : s.isNumericHost address = true

theorem usable_dotted (h : s.Documented) (ip : UInt32) : Usable s (dotted ip) where
  ne_nil := dotted_ne_nil ip
  digits := dotted_addressByte ip
  numeric := h.inet.numeric ip

theorem usable_localIPv4Addresses (h : s.Documented) :
    ∀ address ∈ s.localIPv4Addresses, Usable s address := by
  intro address haddress
  rw [Surroundings.localIPv4Addresses_eq, List.mem_eraseDups, List.mem_filterMap] at haddress
  obtain ⟨address', hmem, heq⟩ := haddress
  have hsame : address' = address := by
    split at heq
    · exact absurd heq (Option.some_ne_none address).symm
    · exact Option.some.inj heq
  subst hsame
  rcases List.mem_cons.mp hmem with rfl | hmem
  · exact usable_dotted h 0x7f000001
  · obtain ⟨ip, -, hip⟩ := List.mem_filterMap.mp hmem
    rw [h.inet.ntop] at hip
    rw [← Option.some.inj hip]
    exact usable_dotted h ip

theorem usable_queryPublicIPv4ViaHttps (h : s.Documented) :
    ∀ address ∈ s.queryPublicIPv4ViaHttps, Usable s address := by
  intro address haddress
  obtain ⟨endpoint, -, hfound⟩ := List.exists_of_findSome?_eq_some haddress
  obtain ⟨body, -, htoken⟩ := Option.bind_eq_some_iff.mp hfound
  obtain ⟨haccepts, hbytes⟩ := Tokens.of_mem_first htoken
  obtain ⟨hcount, hpublic⟩ := (acceptsToken_iff address).mp haccepts
  refine ⟨?_, fun b hb => ?_, h.pton address ?_⟩
  · rintro rfl
    exact absurd hcount (by decide)
  · have hbyte := hbytes b hb
    rwa [addressByte, Bool.or_eq_true, beq_iff_eq] at hbyte
  · obtain ⟨ip, hip, -⟩ := (isPublicIPv4Address_iff address).mp hpublic
    rw [hip]
    exact Option.some_ne_none ip

/-- A candidate with a usable address. -/
theorem localCandidate_of_usable {c : Candidate} (h : Usable s c.address) (hport : c.port ≠ 0)
    (htype : c.type ∈ [utf8 "host", utf8 "srflx", utf8 "public"]) : LocalCandidate c where
  type := htype
  address_ne_nil := h.ne_nil
  address := h.digits
  port := hport

theorem exists_localIPv4Addresses (s : Surroundings) :
    ∃ rest, s.localIPv4Addresses = utf8 "127.0.0.1" :: rest := by
  rw [Surroundings.localIPv4Addresses_eq, List.filterMap_cons_some (b := utf8 "127.0.0.1") (by rfl),
    List.eraseDups_cons]
  exact ⟨_, rfl⟩

/-- The candidates that may be gathered, given what the STUN servers answer. -/
theorem mem_gathered {answer : Bytes → Option SocketEndpoint} {servers : List Bytes} {found : Bool}
    {c : Candidate} :
    c ∈ (s.localIPv4Addresses.map (hostCandidate localPort) ++
      (servers.filterMap answer).map mappedCandidate ++
      (s.queryPublicIPv4ViaHttps.map (publicCandidate localPort found)).toList).eraseDups ↔
    (∃ address ∈ s.localIPv4Addresses, c = hostCandidate localPort address) ∨
      (∃ mapped ∈ servers.filterMap answer, c = mappedCandidate mapped) ∨
      ∃ address ∈ s.queryPublicIPv4ViaHttps, c = publicCandidate localPort found address := by
  rw [List.mem_eraseDups, List.mem_append, List.mem_append, List.mem_map, List.mem_map,
    Option.mem_toList, Option.map_eq_some_iff, or_assoc]
  simp only [eq_comm, Option.mem_def]

/-- **What is gathered**, and of which types. -/
theorem gathered_cases (h : s.Documented) (hport : localPort ≠ 0) :
    ∃ cs, s.gatherCandidates localPort = .ok cs ∧ cs.Nodup ∧
      cs.head? = some ⟨utf8 "host", utf8 "127.0.0.1", localPort⟩ ∧
      (∀ c ∈ cs, LocalCandidate c ∧ s.isNumericHost c.address = true) ∧
      ((∃ c ∈ cs, c.type = utf8 "public") → ∃ c ∈ cs, c.type = utf8 "srflx") := by
  choose answer hanswer htold using
    fun stun => Surroundings.queryStunMappedEndpoint_eq h.inet hport stun
  refine ⟨_, Surroundings.gatherCandidates_eq hanswer, Unique.nodup_eraseDups _, ?_, ?_, ?_⟩
  · obtain ⟨rest, hrest⟩ := exists_localIPv4Addresses s
    rw [hrest, List.map_cons, List.cons_append, List.cons_append, List.eraseDups_cons]
    rfl
  · intro c hc
    rcases mem_gathered.mp hc with ⟨address, haddress, rfl⟩ | ⟨mapped, hmapped, rfl⟩ |
      ⟨address, haddress, rfl⟩
    · have husable := usable_localIPv4Addresses h address haddress
      exact ⟨localCandidate_of_usable husable hport (List.mem_cons_self ..), husable.numeric⟩
    · obtain ⟨stun, -, hstun⟩ := List.mem_filterMap.mp hmapped
      obtain ⟨⟨ip, hip⟩, hmappedPort⟩ := htold stun mapped hstun
      have husable : Usable s (mappedCandidate mapped).address := by
        rw [mappedCandidate, hip]
        exact usable_dotted h ip
      exact ⟨localCandidate_of_usable husable hmappedPort
        (List.mem_cons_of_mem _ (List.mem_cons_self ..)), husable.numeric⟩
    · have husable := usable_queryPublicIPv4ViaHttps h address haddress
      refine ⟨localCandidate_of_usable husable hport ?_, husable.numeric⟩
      rw [publicCandidate]
      dsimp only
      split
      · exact List.mem_cons_of_mem _ (List.mem_cons_of_mem _ (List.mem_cons_self ..))
      · exact List.mem_cons_of_mem _ (List.mem_cons_self ..)
  · -- A public candidate is called so because there is a mapped one.
    have hostType : utf8 "host" ≠ utf8 "public" := by decide
    have srflxType : utf8 "srflx" ≠ utf8 "public" := by decide
    rintro ⟨c, hc, htype⟩
    rcases mem_gathered.mp hc with ⟨address, -, rfl⟩ | ⟨mapped, -, rfl⟩ | ⟨address, -, rfl⟩
    · exact absurd htype hostType
    · exact absurd htype srflxType
    · have hne : s.configuredStunServers.filterMap answer ≠ [] := by
        intro hnil
        rw [publicCandidate, hnil] at htype
        exact absurd htype srflxType
      obtain ⟨mapped, hmapped⟩ := List.exists_mem_of_ne_nil _ hne
      exact ⟨mappedCandidate mapped, mem_gathered.mpr (.inr (.inl ⟨mapped, hmapped, rfl⟩)), rfl⟩

/-! ### Where the other transport looks -/

/-- **The endpoints of candidates** with numeric addresses: those of all of them, without
repetition. -/
theorem rebuildEndpoints_eq {isNumericHost : Bytes → Bool} (cs : List Candidate) :
    rebuildEndpoints isNumericHost cs = (cs.filterMap fun c =>
      if isNumericHost c.address then some (⟨c.address, c.port⟩ : SocketEndpoint)
      else none).eraseDups := by
  refine Unique.foldl_eq (fun endpoints c => ?_) cs
  cases isNumericHost c.address with
  | false => rfl
  | true =>
    by_cases hmem : (⟨c.address, c.port⟩ : SocketEndpoint) ∈ endpoints
    · exact (if_neg fun h => h.2 hmem).trans (Unique.add_of_mem hmem).symm
    · exact (if_pos ⟨rfl, hmem⟩).trans (Unique.add_of_notMem hmem).symm

/-- **Where a new peer is looked for.** Whatever the environment and the system are, and whatever
the servers answer, `start` reads nothing outside its buffers. If it succeeds, its candidates are
without repetition, begin with the loopback address and the socket's port, and name an address
`public` only beside a mapped one. A transport that handles the payload made of them takes exactly
these candidates, and looks for the peer at the endpoints of all of them. -/
theorem gathered_reaches (h : s.Documented) (d₀ : DirectVoiceTransport) {roomId localPeerId : Bytes}
    (hroom : roomId ≠ []) (hid : localPeerId ≠ []) :
    ∃ found, s.discovered = .ok found ∧ ∀ cs, found = some cs →
      let d := DirectVoiceTransport.start d₀ roomId localPeerId found
      d.running = true ∧ d.localCandidates = cs ∧ cs.Nodup ∧
      (∃ localPort, s.getsockname = some localPort ∧
        cs.head? = some ⟨utf8 "host", utf8 "127.0.0.1", localPort⟩) ∧
      ((∃ c ∈ cs, c.type = utf8 "public") → ∃ c ∈ cs, c.type = utf8 "srflx") ∧
      ∀ p : DirectVoiceTransport, p.Admits localPeerId → ∀ (now : ℕ) (type : SignalType),
        ∃ r, (p.handleSignal s.isNumericHost now localPeerId type
            d.makeLocalPayloadJson).1.peers.get localPeerId = some r ∧
          r.candidates = cs ∧
          r.endpoints = (cs.map fun c => (⟨c.address, c.port⟩ : SocketEndpoint)).eraseDups := by
  have hnone : ∀ cs, (none : Option (List Candidate)) ≠ some cs :=
    fun cs h => Option.some_ne_none cs h.symm
  rw [Surroundings.discovered]
  split_ifs
  · exact ⟨none, rfl, fun cs hcs => absurd hcs (hnone cs)⟩
  · exact ⟨none, rfl, fun cs hcs => absurd hcs (hnone cs)⟩
  · exact ⟨none, rfl, fun cs hcs => absurd hcs (hnone cs)⟩
  · cases hport : s.getsockname with
    | none => exact ⟨none, rfl, fun cs hcs => absurd hcs (hnone cs)⟩
    | some localPort =>
      have hne : localPort ≠ 0 := by
        rintro rfl
        exact h.port hport
      obtain ⟨cs, hgather, hnodup, hhead, hlocal, htypes⟩ := gathered_cases h hne
      refine ⟨some cs, ?_, fun cs' hcs => ?_⟩
      · dsimp only
        rw [hgather]
        rfl
      · obtain rfl := Option.some.inj hcs
        have hstart : DirectVoiceTransport.start d₀ roomId localPeerId (some cs) =
            { d₀.stop with roomId, localPeerId, localCandidates := cs, running := true } := by
          rw [DirectVoiceTransport.start]
          exact if_neg fun h => h.elim hroom hid
        rw [hstart]
        refine ⟨rfl, rfl, hnodup, ⟨localPort, rfl, hhead⟩, htypes, fun p hadmits now type => ?_⟩
        obtain ⟨hno, -⟩ | ⟨-, r, answer, heq, answerSent, rfl⟩ :=
          DirectVoiceTransport.handleSignal_cases (d := p) s.isNumericHost now localPeerId type
            (makeLocalPayloadJson
              { d₀.stop with roomId, localPeerId, localCandidates := cs, running := true })
        · exact absurd hadmits hno
        · have hparse := parseCandidates_makeLocalPayloadJson
            { d₀.stop with roomId, localPeerId, localCandidates := cs, running := true }
            fun c hc => (hlocal c hc).1
          rw [heq]
          refine ⟨_, FMap.get_put_self _ _ _, hparse, ?_⟩
          dsimp only
          rw [hparse, rebuildEndpoints_eq, ← List.filterMap_eq_map]
          refine congrArg List.eraseDups (List.filterMap_congr fun c hc => ?_)
          exact if_pos (hlocal c hc).2

/-! ### A transport behind a router -/

theorem length_buffered :
    (reflexive.datagram someRequest ++ List.replicate 472 0).length = 512 := by
  rw [List.length_append, List.length_replicate, StunAnswer.datagram, List.length_append,
    reflexive.length_header length_someRequest]
  exact congrArg (20 + · + 472) length_reflexive

/-- A host with an address of its own. One STUN server answers, when it is asked again, and a web
server tells another address. -/
def behindRouter : Surroundings where
  getenv _ := none
  wsaStartup := true
  socket := true
  bind _ := true
  getsockname := some 40771
  hostAddresses := some [0xc0a80007]
  resolves host _ := host == utf8 "stun.l.google.com"
  stunReply _ _ attempt :=
    if attempt = 0 then none
    else some
      { request := someRequest
        response := reflexive.datagram someRequest ++ List.replicate 472 0
        received := (reflexive.datagram someRequest).length
        length_request := length_someRequest
        length_response := length_buffered }
  httpsBody host _ := if host = utf8 "ifconfig.me" then some (utf8 "203.0.113.9") else none
  inetNtop ip := some (dotted ip)
  inetPton text := if text = utf8 "203.0.113.9" then some 0xcb007109 else none
  isNumericHost _ := true

theorem documented_behindRouter : behindRouter.Documented where
  inet := ⟨fun _ => rfl, fun _ => rfl⟩
  pton _ _ := rfl
  port := by decide

/-- Its candidates. -/
def gathered : List Candidate :=
  [⟨utf8 "host", utf8 "127.0.0.1", 40771⟩, ⟨utf8 "host", utf8 "192.168.0.7", 40771⟩,
    ⟨utf8 "srflx", utf8 "203.0.113.5", 5000⟩, ⟨utf8 "public", utf8 "203.0.113.9", 40771⟩]

/-- The transport of another member of the room. -/
def neighbour : DirectVoiceTransport := { roomId := [7], localPeerId := [2], running := true }

/-- The other member takes all four candidates, and looks for the first at four endpoints. -/
theorem gathered_reaches_behindRouter : behindRouter.discovered = .ok (some gathered) ∧
    ∃ r, (neighbour.handleSignal (fun _ => true) 10 [1] .iceOffer
        (DirectVoiceTransport.start {} [7] [1] (some gathered)).makeLocalPayloadJson).1.peers.get
          [1] = some r ∧
      r.candidates = gathered ∧
      r.endpoints = gathered.map fun c => (⟨c.address, c.port⟩ : SocketEndpoint) := by
  have hdiscovered : behindRouter.discovered = .ok (some gathered) := by decide +kernel
  obtain ⟨found, hfound, h⟩ := gathered_reaches documented_behindRouter {}
    (List.cons_ne_nil 7 []) (List.cons_ne_nil 1 [])
  obtain rfl : some gathered = found := Except.ok.inj (hdiscovered.symm.trans hfound)
  have hadmits : neighbour.Admits [1] := by decide
  obtain ⟨-, -, -, -, -, htaken⟩ := h gathered rfl
  obtain ⟨r, hroute, hcandidates, hendpoints⟩ := htaken neighbour hadmits 10 .iceOffer
  refine ⟨hdiscovered, r, hroute, hcandidates, hendpoints.trans ?_⟩
  decide +kernel

end Protocol

end TarkovVoice

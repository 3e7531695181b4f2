import TarkovVoice.Net.DirectVoice
import TarkovVoice.Net.Packet
import TarkovVoice.Tlv

/-!
# The answer of a STUN server

What `queryStunMappedEndpoint` of `client/src/net/DirectVoiceTransport.cpp` makes of a datagram. The
datagram is received into 512 zeros, and the length that bounds the loop is the server's, not the
number of bytes that came. Reads are checked as in `decodePacket`. The loop runs below 512, so `pos`
stays far from the end of `std::size_t`.

`inetNtop` stands for `InetNtopA` and `isNumericHost` for `getaddrinfo` on a numeric host.

## Main definitions

* `attributeLoop`, `parseStunResponse`
* `StunAnswer` — an answer as a server writes it

## Main results

* `attributeLoop_eq` — the loop is the walk over attributes, and every read is inside
* `stun_answer_read`
-/

namespace TarkovVoice

namespace Net

open BigEndian

/-! ### The functions of the source -/

/-- `(data[pos] << 8) | data[pos + 1]`. -/
def u16At (data : Bytes) (pos : ℕ) : Except Stop UInt16 := do
  let b0 ← byteAt data pos
  let b1 ← byteAt data (pos + 1)
  return (b0.toUInt16 <<< 8) ||| b1.toUInt16

/-- The same for four bytes. -/
def u32At (data : Bytes) (pos : ℕ) : Except Stop UInt32 := do
  let b0 ← byteAt data pos
  let b1 ← byteAt data (pos + 1)
  let b2 ← byteAt data (pos + 2)
  let b3 ← byteAt data (pos + 3)
  return (b0.toUInt32 <<< 24) ||| (b1.toUInt32 <<< 16) ||| (b2.toUInt32 <<< 8) ||| b3.toUInt32

/-- `paddedLength`. -/
def paddedLength (attrLen : UInt16) : UInt64 := (attrLen.toUInt64 + 3) &&& ~~~(3 : UInt64)

section Loop

variable (inetNtop : UInt32 → Option Bytes) (isNumericHost : Bytes → Bool)
  (response : Bytes) (localPort : UInt16)

/-- `makeEndpoint`. -/
def makeEndpoint (address : Bytes) (port : UInt16) : Option SocketEndpoint :=
  if isNumericHost address then some { address, port } else none

/-- The body of the loop from the second `if` on: what is returned, if anything is. `pos` is behind
type and length. -/
def mappedEndpoint (attrType attrLen : UInt16) (pos : ℕ) :
    Except Stop (Option (Option SocketEndpoint)) :=
  if (attrType = 0x0020 ∨ attrType = 0x0001) ∧ attrLen ≥ 8 then do
    let family ← byteAt response (pos + 1)
    if family = 0x01 then
      let mappedPort ← u16At response (pos + 2)
      let mappedAddress ← u32At response (pos + 4)
      let mappedPort := if attrType = 0x0020 then mappedPort ^^^ 0x2112 else mappedPort
      let mappedAddress := if attrType = 0x0020 then mappedAddress ^^^ 0x2112a442 else mappedAddress
      return (inetNtop mappedAddress).map fun text =>
        makeEndpoint isNumericHost text (if mappedPort = 0 then localPort else mappedPort)
    else return none
  else return none

/-- The loop over the attributes, with what is returned from within it. `stop` is `end`, and every
read is checked. -/
def attributeLoop (stop pos : ℕ) : Except Stop (Option (Option SocketEndpoint)) :=
  if pos + 4 ≤ stop then do
    let attrType ← u16At response pos
    let attrLen ← u16At response (pos + 2)
    if pos + 4 + attrLen.toNat > stop then return none
    match ← mappedEndpoint inetNtop isNumericHost response localPort attrType attrLen (pos + 4) with
    | some result => return some result
    | none => attributeLoop stop (pos + 4 + (paddedLength attrLen).toNat)
  else return none
termination_by stop - pos

/-- One attempt of `queryStunMappedEndpoint`, with what is returned from within it. `recvfrom` has
put `received` bytes into `response`. -/
def parseStunResponse (request : Bytes) (received : ℤ) :
    Except Stop (Option (Option SocketEndpoint)) := do
  if received < 20 then return none
  let b0 ← byteAt response 0
  if b0 ≠ 0x01 then return none
  let b1 ← byteAt response 1
  if b1 ≠ 0x01 then return none
  let same ← equalAt response 8 (request.drop 8)
  if ¬ same then return none
  let length ← u16At response 2
  attributeLoop inetNtop isNumericHost response localPort
    (min response.length (20 + length.toNat)) 20

end Loop

/-! ### What the loop computes -/

theorem u16At_of_le {data : Bytes} {pos : ℕ} (h : pos + 2 ≤ data.length) :
    u16At data pos = .ok (UInt16.ofNat (value (slice data pos 2))) := by
  have hslice : slice data pos 2 = [data[pos], data[pos + 1]] := by
    rw [slice_succ (by omega), slice_succ (by omega)]
    rfl
  rw [u16At, byteAt_of_lt (by omega), byteAt_of_lt (by omega), hslice, ← join16]
  rfl

theorem u32At_of_le {data : Bytes} {pos : ℕ} (h : pos + 4 ≤ data.length) :
    u32At data pos = .ok (UInt32.ofNat (value (slice data pos 4))) := by
  have hslice : slice data pos 4 =
      [data[pos], data[pos + 1], data[pos + 2], data[pos + 3]] := by
    rw [slice_succ (by omega), slice_succ (by omega), slice_succ (by omega), slice_succ (by omega)]
    rfl
  rw [u32At, byteAt_of_lt (by omega), byteAt_of_lt (by omega), byteAt_of_lt (by omega),
    byteAt_of_lt (by omega), hslice, ← join32]
  rfl

theorem getLsbD_not_three : ∀ i < 64, (~~~(3 : UInt64)).toBitVec.getLsbD i = decide (2 ≤ i) := by
  decide

/-- Clearing the two low bits. -/
theorem and_not_three (v : UInt64) : v &&& ~~~(3 : UInt64) = (v >>> 2) <<< 2 := by
  have hshift : ((v >>> 2) <<< 2).toBitVec = (v.toBitVec >>> 2) <<< 2 := rfl
  refine UInt64.toBitVec_inj.mp (BitVec.eq_of_getLsbD_eq fun i hi => ?_)
  rw [UInt64.toBitVec_and, BitVec.getLsbD_and, getLsbD_not_three i hi, hshift,
    BitVec.getLsbD_shiftLeft, BitVec.getLsbD_ushiftRight, decide_eq_true hi, Bool.true_and]
  by_cases h : 2 ≤ i
  · rw [decide_eq_true h, decide_eq_false (Nat.not_lt.mpr h), Nat.add_sub_cancel' h, Bool.and_true,
      Bool.not_false, Bool.true_and]
  · rw [decide_eq_false h, decide_eq_true (Nat.not_le.mp h), Bool.and_false, Bool.not_true,
      Bool.false_and]

theorem toNat_paddedLength (attrLen : UInt16) :
    (paddedLength attrLen).toNat = Tlv.padded attrLen.toNat := by
  have hlt := attrLen.toNat_lt
  rw [paddedLength, and_not_three, Tlv.padded]
  simp [Nat.shiftLeft_eq, Nat.shiftRight_eq_div_pow]
  omega

/-! ### Attributes that tell an address -/

/-- The attribute tells an IPv4 address: it is an `XOR-MAPPED-ADDRESS` or a `MAPPED-ADDRESS` of that
family, and long enough. -/
def IsMapped (a : Tlv.Attribute) : Prop :=
  (a.type = 0x0020 ∨ a.type = 0x0001) ∧ 8 ≤ a.value.length ∧ a.value[1]? = some 0x01

instance (a : Tlv.Attribute) : Decidable (IsMapped a) :=
  inferInstanceAs (Decidable (_ ∧ _ ∧ _))

/-- The port in the attribute. -/
def portOf (a : Tlv.Attribute) : UInt16 :=
  let port := UInt16.ofNat (value (slice a.value 2 2))
  if a.type = 0x0020 then port ^^^ 0x2112 else port

/-- The address in the attribute. -/
def addressOf (a : Tlv.Attribute) : UInt32 :=
  let address := UInt32.ofNat (value (slice a.value 4 4))
  if a.type = 0x0020 then address ^^^ 0x2112a442 else address

/-- The four numbers of an address, with dots. -/
def dotted (address : UInt32) : Bytes :=
  [46].intercalate ((bytes 4 address.toNat).map fun b => decimal b.toNat)

section Walk

variable (inetNtop : UInt32 → Option Bytes) (isNumericHost : Bytes → Bool) (localPort : UInt16)

/-- What the loop returns at an attribute. -/
def mappedOf (a : Tlv.Attribute) : Option (Option SocketEndpoint) :=
  if IsMapped a then
    (inetNtop (addressOf a)).map fun text =>
      makeEndpoint isNumericHost text (if portOf a = 0 then localPort else portOf a)
  else none

variable {inetNtop isNumericHost localPort} {response : Bytes} {stop pos : ℕ}

theorem slice_slice {data : Bytes} {i j m n : ℕ} (h : j + n ≤ m) :
    slice (slice data i m) j n = slice data (i + j) n := by
  have hmin : min n (m - j) = n := by omega
  rw [slice, slice, slice, List.drop_take, List.take_take, List.drop_drop, hmin]

/-- What is read at offsets from the position is in the attribute's value. -/
theorem mappedEndpoint_eq {attrType attrLen : UInt16} (h : pos + attrLen.toNat ≤ response.length) :
    mappedEndpoint inetNtop isNumericHost response localPort attrType attrLen pos =
      .ok (mappedOf inetNtop isNumericHost localPort
        { type := attrType, value := slice response pos attrLen.toNat }) := by
  have hlength : (slice response pos attrLen.toNat).length = attrLen.toNat := length_slice h
  have hge : attrLen ≥ 8 ↔ 8 ≤ attrLen.toNat := UInt16.le_iff_toNat_le
  rw [mappedEndpoint, mappedOf]
  by_cases htype : (attrType = 0x0020 ∨ attrType = 0x0001) ∧ attrLen ≥ 8
  · have h8 := hge.mp htype.2
    have hfamily : (slice response pos attrLen.toNat)[1]? = some response[pos + 1] := by
      rw [slice, List.getElem?_take_of_lt (by omega), List.getElem?_drop,
        List.getElem?_eq_getElem (by omega)]
    rw [if_pos htype, byteAt_of_lt (by omega), ok_bind]
    by_cases hone : response[pos + 1] = 0x01
    · have hmapped : IsMapped { type := attrType, value := slice response pos attrLen.toNat } := by
        refine ⟨htype.1, ?_, ?_⟩
        · rw [hlength]
          exact h8
        · rw [hfamily, hone]
      rw [if_pos hone, if_pos hmapped, u16At_of_le (by omega), u32At_of_le (by omega), ok_bind,
        ok_bind, addressOf, portOf, slice_slice (by omega), slice_slice (by omega)]
      rfl
    · rw [if_neg hone, if_neg]
      · rfl
      · rintro ⟨-, -, heq⟩
        exact hone (Option.some.inj (hfamily.symm.trans heq))
  · rw [if_neg htype, if_neg]
    · rfl
    · rintro ⟨htype', h8, -⟩
      rw [hlength] at h8
      exact htype ⟨htype', hge.mpr h8⟩

theorem toNat_lengthAt (h : pos + 4 ≤ response.length) :
    (UInt16.ofNat (value (slice response (pos + 2) 2))).toNat = Tlv.lengthAt response pos :=
  UInt16.toNat_ofNat'.trans (Nat.mod_eq_of_lt (value_slice_lt (by omega)))

/-- One turn of the loop, at an attribute that does not overrun the end. -/
theorem attributeLoop_turn (h : stop ≤ response.length) (hpos : pos + 4 ≤ stop)
    (hover : ¬ stop < pos + 4 + Tlv.lengthAt response pos) :
    attributeLoop inetNtop isNumericHost response localPort stop pos =
      match mappedOf inetNtop isNumericHost localPort (Tlv.attributeAt response pos) with
      | some result => .ok (some result)
      | none => attributeLoop inetNtop isNumericHost response localPort stop
          (pos + 4 + Tlv.padded (Tlv.lengthAt response pos)) := by
  have hlength : (UInt16.ofNat (value (slice response (pos + 2) 2))).toNat =
      Tlv.lengthAt response pos := toNat_lengthAt (by omega)
  rw [attributeLoop, if_pos hpos, u16At_of_le (by omega), u16At_of_le (by omega), ok_bind, ok_bind,
    hlength, if_neg hover, mappedEndpoint_eq (by omega), hlength, ok_bind, toNat_paddedLength,
    hlength]
  rfl

/-- **The loop is the walk over attributes**, and none of its reads is outside, wherever it is told
to stop within the buffer. -/
theorem attributeLoop_eq (h : stop ≤ response.length) :
    attributeLoop inetNtop isNumericHost response localPort stop pos =
      .ok (Tlv.walk (mappedOf inetNtop isNumericHost localPort) response stop pos) := by
  induction pos using Tlv.walk.induct (mappedOf inetNtop isNumericHost localPort) response stop with
  | case1 pos hpos hover =>
    rw [attributeLoop, Tlv.walk, if_pos hpos, if_pos hpos, if_pos hover, u16At_of_le (by omega),
      u16At_of_le (by omega), ok_bind, ok_bind, toNat_lengthAt (by omega), if_pos hover]
    rfl
  | case2 pos hpos hover result hresult =>
    rw [attributeLoop_turn h hpos hover, Tlv.walk, if_pos hpos, if_neg hover, hresult]
  | case3 pos hpos hover hnone ih =>
    rw [attributeLoop_turn h hpos hover, Tlv.walk, if_pos hpos, if_neg hover, hnone]
    exact ih
  | case4 pos hpos =>
    rw [attributeLoop, Tlv.walk, if_neg hpos, if_neg hpos]
    rfl

end Walk

/-! ### Answers -/

/-- What the documentation says of `InetNtopA` and `getaddrinfo`: the text of an address is dotted,
and a dotted text is a numeric host. -/
structure IsInet (inetNtop : UInt32 → Option Bytes) (isNumericHost : Bytes → Bool) : Prop where
  ntop : ∀ address, inetNtop address = some (dotted address)
  numeric : ∀ address, isNumericHost (dotted address) = true

/-- The answer to a request: success, the length of the attributes, a cookie, the transaction id
and the attributes. It has any attributes that fit into the 512 bytes that are received, in any
order. -/
structure StunAnswer where
  cookie : Bytes
  attributes : List Tlv.Attribute
  length_cookie : cookie.length = 4
  size : 20 + (Tlv.encode attributes).length ≤ 512

/-- The twenty bytes in front of the attributes. -/
def StunAnswer.header (answer : StunAnswer) (request : Bytes) : Bytes :=
  [0x01, 0x01] ++ (bytes 2 (Tlv.encode answer.attributes).length ++
    (answer.cookie ++ request.drop 8))

def StunAnswer.datagram (answer : StunAnswer) (request : Bytes) : Bytes :=
  answer.header request ++ Tlv.encode answer.attributes

/-- The endpoint that an attribute tells. -/
def endpointOf (localPort : UInt16) (a : Tlv.Attribute) : SocketEndpoint where
  address := dotted (addressOf a)
  port := if portOf a = 0 then localPort else portOf a

section Answer

variable {inetNtop : UInt32 → Option Bytes} {isNumericHost : Bytes → Bool} {localPort : UInt16}
  {request rest : Bytes} (answer : StunAnswer)

theorem StunAnswer.length_header (hrequest : request.length = 20) :
    (answer.header request).length = 20 := by
  simp only [StunAnswer.header, List.length_append, length_bytes, answer.length_cookie,
    List.length_drop, hrequest, List.length_cons, List.length_nil]

/-- The loop is entered at the first attribute and ends behind the last. -/
theorem parseStunResponse_datagram (hrequest : request.length = 20)
    (hrest : (answer.datagram request ++ rest).length = 512) :
    parseStunResponse inetNtop isNumericHost (answer.datagram request ++ rest) localPort request
        (answer.datagram request).length =
      .ok (answer.attributes.findSome? (mappedOf inetNtop isNumericHost localPort)) := by
  have hsize := answer.size
  have hheader := answer.length_header hrequest
  have hreceived : (answer.datagram request).length =
      20 + (Tlv.encode answer.attributes).length := by
    rw [StunAnswer.datagram, List.length_append, hheader]
  have hdrop : (request.drop 8).length = 12 := by rw [List.length_drop, hrequest]
  have hid : slice (answer.datagram request ++ rest) 8 (request.drop 8).length =
      request.drop 8 := by
    rw [StunAnswer.datagram, StunAnswer.header, ← List.append_assoc, ← List.append_assoc,
      List.append_assoc, List.append_assoc]
    refine slice_of_append ?_ rfl
    simp only [List.length_append, length_bytes, answer.length_cookie, List.length_cons,
      List.length_nil]
  have hlength : slice (answer.datagram request ++ rest) 2 2 =
      bytes 2 (Tlv.encode answer.attributes).length := by
    rw [StunAnswer.datagram, StunAnswer.header, List.append_assoc, List.append_assoc,
      List.append_assoc]
    exact slice_of_append rfl (length_bytes 2 _)
  have h0 : byteAt (answer.datagram request ++ rest) 0 = .ok 0x01 := rfl
  have h1 : byteAt (answer.datagram request ++ rest) 1 = .ok 0x01 := rfl
  have hsame : equalAt (answer.datagram request ++ rest) 8 (request.drop 8) = .ok true := by
    rw [equalAt_of_le _ (by omega), hid, decide_eq_true rfl]
  have hlt : (Tlv.encode answer.attributes).length < 2 ^ 16 := by omega
  have hstop : min (answer.datagram request ++ rest).length
      (20 + (UInt16.ofNat (Tlv.encode answer.attributes).length).toNat) =
      20 + (Tlv.encode answer.attributes).length := by
    rw [hrest, UInt16.toNat_ofNat', Nat.mod_eq_of_lt hlt, Nat.min_eq_right hsize]
  have hwalk := @Tlv.walk_encode _ (mappedOf inetNtop isNumericHost localPort)
    (20 + (Tlv.encode answer.attributes).length) answer.attributes (answer.header request) rest
    (by rw [hheader]) hlt
  rw [hheader, ← List.append_assoc, ← StunAnswer.datagram] at hwalk
  rw [parseStunResponse, if_neg (by omega), h0, h1, hsame, u16At_of_le (by omega), hlength,
    value_bytes_of_lt hlt]
  simp only [ok_bind, hstop]
  rw [← hwalk]
  exact attributeLoop_eq (by omega)

/-- Where an address has a text, an attribute tells an endpoint. -/
theorem mappedOf_eq (h : IsInet inetNtop isNumericHost) :
    mappedOf inetNtop isNumericHost localPort =
      Option.map (fun a => some (endpointOf localPort a)) ∘ Option.guard IsMapped := by
  funext a
  rw [mappedOf, Function.comp_apply, Option.guard]
  by_cases ha : IsMapped a
  · rw [if_pos ha, if_pos (decide_eq_true ha), h.ntop, Option.map_some, Option.map_some,
      makeEndpoint, if_pos (h.numeric _), endpointOf]
  · rw [if_neg ha, if_neg (by simpa using ha), Option.map_none]

/-- **The answer of a STUN server** is read: the endpoint is that of the first attribute that tells
one, whatever stands before and behind it, if the system's texts of addresses are as documented. And
whatever the 512 bytes are, and whatever length they announce, the loop ends without a read outside
of them. -/
theorem stun_answer_read (localPort : UInt16) :
    (IsInet inetNtop isNumericHost → ∀ (answer : StunAnswer) (request rest : Bytes),
      request.length = 20 → (answer.datagram request ++ rest).length = 512 →
        parseStunResponse inetNtop isNumericHost (answer.datagram request ++ rest) localPort request
            (answer.datagram request).length =
          .ok ((answer.attributes.find? fun a => IsMapped a).map fun a =>
            some (endpointOf localPort a))) ∧
    ∀ (response : Bytes) (length : UInt16), response.length = 512 →
      ∃ result, attributeLoop inetNtop isNumericHost response localPort
        (min response.length (20 + length.toNat)) 20 = .ok result := by
  constructor
  · intro hinet answer request rest hrequest hrest
    rw [parseStunResponse_datagram answer hrequest hrest, mappedOf_eq hinet, ← List.map_findSome?,
      List.findSome?_guard]
  · intro response length hlength
    exact ⟨_, attributeLoop_eq (Nat.min_le_left _ _)⟩

/-! ### A reflexive address behind another attribute -/

/-- Behind a software attribute, an XOR-mapped address. -/
def reflexiveAttributes : List Tlv.Attribute :=
  [⟨0x8022, [1, 2, 3]⟩, ⟨0x0020, [0, 1, 0x32, 0x9a, 0xea, 0x12, 0xd5, 0x47]⟩]

theorem length_reflexive : (Tlv.encode reflexiveAttributes).length = 20 := by decide

theorem size_reflexive : 20 + (Tlv.encode reflexiveAttributes).length ≤ 512 := by
  rw [length_reflexive]
  decide

def reflexive : StunAnswer where
  cookie := [0x21, 0x12, 0xa4, 0x42]
  attributes := reflexiveAttributes
  length_cookie := rfl
  size := size_reflexive

def someRequest : Bytes :=
  [0, 1, 0, 0, 0x21, 0x12, 0xa4, 0x42, 1, 2, 3, 4, 5, 6, 7, 8, 9, 10, 11, 12]

theorem length_someRequest : someRequest.length = 20 := rfl

theorem stun_answer_read_reflexive :
    parseStunResponse (fun address => some (dotted address)) (fun _ => true)
        (reflexive.datagram someRequest ++ List.replicate 472 0) 40000 someRequest
        (reflexive.datagram someRequest).length =
      .ok (some (some { address := utf8 "203.0.113.5", port := 5000 })) := by
  have hrest : (reflexive.datagram someRequest ++ List.replicate 472 0).length = 512 := by
    rw [List.length_append, List.length_replicate, StunAnswer.datagram, List.length_append,
      reflexive.length_header length_someRequest]
    exact congrArg (20 + · + 472) length_reflexive
  have hfirst : ((reflexive.attributes.find? fun a => IsMapped a).map fun a =>
      some (endpointOf 40000 a)) =
        some (some { address := utf8 "203.0.113.5", port := 5000 }) := by
    decide +kernel
  have hread := (@stun_answer_read (fun address => some (dotted address)) (fun _ => true) 40000).1
    ⟨fun _ => rfl, fun _ => rfl⟩ reflexive someRequest (List.replicate 472 0) length_someRequest
    hrest
  rw [hread, hfirst]

end Answer

end Net

end TarkovVoice

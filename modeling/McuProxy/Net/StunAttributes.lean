/-
# The address in a binding response

A binding response carries a list of attributes, each with a header of four bytes
and a value of any length that is a multiple of four. The mapped address is one of
them. Attributes and responses carry their own well-formedness here, so that every
value is a message a server may send.

`parseStunResponse` finds the address when it comes first. Behind other attributes it
is found by accident at best: the words at every eighth byte have to look like headers
of eight bytes each, and the one that looks like that of an address has to be followed
by the right port and the right number.
-/

import McuProxy.Net.RtcpGrammar
import McuProxy.Net.StunResponse

namespace McuProxy.Net

open McuProxy.Math RtcpPacket

/-- A number of 16 bits in network byte order. -/
def halfBytes (n : Nat) : List UInt8 := [UInt8.ofNat (n / 256), UInt8.ofNat n]

theorem u16at_halfBytes {n : Nat} (hn : n < 65536) (rest : List UInt8) :
    (u16at (halfBytes n ++ rest)).toNat = n := by
  have hjoin := toNat_join16 (UInt8.ofNat (n / 256)) (UInt8.ofNat n)
  rw [UInt8.toNat_ofNat', UInt8.toNat_ofNat'] at hjoin
  refine hjoin.trans ?_
  omega

theorem u16at_append {data : List UInt8} {i : Nat} (hlength : i + 2 ≤ data.length)
    (rest : List UInt8) : u16at ((data ++ rest).drop i) = u16at (data.drop i) := by
  simp only [u16at, byteAt_drop, Nat.add_zero]
  rw [byteAt_append (by omega), byteAt_append (by omega)]

/-- A well-formed attribute. -/
structure StunAttribute where
  type : UInt16
  value : List UInt8
  aligned : value.length % 4 = 0
  fits : value.length < 65536

namespace StunAttribute

def bytes (attr : StunAttribute) : List UInt8 :=
  halfBytes attr.type.toNat ++ (halfBytes attr.value.length ++ attr.value)

/-- A MAPPED-ADDRESS of the family IPv4. -/
def isMapped (attr : StunAttribute) : Bool :=
  attr.type = 1 && attr.value.length = 8 && byteAt attr.value 1 = 1

/-- The port and the address in a MAPPED-ADDRESS. -/
def address (attr : StunAttribute) : SockAddr :=
  ⟨afInet, u16at (attr.value.drop 2), u32at (attr.value.drop 4)⟩

theorem length_bytes (attr : StunAttribute) :
    attr.bytes.length = 4 + attr.value.length := by
  simp only [bytes, halfBytes, List.length_append, List.length_cons, List.length_nil]
  omega

end StunAttribute

/-- A well-formed binding success response with a mapped address. -/
structure BindingResponse where
  transId : List UInt8
  attributes : List StunAttribute
  identified : transId.length = 12
  fits : (attributes.flatMap StunAttribute.bytes).length < 65536
  found : (attributes.find? StunAttribute.isMapped).isSome

namespace BindingResponse

/-- The bytes of all attributes. -/
def body (response : BindingResponse) : List UInt8 :=
  response.attributes.flatMap StunAttribute.bytes

def bytes (response : BindingResponse) : List UInt8 :=
  [1, 1] ++ (halfBytes response.body.length ++ ([0x21, 0x12, 0xA4, 0x42] ++
    (response.transId ++ response.body)))

/-- The first MAPPED-ADDRESS. -/
def mapped (response : BindingResponse) : StunAttribute :=
  (response.attributes.find? StunAttribute.isMapped).get response.found

theorem body_aligned (response : BindingResponse) : response.body.length % 4 = 0 := by
  rw [body]
  generalize response.attributes = attributes
  induction attributes with
  | nil => rfl
  | cons attr attributes ih =>
      have haligned := attr.aligned
      rw [List.flatMap_cons, List.length_append, StunAttribute.length_bytes]
      omega

theorem length_bytes (response : BindingResponse) :
    response.bytes.length = 20 + response.body.length := by
  have hid := response.identified
  simp only [bytes, halfBytes, List.length_append, List.length_cons, List.length_nil]
  omega

/-- The length field of a response is the size of its attributes. -/
theorem u16at_bytes (response : BindingResponse) (rest : List UInt8) :
    (u16at ((response.bytes ++ rest).drop 2)).toNat = response.body.length := by
  rw [bytes]
  exact u16at_halfBytes response.fits _

/-- The attributes start at byte 20. -/
theorem drop_bytes (response : BindingResponse) (rest : List UInt8) :
    (response.bytes ++ rest).drop 20 = response.body ++ rest := by
  have hid := response.identified
  rw [bytes, List.drop_append_of_le_length (by
    simp only [halfBytes, List.length_append, List.length_cons, List.length_nil]
    omega)]
  congr 1
  exact List.drop_left' (by rw [hid])

theorem method_bytes (response : BindingResponse) (rest : List UInt8) :
    u16at (response.bytes ++ rest) = 0x0101 := by
  change u16at [1, 1] = 0x0101
  decide

theorem magic_bytes (response : BindingResponse) (rest : List UInt8) :
    u32at ((response.bytes ++ rest).drop 4) = 0x2112A442 := by
  change u32at [0x21, 0x12, 0xA4, 0x42] = 0x2112A442
  decide

theorem mapped_header (response : BindingResponse) :
    response.mapped.type = 1 ∧ response.mapped.value.length = 8 := by
  have hmapped : response.mapped.isMapped = true := List.find?_some (Option.some_get _).symm
  simp only [StunAttribute.isMapped, Bool.and_eq_true, decide_eq_true_eq] at hmapped
  exact hmapped.1

end BindingResponse

namespace UdpTransport

/-- The first word that is not passed over is reached before the length is counted down,
is the header of a MAPPED-ADDRESS, and is followed by the port and the number of the
given address. -/
def LeadsTo (block : List UInt8) (address : SockAddr) : Prop :=
  ¬ CountedDown block ∧ MappedWord block ∧ 32 + 8 * passedOver block ≤ block.length ∧
    u16at (block.drop (26 + 8 * passedOver block)) = address.sinPort ∧
    u32at (block.drop (28 + 8 * passedOver block)) = address.sinAddr

/-- An answer shows. -/
theorem answered_ne {udp : UdpTransport} (hudp : udp.Outstanding) (address : SockAddr) :
    udp ≠ udp.answered address := by
  intro hsame
  have hflag := congrArg mStunResponsed hsame
  rw [hudp.2] at hflag
  exact Bool.false_ne_true hflag

/-- A run that leaves the transport as it was has found no address. -/
theorem unanswered {udp : UdpTransport} (hudp : udp.Outstanding) (address : SockAddr)
    (data' : List UInt8) :
    ¬ ∃ left, some (some udp, data') = some (some (udp.answered address), left) := by
  rintro ⟨left, hresult⟩
  exact answered_ne hudp address (Option.some.inj (Prod.mk.inj (Option.some.inj hresult)).1)

/-- With fuel for every byte of the block, the program ends with an answer exactly when
the words lead to it. -/
theorem run_answered_iff {udp : UdpTransport} (hudp : udp.Outstanding) {block : List UInt8}
    (hlength : 8 ≤ block.length) (hmethod : u16at block = 0x0101)
    (hmagic : u32at (block.drop 4) = 0x2112A442) (hfour : (u16at (block.drop 2)).toNat % 4 = 0)
    {address : SockAddr} (hfamily : address.sinFamily = afInet) :
    (∃ left, (udp.editStunResponse block.length).run block =
      some (some (udp.answered address), left)) ↔ LeadsTo block address := by
  have hpassed := passedOver_le block
  rw [LeadsTo]
  by_cases hcounted : CountedDown block
  · obtain ⟨data', hrun⟩ := run_editAttributes_countedDown hcounted
      (show _ ≤ block.length by
        have hin := hcounted.2
        omega)
    rw [run_editStunResponse_walk hudp hlength hmethod hmagic, hrun]
    exact iff_of_false (unanswered hudp address data') fun hleads => hleads.1 hcounted
  · obtain ⟨data', hrun⟩ := run_editStunResponse_reached hudp hlength hmethod hmagic hfour hcounted
      (show passedOver block < block.length by omega)
    rw [hrun]
    by_cases hinside : 24 + 8 * passedOver block ≤ block.length
    · rw [if_pos hinside]
      by_cases hmapped : MappedWord block
      · rw [if_pos hmapped, reflectiveAddress]
        by_cases hbehind : 32 + 8 * passedOver block ≤ block.length
        · rw [if_pos (show 24 + 8 * passedOver block + 8 ≤ block.length by omega),
            show 24 + 8 * passedOver block + 2 = 26 + 8 * passedOver block by omega,
            show 24 + 8 * passedOver block + 4 = 28 + 8 * passedOver block by omega]
          constructor
          · rintro ⟨left, hresult⟩
            have haddr : (⟨afInet, _, _⟩ : SockAddr) = address := congrArg mReflAddr
              (Option.some.inj (Prod.mk.inj (Option.some.inj hresult)).1)
            exact ⟨hcounted, hmapped, hbehind, congrArg SockAddr.sinPort haddr,
              congrArg SockAddr.sinAddr haddr⟩
          · rintro ⟨-, -, -, hport, haddr⟩
            refine ⟨data', ?_⟩
            rw [hport, haddr, ← hfamily]
            rfl
        · rw [if_neg (show ¬ 24 + 8 * passedOver block + 8 ≤ block.length by omega)]
          exact iff_of_false (by simp) fun hleads => hbehind hleads.2.2.1
      · rw [if_neg hmapped]
        exact iff_of_false (unanswered hudp address data') fun hleads => hmapped hleads.2.1
    · rw [if_neg hinside]
      refine iff_of_false (by simp) fun hleads => ?_
      have hbehind := hleads.2.2.1
      omega

section First

variable {response : BindingResponse} {first : StunAttribute} {others : List StunAttribute}

/-- What the walk finds at its start. -/
theorem drop_data_of_first (hfirst : response.attributes = first :: others) (junk : List UInt8) :
    ∃ rest, ∀ i, (received junk response.bytes).data.drop (20 + i) =
      (first.bytes ++ (others.flatMap StunAttribute.bytes ++ rest)).drop i := by
  have hdata : (received junk response.bytes).data =
      response.bytes ++ junk.drop response.bytes.length := rfl
  refine ⟨junk.drop response.bytes.length, fun i => ?_⟩
  rw [← List.drop_drop, hdata, response.drop_bytes, BindingResponse.body, hfirst,
    List.flatMap_cons, List.append_assoc]

/-- The header of the first attribute is the first word, and its value lies behind it. -/
theorem words_of_first (hfirst : response.attributes = first :: others) (junk : List UInt8) :
    ∃ rest, u16at ((received junk response.bytes).data.drop 20) = first.type ∧
      (u16at ((received junk response.bytes).data.drop 22)).toNat = first.value.length ∧
      ∀ i, (received junk response.bytes).data.drop (24 + i) =
        (first.value ++ (others.flatMap StunAttribute.bytes ++ rest)).drop i := by
  obtain ⟨rest, hword⟩ := drop_data_of_first hfirst junk
  refine ⟨rest, ?_, ?_, fun i => ?_⟩
  · rw [hword 0]
    exact UInt16.toNat_inj.mp (u16at_halfBytes first.type.toNat_lt _)
  · rw [hword 2]
    exact u16at_halfBytes first.fits _
  · rw [show 24 + i = 20 + (i + 4) by omega, hword]
    rfl

/-- An attribute of another kind that comes first is passed over only if its value has eight
bytes, and the walk goes on only if the last two of them are the number eight. -/
theorem preceding_of_leadsTo (hfirst : response.attributes = first :: others)
    (hother : first.type ≠ 1) {junk : List UInt8} {address : SockAddr}
    (hleads : LeadsTo (received junk response.bytes).data address) :
    first.value.length = 8 ∧ u16at (first.value.drop 6) = 8 := by
  obtain ⟨rest, htype, hlen, hvalue⟩ := words_of_first hfirst junk
  obtain ⟨-, ⟨hmappedLen, hmappedType⟩, -⟩ := hleads
  have hpassed := (passedOver_spec (received junk response.bytes).data).1
  generalize passedOver (received junk response.bytes).data = k at *
  have hzero : 0 < k := by
    rcases Nat.eq_zero_or_pos k with rfl | hpos
    · exact absurd (htype.symm.trans hmappedType) hother
    · exact hpos
  have height : first.value.length = 8 := by
    rw [← hlen, (hpassed 0 hzero).2.1]
    rfl
  have hsecond : u16at ((received junk response.bytes).data.drop 30) = 8 := by
    rcases Nat.lt_or_ge 1 k with hmore | hlast
    · exact (hpassed 1 hmore).2.1
    · obtain rfl : k = 1 := by omega
      exact hmappedLen
  refine ⟨height, ?_⟩
  rw [hvalue 6, u16at_append (by omega)] at hsecond
  exact hsecond

/-- When the words that are passed over end where the address lies, they lead to it. -/
theorem leadsTo_of_placed {junk rest : List UInt8} {k : Nat}
    (hpassed : passedOver (received junk response.bytes).data = k)
    (hplaced : ∀ i, (received junk response.bytes).data.drop (20 + 8 * k + i) =
      (response.mapped.bytes ++ rest).drop i)
    (hlong : 8 * k < response.body.length) :
    LeadsTo (received junk response.bytes).data response.mapped.address := by
  obtain ⟨htype, hvalue⟩ := response.mapped_header
  have hcount : (u16at ((received junk response.bytes).data.drop 2)).toNat = response.body.length :=
    response.u16at_bytes _
  have hblock : 32 + 8 * k ≤ (received junk response.bytes).data.length := by
    have hlength := congrArg List.length (hplaced 0)
    rw [List.length_drop, List.drop_zero, List.length_append, StunAttribute.length_bytes] at hlength
    omega
  rw [LeadsTo, CountedDown, MappedWord, hpassed, hcount]
  refine ⟨by omega, ⟨?_, ?_⟩, hblock, ?_, ?_⟩
  · rw [show 22 + 8 * k = 20 + 8 * k + 2 by omega, hplaced]
    exact UInt16.toNat_inj.mp ((u16at_halfBytes response.mapped.fits _).trans hvalue)
  · rw [← Nat.add_zero (20 + 8 * k), hplaced, ← htype]
    exact UInt16.toNat_inj.mp (u16at_halfBytes response.mapped.type.toNat_lt _)
  · rw [show 26 + 8 * k = 20 + 8 * k + 6 by omega, hplaced]
    change u16at ((response.mapped.value ++ _).drop 2) = _
    exact u16at_append (by omega) _
  · rw [show 28 + 8 * k = 20 + 8 * k + 8 by omega, hplaced]
    change u32at ((response.mapped.value ++ _).drop 4) = _
    exact u32at_append (by omega) _

/-- An address that comes first is found. -/
theorem leadsTo_of_first (hfirst : response.attributes = response.mapped :: others)
    (junk : List UInt8) :
    LeadsTo (received junk response.bytes).data response.mapped.address := by
  obtain ⟨rest, hword⟩ := drop_data_of_first hfirst junk
  obtain ⟨-, hattr, -, -⟩ := words_of_first hfirst junk
  have hpassed : passedOver (received junk response.bytes).data = 0 :=
    (Nat.find_eq_zero _).mpr fun hover => hover.2.2 (hattr.trans response.mapped_header.1)
  refine leadsTo_of_placed hpassed hword ?_
  rw [BindingResponse.body, hfirst, List.flatMap_cons, List.length_append,
    StunAttribute.length_bytes]
  omega

/-- Behind two attributes of eight bytes the address is found if what the walk takes for
headers in their values are headers to be passed over. -/
theorem leadsTo_behind_two {second : StunAttribute}
    (hfirst : response.attributes = first :: second :: response.mapped :: others)
    (hlengths : first.value.length = 8 ∧ second.value.length = 8) (hother : first.type ≠ 1)
    (hfirstWord : u16at (first.value.drop 6) = 8 ∧ u16at (first.value.drop 4) ≠ 1)
    (hsecondWord : u16at (second.value.drop 2) = 8 ∧ u16at second.value ≠ 1) (junk : List UInt8) :
    LeadsTo (received junk response.bytes).data response.mapped.address := by
  obtain ⟨rest, hattr, hlen, hvalues⟩ := words_of_first hfirst junk
  have hlong : 36 ≤ response.body.length := by
    simp only [BindingResponse.body, hfirst, List.flatMap_cons, List.length_append,
      StunAttribute.length_bytes]
    have hvalue := response.mapped_header.2
    omega
  have hseconds : ∀ i, (received junk response.bytes).data.drop (36 + i) =
      (second.value ++
        ((response.mapped :: others).flatMap StunAttribute.bytes ++ rest)).drop i := by
    intro i
    have hfront : (first.value ++ (halfBytes second.type.toNat ++
        halfBytes second.value.length)).length = 12 := by
      simp [halfBytes, hlengths.1]
    have hskipped : ∀ behind : List UInt8, (first.value ++ (halfBytes second.type.toNat ++
        halfBytes second.value.length) ++ behind).drop 12 = behind :=
      fun behind => List.drop_left' hfront
    rw [show 36 + i = 24 + (12 + i) by omega, hvalues, ← List.drop_drop, List.flatMap_cons,
      StunAttribute.bytes]
    refine congrArg (List.drop i) ((congrArg (List.drop 12) ?_).trans (hskipped _))
    simp only [List.append_assoc]
  have hthirds : ∀ i, (received junk response.bytes).data.drop (44 + i) =
      (response.mapped.bytes ++ (others.flatMap StunAttribute.bytes ++ rest)).drop i := by
    intro i
    rw [show 44 + i = 36 + (8 + i) by omega, hseconds, ← List.drop_drop, List.drop_left' hlengths.2,
      List.flatMap_cons, List.append_assoc]
  have hword : u16at ((received junk response.bytes).data.drop 44) = 1 := by
    rw [hthirds 0, ← response.mapped_header.1]
    exact UInt16.toNat_inj.mp (u16at_halfBytes response.mapped.type.toNat_lt _)
  have hblock : 56 ≤ (received junk response.bytes).data.length := by
    rw [received_data, List.length_append, response.length_bytes]
    omega
  have hpassed : passedOver (received junk response.bytes).data = 3 := by
    refine (Nat.find_eq_iff _).mpr ⟨fun hpassed => hpassed.2.2 hword, fun k hk => not_not.mpr ?_⟩
    refine ⟨by omega, ?_⟩
    obtain rfl | rfl | rfl : k = 0 ∨ k = 1 ∨ k = 2 := by omega
    · exact ⟨UInt16.toNat_inj.mp (hlen.trans hlengths.1), hattr ▸ hother⟩
    · rw [show 22 + 8 * 1 = 24 + 6 from rfl, show 20 + 8 * 1 = 24 + 4 from rfl, hvalues, hvalues,
        u16at_append (by omega), u16at_append (by omega)]
      exact hfirstWord
    · rw [show 22 + 8 * 2 = 36 + 2 from rfl, show 20 + 8 * 2 = 36 + 0 from rfl, hseconds, hseconds,
        u16at_append (by omega), u16at_append (by omega)]
      exact hsecondWord
  exact leadsTo_of_placed hpassed hthirds (by omega)

end First

/-- The first mapped address of a response is found exactly when the words at every
eighth byte lead to it. -/
theorem mapped_found_iff {udp : UdpTransport} (hudp : udp.Outstanding)
    (response : BindingResponse) (junk : List UInt8) :
    (∃ buffer, udp.parseStunResponse (received junk response.bytes) =
      some (udp.answered response.mapped.address, buffer)) ↔
        LeadsTo (received junk response.bytes).data response.mapped.address := by
  have hbody := response.body_aligned
  have hdata : (received junk response.bytes).data =
      response.bytes ++ junk.drop response.bytes.length := rfl
  have hlength : 8 ≤ (received junk response.bytes).data.length := by
    rw [hdata, List.length_append, response.length_bytes]
    omega
  have hfour : (u16at ((received junk response.bytes).data.drop 2)).toNat % 4 = 0 := by
    rw [hdata, response.u16at_bytes]
    exact hbody
  rw [← run_answered_iff hudp hlength (response.method_bytes _) (response.magic_bytes _) hfour rfl,
    run_editStunResponse udp rfl hlength]
  constructor
  · rintro ⟨buffer, hparse⟩
    exact ⟨buffer.data, by rw [hparse]; rfl⟩
  · rintro ⟨left, hrun⟩
    obtain ⟨⟨after, buffer⟩, hparse, hsame⟩ := Option.map_eq_some_iff.mp hrun
    obtain ⟨hafter, -⟩ := Prod.mk.inj hsame
    obtain rfl := Option.some.inj hafter
    exact ⟨buffer, hparse⟩

/-- The address 192.0.2.1:5004. -/
def testAddress : StunAttribute := ⟨1, [0, 1, 0x13, 0x8C, 192, 0, 2, 1], rfl, by decide⟩

/-- A response that has the address only. -/
def plainResponse : BindingResponse := ⟨List.replicate 12 0, [testAddress], rfl, by decide, rfl⟩

/-- A response that names the server, in an attribute of four bytes, before the
address. -/
def namedResponse : BindingResponse :=
  ⟨List.replicate 12 0, [⟨0x8022, [116, 101, 115, 116], rfl, by decide⟩, testAddress], rfl,
    by decide, rfl⟩

theorem mapped_found_iff_plain :
    ∃ buffer, waiting.parseStunResponse
      (received (List.replicate maxCapacity 0) plainResponse.bytes) =
        some (waiting.answered plainResponse.mapped.address, buffer) :=
  (mapped_found_iff ⟨rfl, rfl⟩ plainResponse _).mpr (leadsTo_of_first rfl _)

theorem named_response_unanswered :
    ¬ ∃ buffer, waiting.parseStunResponse
      (received (List.replicate maxCapacity 0) namedResponse.bytes) =
        some (waiting.answered namedResponse.mapped.address, buffer) := by
  rintro ⟨buffer, hparse⟩
  have hudp : _ = some (waiting.answered namedResponse.mapped.address) :=
    congrArg (Option.map Prod.fst) hparse
  exact absurd hudp (by decide +kernel)

end UdpTransport

end McuProxy.Net

/-
# The grammar of compound packets

The packets of RFC 3550 as far as the walk through a datagram depends on them: a
first byte with the version, the padding bit and a count of five bits, the type,
a length field that counts the whole packet with its padding, and the rest. A
packet carries its own well-formedness, and a compound carries the rule that only
its last packet is padded.

`parseRTCP` subtracts the padding from what is left of the datagram and only then
compares with the length field. So it refuses every padded packet of the grammar,
and it refuses a last packet that is shorter than the eight bytes it wants to see;
everything else it accepts, with a message for each sender report that has all its
blocks and for each goodbye that has all its sources.
-/

import Mathlib.Data.List.GetD
import McuProxy.Net.Rtcp

namespace McuProxy.Net

open McuProxy.Math

/-- A well-formed RTCP packet. The last byte of the padding counts it. -/
structure RtcpPacket where
  count : Fin 32
  type : UInt8
  body : List UInt8
  padding : List UInt8
  aligned : (body.length + padding.length) % 4 = 0
  fits : (body.length + padding.length) / 4 < 65536
  pad : padding ≠ [] → padding.length % 4 = 0 ∧ padding.length < 256 ∧
    padding.getLast? = some (UInt8.ofNat padding.length) ∧ 8 ≤ 4 + body.length

namespace RtcpPacket

def padded (packet : RtcpPacket) : Bool := !packet.padding.isEmpty

def length (packet : RtcpPacket) : Nat := 4 + packet.body.length + packet.padding.length

/-- The number of words of the packet, less one. -/
def lengthField (packet : RtcpPacket) : Nat := (packet.body.length + packet.padding.length) / 4

def firstByte (padded : Bool) (count : Fin 32) : UInt8 :=
  UInt8.ofNat (128 + (if padded then 32 else 0) + count)

def bytes (packet : RtcpPacket) : List UInt8 :=
  firstByte packet.padded packet.count :: packet.type :: UInt8.ofNat (packet.lengthField / 256) ::
    UInt8.ofNat packet.lengthField :: (packet.body ++ packet.padding)

/-- A sender report that has room for its sender information and all its report
blocks. -/
def WholeReport (packet : RtcpPacket) : Prop :=
  packet.type = 200 ∧ 28 + 24 * packet.count.val ≤ 4 + packet.body.length

/-- A goodbye for one source or more that has room for all of them. -/
def WholeGoodbye (packet : RtcpPacket) : Prop :=
  packet.type = 203 ∧ 1 ≤ packet.count.val ∧ 4 + 4 * packet.count.val ≤ 4 + packet.body.length

instance (packet : RtcpPacket) : Decidable packet.WholeReport := inferInstanceAs (Decidable (_ ∧ _))

instance (packet : RtcpPacket) : Decidable packet.WholeGoodbye :=
  inferInstanceAs (Decidable (_ ∧ _))

/-- The times in a sender report. -/
def timeInfo (packet : RtcpPacket) : TimeInfo where
  ntpTime := u64at ((packet.body ++ packet.padding).drop 4)
  rtpTime := u32at ((packet.body ++ packet.padding).drop 12)

/-- The messages a packet is to raise. -/
def messages (packet : RtcpPacket) : List RTPMessage :=
  if packet.WholeReport then [.rtcpTimeUpdate packet.timeInfo]
  else if packet.WholeGoodbye then [.rtcpEndOfStream]
  else []

/-- The result a packet is to get from its parser. -/
def status (packet : RtcpPacket) : Status :=
  if packet.type = 200 ∧ ¬ packet.WholeReport ∨ packet.type = 203 ∧ ¬ packet.WholeGoodbye then
    .minusOne
  else .noError

def visit (packet : RtcpPacket) : Visit := ⟨packet.type, packet.length, packet.status⟩

end RtcpPacket

/-- A well-formed compound: no packet before the last is padded. -/
structure Compound where
  packets : List RtcpPacket
  plain : ∀ packet ∈ packets.dropLast, packet.padding = []

def Compound.datagram (compound : Compound) : List UInt8 :=
  compound.packets.flatMap RtcpPacket.bytes

/-- What is asked of `parseRTCP` on a compound: it returns `OK`, every packet is
visited and gets its result, and the messages are exactly those of the packets. -/
def RTPTransport.Accepts (transport : RTPTransport) (compound : Compound) : Prop :=
  ∀ (buffer : MetaBuffer) (clock : Nat → UInt64), buffer.Carries compound.datagram →
    (transport.parseRTCP buffer clock).1 = .noError ∧
      (transport.parseRTCP buffer clock).2.1.notified =
        transport.notified ++ transport.firstNotice ++
          compound.packets.flatMap RtcpPacket.messages ∧
      (transport.parseRTCP buffer clock).2.2 = compound.packets.map RtcpPacket.visit

/-- The last packet, if there is one, is not padded and has eight bytes. -/
def Compound.EndsPlain (compound : Compound) : Prop :=
  ∀ packet ∈ compound.packets.getLast?, packet.padding = [] ∧ 8 ≤ packet.length

namespace RtcpPacket

open RTPTransport

/-- What the parsers read from the first byte. -/
theorem firstByte_fields (padded : Bool) (count : Fin 32) :
    firstByte padded count >>> 6 = 2 ∧ (firstByte padded count &&& 0x20 = 0 ↔ padded = false) ∧
      (firstByte padded count &&& 0x1f).toNat = count.val ∧
      (padded = false → (firstByte padded count &&& 0x3f).toNat = count.val) := by
  revert padded count
  decide +kernel

theorem padded_eq_false {packet : RtcpPacket} (hplain : packet.padding = []) :
    packet.padded = false := by
  simp [padded, hplain]

@[simp]
theorem length_bytes (packet : RtcpPacket) : packet.bytes.length = packet.length := by
  simp only [bytes, length, List.length_cons, List.length_append]
  omega

/-- The length field says how long the packet is. -/
theorem lengthField_bytes (packet : RtcpPacket) :
    4 * ((UInt8.ofNat (packet.lengthField / 256)).toNat * 256 +
      (UInt8.ofNat packet.lengthField).toNat) + 4 = packet.length := by
  have haligned := packet.aligned
  have hfits := packet.fits
  simp only [lengthField, length, UInt8.toNat_ofNat']
  omega

theorem byteAt_append {data : List UInt8} {i : Nat} (hlt : i < data.length) (rest : List UInt8) :
    byteAt (data ++ rest) i = byteAt data i :=
  List.getD_append _ _ _ _ hlt

theorem byteAt_append_length (data rest : List UInt8) (byte : UInt8) :
    byteAt (data ++ byte :: rest) data.length = byte := by
  simp [byteAt]

theorem u32at_append {data : List UInt8} {i : Nat} (hlength : i + 4 ≤ data.length)
    (rest : List UInt8) : u32at ((data ++ rest).drop i) = u32at (data.drop i) := by
  have hsplit : (data ++ rest).drop i = data.drop i ++ rest :=
    List.drop_append_of_le_length (by omega)
  have hdrop : (data.drop i ++ rest).drop 2 = (data.drop i).drop 2 ++ rest :=
    List.drop_append_of_le_length (by rw [List.length_drop]; omega)
  have hbyte : ∀ k < 4, byteAt (data.drop i ++ rest) k = byteAt (data.drop i) k := fun k hk =>
    byteAt_append (by rw [List.length_drop]; omega) rest
  have hbyte' : ∀ k < 2, byteAt ((data.drop i).drop 2 ++ rest) k =
    byteAt ((data.drop i).drop 2) k :=
      fun k hk => byteAt_append (by rw [List.length_drop, List.length_drop]; omega) rest
  rw [hsplit, u32at, u32at, hdrop]
  simp only [u16at, hbyte 0 (by omega), hbyte 1 (by omega), hbyte' 0 (by omega),
    hbyte' 1 (by omega)]

theorem u64at_append {data : List UInt8} {i : Nat} (hlength : i + 8 ≤ data.length)
    (rest : List UInt8) : u64at ((data ++ rest).drop i) = u64at (data.drop i) := by
  rw [u64at, u64at, List.drop_drop, List.drop_drop, u32at_append (by omega),
    u32at_append (by omega)]

/-- What `parseSR` makes of a sender report that is not padded. -/
theorem parseSR_bytes {packet : RtcpPacket} (hplain : packet.padding = [])
    (htype : packet.type = 200) (rest : List UInt8) (transport : RTPTransport) (now : UInt64) :
    (transport.parseSR (packet.bytes ++ rest) packet.length now).1 = packet.status ∧
      (transport.parseSR (packet.bytes ++ rest) packet.length now).2.notified =
        transport.notified ++ packet.messages := by
  have hcount : (byteAt (packet.bytes ++ rest) 0 &&& 0x1f).toNat = packet.count.val :=
    (firstByte_fields _ _).2.2.1
  have hlength : packet.length = 4 + packet.body.length := by
    rw [length, hplain, List.length_nil, add_zero]
  have hgoodbye : packet.type ≠ 203 := by
    rw [htype]
    decide
  by_cases hwhole : packet.WholeReport
  · have hroom :
        (7 + (byteAt (packet.bytes ++ rest) 0 &&& 0x1f).toNat * 6) * 4 ≤ packet.length := by
      have hblocks := hwhole.2
      omega
    have hbody : 24 ≤ (packet.body ++ packet.padding).length := by
      have hblocks := hwhole.2
      rw [List.length_append]
      omega
    have hntp : u64at ((packet.bytes ++ rest).drop 8) = packet.timeInfo.ntpTime :=
      u64at_append (i := 4) (by omega) rest
    have hrtp : u32at ((packet.bytes ++ rest).drop 16) = packet.timeInfo.rtpTime :=
      u32at_append (i := 12) (by omega) rest
    rw [parseSR_whole hroom, hntp, hrtp]
    constructor
    · rw [status, if_neg]
      rintro (⟨-, hnot⟩ | ⟨hbye, -⟩)
      · exact hnot hwhole
      · exact hgoodbye hbye
    · rw [messages, if_pos hwhole]
      rfl
  · have hshort :
        packet.length < (7 + (byteAt (packet.bytes ++ rest) 0 &&& 0x1f).toNat * 6) * 4 := by
      by_contra hlong
      exact hwhole ⟨htype, by omega⟩
    have hmessages : packet.messages = [] := by
      rw [messages, if_neg hwhole, if_neg fun hbye => hgoodbye hbye.1]
    simp only [parseSR, if_pos hshort, hmessages, List.append_nil, and_true]
    rw [status, if_pos (Or.inl ⟨htype, hwhole⟩)]

/-- What `parseBYE` makes of a goodbye that is not padded. -/
theorem parseBYE_bytes {packet : RtcpPacket} (hplain : packet.padding = [])
    (htype : packet.type = 203) (rest : List UInt8) (transport : RTPTransport) :
    (transport.parseBYE (packet.bytes ++ rest) packet.length).1 = packet.status ∧
      (transport.parseBYE (packet.bytes ++ rest) packet.length).2.notified =
        transport.notified ++ packet.messages := by
  have hcount : (byteAt (packet.bytes ++ rest) 0 &&& 0x3f).toNat = packet.count.val :=
    (firstByte_fields _ _).2.2.2 (padded_eq_false hplain)
  have hlength : packet.length = 4 + packet.body.length := by
    rw [length, hplain, List.length_nil, add_zero]
  have hreport : packet.type ≠ 200 := by
    rw [htype]
    decide
  by_cases hwhole : packet.WholeGoodbye
  · have hroom := hwhole.2
    have haccepts : ¬ (packet.count.val = 0 ∨ packet.length < 4 + packet.count.val * 4) := by omega
    simp only [parseBYE, hcount, if_neg haccepts]
    constructor
    · rw [status, if_neg]
      rintro (⟨hsr, -⟩ | ⟨-, hnot⟩)
      · exact hreport hsr
      · exact hnot hwhole
    · rw [messages, if_neg fun hsr => hreport hsr.1, if_pos hwhole]
      rfl
  · have hrefuses : packet.count.val = 0 ∨ packet.length < 4 + packet.count.val * 4 := by
      by_contra hroom
      exact hwhole ⟨htype, by omega⟩
    have hmessages : packet.messages = [] := by
      rw [messages, if_neg fun hsr => hreport hsr.1, if_neg hwhole]
    simp only [parseBYE, hcount, if_pos hrefuses, hmessages, List.append_nil, and_true]
    rw [status, if_pos (Or.inr ⟨htype, hwhole⟩)]

/-- What its parser makes of a packet that is not padded. -/
theorem parsePacket_bytes {packet : RtcpPacket} (hplain : packet.padding = [])
    (rest : List UInt8) (transport : RTPTransport) (now : UInt64) :
    (transport.parsePacket (packet.bytes ++ rest) packet.length now).1 = packet.status ∧
      (transport.parsePacket (packet.bytes ++ rest) packet.length now).2.notified =
        transport.notified ++ packet.messages := by
  have hbyte : byteAt (packet.bytes ++ rest) 1 = packet.type := rfl
  obtain ⟨htype, hparse⟩ | ⟨htype, hparse⟩ | ⟨hsr, hbye, hparse⟩ :=
    parsePacket_cases transport (packet.bytes ++ rest) packet.length now
  · rw [hparse]
    exact parseSR_bytes hplain (hbyte.symm.trans htype) rest transport now
  · rw [hparse]
    exact parseBYE_bytes hplain (hbyte.symm.trans htype) rest transport
  · rw [hbyte] at hsr hbye
    rw [hparse]
    constructor
    · rw [status, if_neg]
      rintro (⟨heq, -⟩ | ⟨heq, -⟩)
      · exact hsr heq
      · exact hbye heq
    · rw [messages, if_neg fun hwhole => hsr hwhole.1, if_neg fun hwhole => hbye hwhole.1,
        List.append_nil]

end RtcpPacket

namespace RTPTransport

open RtcpPacket

/-- A turn at a packet of the grammar that is not padded. -/
theorem parseRTCPLoop_cons {packet : RtcpPacket} (hplain : packet.padding = [])
    {packets : List RtcpPacket}
    (hsize : 8 ≤ ((packet :: packets).flatMap RtcpPacket.bytes).length) (rest : List UInt8)
    (fuel : Nat) (clock : Nat → UInt64) (transport : RTPTransport) :
    ∃ handled : RTPTransport, handled.notified = transport.notified ++ packet.messages ∧
      let others := parseRTCPLoop fuel (fun turn => clock (turn + 1)) handled
        (packets.flatMap RtcpPacket.bytes ++ rest) (packets.flatMap RtcpPacket.bytes).length
      parseRTCPLoop (fuel + 1) clock transport
          ((packet :: packets).flatMap RtcpPacket.bytes ++ rest)
          ((packet :: packets).flatMap RtcpPacket.bytes).length =
        (others.1, others.2.1, packet.visit :: others.2.2) := by
  have hsplit : (packet :: packets).flatMap RtcpPacket.bytes ++ rest =
      packet.bytes ++ (packets.flatMap RtcpPacket.bytes ++ rest) := by
    rw [List.flatMap_cons, List.append_assoc]
  have htotal : ((packet :: packets).flatMap RtcpPacket.bytes).length =
      packet.length + (packets.flatMap RtcpPacket.bytes).length := by
    rw [List.flatMap_cons, List.length_append, length_bytes]
  rw [hsplit, htotal]
  rw [htotal] at hsize
  generalize packets.flatMap RtcpPacket.bytes ++ rest = behind
  generalize (packets.flatMap RtcpPacket.bytes).length = size at hsize
  obtain ⟨hstatus, hnotified⟩ := packet.parsePacket_bytes hplain behind transport (clock 0)
  have hfields := RtcpPacket.firstByte_fields packet.padded packet.count
  have hturn := parseRTCPLoop_packet hfields.1
    (hfields.2.1.mpr (packet.padded_eq_false hplain)) packet.lengthField_bytes hsize
    (Nat.le_add_right _ _) packet.type (packet.body ++ packet.padding ++ behind) fuel
      clock transport
  have hdata : firstByte packet.padded packet.count :: packet.type ::
      UInt8.ofNat (packet.lengthField / 256) :: UInt8.ofNat packet.lengthField ::
        (packet.body ++ packet.padding ++ behind) = packet.bytes ++ behind := rfl
  have hbehind : (packet.bytes ++ behind).drop packet.length = behind :=
    List.drop_left' packet.length_bytes
  rw [hdata] at hturn
  simp only [hbehind, Nat.add_sub_cancel_left, hstatus] at hturn
  exact ⟨_, hnotified, hturn⟩

/-- A padded packet at the end of a datagram. Its length field counts the padding
that has just been taken off. -/
theorem parseRTCPLoop_padded {packet : RtcpPacket} (hpadded : packet.padding ≠ [])
    (rest : List UInt8) (fuel : Nat) (clock : Nat → UInt64) (transport : RTPTransport) :
    (parseRTCPLoop (fuel + 1) clock transport (packet.bytes ++ rest) packet.length).1 =
      .minusOne := by
  obtain ⟨-, hbyte, hlast, hbody⟩ := packet.pad hpadded
  have hpositive : 0 < packet.padding.length := List.length_pos_iff.mpr hpadded
  have hlength : packet.length = 4 + packet.body.length + packet.padding.length := rfl
  have hfields := firstByte_fields packet.padded packet.count
  have hbit : byteAt (packet.bytes ++ rest) 0 &&& 0x20 ≠ 0 := by
    intro hzero
    have hfalse := hfields.2.1.mp hzero
    simp [padded, hpadded] at hfalse
  -- The last byte of the packet is the last byte of its padding.
  have hcount : (byteAt (packet.bytes ++ rest) (packet.length - 1)).toNat =
      packet.padding.length := by
    obtain ⟨front, hfront⟩ := List.getLast?_eq_some_iff.mp hlast
    have hsplit : packet.bytes ++ rest =
        (packet.bytes.take 4 ++ packet.body ++ front) ++
          (UInt8.ofNat packet.padding.length :: rest) := by
      rw [bytes]
      nth_rewrite 1 [hfront]
      simp
    have hindex : packet.length - 1 =
        (packet.bytes.take 4 ++ packet.body ++ front).length := by
      have hlong := congrArg List.length hfront
      simp only [List.length_append, List.length_take, length_bytes,
        List.length_singleton] at hlong ⊢
      omega
    rw [hsplit, hindex, byteAt_append_length, UInt8.toNat_ofNat_of_lt' hbyte]
  have hstrip : stripPadding 8 (packet.bytes ++ rest) packet.length =
      some (4 + packet.body.length) := by
    simp only [stripPadding, if_pos hbit, hcount]
    rw [if_neg (by omega), hlength, Nat.add_sub_cancel]
  have hversion : ¬ byteAt (packet.bytes ++ rest) 0 >>> 6 ≠ 2 := not_not.mpr hfields.1
  have hfield : 4 * (u16at ((packet.bytes ++ rest).drop 2)).toNat + 4 = packet.length := by
    rw [← packet.lengthField_bytes, ← toNat_join16]
    rfl
  rw [parseRTCPLoop, if_neg (by omega), if_neg (by omega), if_neg hversion, hstrip]
  simp only [hfield]
  rw [if_pos (by omega)]

/-- A packet of less than eight bytes at the end of a datagram. -/
theorem parseRTCPLoop_short {size : Nat} (hpositive : 0 < size) (hshort : size < 8)
    (data : List UInt8) (fuel : Nat) (clock : Nat → UInt64) (transport : RTPTransport) :
    (parseRTCPLoop (fuel + 1) clock transport data size).1 = .minusOne := by
  rw [parseRTCPLoop, if_neg (by omega), if_pos hshort]

/-- Before the last packet there are always eight bytes left. -/
theorem eight_le_of_more {packet next : RtcpPacket} {packets : List RtcpPacket} :
    8 ≤ ((packet :: next :: packets).flatMap RtcpPacket.bytes).length := by
  simp only [List.flatMap_cons, List.length_append, length_bytes, RtcpPacket.length]
  omega

/-- The fuel for a packet and for those behind it. -/
theorem exists_fuel {packet : RtcpPacket} {packets : List RtcpPacket} {fuel : Nat}
    (hfuel : ((packet :: packets).flatMap RtcpPacket.bytes).length ≤ fuel) :
    ∃ less, fuel = less + 1 ∧ (packets.flatMap RtcpPacket.bytes).length ≤ less := by
  simp only [List.flatMap_cons, List.length_append, length_bytes, RtcpPacket.length] at hfuel
  exact ⟨fuel - 1, by omega, by omega⟩

/-- Packets that are not padded, the last of at least eight bytes, are all visited
and raise their messages. The induction is on the packets still to be parsed. -/
theorem parseRTCPLoop_accepts {packets : List RtcpPacket}
    (hplain : ∀ packet ∈ packets, packet.padding = [])
    (hlast : ∀ packet ∈ packets.getLast?, 8 ≤ packet.length) {fuel : Nat}
    (hfuel : (packets.flatMap RtcpPacket.bytes).length ≤ fuel) (rest : List UInt8)
    (clock : Nat → UInt64) (transport : RTPTransport) :
    let result := parseRTCPLoop fuel clock transport (packets.flatMap RtcpPacket.bytes ++ rest)
      (packets.flatMap RtcpPacket.bytes).length
    result.1 = .noError ∧
      result.2.1.notified = transport.notified ++ packets.flatMap RtcpPacket.messages ∧
      result.2.2 = packets.map RtcpPacket.visit := by
  induction packets generalizing fuel clock transport with
  | nil =>
      intro result
      have hresult : result = (.noError, transport, []) := parseRTCPLoop_nil _ _ _ _
      rw [hresult]
      simp
  | cons packet packets ih =>
      intro result
      obtain ⟨less, rfl, hless⟩ := exists_fuel hfuel
      have hsize : 8 ≤ ((packet :: packets).flatMap RtcpPacket.bytes).length := by
        cases packets with
        | nil => simpa using hlast packet rfl
        | cons next packets => exact eight_le_of_more
      obtain ⟨handled, hnotified, hturn⟩ := parseRTCPLoop_cons (hplain packet List.mem_cons_self)
        hsize rest less clock transport
      have hlast' : ∀ last ∈ packets.getLast?, 8 ≤ last.length := by
        intro last hmem
        apply hlast
        cases packets with
        | nil => simp at hmem
        | cons next packets => exact hmem
      obtain ⟨hstatus, hmessages, hvisits⟩ := ih
        (fun other hother => hplain other (List.mem_cons_of_mem _ hother)) hlast' hless
        (fun turn => clock (turn + 1)) handled
      simp only [result, hturn, List.flatMap_cons, List.map_cons]
      refine ⟨hstatus, ?_, ?_⟩
      · rw [hmessages, hnotified, List.append_assoc]
      · rw [hvisits]

/-- A compound whose last packet is padded or shorter than eight bytes is refused,
after the packets before it. -/
theorem parseRTCPLoop_refuses {packets : List RtcpPacket}
    (hplain : ∀ packet ∈ packets.dropLast, packet.padding = []) {last : RtcpPacket}
    (hlast : packets.getLast? = some last) (hbad : last.padding ≠ [] ∨ last.length < 8) {fuel : Nat}
    (hfuel : (packets.flatMap RtcpPacket.bytes).length ≤ fuel) (rest : List UInt8)
    (clock : Nat → UInt64) (transport : RTPTransport) :
    (parseRTCPLoop fuel clock transport (packets.flatMap RtcpPacket.bytes ++ rest)
      (packets.flatMap RtcpPacket.bytes).length).1 = .minusOne := by
  induction packets generalizing fuel clock transport with
  | nil => simp at hlast
  | cons packet packets ih =>
      obtain ⟨less, rfl, hless⟩ := exists_fuel hfuel
      cases packets with
      | nil =>
          obtain rfl : packet = last := Option.some.inj hlast
          simp only [List.flatMap_cons, List.flatMap_nil, List.append_nil, length_bytes]
          by_cases hpadded : packet.padding = []
          · have hshort := hbad.resolve_left (not_not.mpr hpadded)
            exact parseRTCPLoop_short (by rw [RtcpPacket.length]; omega) hshort _ _ _ _
          · exact parseRTCPLoop_padded hpadded rest less clock transport
      | cons next packets =>
          have hplain' : ∀ other ∈ (next :: packets).dropLast, other.padding = [] := by
            intro other hother
            apply hplain
            rw [List.dropLast_cons_cons]
            exact List.mem_cons_of_mem _ hother
          obtain ⟨handled, -, hturn⟩ := parseRTCPLoop_cons (hplain packet (by simp))
            eight_le_of_more rest less clock transport
          rw [hturn]
          exact ih hplain' hlast hless (fun turn => clock (turn + 1)) handled

/-- `parseRTCP` does what the grammar asks for exactly when the compound does not
end in a padded packet or in one of less than eight bytes. -/
theorem accepts_iff_endsPlain (transport : RTPTransport) (compound : Compound) :
    transport.Accepts compound ↔ compound.EndsPlain := by
  constructor
  · intro haccepts last hlast
    by_contra hbad
    have hbad' : last.padding ≠ [] ∨ last.length < 8 := by
      by_cases hpadding : last.padding = []
      · exact Or.inr (not_le.mp fun hlong => hbad ⟨hpadding, hlong⟩)
      · exact Or.inl hpadding
    let buffer : MetaBuffer := ⟨compound.datagram, 0, compound.datagram.length, 0, []⟩
    have hcarries : buffer.Carries compound.datagram :=
      ⟨rfl, List.take_length⟩
    have hrefused := parseRTCPLoop_refuses compound.plain hlast hbad' le_rfl [] (fun _ => 0)
      transport.countRTCP
    have hok := (haccepts buffer (fun _ => 0) hcarries).1
    rw [List.append_nil] at hrefused
    exact absurd (hrefused.symm.trans hok) (by decide)
  · intro hplain buffer clock hcarries
    have hall : ∀ packet ∈ compound.packets, packet.padding = [] := by
      intro packet hpacket
      cases hlast : compound.packets.getLast? with
      | none => simp [List.getLast?_eq_none_iff.mp hlast] at hpacket
      | some last =>
          obtain ⟨front, hfront⟩ := List.getLast?_eq_some_iff.mp hlast
          rw [hfront, List.mem_append, List.mem_singleton] at hpacket
          rcases hpacket with hmem | rfl
          · apply compound.plain
            rw [hfront, List.dropLast_concat]
            exact hmem
          · exact (hplain packet hlast).1
    have hparsed := parseRTCPLoop_accepts hall (fun packet hpacket => (hplain packet hpacket).2)
      le_rfl (buffer.data.drop compound.datagram.length) clock transport.countRTCP
    rw [parseRTCP, hcarries.size, hcarries.data, ← countRTCP_notified]
    exact hparsed

/-- A goodbye of one source with four bytes of padding. -/
def paddedGoodbye : Compound where
  packets := [⟨1, 203, [0, 0, 0, 7], [0, 0, 0, 4], rfl, by decide, fun _ => by decide⟩]
  plain := by simp

/-- The padded goodbye is refused, and no end of stream is announced. -/
theorem paddedGoodbye_refused :
    ∃ transport : RTPTransport, ¬ transport.Accepts paddedGoodbye ∧
      ∃ buffer : MetaBuffer, buffer.Carries paddedGoodbye.datagram ∧
        (transport.parseRTCP buffer fun _ => 0).1 = .minusOne ∧
        .rtcpEndOfStream ∉ (transport.parseRTCP buffer fun _ => 0).2.1.notified := by
  let transport : RTPTransport := ⟨true, 0, ⟨0, 0, 0, 0, 0, 0, 0, 0, 0⟩, 0, 0, 0, 0, 0, 0, 0, []⟩
  let buffer : MetaBuffer := ⟨paddedGoodbye.datagram, 0, 12, 0, []⟩
  have hcarries : buffer.Carries paddedGoodbye.datagram := ⟨rfl, rfl⟩
  have hresult : (transport.parseRTCP buffer fun _ => 0).1 = .minusOne := by decide +kernel
  refine ⟨transport, ?_, buffer, hcarries, hresult, by decide +kernel⟩
  intro haccepts
  exact absurd (hresult.symm.trans (haccepts buffer (fun _ => 0) hcarries).1) (by decide)

end RTPTransport

end McuProxy.Net

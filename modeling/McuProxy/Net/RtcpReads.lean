/-
# What the loop of `parseRTCP` reads

The loop keeps a pointer and a remaining size and advances both by the length
field of each packet. Padding is taken off the size but not off the pointer, and
the parsers of single packets get the declared length instead of the remaining
size. What holds the two together is that the pointer and the remaining size never
exceed the datagram.

The loop is written a second time, as a program that asks for single bytes, with
fuel for its turns and no result when the fuel runs out. It ends within one turn
for every four bytes.
-/

import McuProxy.Net.RtpFormat

namespace McuProxy.Net

open McuProxy.Math Reading

def readU64 (data : Nat) : Reading UInt8 UInt64 := do
  let high ← readU32 data
  let low ← readU32 (data + 4)
  return high.toUInt64 <<< 32 ||| low.toUInt64

@[simp]
theorem run_readU64 (bytes : List UInt8) (data : Nat) :
    (readU64 data).run (byteAt bytes) = u64at (bytes.drop data) := by
  simp [readU64, u64at]

@[simp]
theorem readsBelow_readU64 (memory : Nat → UInt8) (bound data : Nat) :
    (readU64 data).ReadsBelow bound memory ↔ data + 8 ≤ bound := by
  simp only [readU64, readsBelow_bind, readsBelow_readU32, readsBelow_pure, and_true]
  omega

/-- A packet that the loop handed to its parser: where it starts in the datagram,
and its length. -/
structure PacketRange where
  offset : Nat
  length : Nat
  deriving DecidableEq

namespace RTPTransport

/-- `parseBYE` on the packet at `data`. -/
def readBYE (transport : RTPTransport) (data size : Nat) :
    Reading UInt8 (Status × RTPTransport) := do
  let first ← ask data
  let SC := (first &&& 0x3f).toNat
  if SC = 0 ∨ size < 4 + SC * 4 then return (.minusOne, transport)
  else do
    let _id ← readU32 (data + 4)
    return (.noError, transport.notify .rtcpEndOfStream)

/-- `parseSR` on the packet at `data`. -/
def readSR (transport : RTPTransport) (data size : Nat) (now : UInt64) :
    Reading UInt8 (Status × RTPTransport) :=
  let transport := { transport with mInfo := { transport.mInfo with lastSR := now } }
  do
    let first ← ask data
    let RC := (first &&& 0x1f).toNat
    if size < (7 + RC * 6) * 4 then return (.minusOne, transport)
    else do
      let _id ← readU32 (data + 4)
      let ntpTime ← readU64 (data + 8)
      let rtpTime ← readU32 (data + 16)
      return (.noError, transport.notify (.rtcpTimeUpdate { ntpTime, rtpTime }))

/-- The `switch` on the type of the packet at `data`. -/
def readPacket (transport : RTPTransport) (data headerLength : Nat) (now : UInt64) :
    Reading UInt8 (Status × RTPTransport) := do
  let type ← ask (data + 1)
  match type.toNat with
  | 200 => transport.readSR data headerLength now
  | 203 => transport.readBYE data headerLength
  | _ => return (.noError, transport)

/-- The loop of `parseRTCP` with every read of a byte, in the order of the source.
The result holds the packets that were handed to their parsers. -/
def readRTCPLoop : Nat → (Nat → UInt64) → RTPTransport → Nat → Nat →
    Reading UInt8 (Option (Status × RTPTransport × List PacketRange))
  | 0, _, _, _, _ => return none
  | fuel + 1, clock, transport, data, size =>
      let refused := some (.minusOne, transport, [])
      if size = 0 then return some (.noError, transport, [])
      else if size < 8 then return refused
      else do
        let version ← ask data
        if version >>> 6 ≠ 2 then return refused
        else
          match ← readPadding 8 data size with
          | none => return refused
          | some size => do
              let words ← readU16 (data + 2)
              let headerLength := 4 * words.toNat + 4
              if size < headerLength then return refused
              else do
                let packet ← transport.readPacket data headerLength (clock 0)
                let others ← readRTCPLoop fuel (fun turn => clock (turn + 1)) packet.2
                  (data + headerLength) (size - headerLength)
                return others.map fun (result, transport, packets) =>
                  (result, transport, ⟨data, headerLength⟩ :: packets)

/-- `parseRTCP`, with the fuel of its loop. -/
def readRTCP (fuel : Nat) (transport : RTPTransport) (buffer : MetaBuffer) (clock : Nat → UInt64) :
    Reading UInt8 (Option (Status × RTPTransport × List PacketRange)) :=
  readRTCPLoop fuel clock transport.countRTCP 0 buffer.size

theorem run_readBYE (bytes : List UInt8) (transport : RTPTransport) (data size : Nat) :
    (transport.readBYE data size).run (byteAt bytes) =
      transport.parseBYE (bytes.drop data) size := by
  simp only [readBYE, parseBYE, byteAt_drop, run_ask_bind, Nat.add_zero]
  split_ifs
  · rfl
  · simp only [run_bind, run_pure]

theorem run_readSR (bytes : List UInt8) (transport : RTPTransport) (data size : Nat)
    (now : UInt64) :
    (transport.readSR data size now).run (byteAt bytes) =
      transport.parseSR (bytes.drop data) size now := by
  simp only [readSR, parseSR, byteAt_drop, run_ask_bind, Nat.add_zero, List.drop_drop]
  split_ifs
  · rfl
  · simp only [run_bind, run_readU64, run_readU32, run_pure]

theorem run_readPacket (bytes : List UInt8) (transport : RTPTransport) (data headerLength : Nat)
    (now : UInt64) :
    (transport.readPacket data headerLength now).run (byteAt bytes) =
      transport.parsePacket (bytes.drop data) headerLength now := by
  have htype : byteAt (bytes.drop data) 1 = byteAt bytes (data + 1) := byteAt_drop bytes data 1
  rw [readPacket, run_ask_bind, ← htype]
  obtain ⟨hreport, hparse⟩ | ⟨hgoodbye, hparse⟩ | ⟨hreport, hgoodbye, hparse⟩ :=
    parsePacket_cases transport (bytes.drop data) headerLength now
  · rw [hparse, hreport]
    exact run_readSR bytes transport data headerLength now
  · rw [hparse, hgoodbye]
    exact run_readBYE bytes transport data headerLength
  · rw [hparse]
    split
    · exact absurd (UInt8.toNat_inj.mp (by assumption)) hreport
    · exact absurd (UInt8.toNat_inj.mp (by assumption)) hgoodbye
    · rfl

/-- One turn of the program, in terms of the checks of the turn. -/
theorem run_readRTCPLoop_succ (bytes : List UInt8) (fuel : Nat) (clock : Nat → UInt64)
    (transport : RTPTransport) (data size : Nat) :
    (readRTCPLoop (fuel + 1) clock transport data size).run (byteAt bytes) =
      if size = 0 then some (.noError, transport, [])
      else
        match nextPacket (bytes.drop data) size with
        | none => some (.minusOne, transport, [])
        | some (headerLength, rest) =>
            ((readRTCPLoop fuel (fun turn => clock (turn + 1))
                (transport.parsePacket (bytes.drop data) headerLength (clock 0)).2
                (data + headerLength) rest).run (byteAt bytes)).map
              fun others => (others.1, others.2.1, ⟨data, headerLength⟩ :: others.2.2) := by
  rw [readRTCPLoop, nextPacket]
  by_cases hempty : size = 0
  · simp only [if_pos hempty, run_pure]
  by_cases hshort : size < 8
  · simp only [if_neg hempty, if_pos hshort, run_pure]
  simp only [if_neg hempty, if_neg hshort, run_ask_bind, byteAt_drop, Nat.add_zero]
  by_cases hversion : byteAt bytes data >>> 6 ≠ 2
  · simp only [if_pos hversion, run_pure]
  simp only [if_neg hversion, run_bind, run_readPadding]
  cases stripPadding 8 (bytes.drop data) size with
  | none => rfl
  | some stripped =>
      simp only [Option.bind_some, run_bind, run_readU16, List.drop_drop]
      by_cases hpartial : stripped < 4 * (u16at (bytes.drop (data + 2))).toNat + 4
      · simp only [if_pos hpartial, run_pure]
      · simp only [if_neg hpartial, run_bind, run_readPacket, run_pure]

/-- What the checks of a turn guarantee about the packet at the front. -/
theorem nextPacket_bounds {data : List UInt8} {size headerLength rest : Nat}
    (hnext : nextPacket data size = some (headerLength, rest)) :
    8 ≤ size ∧ 4 ≤ headerLength ∧ headerLength + rest ≤ size := by
  rw [nextPacket] at hnext
  split_ifs at hnext with hshort hversion
  obtain ⟨stripped, hstrip, hpacket⟩ := Option.bind_eq_some_iff.mp hnext
  obtain ⟨hlow, hhigh⟩ := stripPadding_le (not_lt.mp hshort) hstrip
  simp only at hpacket
  split_ifs at hpacket with hpartial
  obtain ⟨rfl, rfl⟩ := Prod.mk.inj (Option.some.inj hpacket)
  omega

theorem readsBelow_readBYE (memory : Nat → UInt8) (transport : RTPTransport)
    {data size bound : Nat} (hsize : 4 ≤ size) (hbound : data + size ≤ bound) :
    (transport.readBYE data size).ReadsBelow bound memory := by
  have hfirst : data < bound := by omega
  simp only [readBYE, readsBelow_ask_bind, hfirst, true_and]
  split_ifs with hbad
  · exact readsBelow_pure _ _ _
  · have hid : data + 4 + 4 ≤ bound := by omega
    simp only [readsBelow_bind, readsBelow_readU32, readsBelow_pure, hid, and_self]

theorem readsBelow_readSR (memory : Nat → UInt8) (transport : RTPTransport) (now : UInt64)
    {data size bound : Nat} (hsize : 4 ≤ size) (hbound : data + size ≤ bound) :
    (transport.readSR data size now).ReadsBelow bound memory := by
  have hfirst : data < bound := by omega
  simp only [readSR, readsBelow_ask_bind, hfirst, true_and]
  split_ifs with hbad
  · exact readsBelow_pure _ _ _
  · simp only [readsBelow_bind, readsBelow_readU32, readsBelow_readU64, readsBelow_pure, and_true]
    omega

theorem readsBelow_readPacket (memory : Nat → UInt8) (transport : RTPTransport) (now : UInt64)
    {data size bound : Nat} (hsize : 4 ≤ size) (hbound : data + size ≤ bound) :
    (transport.readPacket data size now).ReadsBelow bound memory := by
  have htype : data + 1 < bound := by omega
  rw [readPacket, readsBelow_ask_bind]
  refine ⟨htype, ?_⟩
  split
  · exact readsBelow_readSR memory transport now hsize hbound
  · exact readsBelow_readBYE memory transport hsize hbound
  · exact readsBelow_pure _ _ _

/-- The loop reads nothing behind the bound as long as the pointer and the size
together do not pass it. The induction is on the fuel, over all pointers and
sizes. -/
theorem readsBelow_readRTCPLoop (bytes : List UInt8) {bound : Nat} (fuel : Nat)
    (clock : Nat → UInt64) (transport : RTPTransport) {data size : Nat}
    (hbound : data + size ≤ bound) :
    (readRTCPLoop fuel clock transport data size).ReadsBelow bound (byteAt bytes) := by
  induction fuel generalizing clock transport data size with
  | zero => exact readsBelow_pure _ _ _
  | succ fuel ih =>
      rw [readRTCPLoop]
      by_cases hempty : size = 0
      · simp only [if_pos hempty, readsBelow_pure]
      by_cases hshort : size < 8
      · simp only [if_neg hempty, if_pos hshort, readsBelow_pure]
      have hfirst : data < bound := by omega
      simp only [if_neg hempty, if_neg hshort, readsBelow_ask_bind, hfirst, true_and]
      by_cases hversion : byteAt bytes data >>> 6 ≠ 2
      · simp only [if_pos hversion, readsBelow_pure]
      simp only [if_neg hversion, readsBelow_bind, run_readPadding]
      refine ⟨readsBelow_readPadding _ (by omega) hbound, ?_⟩
      cases hstrip : stripPadding 8 (bytes.drop data) size with
      | none => exact readsBelow_pure _ _ _
      | some stripped =>
          obtain ⟨hlow, hhigh⟩ := stripPadding_le (not_lt.mp hshort) hstrip
          have hwords : data + 2 + 2 ≤ bound := by omega
          simp only [readsBelow_bind, readsBelow_readU16, hwords, true_and, run_readU16]
          by_cases hpartial : stripped < 4 * (u16at (bytes.drop (data + 2))).toNat + 4
          · simp only [if_pos hpartial, readsBelow_pure]
          · simp only [if_neg hpartial, readsBelow_bind, readsBelow_pure, and_true]
            exact ⟨readsBelow_readPacket _ _ _ (by omega) (by omega), ih _ _ (by omega)⟩

/-- Packets that lie one behind the other from an offset on, each of at least four
bytes and all before the bound. -/
def Consecutive (bound : Nat) : Nat → List PacketRange → Prop
  | offset, [] => offset ≤ bound
  | offset, packet :: packets =>
      packet.offset = offset ∧ 4 ≤ packet.length ∧
        Consecutive bound (offset + packet.length) packets

/-- Consecutive packets lie in order and between the offset and the bound. -/
theorem Consecutive.ordered {bound offset : Nat} {packets : List PacketRange}
    (hpackets : Consecutive bound offset packets) :
    packets.Pairwise (fun first second => first.offset + first.length ≤ second.offset) ∧
      (∀ packet ∈ packets, offset ≤ packet.offset ∧ packet.offset + packet.length ≤ bound) ∧
      offset + 4 * packets.length ≤ bound := by
  induction packets generalizing offset with
  | nil => exact ⟨List.Pairwise.nil, by simp, hpackets⟩
  | cons packet packets ih =>
      obtain ⟨hoffset, hlength, hrest⟩ := hpackets
      obtain ⟨hordered, hinside, htotal⟩ := ih hrest
      rw [List.length_cons]
      refine ⟨List.pairwise_cons.mpr ⟨?_, hordered⟩, ?_, by omega⟩
      · intro later hlater
        rw [hoffset]
        exact (hinside later hlater).1
      · intro other hother
        rcases List.mem_cons.mp hother with rfl | hlater
        · exact ⟨hoffset.ge, by omega⟩
        · have hbounds := hinside other hlater
          omega

/-- The visits of the loop as ranges of the datagram. -/
def ranges : Nat → List Visit → List PacketRange
  | _, [] => []
  | offset, visit :: visits =>
      ⟨offset, visit.headerLength⟩ :: ranges (offset + visit.headerLength) visits

/-- With more fuel than a turn for every four bytes, the loop ends, with the result
of `parseRTCPLoop`. The induction is on the fuel; a turn takes four bytes or more
off the size. -/
theorem run_readRTCPLoop (bytes : List UInt8) (fuel : Nat) (clock : Nat → UInt64)
    (transport : RTPTransport) {data size plenty : Nat} (hfuel : size / 4 < fuel)
    (hplenty : size ≤ plenty) :
    (readRTCPLoop fuel clock transport data size).run (byteAt bytes) =
      some ((parseRTCPLoop plenty clock transport (bytes.drop data) size).1,
        (parseRTCPLoop plenty clock transport (bytes.drop data) size).2.1,
        ranges data (parseRTCPLoop plenty clock transport (bytes.drop data) size).2.2) := by
  induction fuel generalizing clock transport data size plenty with
  | zero => omega
  | succ fuel ih =>
      rw [run_readRTCPLoop_succ]
      by_cases hempty : size = 0
      · subst hempty
        rw [if_pos rfl, parseRTCPLoop_nil]
        rfl
      · obtain ⟨more, rfl⟩ : ∃ more, plenty = more + 1 := ⟨plenty - 1, by omega⟩
        rw [if_neg hempty, parseRTCPLoop_succ, if_neg hempty]
        cases hnext : nextPacket (bytes.drop data) size with
        | none => rfl
        | some packet =>
            obtain ⟨headerLength, rest⟩ := packet
            obtain ⟨-, hlength, hrest⟩ := nextPacket_bounds hnext
            simp only
            rw [ih _ _ (by omega) (show rest ≤ more by omega), List.drop_drop]
            rfl

/-- The visits are consecutive packets of the datagram. -/
theorem ranges_consecutive (fuel : Nat) (clock : Nat → UInt64) (transport : RTPTransport)
    (data : List UInt8) {offset size bound : Nat} (hbound : offset + size ≤ bound) :
    Consecutive bound offset
      (ranges offset (parseRTCPLoop fuel clock transport data size).2.2) := by
  induction fuel generalizing clock transport data offset size with
  | zero =>
      simp only [parseRTCPLoop, ranges, Consecutive]
      omega
  | succ fuel ih =>
      rw [parseRTCPLoop_succ]
      by_cases hempty : size = 0
      · simp only [if_pos hempty, ranges, Consecutive]
        omega
      · rw [if_neg hempty]
        cases hnext : nextPacket data size with
        | none =>
            simp only [ranges, Consecutive]
            omega
        | some packet =>
            obtain ⟨headerLength, rest⟩ := packet
            obtain ⟨-, hlength, hrest⟩ := nextPacket_bounds hnext
            exact ⟨rfl, hlength, ih _ _ _ (show offset + headerLength + rest ≤ bound by omega)⟩

/-- On every byte string `parseRTCP` ends, within one turn for every four bytes and
one more, with the result of the model. It reads nothing behind the string, and the
packets it parses are consecutive and disjoint ranges of it, of four bytes or
more. -/
theorem parseRTCP_bounded (transport : RTPTransport) (buffer : MetaBuffer)
    (clock : Nat → UInt64) :
    ∃ packets,
      (∀ fuel, buffer.size / 4 < fuel →
        (readRTCP fuel transport buffer clock).run (byteAt buffer.data) =
          some ((transport.parseRTCP buffer clock).1, (transport.parseRTCP buffer clock).2.1,
            packets)) ∧
      (∀ fuel, ∀ i ∈ (readRTCP fuel transport buffer clock).indices (byteAt buffer.data),
        i < buffer.size) ∧
      Consecutive buffer.size 0 packets ∧
      packets.Pairwise (fun first second => first.offset + first.length ≤ second.offset) ∧
      ∀ packet ∈ packets, packet.offset + packet.length ≤ buffer.size := by
  have hconsecutive := ranges_consecutive buffer.size clock transport.countRTCP buffer.data
    (show 0 + buffer.size ≤ buffer.size by omega)
  obtain ⟨hordered, hinside, -⟩ := hconsecutive.ordered
  refine ⟨_, fun fuel hfuel => ?_, fun fuel => ?_, hconsecutive, hordered,
    fun packet hpacket => (hinside packet hpacket).2⟩
  · rw [readRTCP, run_readRTCPLoop buffer.data fuel clock transport.countRTCP hfuel le_rfl]
    rfl
  · exact readsBelow_readRTCPLoop buffer.data fuel clock transport.countRTCP (by omega)

end RTPTransport

end McuProxy.Net

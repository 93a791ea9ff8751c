/-
# RTCP compound packets

`parseRTCP` walks through the packets of a datagram and hands sender reports and
goodbyes to their own parsers; `handleTimeout` builds the report that the
transport itself sends, with a sender report and a source description.

The grammar of compound packets is written down separately, as packets that carry
their own well-formedness. Against it, the parser accepts exactly the datagrams
whose last packet is not padded and has at least the eight bytes that the parser
takes for a header: padding is subtracted from the remaining size before that size
is compared with the length field, which counts the padding.

Readings of the clock are inputs. `getWholeNTPNow` shifts a 32-bit word by 32, so
its result is not given by the language and is taken as it comes.
-/

import McuProxy.Net.RtpTransport

namespace McuProxy.Net

open McuProxy.Math

/-- A packet seen by the loop of `parseRTCP`: its type, its length, and the result
of the parser it was handed to. -/
structure Visit where
  type : UInt8
  headerLength : Nat
  status : Status
  deriving DecidableEq

namespace RTPTransport

def parseBYE (transport : RTPTransport) (data : List UInt8) (size : Nat) : Status × RTPTransport :=
  let SC := (byteAt data 0 &&& 0x3f).toNat
  if SC = 0 ∨ size < 4 + SC * 4 then (.minusOne, transport)
  else (.noError, transport.notify .rtcpEndOfStream)

def parseSR (transport : RTPTransport) (data : List UInt8) (size : Nat) (now : UInt64) :
    Status × RTPTransport :=
  let transport := { transport with mInfo := { transport.mInfo with lastSR := now } }
  let RC := (byteAt data 0 &&& 0x1f).toNat
  if size < (7 + RC * 6) * 4 then (.minusOne, transport)
  else
    let info : TimeInfo := { ntpTime := u64at (data.drop 8), rtpTime := u32at (data.drop 16) }
    (.noError, transport.notify (.rtcpTimeUpdate info))

/-- The `switch` of `parseRTCP`. Reports, descriptions, application packets,
feedback and unknown types are passed over. -/
def parsePacket (transport : RTPTransport) (data : List UInt8) (headerLength : Nat)
    (now : UInt64) : Status × RTPTransport :=
  match (byteAt data 1).toNat with
  | 200 => transport.parseSR data headerLength now
  | 203 => transport.parseBYE data headerLength
  | _ => (.noError, transport)

/-- The loop of `parseRTCP`. Every turn consumes at least four bytes, so a unit of
fuel for each byte is enough, and without fuel nothing is left to parse. `clock 0`
is the reading of the clock in this turn. -/
def parseRTCPLoop : Nat → (Nat → UInt64) → RTPTransport → List UInt8 → Nat →
    Status × RTPTransport × List Visit
  | 0, _, transport, _, _ => (.noError, transport, [])
  | fuel + 1, clock, transport, data, size =>
      if size = 0 then (.noError, transport, [])
      else if size < 8 then (.minusOne, transport, [])
      else if byteAt data 0 >>> 6 ≠ 2 then (.minusOne, transport, [])
      else
        match stripPadding 8 data size with
        | none => (.minusOne, transport, [])
        | some size =>
            let headerLength := 4 * (u16at (data.drop 2)).toNat + 4
            if size < headerLength then (.minusOne, transport, [])
            else
              let (status, transport) := transport.parsePacket data headerLength (clock 0)
              let (result, transport, visits) :=
                parseRTCPLoop fuel (fun turn => clock (turn + 1)) transport
                  (data.drop headerLength) (size - headerLength)
              (result, transport, ⟨byteAt data 1, headerLength, status⟩ :: visits)

/-- The count at the start of `parseRTCP`, which announces the first packet. -/
def countRTCP (transport : RTPTransport) : RTPTransport :=
  let counted := { transport with
    mInfo := { transport.mInfo with rcvdRTCP := transport.mInfo.rcvdRTCP + 1 } }
  if transport.mInfo.rcvdRTCP = 0 then counted.notify .rtcpFirstPacket else counted

def parseRTCP (transport : RTPTransport) (buffer : MetaBuffer) (clock : Nat → UInt64) :
    Status × RTPTransport × List Visit :=
  parseRTCPLoop buffer.size clock transport.countRTCP buffer.data buffer.size

/-- `minusNTP`. -/
def minusNTP (ntp1 ntp2 : UInt64) : UInt32 :=
  let diff := (ntp1 - ntp2) >>> 16
  if diff < 0xFFFFFFFF then diff.toUInt32 else 0xFFFFFFFF

/-- Write bytes at a distance from the start of an array. -/
def putAt (array : List UInt8) (offset : Nat) (bytes : List UInt8) : List UInt8 :=
  array.take offset ++ bytes ++ array.drop (offset + bytes.length)

/-- `inet_ntoa`. -/
def inetNtoa (addr : UInt32) : List UInt8 :=
  let decimal (byte : UInt8) : List UInt8 :=
    (Nat.toDigits 10 byte.toNat).map fun digit => UInt8.ofNat digit.toNat
  [46].intercalate ((wordBytes addr).map decimal)

/-- What `snprintf` stores of a text in a field of the given size. -/
def snprintf (size : Nat) (text : List UInt8) : List UInt8 := text.take (size - 1) ++ [0]

/-- `totalRcvdLost` as `handleTimeout` updates it. -/
def lostTotal (transport : RTPTransport) : UInt32 :=
  let total := transport.mInfo.totalRcvdLost + transport.mInfo.nRcvdLost
  if total > 0x00FFFFFF then 0x00FFFFFF else total

/-- `nRcvdLost` as `handleTimeout` limits it. -/
def lostRecently (transport : RTPTransport) : UInt32 :=
  if transport.mInfo.nRcvdLost > 255 then 255 else transport.mInfo.nRcvdLost

/-- `handleTimeout`: the transport it leaves and the datagram it sends. `_buffer`
is an array of 22 words that is not initialised, and `now` is the reading of the
clock. Stores of neighbouring bytes and words are written together. -/
def handleTimeout (transport : RTPTransport) (_buffer : Fin 88 → UInt8) (now : UInt64) :
    RTPTransport × List UInt8 :=
  let array := List.ofFn _buffer
  let info := transport.mInfo
  -- The header of the sender report.
  let array := putAt array 0 ([0x81, 200, 0, 12] ++ wordBytes transport.mSourceID)
  -- The sender information, from word 2.
  let array := putAt array (4 * 2)
    (wordBytes transport.mLastNTPSec ++ wordBytes transport.mLastNTPUSec ++
      wordBytes transport.mLastRTPTime ++ wordBytes info.nRTPSent ++
      wordBytes info.nRTPOctetsSent)
  -- The reception report, from word 7.
  let delay := minusNTP now info.lastSR
  let array := putAt array (4 * 7)
    (wordBytes info.rcvdSourceId ++
      wordBytes (transport.lostRecently <<< 24 ||| transport.lostTotal) ++
      wordBytes info.rcvdMaxSeqNum ++ wordBytes 0 ++
      wordBytes (if info.lastSR ≠ 0 then (info.lastSR >>> 16).toUInt32 else 0) ++
      wordBytes (if info.lastSR ≠ 0 then delay else 0))
  -- The source description, from word 13.
  let array := putAt array (4 * 13) ([0x81, 202, 0, 6] ++ wordBytes transport.mSourceID)
  let array := putAt array (4 * 15) [1, 16]
  let array := putAt array (4 * 15 + 2) (snprintf 17 (inetNtoa transport.mHostAddr ++ [64]))
  let array := putAt array (4 * 15 + 18) [0, 0]
  ({ transport with
      mInfo := { info with totalRcvdLost := transport.lostTotal, nRcvdLost := 0 } },
    array.take 80)

/-- What the first packet announces. -/
def firstNotice (transport : RTPTransport) : List RTPMessage :=
  if transport.mInfo.rcvdRTCP = 0 then [.rtcpFirstPacket] else []

theorem countRTCP_notified (transport : RTPTransport) :
    transport.countRTCP.notified = transport.notified ++ transport.firstNotice := by
  unfold countRTCP firstNotice
  split
  · rfl
  · exact (List.append_nil _).symm

/-- A packet goes to the parser of its type, or is passed over. -/
theorem parsePacket_cases (transport : RTPTransport) (data : List UInt8) (headerLength : Nat)
    (now : UInt64) :
    (byteAt data 1 = 200 ∧
        transport.parsePacket data headerLength now = transport.parseSR data headerLength now) ∨
      (byteAt data 1 = 203 ∧
        transport.parsePacket data headerLength now = transport.parseBYE data headerLength) ∨
      (byteAt data 1 ≠ 200 ∧ byteAt data 1 ≠ 203 ∧
        transport.parsePacket data headerLength now = (.noError, transport)) := by
  unfold parsePacket
  split
  · rename_i htype
    exact Or.inl ⟨UInt8.toNat_inj.mp htype, rfl⟩
  · rename_i htype
    exact Or.inr (Or.inl ⟨UInt8.toNat_inj.mp htype, rfl⟩)
  · rename_i hreport hgoodbye
    refine Or.inr (Or.inr ⟨fun htype => hreport ?_, fun htype => hgoodbye ?_, rfl⟩)
    · exact congrArg UInt8.toNat htype
    · exact congrArg UInt8.toNat htype

/-- The checks of a turn: the length of the packet at the front, and the size that
is left behind it. -/
def nextPacket (data : List UInt8) (size : Nat) : Option (Nat × Nat) :=
  if size < 8 then none
  else if byteAt data 0 >>> 6 ≠ 2 then none
  else
    (stripPadding 8 data size).bind fun size =>
      let headerLength := 4 * (u16at (data.drop 2)).toNat + 4
      if size < headerLength then none else some (headerLength, size - headerLength)

/-- A turn ends the loop, or hands the packet at the front to its parser and goes
on behind it. -/
theorem parseRTCPLoop_succ (fuel : Nat) (clock : Nat → UInt64) (transport : RTPTransport)
    (data : List UInt8) (size : Nat) :
    parseRTCPLoop (fuel + 1) clock transport data size =
      if size = 0 then (.noError, transport, [])
      else
        match nextPacket data size with
        | none => (.minusOne, transport, [])
        | some (headerLength, rest) =>
            let packet := transport.parsePacket data headerLength (clock 0)
            let others := parseRTCPLoop fuel (fun turn => clock (turn + 1)) packet.2
              (data.drop headerLength) rest
            (others.1, others.2.1, ⟨byteAt data 1, headerLength, packet.1⟩ :: others.2.2) := by
  rw [parseRTCPLoop, nextPacket]
  split_ifs with hempty hshort hversion
  · rfl
  · rfl
  · rfl
  · cases stripPadding 8 data size with
    | none => rfl
    | some stripped =>
        simp only [Option.bind_some]
        split_ifs <;> rfl

/-- A turn at a packet without padding that is all there: the packet is handed to
its parser, and the loop goes on behind it. -/
theorem parseRTCPLoop_packet {first high low : UInt8} {size headerLength : Nat}
    (hversion : first >>> 6 = 2)
    (hpadding : first &&& 0x20 = 0)
    (hlength : 4 * (high.toNat * 256 + low.toNat) + 4 = headerLength) (hsize : 8 ≤ size)
    (hfit : headerLength ≤ size) (type : UInt8) (rest : List UInt8) (fuel : Nat)
    (clock : Nat → UInt64) (transport : RTPTransport) :
    let data := first :: type :: high :: low :: rest
    let packet := transport.parsePacket data headerLength (clock 0)
    let others := parseRTCPLoop fuel (fun turn => clock (turn + 1)) packet.2
      (data.drop headerLength) (size - headerLength)
    parseRTCPLoop (fuel + 1) clock transport data size =
      (others.1, others.2.1, ⟨type, headerLength, packet.1⟩ :: others.2.2) := by
  intro data packet others
  have hstrip : stripPadding 8 data size = some size := if_neg (not_not.mpr hpadding)
  have hsupported : ¬ byteAt data 0 >>> 6 ≠ 2 := not_not.mpr hversion
  have hfield : 4 * (u16at (data.drop 2)).toNat + 4 = headerLength := by
    rw [← hlength, ← toNat_join16]
    rfl
  rw [parseRTCPLoop, if_neg (by omega), if_neg (by omega), if_neg hsupported, hstrip]
  simp only [hfield]
  rw [if_neg (by omega)]
  rfl

/-- A sender report with all its blocks. -/
theorem parseSR_whole {transport : RTPTransport} {data : List UInt8} {size : Nat} {now : UInt64}
    (hsize : (7 + (byteAt data 0 &&& 0x1f).toNat * 6) * 4 ≤ size) :
    transport.parseSR data size now =
      (.noError, ({ transport with mInfo := { transport.mInfo with lastSR := now } }).notify
        (.rtcpTimeUpdate { ntpTime := u64at (data.drop 8), rtpTime := u32at (data.drop 16) })) := by
  simp only [parseSR]
  rw [if_neg (by omega)]

/-- Nothing is left. -/
theorem parseRTCPLoop_nil (fuel : Nat) (clock : Nat → UInt64) (transport : RTPTransport)
    (data : List UInt8) :
    parseRTCPLoop fuel clock transport data 0 = (.noError, transport, []) := by
  cases fuel with
  | zero => rfl
  | succ fuel => rw [parseRTCPLoop, if_pos rfl]

theorem putAt_append (written rest bytes : List UInt8) (k : Nat) :
    putAt (written ++ rest) (written.length + k) bytes = written ++ putAt rest k bytes := by
  rw [putAt, putAt, List.take_length_add_append, add_assoc, List.drop_length_add_append]
  simp only [List.append_assoc]

theorem putAt_zero (rest bytes : List UInt8) :
    putAt rest 0 bytes = bytes ++ rest.drop bytes.length := by
  rw [putAt, List.take_zero, List.nil_append, zero_add]

/-- A store right behind what was stored before. -/
theorem putAt_next {written : List UInt8} {offset : Nat} (hoffset : written.length = offset)
    (rest bytes : List UInt8) :
    putAt (written ++ rest) offset bytes = (written ++ bytes) ++ rest.drop bytes.length := by
  have hstore := putAt_append written rest bytes 0
  rw [add_zero, hoffset] at hstore
  rw [hstore, putAt_zero, List.append_assoc]

/-- Five stores, each where the one before it ends. -/
theorem putAt_five {array first second third fourth fifth : List UInt8}
    (hfirst : first.length = 8) (hsecond : second.length = 20) (hthird : third.length = 24)
    (hfourth : fourth.length = 8) (hfifth : fifth.length = 2) :
    putAt (putAt (putAt (putAt (putAt array 0 first) (4 * 2) second) (4 * 7) third) (4 * 13)
      fourth) (4 * 15) fifth =
        first ++ second ++ third ++ fourth ++ fifth ++ array.drop 62 := by
  rw [putAt_zero, putAt_next hfirst, putAt_next (by simp [hfirst, hsecond]),
    putAt_next (by simp [hfirst, hsecond, hthird]),
    putAt_next (by simp [hfirst, hsecond, hthird, hfourth])]
  simp only [List.drop_drop, hfirst, hsecond, hthird, hfourth, hfifth]

/-- A text of less than eighteen bytes, and two zeros over its end. -/
theorem putAt_name {written rest text : List UInt8} (hwritten : written.length = 62)
    (hrest : rest.length = 26) (htext : text.length ≤ 17) :
    (putAt (putAt (written ++ rest) (4 * 15 + 2) text) (4 * 15 + 18) [0, 0]).take 80 =
      written ++ ((text ++ rest.drop text.length).take 16 ++ [0, 0]) := by
  have hfield : (text ++ rest.drop text.length).length = 26 := by
    rw [List.length_append, List.length_drop]
    omega
  have hoffset : 4 * 15 + 18 = written.length + 16 := by omega
  have hend : 80 = written.length + 18 := by omega
  rw [putAt_next hwritten, List.append_assoc, hoffset, putAt_append, hend,
    List.take_length_add_append, putAt, List.take_left']
  simp [hfield]

/-- The sender report of `handleTimeout`. -/
def senderReport (transport : RTPTransport) (now : UInt64) : List UInt8 :=
  let info := transport.mInfo
  ([0x81, 200, 0, 12] ++ wordBytes transport.mSourceID : List UInt8) ++
    (wordBytes transport.mLastNTPSec ++ wordBytes transport.mLastNTPUSec ++
      wordBytes transport.mLastRTPTime ++ wordBytes info.nRTPSent ++
      wordBytes info.nRTPOctetsSent) ++
    (wordBytes info.rcvdSourceId ++
      wordBytes (transport.lostRecently <<< 24 ||| transport.lostTotal) ++
      wordBytes info.rcvdMaxSeqNum ++ wordBytes 0 ++
      wordBytes (if info.lastSR ≠ 0 then (info.lastSR >>> 16).toUInt32 else 0) ++
      wordBytes (if info.lastSR ≠ 0 then minusNTP now info.lastSR else 0))

/-- The text that `handleTimeout` prints into the source description. -/
def printedName (transport : RTPTransport) : List UInt8 :=
  snprintf 17 (inetNtoa transport.mHostAddr ++ [64])

theorem length_printedName (transport : RTPTransport) :
    transport.printedName.length = min 16 ((inetNtoa transport.mHostAddr).length + 1) + 1 := by
  simp only [printedName, snprintf, List.length_append, List.length_take, List.length_singleton]

/-- The last 18 bytes of the source description: the text, what was in the array behind
it, and two zeros. -/
def nameField (transport : RTPTransport) (_buffer : Fin 88 → UInt8) : List UInt8 :=
  (transport.printedName ++
    ((List.ofFn _buffer).drop 62).drop transport.printedName.length).take 16 ++ [0, 0]

theorem length_nameField (transport : RTPTransport) (_buffer : Fin 88 → UInt8) :
    (transport.nameField _buffer).length = 18 := by
  have htext := transport.length_printedName
  simp only [nameField, List.length_append, List.length_take, List.length_drop, List.length_ofFn,
    List.length_cons, List.length_nil]
  omega

/-- The stores of `handleTimeout` leave the sender report and, right behind it, a
source description of 28 bytes. -/
theorem handleTimeout_bytes (transport : RTPTransport) (_buffer : Fin 88 → UInt8) (now : UInt64) :
    (transport.handleTimeout _buffer now).2 = transport.senderReport now ++
      ([0x81, 202, 0, 6] ++ wordBytes transport.mSourceID ++ [1, 16] ++
        transport.nameField _buffer) := by
  have htext := transport.length_printedName
  have hrest : ((List.ofFn _buffer).drop 62).length = 26 := by
    rw [List.length_drop, List.length_ofFn]
  simp only [handleTimeout]
  rw [putAt_five rfl rfl rfl rfl rfl]
  have hhead : (transport.senderReport now ++
      ([0x81, 202, 0, 6] ++ wordBytes transport.mSourceID ++ [1, 16])).length = 62 := rfl
  have hbytes := putAt_name hhead hrest (show transport.printedName.length ≤ 17 by omega)
  simp only [senderReport, nameField, printedName, List.append_assoc] at hbytes ⊢
  exact hbytes

theorem lostRecently_toNat (transport : RTPTransport) :
    transport.lostRecently.toNat = min transport.mInfo.nRcvdLost.toNat 255 := by
  have hlimit : (255 : UInt32).toNat = 255 := rfl
  rw [lostRecently]
  split
  · rename_i hover
    rw [gt_iff_lt, UInt32.lt_iff_toNat_lt] at hover
    omega
  · rename_i hover
    rw [gt_iff_lt, UInt32.lt_iff_toNat_lt] at hover
    omega

theorem lostTotal_toNat (transport : RTPTransport) :
    transport.lostTotal.toNat =
      min ((transport.mInfo.totalRcvdLost.toNat + transport.mInfo.nRcvdLost.toNat) % 4294967296)
        0xFFFFFF := by
  have hlimit : (0x00FFFFFF : UInt32).toNat = 0xFFFFFF := rfl
  have hsum : (transport.mInfo.totalRcvdLost + transport.mInfo.nRcvdLost).toNat =
      (transport.mInfo.totalRcvdLost.toNat + transport.mInfo.nRcvdLost.toNat) % 4294967296 :=
    UInt32.toNat_add _ _
  rw [lostTotal]
  split
  · rename_i hover
    rw [gt_iff_lt, UInt32.lt_iff_toNat_lt] at hover
    omega
  · rename_i hover
    rw [gt_iff_lt, UInt32.lt_iff_toNat_lt] at hover
    omega

/-- The two numbers in the loss word do not overlap. -/
theorem lossWord_toNat (transport : RTPTransport) :
    (transport.lostRecently <<< 24 ||| transport.lostTotal).toNat =
      transport.lostRecently.toNat * 16777216 + transport.lostTotal.toNat := by
  have hrecent := transport.lostRecently_toNat
  have htotal := transport.lostTotal_toNat
  have hfit : transport.lostRecently.toNat <<< 24 % 4294967296 =
      transport.lostRecently.toNat <<< 24 := by
    rw [Nat.shiftLeft_eq]
    omega
  rw [UInt32.toNat_or, UInt32.toNat_shiftLeft]
  exact (congrArg (· ||| transport.lostTotal.toNat) hfit).trans (shiftLeft_lor_eq (by omega))

theorem u64at_wordBytes (high low : UInt32) (rest : List UInt8) :
    (u64at (wordBytes high ++ (wordBytes low ++ rest))).toNat =
      high.toNat * 4294967296 + low.toNat := by
  have hhigh : u32at (wordBytes high ++ (wordBytes low ++ rest)) = high := u32at_wordBytes _ _
  have hlow : u32at ((wordBytes high ++ (wordBytes low ++ rest)).drop 4) = low :=
    u32at_wordBytes low rest
  rw [u64at, toNat_join64, hhigh, hlow]

end RTPTransport

/-- The range of a buffer is a datagram. -/
structure MetaBuffer.Carries (buffer : MetaBuffer) (datagram : List UInt8) : Prop where
  size : buffer.size = datagram.length
  bytes : buffer.bytes = datagram

theorem MetaBuffer.Carries.data {buffer : MetaBuffer} {datagram : List UInt8}
    (hcarries : buffer.Carries datagram) :
    buffer.data = datagram ++ buffer.data.drop datagram.length := by
  nth_rewrite 1 [← hcarries.bytes]
  rw [← hcarries.size, MetaBuffer.bytes, List.take_append_drop]

namespace RTPTransport

/-- A sender report with one block and a source description, in 80 bytes. -/
theorem parseRTCPLoop_report {body rest : List UInt8}
    (hbehind : (0x81 :: 200 :: 0 :: 12 :: body).drop 52 = 0x81 :: 202 :: 0 :: 6 :: rest)
    (clock : Nat → UInt64) (transport : RTPTransport) :
    parseRTCPLoop 80 clock transport (0x81 :: 200 :: 0 :: 12 :: body) 80 =
      (.noError, ({ transport with mInfo := { transport.mInfo with lastSR := clock 0 } }).notify
        (.rtcpTimeUpdate { ntpTime := u64at (body.drop 4), rtpTime := u32at (body.drop 12) }),
        [⟨200, 52, .noError⟩, ⟨202, 28, .noError⟩]) := by
  have hblocks : (7 + (byteAt (0x81 :: 200 :: 0 :: 12 :: body) 0 &&& 0x1f).toNat * 6) * 4 ≤ 52 :=
    show (7 + ((0x81 : UInt8) &&& 0x1f).toNat * 6) * 4 ≤ 52 by decide
  have hreport : transport.parsePacket (0x81 :: 200 :: 0 :: 12 :: body) 52 (clock 0) =
      transport.parseSR (0x81 :: 200 :: 0 :: 12 :: body) 52 (clock 0) := rfl
  have hother : ∀ peer : RTPTransport,
      peer.parsePacket (0x81 :: 202 :: 0 :: 6 :: rest) 28 (clock (0 + 1)) = (.noError, peer) :=
    fun _ => rfl
  rw [parseRTCPLoop_packet (by decide) (by decide) (show _ = 52 from rfl) (by omega) (by omega),
    hreport, parseSR_whole hblocks, hbehind,
    parseRTCPLoop_packet (by decide) (by decide) (show _ = 28 from rfl) (by omega) (by omega),
    hother, show 80 - 52 - 28 = 0 from rfl, parseRTCPLoop_nil]
  rfl

/-- The packets a transport makes of its own report: how it is accepted by every
other one, and what the loss word says. -/
structure ReportAccepted (transport : RTPTransport) (datagram : List UInt8) : Prop where
  length : datagram.length = 80
  parsed : ∀ (peer : RTPTransport) (received : MetaBuffer) (clock : Nat → UInt64),
    received.Carries datagram → ∃ peer' info,
      peer.parseRTCP received clock =
        (.noError, peer', [⟨200, 52, .noError⟩, ⟨202, 28, .noError⟩]) ∧
      peer'.notified = peer.notified ++ peer.firstNotice ++ [.rtcpTimeUpdate info] ∧
      info.ntpTime.toNat = transport.mLastNTPSec.toNat * 4294967296 + transport.mLastNTPUSec.toNat ∧
      info.rtpTime = transport.mLastRTPTime
  recent : (u32at (datagram.drop 32)).toNat / 16777216 = min transport.mInfo.nRcvdLost.toNat 255
  total : transport.mInfo.totalRcvdLost.toNat + transport.mInfo.nRcvdLost.toNat < 4294967296 →
    (u32at (datagram.drop 32)).toNat % 16777216 =
      min (transport.mInfo.totalRcvdLost.toNat + transport.mInfo.nRcvdLost.toNat) 0xFFFFFF

/-- The report of every transport is accepted by every transport. -/
theorem handleTimeout_accepted (transport : RTPTransport) (_buffer : Fin 88 → UInt8)
    (now : UInt64) : transport.ReportAccepted (transport.handleTimeout _buffer now).2 := by
  have hname := transport.length_nameField _buffer
  have hbytes := transport.handleTimeout_bytes _buffer now
  generalize transport.nameField _buffer = name at hname hbytes
  have hrecent := transport.lostRecently_toNat
  have htotal := transport.lostTotal_toNat
  have hword : (u32at ((transport.handleTimeout _buffer now).2.drop 32)).toNat =
      transport.lostRecently.toNat * 16777216 + transport.lostTotal.toNat := by
    rw [hbytes, ← lossWord_toNat]
    exact congrArg UInt32.toNat (u32at_wordBytes _ _)
  have hlength : (transport.handleTimeout _buffer now).2.length = 80 := by
    rw [hbytes]
    simp only [List.length_append, hname]
    rfl
  refine ⟨hlength, ?_, by omega, by omega⟩
  intro peer received clock hcarries
  have hsize : received.size = 80 := hcarries.size.trans hlength
  let rest := wordBytes transport.mSourceID ++ [1, 16] ++ name ++ received.data.drop 80
  have hdata : received.data = transport.senderReport now ++ (0x81 :: 202 :: 0 :: 6 :: rest) := by
    have hsplit := hcarries.data
    rw [hlength, hbytes] at hsplit
    rw [hsplit]
    simp only [rest, List.append_assoc, List.cons_append, List.nil_append]
  have hbehind : (transport.senderReport now ++ (0x81 :: 202 :: 0 :: 6 :: rest)).drop 52 =
      0x81 :: 202 :: 0 :: 6 :: rest :=
    List.drop_left' (show (transport.senderReport now).length = 52 from rfl)
  obtain ⟨body, hbody, hreport⟩ : ∃ body,
      body = wordBytes transport.mSourceID ++ (wordBytes transport.mLastNTPSec ++
        (wordBytes transport.mLastNTPUSec ++ (wordBytes transport.mLastRTPTime ++ body.drop 16))) ∧
      transport.senderReport now ++ (0x81 :: 202 :: 0 :: 6 :: rest) =
        0x81 :: 200 :: 0 :: 12 :: body := ⟨_, rfl, rfl⟩
  rw [hreport] at hdata hbehind
  have hntp : (u64at (body.drop 4)).toNat =
      transport.mLastNTPSec.toNat * 4294967296 + transport.mLastNTPUSec.toNat := by
    rw [hbody]
    exact u64at_wordBytes _ _ _
  have hrtp : u32at (body.drop 12) = transport.mLastRTPTime := by
    rw [hbody]
    exact u32at_wordBytes _ _
  rw [parseRTCP, hsize, hdata, parseRTCPLoop_report hbehind]
  refine ⟨_, ⟨u32at (body.drop 12), u64at (body.drop 4)⟩, rfl, ?_, hntp, hrtp⟩
  rw [← countRTCP_notified]
  rfl

end RTPTransport

end McuProxy.Net

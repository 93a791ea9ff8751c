/-
# RTP packets

`RTPTransport` writes a fixed header of twelve bytes in front of the payload it
sends, and reads the general RTP header, with padding, contributing sources and an
extension, from what it receives. The two are written independently, byte by byte;
here they are shown to agree on every packet this transport sends.

The clock is an input: `getApartNTPNow` scales microseconds in floating point, so
its two words are taken as given. Signed arithmetic wraps. The result of `sendto`
is not looked at by `doSend`; what is modelled is the datagram it is given.
-/

import McuProxy.Math.BigEndian
import McuProxy.Net.MetaBuffer

namespace McuProxy.Net

open McuProxy.Math

/-- A byte of a buffer, by its distance from `data()`. -/
def byteAt (data : List UInt8) (i : Nat) : UInt8 := data.getD i 0

def u16at (data : List UInt8) : UInt16 :=
  (byteAt data 0).toUInt16 <<< 8 ||| (byteAt data 1).toUInt16

def u32at (data : List UInt8) : UInt32 :=
  (u16at data).toUInt32 <<< 16 ||| (u16at (data.drop 2)).toUInt32

def u64at (data : List UInt8) : UInt64 :=
  (u32at data).toUInt64 <<< 32 ||| (u32at (data.drop 4)).toUInt64

/-- `IRTPNotify::timeInfo`. -/
structure TimeInfo where
  rtpTime : UInt32
  ntpTime : UInt64
  deriving DecidableEq

/-- The messages passed to `notify`, with what their parameter points to. -/
inductive RTPMessage
  | rtpFirstPacket (rtpTime : UInt32)
  | rtcpFirstPacket
  | rtcpTimeUpdate (info : TimeInfo)
  | rtcpEndOfStream
  deriving DecidableEq

/-- The words of `getApartNTPNow`. -/
structure NtpTime where
  sec : UInt32
  usec : UInt32
  deriving DecidableEq

/-- `mInfo`, without the counters that no function reads or writes. -/
structure TransportInfo where
  nRTPSent : UInt32
  nRTPOctetsSent : UInt32
  nRcvdLost : UInt32
  rcvdSourceId : UInt32
  rcvdMaxSeqNum : UInt32
  rcvdRTP : UInt32
  rcvdRTCP : UInt32
  totalRcvdLost : UInt32
  lastSR : UInt64
  deriving DecidableEq

/-- The part of `RTPTransport` that its packets depend on. `mHostAddr` is the
address in it, and `notified` lists the calls of `notify` so far. -/
structure RTPTransport where
  firstRTP : Bool
  mHostAddr : UInt32
  mInfo : TransportInfo
  mSourceID : UInt32
  mSeqNo : UInt32
  mRTPTimeBase : UInt32
  mLastRTPTime : UInt32
  mLastNTPSec : UInt32
  mLastNTPUSec : UInt32
  mPType : UInt8
  notified : List RTPMessage
  deriving DecidableEq

namespace RTPTransport

def notify (transport : RTPTransport) (msg : RTPMessage) : RTPTransport :=
  { transport with notified := transport.notified ++ [msg] }

/-- The time written into a packet. -/
def rtpTimeOf (transport : RTPTransport) (timeUs : Int64) (video : Bool) : UInt32 :=
  if video then (transport.mRTPTimeBase.toUInt64.toInt64 + timeUs * 90).toUInt64.toUInt32
  else timeUs.toUInt64.toUInt32

/-- The header written into a packet. -/
def rtpHeader (transport : RTPTransport) (rtpTime : UInt32) (marker : Bool) : List UInt8 :=
  [0x80, (if marker then 0x80 else 0x00) ||| transport.mPType,
    ((transport.mSeqNo >>> 8) &&& 0xff).toUInt8, (transport.mSeqNo &&& 0xff).toUInt8] ++
    wordBytes rtpTime ++ wordBytes transport.mSourceID

/-- `doSend`: the transport and the buffer it leaves, and the datagram given to
`sendto`. -/
def doSend (transport : RTPTransport) (buffer : MetaBuffer) (timeUs : Int64)
    (video marker : Bool) (now : NtpTime) :
    Option (RTPTransport × MetaBuffer × Option (List UInt8)) :=
  let rtpTime := transport.rtpTimeOf timeUs video
  let stamped (transport : RTPTransport) : RTPTransport :=
    { transport with mLastRTPTime := rtpTime, mLastNTPSec := now.sec, mLastNTPUSec := now.usec }
  if 12 ≤ buffer.capacity then
    (buffer.write (transport.rtpHeader rtpTime marker)).map fun buffer =>
      (stamped { transport with
        mSeqNo := transport.mSeqNo + 1
        mInfo := { transport.mInfo with
          nRTPSent := transport.mInfo.nRTPSent + 1
          nRTPOctetsSent :=
            transport.mInfo.nRTPOctetsSent + (UInt32.ofNat buffer.size - 12) } },
        buffer, some buffer.bytes)
  else some (stamped transport, buffer, none)

/-- The check of the padding bit, which the two parsers share: the size without
the padding, or nothing if less than a header would be left. -/
def stripPadding (minimum : Nat) (data : List UInt8) (size : Nat) : Option Nat :=
  if byteAt data 0 &&& 0x20 ≠ 0 then
    let paddingLength := (byteAt data (size - 1)).toNat
    if paddingLength + minimum > size then none else some (size - paddingLength)
  else some size

/-- The end of the header extension, if there is one and all of it is there. -/
def skipExtension (data : List UInt8) (size payloadOffset : Nat) : Option Nat :=
  if byteAt data 0 &&& 0x10 ≠ 0 then
    if size < payloadOffset + 4 then none
    else
      let extensionLength := 4 * (u16at (data.drop (payloadOffset + 2))).toNat
      if size < payloadOffset + 4 + extensionLength then none
      else some (payloadOffset + 4 + extensionLength)
  else some payloadOffset

/-- The checks of `parseRTP`: the offset of the payload and the size up to its
end. -/
def payloadRange (data : List UInt8) (size : Nat) : Option (Nat × Nat) :=
  if size < 12 then none
  else if byteAt data 0 >>> 6 ≠ 2 then none
  else
    (stripPadding 12 data size).bind fun size =>
      let payloadOffset := 12 + 4 * (byteAt data 0 &&& 0x0f).toNat
      if size < payloadOffset then none
      else (skipExtension data size payloadOffset).map fun payloadOffset => (payloadOffset, size)

/-- The metadata `parseRTP` puts into the buffer. -/
def tagPacket (buffer : MetaBuffer) (ssrc rtpTime : UInt32) (second : UInt8) :
    Option MetaBuffer :=
  (buffer.setInt32 "ssrc" ssrc.toInt32).bind fun buffer =>
    (buffer.setInt32 "rtp-time" rtpTime.toInt32).bind fun buffer =>
      (buffer.setInt32 "PT" (second &&& 0x7f).toUInt32.toInt32).bind fun buffer =>
        buffer.setInt32 "M" (second >>> 7).toUInt32.toInt32

def parseRTP (transport : RTPTransport) (buffer : MetaBuffer) :
    Option (Status × RTPTransport × MetaBuffer) :=
  let transport := { transport with
    mInfo := { transport.mInfo with rcvdRTP := transport.mInfo.rcvdRTP + 1 } }
  let data := buffer.data
  match payloadRange data buffer.size with
  | none => some (.unknownError, transport, buffer)
  | some (payloadOffset, size) =>
      let rcvdSourceId := u32at (data.drop 8)
      let rtpTime := u32at (data.drop 4)
      let transport := { transport with
        mInfo := { transport.mInfo with rcvdSourceId := rcvdSourceId } }
      (tagPacket buffer rcvdSourceId rtpTime (byteAt data 1)).map fun buffer =>
        let buffer := buffer.setQuickData (u16at (data.drop 2)).toUInt32
        let buffer := buffer.setRange payloadOffset (size - payloadOffset)
        let transport :=
          if transport.firstRTP then
            { transport.notify (.rtpFirstPacket rtpTime) with firstRTP := false }
          else transport
        (.noError, transport, buffer)

end RTPTransport

/-- `udpTransport::receive` once a datagram is there: `recvfrom` cuts it to the
capacity of the buffer. -/
def receiveDatagram (buffer : MetaBuffer) (datagram : List UInt8) : Option MetaBuffer :=
  let received := datagram.take buffer.capacity
  (buffer.write received).map fun buffer => buffer.setRange 0 received.length

theorem u32at_wordBytes (word : UInt32) (rest : List UInt8) :
    u32at (wordBytes word ++ rest) = word :=
  join_wordBytes rfl

/-- The sequence number of a packet is the low half of the counter. -/
theorem u16at_seqNo (seqNo : UInt32) (rest : List UInt8) :
    (u16at (((seqNo >>> 8) &&& 0xff).toUInt8 :: (seqNo &&& 0xff).toUInt8 :: rest)).toNat =
      seqNo.toNat % 65536 := by
  have hdigits := wordBytes_toNat seqNo
  simp only [wordBytes, List.map_cons, List.cons.injEq] at hdigits
  obtain ⟨-, -, hhigh, hlow, -⟩ := hdigits
  rw [u16at, toNat_join16]
  simp only [byteAt, List.getD_cons_zero, List.getD_cons_succ, hhigh, hlow]
  omega

/-- Truncation of a signed number to 32 bits is the remainder. -/
theorem toNat_truncate (value : Int64) :
    (value.toUInt64.toUInt32.toNat : Int) = value.toInt % 4294967296 := by
  have hvalue : value.toInt = Int.bmod value.toUInt64.toNat (2 ^ 64) :=
    BitVec.toInt_eq_toNat_bmod value.toBitVec
  rw [hvalue, UInt64.toNat_toUInt32, Int.bmod_def]
  split <;> omega

/-- The second byte of the header holds the marker and the payload type. -/
theorem second_byte {ptype : UInt8} (hptype : ptype ≤ 127) (marker : Bool) :
    ((if marker then 0x80 else 0x00) ||| ptype) &&& 0x7f = ptype ∧
      ((if marker then 0x80 else 0x00) ||| ptype) >>> 7 = if marker then 1 else 0 := by
  have hall : ∀ n : Fin 128,
      ((if marker then 0x80 else 0x00) ||| UInt8.ofNat n) &&& 0x7f = UInt8.ofNat n ∧
        ((if marker then 0x80 else 0x00) ||| UInt8.ofNat n) >>> 7 = if marker then 1 else 0 := by
    cases marker <;> decide +kernel
  have hlt : ptype.toNat < 128 := Nat.lt_succ_of_le (UInt8.le_iff_toNat_le.mp hptype)
  simpa using hall ⟨ptype.toNat, hlt⟩

namespace RTPTransport

/-- The time of a packet, for every time given to `doSend`. -/
theorem rtpTimeOf_toNat (transport : RTPTransport) (timeUs : Int64) (video : Bool) :
    ((transport.rtpTimeOf timeUs video).toNat : Int) =
      (if video then transport.mRTPTimeBase.toNat + 90 * timeUs.toInt else timeUs.toInt) %
        4294967296 := by
  cases video with
  | false => exact toNat_truncate timeUs
  | true =>
      have hbase : transport.mRTPTimeBase.toUInt64.toInt64.toInt =
        transport.mRTPTimeBase.toNat := by
        have hlt := transport.mRTPTimeBase.toNat_lt
        have hsigned : transport.mRTPTimeBase.toUInt64.toInt64.toInt =
            Int.bmod transport.mRTPTimeBase.toUInt64.toNat (2 ^ 64) :=
          BitVec.toInt_eq_toNat_bmod _
        rw [hsigned, UInt32.toNat_toUInt64, Int.bmod_def]
        split <;> omega
      have hscale : (90 : Int64).toInt = 90 := by decide
      simp only [rtpTimeOf, if_true]
      rw [toNat_truncate, Int64.toInt_add, Int64.toInt_mul, hbase, hscale]
      simp only [Int.bmod_def]
      split <;> split <;> omega

/-- The arguments of a call of `doSend`, with the clock it reads. -/
structure SendCall where
  buffer : MetaBuffer
  timeUs : Int64
  video : Bool
  marker : Bool
  now : NtpTime
  deriving DecidableEq

/-- The buffer of a call has room for a header, and its range is the front part
of the block. -/
def SendCall.Sendable (call : SendCall) : Prop :=
  call.buffer.mRangeOffset = 0 ∧ 12 ≤ call.buffer.size ∧ call.buffer.size ≤ call.buffer.capacity

instance (call : SendCall) : Decidable call.Sendable := inferInstanceAs (Decidable (_ ∧ _))

/-- A sequence of calls of `doSend` and the datagrams it sends. -/
def sendAll : RTPTransport → List SendCall → Option (RTPTransport × List (List UInt8))
  | transport, [] => some (transport, [])
  | transport, call :: calls =>
      (transport.doSend call.buffer call.timeUs call.video call.marker call.now).bind
        fun (transport, _, sent) =>
          (sendAll transport calls).map fun (transport, datagrams) =>
            (transport, sent.toList ++ datagrams)

/-- The header and the payload of a call. -/
def packetOf (transport : RTPTransport) (call : SendCall) : List UInt8 :=
  transport.rtpHeader (transport.rtpTimeOf call.timeUs call.video) call.marker ++
    call.buffer.bytes.drop 12

/-- What `doSend` keeps of the fields that the header is written from. -/
structure SameStream (transport sent : RTPTransport) : Prop where
  source : sent.mSourceID = transport.mSourceID
  ptype : sent.mPType = transport.mPType
  base : sent.mRTPTimeBase = transport.mRTPTimeBase

/-- `doSend` sends the header and the payload that was in the buffer, and counts. -/
theorem doSend_spec (transport : RTPTransport) {call : SendCall} (hsendable : call.Sendable) :
    ∃ sent buffer, transport.doSend call.buffer call.timeUs call.video call.marker call.now =
        some (sent, buffer, some (transport.packetOf call)) ∧
      SameStream transport sent ∧ sent.mSeqNo = transport.mSeqNo + 1 := by
  obtain ⟨hoffset, hsize, hfit⟩ := hsendable
  let header := transport.rtpHeader (transport.rtpTimeOf call.timeUs call.video) call.marker
  have hheader : header.length = 12 := rfl
  have hroom : call.buffer.mRangeOffset + header.length ≤ call.buffer.capacity := by
    rw [hoffset, hheader]
    omega
  obtain ⟨written, hwritten⟩ : ∃ written, call.buffer.write header = some written :=
    ⟨_, if_pos hroom⟩
  obtain ⟨hdata, -, -, hlength, -⟩ := MetaBuffer.data_write hwritten
  have hbytes : written.bytes = transport.packetOf call := by
    have htake : call.buffer.size = header.length + (call.buffer.size - 12) := by
      rw [hheader]
      omega
    rw [MetaBuffer.bytes, hdata, MetaBuffer.size, hlength, ← MetaBuffer.size, htake,
      List.take_length_add_append, packetOf, MetaBuffer.bytes, List.drop_take]
    rfl
  have hcapacity : 12 ≤ call.buffer.capacity := hsize.trans hfit
  simp only [header] at hwritten
  simp only [doSend, if_pos hcapacity, hwritten, Option.map_some, hbytes, Option.some.injEq,
    Prod.mk.injEq]
  exact ⟨_, written, ⟨rfl, rfl, trivial⟩, ⟨rfl, rfl, rfl⟩, rfl⟩

end RTPTransport

/-- A receiving buffer that holds a datagram, with room for the metadata of
`parseRTP`. -/
structure MetaBuffer.Holds (buffer : MetaBuffer) (datagram : List UInt8) : Prop where
  offset : buffer.mRangeOffset = 0
  size : buffer.size = datagram.length
  bytes : buffer.bytes = datagram
  room : buffer.mItems.length ≤ 8

/-- A buffer as `RTPTransport::receive` creates it holds the datagram it receives,
if the datagram fits. -/
theorem receiveDatagram_holds {junk datagram : List UInt8} (hfit : datagram.length ≤ junk.length) :
    ∃ buffer, receiveDatagram (MetaBuffer.create junk) datagram = some buffer ∧
      buffer.Holds datagram := by
  have hwhole : datagram.take junk.length = datagram := List.take_of_length_le hfit
  obtain ⟨written, hwritten⟩ : ∃ written, (MetaBuffer.create junk).write datagram = some written :=
    ⟨_, if_pos (by simpa [MetaBuffer.create, MetaBuffer.capacity] using hfit)⟩
  obtain ⟨hdata, -, hoffset, -, hitems⟩ := MetaBuffer.data_write hwritten
  refine ⟨written.setRange 0 datagram.length, ?_, rfl, rfl, ?_, ?_⟩
  · rw [receiveDatagram]
    simp only [MetaBuffer.capacity, MetaBuffer.create] at hwritten ⊢
    rw [hwhole, hwritten]
    rfl
  · have hsame : (written.setRange 0 datagram.length).data = written.data := by
      rw [MetaBuffer.data, MetaBuffer.data, hoffset]
      rfl
    rw [MetaBuffer.bytes, hsame, hdata]
    exact List.take_left
  · rw [MetaBuffer.setRange, hitems]
    exact Nat.zero_le 8

/-- A parsed packet: its metadata, its number and the range of its payload. -/
structure MetaBuffer.Parsed (buffer : MetaBuffer) (ssrc rtpTime : UInt32) (ptype : UInt8)
    (marker : Bool) (seqNo : Nat) (payload : List UInt8) : Prop where
  ssrc : buffer.findInt32 "ssrc" = some ssrc.toInt32
  rtpTime : buffer.findInt32 "rtp-time" = some rtpTime.toInt32
  ptype : buffer.findInt32 "PT" = some ptype.toUInt32.toInt32
  marker : buffer.findInt32 "M" = some (if marker then 1 else 0)
  quickData : buffer.mQuickData.toNat = seqNo
  payload : buffer.bytes = payload

namespace RTPTransport

/-- The metadata of a packet goes into a buffer that has room for four values,
and each value is found under its name. -/
theorem tagPacket_spec {buffer : MetaBuffer} (hroom : buffer.mItems.length ≤ 8)
    (ssrc rtpTime : UInt32) (second : UInt8) :
    ∃ tagged, tagPacket buffer ssrc rtpTime second = some tagged ∧
      tagged.findInt32 "ssrc" = some ssrc.toInt32 ∧
      tagged.findInt32 "rtp-time" = some rtpTime.toInt32 ∧
      tagged.findInt32 "PT" = some (second &&& 0x7f).toUInt32.toInt32 ∧
      tagged.findInt32 "M" = some (second >>> 7).toUInt32.toInt32 ∧
      tagged.mData = buffer.mData := by
  have hlimit : MetaBuffer.kMaxNumItems = 12 := rfl
  obtain ⟨first, hfirst, htag₁⟩ := buffer.exists_setInt32 (by omega) "ssrc" ssrc.toInt32
  have hitems₁ := htag₁.items
  obtain ⟨next, hnext, htag₂⟩ := first.exists_setInt32 (by omega) "rtp-time" rtpTime.toInt32
  have hitems₂ := htag₂.items
  obtain ⟨third, hthird, htag₃⟩ :=
    next.exists_setInt32 (by omega) "PT" (second &&& 0x7f).toUInt32.toInt32
  have hitems₃ := htag₃.items
  obtain ⟨tagged, htagged, htag₄⟩ :=
    third.exists_setInt32 (by omega) "M" (second >>> 7).toUInt32.toInt32
  refine ⟨tagged, ?_, ?_, ?_, ?_, ?_, ?_⟩
  · simp only [tagPacket, hfirst, hnext, hthird, Option.bind_some, htagged]
  · rw [MetaBuffer.findInt32, htag₄.others "ssrc" (by decide), htag₃.others "ssrc" (by decide),
      htag₂.others "ssrc" (by decide), htag₁.same]
  · rw [MetaBuffer.findInt32, htag₄.others "rtp-time" (by decide),
      htag₃.others "rtp-time" (by decide), htag₂.same]
  · rw [MetaBuffer.findInt32, htag₄.others "PT" (by decide), htag₃.same]
  · rw [MetaBuffer.findInt32, htag₄.same]
  · rw [htag₄.data, htag₃.data, htag₂.data, htag₁.data]

/-- A packet whose first byte announces neither padding nor sources nor an
extension has its payload behind the twelve bytes. -/
theorem payloadRange_plain {data : List UInt8} {size : Nat} (hfirst : byteAt data 0 = 0x80)
    (hsize : 12 ≤ size) : payloadRange data size = some (12, size) := by
  have hpadding : stripPadding 12 data size = some size := by
    rw [stripPadding, hfirst]
    rfl
  have hextension : skipExtension data size 12 = some 12 := by
    rw [skipExtension, hfirst]
    rfl
  have hsources : 12 + 4 * (byteAt data 0 &&& 0x0f).toNat = 12 := by
    rw [hfirst]
    rfl
  have hversion : ¬ byteAt data 0 >>> 6 ≠ 2 := by
    rw [hfirst]
    decide
  rw [payloadRange, if_neg (by omega), if_neg hversion, hpadding, Option.bind_some]
  simp only [hsources]
  rw [if_neg (by omega), hextension]
  rfl

/-- Any transport parses a packet of any other one. -/
theorem parseRTP_packet (peer transport : RTPTransport) (hptype : transport.mPType ≤ 127)
    (rtpTime : UInt32) (marker : Bool) (payload : List UInt8) {received : MetaBuffer}
    (hholds : received.Holds (transport.rtpHeader rtpTime marker ++ payload)) :
    ∃ peer' parsed, peer.parseRTP received = some (.noError, peer', parsed) ∧
      parsed.Parsed transport.mSourceID rtpTime transport.mPType marker
        (transport.mSeqNo.toNat % 65536) payload := by
  obtain ⟨hoffset, hsize, hbytes, hroom⟩ := hholds
  have hheader : (transport.rtpHeader rtpTime marker).length = 12 := rfl
  have hlength : received.size = 12 + payload.length := by
    rw [hsize, List.length_append, hheader]
  -- The range, and what lies behind it in the block.
  have hdata : received.data =
      transport.rtpHeader rtpTime marker ++ payload ++ received.data.drop received.size := by
    rw [← hbytes, MetaBuffer.bytes, List.take_append_drop]
  have hssrc : u32at (received.data.drop 8) = transport.mSourceID := by
    rw [hdata]
    exact u32at_wordBytes transport.mSourceID _
  have htime : u32at (received.data.drop 4) = rtpTime := by
    rw [hdata]
    exact u32at_wordBytes rtpTime _
  have hseq : (u16at (received.data.drop 2)).toNat = transport.mSeqNo.toNat % 65536 := by
    rw [hdata]
    exact u16at_seqNo transport.mSeqNo _
  have hfirst : byteAt received.data 0 = 0x80 := by
    rw [hdata]
    rfl
  have hsecond : byteAt received.data 1 =
      (if marker then 0x80 else 0x00) ||| transport.mPType := by
    rw [hdata]
    rfl
  obtain ⟨tagged, htagged, hfindSsrc, hfindTime, hfindType, hfindMarker, hkept⟩ :=
    tagPacket_spec hroom transport.mSourceID rtpTime (byteAt received.data 1)
  obtain ⟨htypeBits, hmarkerBit⟩ := second_byte hptype marker
  rw [hsecond, htypeBits] at hfindType
  rw [hsecond, hmarkerBit] at hfindMarker
  simp only [parseRTP, payloadRange_plain hfirst (show 12 ≤ received.size by omega), hssrc, htime,
    htagged, Option.map_some, Option.some.injEq, Prod.mk.injEq, true_and]
  refine ⟨_, _, ⟨rfl, rfl⟩, hfindSsrc, hfindTime, hfindType, ?_, ?_, ?_⟩
  · refine hfindMarker.trans ?_
    cases marker <;> rfl
  · exact (UInt16.toNat_toUInt32 _).trans hseq
  · -- The range starts behind the header of the block, which was not moved.
    have hblock : tagged.mData = received.data := by
      rw [hkept, MetaBuffer.data, hoffset, List.drop_zero]
    show (tagged.mData.drop 12).take (received.size - 12) = payload
    rw [hblock, hdata, hlength, List.append_assoc, List.drop_left' hheader]
    exact List.take_left' (by omega)

/-- Every call sends a datagram, and a buffer that has received the datagram of
the `i`-th call is parsed, by any transport, into the header fields of that call
and the payload that was in its buffer. The packets are numbered one after the
other, modulo `2 ^ 16`. -/
def RoundTrips (transport : RTPTransport) (calls : List SendCall) : Prop :=
  ∃ final datagrams, transport.sendAll calls = some (final, datagrams) ∧
    datagrams.length = calls.length ∧
    ∀ (i : Nat) call datagram, calls[i]? = some call → datagrams[i]? = some datagram →
      ∀ (peer : RTPTransport) (received : MetaBuffer), received.Holds datagram →
        ∃ rtpTime peer' parsed, peer.parseRTP received = some (.noError, peer', parsed) ∧
          (rtpTime.toNat : Int) =
            (if call.video then transport.mRTPTimeBase.toNat + 90 * call.timeUs.toInt
              else call.timeUs.toInt) % 4294967296 ∧
          parsed.Parsed transport.mSourceID rtpTime transport.mPType call.marker
            ((transport.mSeqNo.toNat + i) % 65536) (call.buffer.bytes.drop 12)

/-- What was sent is what is parsed, for every sequence of calls of `doSend`. -/
theorem sendAll_roundTrips (transport : RTPTransport) (hptype : transport.mPType ≤ 127)
    (calls : List SendCall) (hcalls : ∀ call ∈ calls, call.Sendable) :
    transport.RoundTrips calls := by
  induction calls generalizing transport with
  | nil => exact ⟨transport, [], rfl, rfl, by simp⟩
  | cons first calls ih =>
      obtain ⟨sent, buffer, hsend, hstream, hseq⟩ :=
        doSend_spec transport (hcalls first List.mem_cons_self)
      obtain ⟨final, datagrams, hrun, hlength, hparse⟩ :=
        ih sent (hstream.ptype ▸ hptype)
          fun call hcall => hcalls call (List.mem_cons_of_mem _ hcall)
      refine ⟨final, transport.packetOf first :: datagrams, ?_, congrArg Nat.succ hlength, ?_⟩
      · rw [sendAll, hsend, Option.bind_some]
        simp only [hrun, Option.map_some]
        rfl
      · intro i call datagram hcall hdatagram peer received hholds
        cases i with
        | zero =>
            obtain rfl : first = call := Option.some.inj hcall
            obtain rfl := Option.some.inj hdatagram
            obtain ⟨peer', parsed, hparsed, hfields⟩ :=
              parseRTP_packet peer transport hptype _ _ _ hholds
            exact ⟨_, peer', parsed, hparsed, transport.rtpTimeOf_toNat _ _, hfields⟩
        | succ i =>
            rw [List.getElem?_cons_succ] at hcall hdatagram
            obtain ⟨rtpTime, peer', parsed, hparsed, htime, hfields⟩ :=
              hparse i call datagram hcall hdatagram peer received hholds
            have hnumber : (sent.mSeqNo.toNat + i) % 65536 =
                (transport.mSeqNo.toNat + (i + 1)) % 65536 := by
              rw [hseq, UInt32.toNat_add]
              have hone : (1 : UInt32).toNat = 1 := rfl
              omega
            rw [hstream.base] at htime
            rw [hstream.source, hstream.ptype, hnumber] at hfields
            exact ⟨rtpTime, peer', parsed, hparsed, htime, hfields⟩

/-- A video packet and an audio packet of negative time, around the wrap of the
16-bit sequence number. -/
theorem sendAll_roundTrips_at_wrap :
    let transport : RTPTransport :=
      ⟨true, 0, ⟨0, 0, 0, 0, 0, 0, 0, 0, 0⟩, 0xCAFEBABE, 0x1FFFF, 0xFFFFFFF0, 0, 0, 0, 96, []⟩
    let buffer : MetaBuffer := ⟨List.replicate 20 7, 0, 16, 0, []⟩
    let calls : List SendCall :=
      [⟨buffer, 1, true, true, ⟨0, 0⟩⟩, ⟨buffer, -1, false, false, ⟨0, 0⟩⟩]
    (transport.sendAll calls).map Prod.snd =
        some [[0x80, 0xE0, 0xFF, 0xFF, 0, 0, 0, 0x4A, 0xCA, 0xFE, 0xBA, 0xBE, 7, 7, 7, 7],
          [0x80, 0x60, 0, 0, 0xFF, 0xFF, 0xFF, 0xFF, 0xCA, 0xFE, 0xBA, 0xBE, 7, 7, 7, 7]] ∧
      transport.RoundTrips calls :=
  ⟨by decide +kernel, sendAll_roundTrips _ (by decide) _ (by decide)⟩

end RTPTransport

end McuProxy.Net

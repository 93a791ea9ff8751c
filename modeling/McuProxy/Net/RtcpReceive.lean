/-
# Receiving RTCP

`handleRTCP` lets the socket of the reports fill a fresh buffer and parses what the
buffer holds, as the receiving of RTP does, and drops the results of both. What a
datagram does is spread over the loop and the two parsers it calls: a sender report
changes the time of the last report before its size is checked, and the source of a
datagram becomes the target of the own reports before the datagram is looked at.

Which packets the loop reaches depends on the bytes alone. The loop is therefore
split: a walk lists the packets, and their parsers are then applied in order.
-/

import McuProxy.Net.RtpReceive

namespace McuProxy.Net

open McuProxy.Math

/-- A packet that the loop of `parseRTCP` reaches: the bytes from its start on, and
its declared length. -/
structure Reached where
  data : List UInt8
  length : Nat

namespace Reached

def type (packet : Reached) : UInt8 := byteAt packet.data 1

/-- The packet is a sender report. -/
def IsReport (packet : Reached) : Prop := packet.type = 200

/-- A sender report that is as long as its count says. -/
def WholeReport (packet : Reached) : Prop :=
  packet.type = 200 ∧ (7 + (byteAt packet.data 0 &&& 0x1f).toNat * 6) * 4 ≤ packet.length

/-- A goodbye of at least one source that is as long as its count says. -/
def WholeGoodbye (packet : Reached) : Prop :=
  packet.type = 203 ∧ (byteAt packet.data 0 &&& 0x3f).toNat ≠ 0 ∧
    4 + (byteAt packet.data 0 &&& 0x3f).toNat * 4 ≤ packet.length

instance (packet : Reached) : Decidable packet.IsReport := inferInstanceAs (Decidable (_ = _))

instance (packet : Reached) : Decidable packet.WholeReport := inferInstanceAs (Decidable (_ ∧ _))

instance (packet : Reached) : Decidable packet.WholeGoodbye := inferInstanceAs (Decidable (_ ∧ _))

/-- The messages that the packet raises. -/
def messages (packet : Reached) : List RTPMessage :=
  if packet.WholeReport then
    [.rtcpTimeUpdate
      { ntpTime := u64at (packet.data.drop 8), rtpTime := u32at (packet.data.drop 16) }]
  else if packet.WholeGoodbye then [.rtcpEndOfStream]
  else []

end Reached

namespace RTPTransport

/-- The packets that the loop reaches, and whether they make up all of the
datagram. -/
def walk : Nat → List UInt8 → Nat → List Reached × Bool
  | 0, _, _ => ([], true)
  | fuel + 1, data, size =>
      if size = 0 then ([], true)
      else
        match nextPacket data size with
        | none => ([], false)
        | some (headerLength, rest) =>
            let others := walk fuel (data.drop headerLength) rest
            (⟨data, headerLength⟩ :: others.1, others.2)

/-- What their parsers make of the packets, in order. -/
def handleAll : (Nat → UInt64) → RTPTransport → List Reached → RTPTransport × List Visit
  | _, transport, [] => (transport, [])
  | clock, transport, packet :: packets =>
      let handled := transport.parsePacket packet.data packet.length (clock 0)
      let others := handleAll (fun turn => clock (turn + 1)) handled.2 packets
      (others.1, ⟨packet.type, packet.length, handled.1⟩ :: others.2)

/-- The loop is the walk, with the packets handled in order. -/
theorem parseRTCPLoop_eq_walk (fuel : Nat) (clock : Nat → UInt64) (transport : RTPTransport)
    (data : List UInt8) (size : Nat) :
    parseRTCPLoop fuel clock transport data size =
      (if (walk fuel data size).2 then .noError else .minusOne,
        handleAll clock transport (walk fuel data size).1) := by
  induction fuel generalizing clock transport data size with
  | zero => rfl
  | succ fuel ih =>
      rw [parseRTCPLoop_succ, walk]
      by_cases hempty : size = 0
      · rw [if_pos hempty, if_pos hempty]
        rfl
      · rw [if_neg hempty, if_neg hempty]
        cases nextPacket data size with
        | none => rfl
        | some packet =>
            simp only [ih]
            rfl

/-- What handling a packet does to the time of the last report and to the messages,
and when the parser of a report succeeds. -/
structure Handles (transport : RTPTransport) (packet : Reached) (now : UInt64)
    (handled : Status × RTPTransport) : Prop where
  lastSR : handled.2.mInfo.lastSR = if packet.IsReport then now else transport.mInfo.lastSR
  notified : handled.2.notified = transport.notified ++ packet.messages
  status : packet.IsReport → (handled.1 = .noError ↔ packet.WholeReport)

/-- The time is taken before the size is checked. -/
theorem parseSR_handles (transport : RTPTransport) {packet : Reached} (hreport : packet.IsReport)
    (now : UInt64) :
    Handles transport packet now (transport.parseSR packet.data packet.length now) := by
  have hgoodbye : ¬ packet.WholeGoodbye := fun hbye =>
    absurd (hreport.symm.trans hbye.1) (by decide)
  rw [parseSR]
  by_cases hwhole : packet.WholeReport
  · have hsize : ¬ packet.length < (7 + (byteAt packet.data 0 &&& 0x1f).toNat * 6) * 4 :=
      not_lt.mpr hwhole.2
    rw [if_neg hsize]
    refine ⟨(if_pos hreport).symm, ?_, fun _ => by simp [hwhole]⟩
    rw [Reached.messages, if_pos hwhole]
    rfl
  · have hsize : packet.length < (7 + (byteAt packet.data 0 &&& 0x1f).toNat * 6) * 4 :=
      not_le.mp fun hlong => hwhole ⟨hreport, hlong⟩
    rw [if_pos hsize]
    refine ⟨(if_pos hreport).symm, ?_, fun _ => by simp [hwhole]⟩
    rw [Reached.messages, if_neg hwhole, if_neg hgoodbye, List.append_nil]

theorem parseBYE_handles (transport : RTPTransport) {packet : Reached} (hbye : packet.type = 203)
    (now : UInt64) :
    Handles transport packet now (transport.parseBYE packet.data packet.length) := by
  have hreport : ¬ packet.IsReport := fun his => absurd (hbye.symm.trans his) (by decide)
  have hwholeReport : ¬ packet.WholeReport := fun hwhole => hreport hwhole.1
  rw [parseBYE]
  by_cases hwhole : packet.WholeGoodbye
  · have hsize : ¬ ((byteAt packet.data 0 &&& 0x3f).toNat = 0 ∨
        packet.length < 4 + (byteAt packet.data 0 &&& 0x3f).toNat * 4) := by
      have hcount := hwhole.2
      omega
    rw [if_neg hsize]
    refine ⟨(if_neg hreport).symm, ?_, fun his => absurd his hreport⟩
    rw [Reached.messages, if_neg hwholeReport, if_pos hwhole]
    rfl
  · have hsize : (byteAt packet.data 0 &&& 0x3f).toNat = 0 ∨
        packet.length < 4 + (byteAt packet.data 0 &&& 0x3f).toNat * 4 := by
      by_contra hnot
      exact hwhole ⟨hbye, by omega, by omega⟩
    rw [if_pos hsize]
    refine ⟨(if_neg hreport).symm, ?_, fun his => absurd his hreport⟩
    rw [Reached.messages, if_neg hwholeReport, if_neg hwhole, List.append_nil]

theorem parsePacket_handles (transport : RTPTransport) (packet : Reached) (now : UInt64) :
    Handles transport packet now (transport.parsePacket packet.data packet.length now) := by
  obtain ⟨hreport, hparse⟩ | ⟨hbye, hparse⟩ | ⟨hreport, hbye, hparse⟩ :=
    parsePacket_cases transport packet.data packet.length now
  · rw [hparse]
    exact parseSR_handles transport hreport now
  · rw [hparse]
    exact parseBYE_handles transport hbye now
  · rw [hparse]
    refine ⟨(if_neg hreport).symm, ?_, fun his => absurd his hreport⟩
    rw [Reached.messages, if_neg fun hwhole => hreport hwhole.1,
      if_neg fun hwhole => hbye hwhole.1, List.append_nil]

/-- The messages of all packets, in order. -/
theorem handleAll_notified (clock : Nat → UInt64) (transport : RTPTransport)
    (packets : List Reached) :
    (handleAll clock transport packets).1.notified =
      transport.notified ++ packets.flatMap Reached.messages := by
  induction packets generalizing clock transport with
  | nil => exact (List.append_nil _).symm
  | cons packet packets ih =>
      rw [handleAll]
      simp only [ih, (parsePacket_handles transport packet (clock 0)).notified,
        List.flatMap_cons, List.append_assoc]

/-- Without a report the time of the last report stays. -/
theorem handleAll_lastSR_of_none (clock : Nat → UInt64) (transport : RTPTransport)
    {packets : List Reached} (hnone : ∀ packet ∈ packets, ¬ packet.IsReport) :
    (handleAll clock transport packets).1.mInfo.lastSR = transport.mInfo.lastSR := by
  induction packets generalizing clock transport with
  | nil => rfl
  | cons packet packets ih =>
      obtain ⟨hpacket, hothers⟩ := List.forall_mem_cons.mp hnone
      rw [handleAll]
      simp only [ih _ _ hothers, (parsePacket_handles transport packet (clock 0)).lastSR,
        if_neg hpacket]

/-- With a report it becomes a reading of the clock. -/
theorem handleAll_lastSR_of_some (clock : Nat → UInt64) (transport : RTPTransport)
    {packets : List Reached} (hsome : ∃ packet ∈ packets, packet.IsReport) :
    ∃ turn, (handleAll clock transport packets).1.mInfo.lastSR = clock turn := by
  induction packets generalizing clock transport with
  | nil => simp at hsome
  | cons packet packets ih =>
      rw [handleAll]
      by_cases hlater : ∃ other ∈ packets, other.IsReport
      · obtain ⟨turn, hturn⟩ := ih (fun turn => clock (turn + 1))
          (transport.parsePacket packet.data packet.length (clock 0)).2 hlater
        exact ⟨turn + 1, hturn⟩
      · -- The report is this packet, and the others leave its time.
        have hpacket : packet.IsReport := by
          obtain ⟨report, hmem, hreport⟩ := hsome
          rcases List.mem_cons.mp hmem with rfl | hother
          · exact hreport
          · exact absurd ⟨report, hother, hreport⟩ hlater
        have hothers : ∀ other ∈ packets, ¬ other.IsReport :=
          fun other hother hreport => hlater ⟨other, hother, hreport⟩
        refine ⟨0, ?_⟩
        simp only [handleAll_lastSR_of_none _ _ hothers,
          (parsePacket_handles transport packet (clock 0)).lastSR, if_pos hpacket]

/-- A visited report whose parser succeeded is a whole report that was reached. -/
theorem handleAll_report (clock : Nat → UInt64) (transport : RTPTransport)
    (packets : List Reached) :
    (∃ visit ∈ (handleAll clock transport packets).2, visit.type = 200 ∧ visit.status = .noError) ↔
      ∃ packet ∈ packets, packet.WholeReport := by
  induction packets generalizing clock transport with
  | nil => simp [handleAll]
  | cons packet packets ih =>
      have hhandles := parsePacket_handles transport packet (clock 0)
      rw [handleAll]
      simp only [List.exists_mem_cons_iff, ih]
      refine or_congr_left ?_
      constructor
      · rintro ⟨htype, hstatus⟩
        exact (hhandles.status htype).mp hstatus
      · intro hwhole
        exact ⟨hwhole.1, (hhandles.status hwhole.1).mpr hwhole⟩

end RTPTransport

/-- The packets that `parseRTCP` reaches in the range of a buffer, and whether they
make up all of it. -/
def MetaBuffer.packets (buffer : MetaBuffer) : List Reached × Bool :=
  RTPTransport.walk buffer.size buffer.data buffer.size

namespace RTPReceiver

open RTPTransport

/-- `handleRTCP`, with the result and the visits of `parseRTCP` if that is called.
`junk` are the contents of the fresh buffer. -/
def handleRTCP (rtp : RTPReceiver) (junk : Fin maxCapacity → UInt8) (outcome : Recvfrom)
    (clock : Nat → UInt64) : Option (RTPReceiver × Option (Status × List Visit)) :=
  match rtp.mRTCP with
  | none => some (rtp, none)
  | some mRTCP => do
      let buffer := MetaBuffer.create (List.ofFn junk)
      let (_, mRTCP, buffer, peerAddr) ← mRTCP.receive buffer outcome
        (if rtp.symmRTP then some rtp.mRTCPAddr else none)
      let (err, transport, visits) := rtp.transport.parseRTCP buffer clock
      return ({ rtp with
        transport, mRTCP := some mRTCP, mRTCPAddr := peerAddr.getD rtp.mRTCPAddr },
        some (err, visits))

/-- Bytes were received, and among the packets was a sender report whose parser
succeeded. -/
def ReportReceived (outcome : Recvfrom) (answer : Option (Status × List Visit)) : Prop :=
  outcome.delivered maxCapacity ≠ [] ∧
    ∃ err visits, answer = some (err, visits) ∧
      ∃ visit ∈ visits, visit.type = 200 ∧ visit.status = .noError

/-- Bytes were received, and `parseRTCP` returned `OK`. -/
def RTCPAccepted (outcome : Recvfrom) (answer : Option (Status × List Visit)) : Prop :=
  outcome.delivered maxCapacity ≠ [] ∧ ∃ visits, answer = some (.noError, visits)

/-- Rejected input does not disturb the report state, whatever the clock reads. -/
def Undisturbed (rtp : RTPReceiver) (junk : Fin maxCapacity → UInt8) (outcome : Recvfrom) : Prop :=
  ∀ clock, ∃ after answer, rtp.handleRTCP junk outcome clock = some (after, answer) ∧
    (after.transport.mInfo.lastSR ≠ rtp.transport.mInfo.lastSR → ReportReceived outcome answer) ∧
    (after.mRTCPAddr ≠ rtp.mRTCPAddr → RTCPAccepted outcome answer) ∧
    (outcome.delivered maxCapacity = [] →
      ∃ news, after.transport.notified = rtp.transport.notified ++ news ∧
        .rtcpEndOfStream ∉ news ∧ ∀ info, .rtcpTimeUpdate info ∉ news)

/-- Nothing that changes or announces anything is reached in the fresh memory. -/
def SilentMemory (junk : Fin maxCapacity → UInt8) : Prop :=
  ∀ packet ∈ (MetaBuffer.create (List.ofFn junk)).packets.1,
    ¬ packet.IsReport ∧ ¬ packet.WholeGoodbye

/-- What keeps the report state undisturbed by a call on the port `mRTCP`. If nothing
is delivered, no sender report and no whole goodbye is reached in the fresh memory.
If a datagram is delivered, the block has room for the walk over a STUN response while
one is awaited, a report is reached in it only together with a whole one, and it comes
from the current target or is made up of packets, unless symmetric RTP is off. -/
def QuietOn (rtp : RTPReceiver) (mRTCP : UdpTransport) (junk : Fin maxCapacity → UInt8) :
    Recvfrom → Prop
  | .error => SilentMemory junk
  | .datagram source bytes =>
      if bytes.take maxCapacity = [] then SilentMemory junk
      else
        let buffer := UdpTransport.received (List.ofFn junk) (bytes.take maxCapacity)
        (mRTCP.Outstanding → UdpTransport.StunFits buffer.data) ∧
          ((∃ packet ∈ buffer.packets.1, packet.IsReport) →
            ∃ packet ∈ buffer.packets.1, packet.WholeReport) ∧
          (rtp.symmRTP → source = rtp.mRTCPAddr ∨ buffer.packets.2)

/-- The same for the port of the receiver, if it has one. -/
def Quiet (rtp : RTPReceiver) (junk : Fin maxCapacity → UInt8) (outcome : Recvfrom) : Prop :=
  ∀ mRTCP, rtp.mRTCP = some mRTCP → QuietOn rtp mRTCP junk outcome

theorem parseRTCP_packets (transport : RTPTransport) (buffer : MetaBuffer) (clock : Nat → UInt64) :
    transport.parseRTCP buffer clock =
      (if buffer.packets.2 then .noError else .minusOne,
        handleAll clock transport.countRTCP buffer.packets.1) :=
  parseRTCPLoop_eq_walk buffer.size clock transport.countRTCP buffer.data buffer.size

theorem countRTCP_lastSR (transport : RTPTransport) :
    transport.countRTCP.mInfo.lastSR = transport.mInfo.lastSR := by
  rw [countRTCP]
  split_ifs <;> rfl

/-- What must hold whenever the time of the last report changes, for every clock,
must hold if a report is reached. -/
theorem lastSR_changes_iff (transport : RTPTransport) (packets : List Reached) {Q : Prop} :
    (∀ clock, (handleAll clock transport.countRTCP packets).1.mInfo.lastSR ≠
        transport.mInfo.lastSR → Q) ↔
      ((∃ packet ∈ packets, packet.IsReport) → Q) := by
  constructor
  · intro hchange hreport
    -- A clock that does not read the old time.
    obtain ⟨turn, hturn⟩ := handleAll_lastSR_of_some (fun _ => transport.mInfo.lastSR + 1)
      transport.countRTCP hreport
    apply hchange fun _ => transport.mInfo.lastSR + 1
    rw [hturn]
    simp
  · intro hreport clock hchange
    apply hreport
    by_contra hnone
    apply hchange
    rw [handleAll_lastSR_of_none clock _ fun packet hmem his => hnone ⟨packet, hmem, his⟩,
      countRTCP_lastSR]

/-- A packet announces the end of a stream or a time exactly when it is whole. -/
theorem messages_silent_iff (packet : Reached) :
    (.rtcpEndOfStream ∉ packet.messages ∧ ∀ info, .rtcpTimeUpdate info ∉ packet.messages) ↔
      ¬ packet.WholeReport ∧ ¬ packet.WholeGoodbye := by
  rw [Reached.messages]
  split_ifs with hreport hgoodbye
  · simp [hreport]
  · simp [hgoodbye]
  · simp [hreport, hgoodbye]

theorem firstNotice_silent (transport : RTPTransport) :
    .rtcpEndOfStream ∉ transport.firstNotice ∧
      ∀ info, .rtcpTimeUpdate info ∉ transport.firstNotice := by
  rw [firstNotice]
  split_ifs <;> simp

/-- What the loop announces: the first packet, and the messages of the packets. -/
theorem handleAll_countRTCP_notified (transport : RTPTransport) (clock : Nat → UInt64)
    (packets : List Reached) :
    (handleAll clock transport.countRTCP packets).1.notified =
      transport.notified ++ (transport.firstNotice ++ packets.flatMap Reached.messages) := by
  rw [handleAll_notified, countRTCP_notified, List.append_assoc]

theorem news_silent_iff (transport : RTPTransport) (clock : Nat → UInt64)
    (packets : List Reached) :
    (∃ news, (handleAll clock transport.countRTCP packets).1.notified =
        transport.notified ++ news ∧
        .rtcpEndOfStream ∉ news ∧ ∀ info, .rtcpTimeUpdate info ∉ news) ↔
      ∀ packet ∈ packets, ¬ packet.WholeReport ∧ ¬ packet.WholeGoodbye := by
  obtain ⟨hnoEnd, hnoTime⟩ := firstNotice_silent transport
  rw [handleAll_countRTCP_notified]
  constructor
  · rintro ⟨news, hnews, hend, htime⟩ packet hpacket
    obtain rfl := List.append_cancel_left hnews
    apply (messages_silent_iff packet).mp
    constructor
    · intro hmem
      exact hend (List.mem_append_right _ (List.mem_flatMap.mpr ⟨packet, hpacket, hmem⟩))
    · intro info hmem
      exact htime info (List.mem_append_right _ (List.mem_flatMap.mpr ⟨packet, hpacket, hmem⟩))
  · intro hsilent
    refine ⟨_, rfl, ?_, ?_⟩
    · intro hmem
      rcases List.mem_append.mp hmem with hfirst | hlater
      · exact hnoEnd hfirst
      · obtain ⟨packet, hpacket, hmessage⟩ := List.mem_flatMap.mp hlater
        exact ((messages_silent_iff packet).mpr (hsilent packet hpacket)).1 hmessage
    · intro info hmem
      rcases List.mem_append.mp hmem with hfirst | hlater
      · exact hnoTime info hfirst
      · obtain ⟨packet, hpacket, hmessage⟩ := List.mem_flatMap.mp hlater
        exact ((messages_silent_iff packet).mpr (hsilent packet hpacket)).2 info hmessage

theorem reportReceived_iff (outcome : Recvfrom) (err : Status) (clock : Nat → UInt64)
    (transport : RTPTransport) (packets : List Reached) :
    ReportReceived outcome (some (err, (handleAll clock transport packets).2)) ↔
      outcome.delivered maxCapacity ≠ [] ∧ ∃ packet ∈ packets, packet.WholeReport := by
  rw [← handleAll_report clock transport packets, ReportReceived]
  apply and_congr_right
  intro _
  constructor
  · rintro ⟨_, _, hanswer, hvisit⟩
    obtain ⟨rfl, rfl⟩ := Prod.mk.inj (Option.some.inj hanswer)
    exact hvisit
  · intro hvisit
    exact ⟨_, _, rfl, hvisit⟩

theorem rtcpAccepted_iff (outcome : Recvfrom) (whole : Bool) (visits : List Visit) :
    RTCPAccepted outcome (some (if whole then .noError else .minusOne, visits)) ↔
      outcome.delivered maxCapacity ≠ [] ∧ whole := by
  cases whole <;> simp [RTCPAccepted]

section Call

variable {rtp : RTPReceiver} {mRTCP mRTCP' : UdpTransport} {junk : Fin maxCapacity → UInt8}
  {outcome : Recvfrom} {status : Status} {buffer : MetaBuffer} {peerAddr : Option SockAddr}
  (hrtcp : rtp.mRTCP = some mRTCP)
  (hreceive : mRTCP.receive (MetaBuffer.create (List.ofFn junk)) outcome
    (if rtp.symmRTP then some rtp.mRTCPAddr else none) = some (status, mRTCP', buffer, peerAddr))
include hrtcp hreceive

/-- The call after the socket has answered: the packets of the buffer are
handled. -/
theorem handleRTCP_of_receive (clock : Nat → UInt64) :
    rtp.handleRTCP junk outcome clock =
      some ({ rtp with
          transport := (handleAll clock rtp.transport.countRTCP buffer.packets.1).1
          mRTCP := some mRTCP'
          mRTCPAddr := peerAddr.getD rtp.mRTCPAddr },
        some (if buffer.packets.2 then .noError else .minusOne,
          (handleAll clock rtp.transport.countRTCP buffer.packets.1).2)) := by
  simp only [handleRTCP, hrtcp, hreceive, parseRTCP_packets, Option.bind_eq_bind, Option.bind_some]
  rfl

/-- The call leaves the report state undisturbed exactly when the packets of the
buffer do and the source may be stored. -/
theorem undisturbed_of_receive :
    Undisturbed rtp junk outcome ↔
      ((∃ packet ∈ buffer.packets.1, packet.IsReport) →
        outcome.delivered maxCapacity ≠ [] ∧ ∃ packet ∈ buffer.packets.1, packet.WholeReport) ∧
      (peerAddr.getD rtp.mRTCPAddr ≠ rtp.mRTCPAddr →
        outcome.delivered maxCapacity ≠ [] ∧ buffer.packets.2) ∧
      (outcome.delivered maxCapacity = [] →
        ∀ packet ∈ buffer.packets.1, ¬ packet.WholeReport ∧ ¬ packet.WholeGoodbye) := by
  have hcall := handleRTCP_of_receive hrtcp hreceive
  constructor
  · intro hundisturbed
    refine ⟨(lastSR_changes_iff rtp.transport buffer.packets.1).mp fun clock hchange => ?_,
      fun haddr => ?_, fun hsilent => ?_⟩
    · obtain ⟨_, _, hresult, hlast, -, -⟩ := hundisturbed clock
      obtain ⟨rfl, rfl⟩ := Prod.mk.inj (Option.some.inj ((hcall clock).symm.trans hresult))
      exact (reportReceived_iff _ _ _ _ _).mp (hlast hchange)
    · obtain ⟨_, _, hresult, -, htarget, -⟩ := hundisturbed fun _ => 0
      obtain ⟨rfl, rfl⟩ := Prod.mk.inj (Option.some.inj ((hcall fun _ => 0).symm.trans hresult))
      exact (rtcpAccepted_iff _ _ _).mp (htarget haddr)
    · obtain ⟨_, _, hresult, -, -, hnews⟩ := hundisturbed fun _ => 0
      obtain ⟨rfl, rfl⟩ := Prod.mk.inj (Option.some.inj ((hcall fun _ => 0).symm.trans hresult))
      exact (news_silent_iff _ _ _).mp (hnews hsilent)
  · rintro ⟨hlast, htarget, hnews⟩ clock
    refine ⟨_, _, hcall clock, fun hchange => ?_, fun haddr => ?_, fun hsilent => ?_⟩
    · exact (reportReceived_iff _ _ _ _ _).mpr
        ((lastSR_changes_iff rtp.transport buffer.packets.1).mpr hlast clock hchange)
    · exact (rtcpAccepted_iff _ _ _).mpr (htarget haddr)
    · exact (news_silent_iff _ _ _).mpr (hnews hsilent)

end Call

/-- Without a delivery the fresh memory is parsed. -/
theorem undisturbed_silent {rtp : RTPReceiver} {mRTCP : UdpTransport}
    (hrtcp : rtp.mRTCP = some mRTCP) (junk : Fin maxCapacity → UInt8) {outcome : Recvfrom}
    (hsilent : outcome.delivered maxCapacity = []) :
    Undisturbed rtp junk outcome ↔ SilentMemory junk := by
  have hlength : (List.ofFn junk).length = maxCapacity := List.length_ofFn
  obtain ⟨status, mRTCP', hreceive⟩ := mRTCP.receive_silent (List.ofFn junk)
    (hlength.symm ▸ hsilent) (if rtp.symmRTP then some rtp.mRTCPAddr else none)
  rw [undisturbed_of_receive hrtcp hreceive, hsilent, target_kept]
  constructor
  · rintro ⟨hreport, -, hnews⟩ packet hpacket
    exact ⟨fun his => (hreport ⟨packet, hpacket, his⟩).1 rfl, (hnews rfl packet hpacket).2⟩
  · intro hmemory
    refine ⟨?_, fun hne => absurd rfl hne, fun _ packet hpacket => ?_⟩
    · rintro ⟨packet, hpacket, his⟩
      exact absurd his (hmemory packet hpacket).1
    · obtain ⟨hreport, hgoodbye⟩ := hmemory packet hpacket
      exact ⟨fun hwhole => hreport hwhole.1, hgoodbye⟩

/-- A STUN response is no RTCP packet, before and after its lengths are swapped. -/
theorem packets_afterStun {udp udp' : UdpTransport} {junk datagram : List UInt8}
    {buffer : MetaBuffer} (hdatagram : datagram ≠ [])
    (hstun : udp.parseStunResponse (UdpTransport.received junk datagram) = some (udp', buffer)) :
    buffer.packets = (UdpTransport.received junk datagram).packets := by
  rcases UdpTransport.parseStunResponse_keeps rfl hstun with rfl | ⟨hbefore, hafter, -, hsize⟩
  · rfl
  · have hnone : ∀ (data : List UInt8) (size : Nat), byteAt data 0 = 1 → 0 < size →
        walk size data size = ([], false) := by
      intro data size hfirst hpositive
      obtain ⟨fuel, rfl⟩ : ∃ fuel, size = fuel + 1 := ⟨size - 1, by omega⟩
      have hnext : nextPacket data (fuel + 1) = none := by
        rw [nextPacket, hfirst]
        split_ifs with hshort hversion
        · rfl
        · rfl
        · exact absurd (by decide) hversion
      rw [walk, if_neg (by omega), hnext]
    have hpositive : 0 < (UdpTransport.received junk datagram).size :=
      List.length_pos_iff.mpr hdatagram
    rw [MetaBuffer.packets, MetaBuffer.packets, hnone _ _ hafter (hsize ▸ hpositive),
      hnone _ _ hbefore hpositive]

/-- A delivered datagram. -/
theorem undisturbed_delivered {rtp : RTPReceiver} {mRTCP : UdpTransport}
    (hrtcp : rtp.mRTCP = some mRTCP) (junk : Fin maxCapacity → UInt8) {source : SockAddr}
    {bytes : List UInt8} (hbytes : bytes.take maxCapacity ≠ []) :
    let buffer := UdpTransport.received (List.ofFn junk) (bytes.take maxCapacity)
    Undisturbed rtp junk (.datagram source bytes) ↔
      (mRTCP.Outstanding → UdpTransport.StunFits buffer.data) ∧
        ((∃ packet ∈ buffer.packets.1, packet.IsReport) →
          ∃ packet ∈ buffer.packets.1, packet.WholeReport) ∧
        (rtp.symmRTP → source = rtp.mRTCPAddr ∨ buffer.packets.2) := by
  intro buffer
  have hlength : (List.ofFn junk).length = maxCapacity := List.length_ofFn
  have hreceive := mRTCP.receive_delivered (List.ofFn junk) source (hlength.symm ▸ hbytes)
    (if rtp.symmRTP then some rtp.mRTCPAddr else none)
  rw [hlength] at hreceive
  rw [← UdpTransport.parseStunResponse_isSome_iff mRTCP rfl (eight_le_received junk bytes),
    ← UdpTransport.isSome_parseStunResponse mRTCP source]
  cases hstun : { mRTCP with mPeerAddr := source }.parseStunResponse buffer with
  | none =>
      rw [hstun] at hreceive
      have hnone : rtp.handleRTCP junk (.datagram source bytes) (fun _ => 0) = none := by
        simp only [handleRTCP, hrtcp, hreceive, Option.map_none, Option.bind_eq_bind,
          Option.bind_none]
      constructor
      · intro hundisturbed
        obtain ⟨_, _, hresult, -⟩ := hundisturbed fun _ => 0
        rw [hnone] at hresult
        exact absurd hresult (by simp)
      · rintro ⟨hsome, -⟩
        exact absurd hsome (by simp)
  | some answer =>
      obtain ⟨udp, parsed⟩ := answer
      rw [hstun] at hreceive
      have hpackets := packets_afterStun hbytes hstun
      have htarget : (if rtp.symmRTP then source else rtp.mRTCPAddr) ≠ rtp.mRTCPAddr ↔
          rtp.symmRTP ∧ source ≠ rtp.mRTCPAddr := by
        split_ifs with hsymm <;> simp [hsymm]
      rw [undisturbed_of_receive hrtcp hreceive, hpackets, target_stored, htarget]
      simp only [Recvfrom.delivered, hbytes, ne_eq, not_false_eq_true, true_and, false_imp_iff,
        and_true, Option.isSome_some]
      apply and_congr_right
      intro _
      constructor
      · intro haddr hsymm
        by_cases hsource : source = rtp.mRTCPAddr
        · exact Or.inl hsource
        · exact Or.inr (haddr ⟨hsymm, hsource⟩)
      · rintro haddr ⟨hsymm, hsource⟩
        exact (haddr hsymm).resolve_left hsource

theorem undisturbed_iff_quietOn {rtp : RTPReceiver} {mRTCP : UdpTransport}
    (hrtcp : rtp.mRTCP = some mRTCP) (junk : Fin maxCapacity → UInt8) (outcome : Recvfrom) :
    Undisturbed rtp junk outcome ↔ QuietOn rtp mRTCP junk outcome := by
  cases outcome with
  | error => exact undisturbed_silent hrtcp junk rfl
  | datagram source bytes =>
      rw [QuietOn]
      split_ifs with hempty
      · exact undisturbed_silent hrtcp junk hempty
      · exact undisturbed_delivered hrtcp junk hempty

/-- Input leaves the report state undisturbed exactly when it is quiet. -/
theorem undisturbed_iff (rtp : RTPReceiver) (junk : Fin maxCapacity → UInt8)
    (outcome : Recvfrom) : Undisturbed rtp junk outcome ↔ Quiet rtp junk outcome := by
  cases hrtcp : rtp.mRTCP with
  | none =>
      have hcall : ∀ clock, rtp.handleRTCP junk outcome clock = some (rtp, none) := by
        intro clock
        rw [handleRTCP, hrtcp]
      constructor
      · intro _ mRTCP hsome
        exact absurd (hrtcp.symm.trans hsome) (by simp)
      · intro _ clock
        exact ⟨rtp, none, hcall clock, fun hne => absurd rfl hne, fun hne => absurd rfl hne,
          fun _ => ⟨[], (List.append_nil _).symm, by simp, by simp⟩⟩
  | some mRTCP =>
      rw [undisturbed_iff_quietOn hrtcp]
      constructor
      · intro hquiet other hother
        obtain rfl := Option.some.inj (hrtcp.symm.trans hother)
        exact hquiet
      · intro hquiet
        exact hquiet mRTCP hrtcp

/-- An idle receiver with a port for reports. -/
def idleWithRTCP (symmRTP : Bool) : RTPReceiver :=
  { idle symmRTP with mRTCP := some ⟨⟨afInet, 0, 0⟩, false, false, ⟨afInet, 0, 0⟩⟩ }

/-- Memory that still holds a goodbye of one source. -/
def oldGoodbye (i : Fin maxCapacity) : UInt8 :=
  match i.val with
  | 0 => 0x81
  | 1 => 203
  | 2 => 1
  | 3 => 159
  | _ => 0

/-- A sender report that ends after its header, a failed `recvfrom` into memory that
holds an old goodbye, and a single byte from a stranger while symmetric RTP is on. -/
theorem rejected_rtcp_disturbs :
    ¬ Undisturbed (idleWithRTCP false) (fun _ => 0)
        (.datagram ⟨afInet, 5005, 0x0A000001⟩ [0x80, 200, 0, 1, 0, 0, 0, 0]) ∧
      ¬ Undisturbed (idleWithRTCP false) oldGoodbye .error ∧
      ¬ Undisturbed (idleWithRTCP true) (fun _ => 0)
        (.datagram ⟨afInet, 4000, 0x0A000002⟩ [7]) := by
  refine ⟨fun hundisturbed => ?_, fun hundisturbed => ?_, fun hundisturbed => ?_⟩
  · obtain ⟨-, hwhole, -⟩ := (undisturbed_delivered rfl _ (by decide)).mp hundisturbed
    exact absurd hwhole (by decide +kernel)
  · have hmemory := (undisturbed_silent rfl _ rfl).mp hundisturbed
    exact absurd hmemory (by unfold SilentMemory; decide +kernel)
  · obtain ⟨-, -, hsource⟩ := (undisturbed_delivered rfl _ (by decide)).mp hundisturbed
    exact absurd (hsource rfl) (by decide +kernel)

end RTPReceiver

end McuProxy.Net

/-
# Receiving RTP

`RTPTransport::receive` creates a buffer, lets the socket fill it and parses what
the buffer holds. The result of the socket is dropped between the two: when nothing
was delivered the range of the fresh buffer still covers the whole block, so that
the parser looks at memory nobody has written. And with symmetric RTP the source of
a datagram becomes the target of the own packets before the datagram is looked at.
-/

import McuProxy.Net.RtpFormat
import McuProxy.Net.StunResponse

namespace McuProxy.Net

open McuProxy.Math

/-- `RTPTransport` with its sockets and the addresses it sends to: `udp` is its
base class, `mRTCP` the transport of its reports. -/
structure RTPReceiver where
  transport : RTPTransport
  udp : UdpTransport
  mRTCP : Option UdpTransport
  symmRTP : Bool
  mRTPAddr : SockAddr
  mRTCPAddr : SockAddr
  deriving DecidableEq

namespace RTPReceiver

open RTPTransport

/-- `receive`, into a buffer whose fresh memory has the contents `junk`. -/
def receive (rtp : RTPReceiver) (junk : Fin maxCapacity → UInt8) (outcome : Recvfrom) :
    Option (Status × RTPReceiver × MetaBuffer) := do
  let buffer := MetaBuffer.create (List.ofFn junk)
  let (_, udp, buffer, peerAddr) ← rtp.udp.receive buffer outcome
    (if rtp.symmRTP then some rtp.mRTPAddr else none)
  let (err, transport, buffer) ← rtp.transport.parseRTP buffer
  return (err, { rtp with transport, udp, mRTPAddr := peerAddr.getD rtp.mRTPAddr }, buffer)

/-- `recvfrom` delivers no byte, or what it delivers is no RTP packet. -/
def Rejected (outcome : Recvfrom) : Prop :=
  outcome.delivered maxCapacity = [] ∨ ¬ WellFormed (outcome.delivered maxCapacity)

/-- The receive fails and leaves the target, the source, the flag of the first
packet and the messages as they were. -/
def NoEffect (rtp : RTPReceiver) (junk : Fin maxCapacity → UInt8) (outcome : Recvfrom) : Prop :=
  ∃ status after buffer, rtp.receive junk outcome = some (status, after, buffer) ∧
    status ≠ .noError ∧ after.mRTPAddr = rtp.mRTPAddr ∧
    after.transport.mInfo.rcvdSourceId = rtp.transport.mInfo.rcvdSourceId ∧
    after.transport.firstRTP = rtp.transport.firstRTP ∧
    after.transport.notified = rtp.transport.notified

/-- What keeps a rejected receive without effect. If nothing is delivered, the fresh
memory is no RTP packet. If a datagram is delivered, symmetric RTP is off or the
datagram comes from the current target, and while a STUN response is awaited the block,
the datagram and the memory behind it, has room for the walk over one. -/
def Harmless (rtp : RTPReceiver) (junk : Fin maxCapacity → UInt8) : Recvfrom → Prop
  | .error => ¬ WellFormed (List.ofFn junk)
  | .datagram source bytes =>
      if bytes.take maxCapacity = [] then ¬ WellFormed (List.ofFn junk)
      else (rtp.symmRTP → source = rtp.mRTPAddr) ∧
        (rtp.udp.Outstanding → UdpTransport.StunFits
          (bytes.take maxCapacity ++ (List.ofFn junk).drop (bytes.take maxCapacity).length))

/-- The target when its pointer is handed down and nothing is stored. -/
theorem target_kept (symmRTP : Bool) (target : SockAddr) :
    (if symmRTP then some target else none).getD target = target := by
  cases symmRTP <;> rfl

/-- The target when a source is stored. -/
theorem target_stored (symmRTP : Bool) (target source : SockAddr) :
    ((if symmRTP then some target else none).map fun _ => source).getD target =
      if symmRTP then source else target := by
  cases symmRTP <;> rfl

/-- A fresh buffer holds its memory. -/
theorem create_holds (junk : List UInt8) : (MetaBuffer.create junk).Holds junk :=
  ⟨rfl, rfl, List.take_length, Nat.zero_le _⟩

/-- Without a delivery the fresh memory is parsed. -/
theorem noEffect_silent (rtp : RTPReceiver) (junk : Fin maxCapacity → UInt8)
    {outcome : Recvfrom} (hsilent : outcome.delivered maxCapacity = []) :
    NoEffect rtp junk outcome ↔ ¬ WellFormed (List.ofFn junk) := by
  have hlength : (List.ofFn junk).length = maxCapacity := List.length_ofFn
  have hholds := create_holds (List.ofFn junk)
  obtain ⟨status, udp, hreceive⟩ := rtp.udp.receive_silent (List.ofFn junk)
    (hlength.symm ▸ hsilent) (if rtp.symmRTP then some rtp.mRTPAddr else none)
  constructor
  · rintro ⟨err, after, buffer, hresult, herr, -⟩ hformat
    obtain ⟨transport, parsed, hparse, -⟩ :=
      parseRTP_wellFormed rtp.transport hholds hformat
    simp only [receive, hreceive, hparse, Option.bind_eq_bind, Option.bind_some] at hresult
    exact herr (Prod.mk.inj (Option.some.inj hresult)).1.symm
  · intro hformat
    have hparse := parseRTP_malformed rtp.transport hholds.front hholds.size hformat
    refine ⟨.unknownError, { rtp with transport := rtp.transport.countRTP, udp },
      MetaBuffer.create (List.ofFn junk), ?_, by decide, rfl, rfl, rfl, rfl⟩
    simp only [receive, hreceive, hparse, Option.bind_eq_bind, Option.bind_some, target_kept]
    rfl

/-- Whatever STUN made of a malformed datagram, `parseRTP` refuses the buffer. -/
theorem parseRTP_afterStun (transport : RTPTransport) {udp udp' : UdpTransport}
    {junk datagram : List UInt8} {buffer : MetaBuffer} (hformat : ¬ WellFormed datagram)
    (hstun : udp.parseStunResponse (UdpTransport.received junk datagram) = some (udp', buffer)) :
    transport.parseRTP buffer = some (.unknownError, transport.countRTP, buffer) := by
  have hholds := UdpTransport.received_holds junk datagram
  rcases UdpTransport.parseStunResponse_keeps rfl hstun with rfl | ⟨-, hfirst, -, -⟩
  · exact parseRTP_malformed transport hholds.front hholds.size hformat
  · -- The first byte of a STUN response has another version.
    apply parseRTP_refused
    rw [payloadRange]
    split_ifs with hshort hversion
    · rfl
    · rfl
    · rw [hfirst] at hversion
      exact absurd (by decide) hversion

/-- The block has room for the first words of a STUN message. -/
theorem eight_le_received (junk : Fin maxCapacity → UInt8) (bytes : List UInt8) :
    8 ≤ (UdpTransport.received (List.ofFn junk) (bytes.take maxCapacity)).data.length := by
  have hshort := List.length_take_le maxCapacity bytes
  rw [UdpTransport.received_data, List.length_append, List.length_drop, List.length_ofFn]
  simp only [maxCapacity] at hshort ⊢
  omega

/-- A malformed datagram is refused, but its source is stored before. -/
theorem noEffect_delivered (rtp : RTPReceiver) (junk : Fin maxCapacity → UInt8)
    {source : SockAddr} {bytes : List UInt8} (hbytes : bytes.take maxCapacity ≠ [])
    (hformat : ¬ WellFormed (bytes.take maxCapacity)) :
    NoEffect rtp junk (.datagram source bytes) ↔
      (rtp.symmRTP → source = rtp.mRTPAddr) ∧
        (rtp.udp.Outstanding → UdpTransport.StunFits
          (bytes.take maxCapacity ++ (List.ofFn junk).drop (bytes.take maxCapacity).length)) := by
  have hlength : (List.ofFn junk).length = maxCapacity := List.length_ofFn
  rw [← UdpTransport.received_data,
    ← UdpTransport.parseStunResponse_isSome_iff rtp.udp rfl (eight_le_received junk bytes)]
  have hreceive := rtp.udp.receive_delivered (List.ofFn junk) source (hlength.symm ▸ hbytes)
    (if rtp.symmRTP then some rtp.mRTPAddr else none)
  rw [hlength] at hreceive
  rw [← UdpTransport.isSome_parseStunResponse rtp.udp source]
  cases hstun : { rtp.udp with mPeerAddr := source }.parseStunResponse
      (UdpTransport.received (List.ofFn junk) (bytes.take maxCapacity)) with
  | none =>
      rw [hstun] at hreceive
      have hnone : rtp.receive junk (.datagram source bytes) = none := by
        simp only [receive, hreceive, Option.map_none, Option.bind_eq_bind, Option.bind_none]
      simp [NoEffect, hnone]
  | some answer =>
      obtain ⟨udp, buffer⟩ := answer
      rw [hstun] at hreceive
      have hparse := parseRTP_afterStun rtp.transport hformat hstun
      have hresult : rtp.receive junk (.datagram source bytes) =
          some (.unknownError, { rtp with
            transport := rtp.transport.countRTP, udp
            mRTPAddr := if rtp.symmRTP then source else rtp.mRTPAddr }, buffer) := by
        simp only [receive, hreceive, hparse, Option.map_some, Option.bind_eq_bind,
          Option.bind_some, target_stored]
        rfl
      simp only [NoEffect, hresult, Option.isSome_some, and_true]
      constructor
      · rintro ⟨status, after, parsed, hsame, -, haddr, -⟩ hsymm
        obtain ⟨-, rfl, -⟩ := by simpa using hsame
        rw [if_pos hsymm] at haddr
        exact haddr
      · intro hsource
        refine ⟨_, _, _, rfl, by decide, ?_, rfl, rfl, rfl⟩
        simp only
        split_ifs with hsymm
        · exact hsource hsymm
        · rfl

/-- A failed or rejected receive has no effect exactly when it is harmless. -/
theorem noEffect_iff (rtp : RTPReceiver) (junk : Fin maxCapacity → UInt8) {outcome : Recvfrom}
    (hrejected : Rejected outcome) : NoEffect rtp junk outcome ↔ Harmless rtp junk outcome := by
  cases outcome with
  | error => exact noEffect_silent rtp junk rfl
  | datagram source bytes =>
      rw [Harmless]
      split_ifs with hempty
      · exact noEffect_silent rtp junk hempty
      · exact noEffect_delivered rtp junk hempty (hrejected.resolve_left hempty)

/-- An idle receiver whose target is port 5004 of 10.0.0.1, for the examples. -/
def idle (symmRTP : Bool) : RTPReceiver where
  transport := ⟨true, 0, ⟨0, 0, 0, 0, 0, 0, 0, 0, 0⟩, 0, 0, 0, 0, 0, 0, 96, []⟩
  udp := ⟨⟨afInet, 0, 0⟩, false, false, ⟨afInet, 0, 0⟩⟩
  mRTCP := none
  symmRTP := symmRTP
  mRTPAddr := ⟨afInet, 5004, 0x0A000001⟩
  mRTCPAddr := ⟨afInet, 5005, 0x0A000001⟩

/-- A single byte from the target is refused without an effect. -/
theorem noEffect_iff_byte :
    Rejected (.datagram ⟨afInet, 5004, 0x0A000001⟩ [7]) ∧
      NoEffect (idle true) (fun _ => 0) (.datagram ⟨afInet, 5004, 0x0A000001⟩ [7]) := by
  have hrejected : Rejected (.datagram ⟨afInet, 5004, 0x0A000001⟩ [7]) :=
    Or.inr fun hformat => absurd hformat.fixed (by decide)
  refine ⟨hrejected, (noEffect_iff (idle true) (fun _ => 0) hrejected).mpr ?_⟩
  exact ⟨fun _ => rfl, fun hawaited => absurd hawaited.1 Bool.false_ne_true⟩

/-- Memory that still holds an RTP packet. -/
def oldPacket (i : Fin maxCapacity) : UInt8 := if i.val = 0 then 0x80 else 0

/-- A failed `recvfrom` into memory that holds an old packet, and a single byte from
a stranger while symmetric RTP is on. -/
theorem rejected_receive_disturbs :
    (Rejected .error ∧ ¬ NoEffect (idle false) oldPacket .error) ∧
      Rejected (.datagram ⟨afInet, 4000, 0x0A000002⟩ [7]) ∧
      ¬ NoEffect (idle true) (fun _ => 0) (.datagram ⟨afInet, 4000, 0x0A000002⟩ [7]) := by
  have hformat : WellFormed (List.ofFn oldPacket) := by
    have hlength : (List.ofFn oldPacket).length = 1664 := List.length_ofFn
    have hfirst : byteAt (List.ofFn oldPacket) 0 = 0x80 := by decide +kernel
    have hpad : padCount (List.ofFn oldPacket) = 0 := by
      rw [padCount, hfirst]
      rfl
    have hcount : sourceCount (List.ofFn oldPacket) = 0 := by
      rw [sourceCount, hfirst]
      rfl
    refine ⟨by omega, by rw [hfirst]; rfl, by omega, by omega, ?_⟩
    intro hextended
    rw [Extended, hfirst] at hextended
    exact absurd hextended (by decide)
  have hshort : ¬ WellFormed (([7] : List UInt8).take maxCapacity) :=
    fun hbyte => absurd hbyte.fixed (by decide)
  refine ⟨⟨Or.inl rfl, ?_⟩, Or.inr hshort, ?_⟩
  · intro hnone
    exact (noEffect_silent (idle false) oldPacket rfl).mp hnone hformat
  · intro hnone
    have hsource := ((noEffect_delivered (idle true) (fun _ => 0) (by decide) hshort).mp hnone).1
      rfl
    exact absurd hsource (by decide)

end RTPReceiver

end McuProxy.Net

/-
# What a sender counts

`doSend` counts the packets it sends and the bytes of their payload, and `handleTimeout`
puts both numbers into its reports. The test before the header is written is about the
capacity of the buffer, the header is written from the offset of its range on, and the
payload is taken to be the size of its range less the header, in unsigned arithmetic.
For a general buffer these three have nothing to do with each other. What
`udpTransport::deliver` returns is not looked at.

A run counts what was sent as long as every range has the header inside it and every
packet is delivered; the first packet that breaks one of these makes the numbers wrong.
-/

import McuProxy.Math.Armv7
import McuProxy.Net.RtpTransport

namespace McuProxy.Net

open McuProxy.Math

/-- `udpTransport::deliver`, where `sendto` has returned `n`. The size is converted to
`ssize_t`. -/
def deliver (buffer : MetaBuffer) (n : Int) : Status :=
  if n < signed32 buffer.size then .unknownError else .noError

namespace RTPTransport

/-- A call of `doSend`, and what `sendto` returns in it. -/
structure Sending where
  call : SendCall
  n : Int

namespace Sending

/-- The packet was transmitted. -/
def transmitted (sending : Sending) : Bool := deliver sending.call.buffer sending.n = .noError

/-- The bytes behind the header. -/
def payload (sending : Sending) : Nat := sending.call.buffer.size - 12

/-- The places in the block where the header is written. -/
def headerPlaces (sending : Sending) : List Nat :=
  (List.range 12).map fun i => sending.call.buffer.mRangeOffset + i

/-- The header fits between the offset and the end of the block, the range is not shorter
than the header, and the packet is transmitted. -/
def Countable (sending : Sending) : Prop :=
  sending.call.buffer.mRangeOffset + 12 ≤ sending.call.buffer.capacity ∧
    12 ≤ sending.call.buffer.size ∧ sending.transmitted = true

instance (sending : Sending) : Decidable sending.Countable := inferInstanceAs (Decidable (_ ∧ _))

end Sending

/-- After the calls, the numbers of a transport say what was transmitted since it was
`transport`, and no header was written outside its block. -/
structure CountsRight (transport : RTPTransport) (sendings : List Sending) : Prop where
  inside : ∀ sending ∈ sendings, ∀ i ∈ sending.headerPlaces, i < sending.call.buffer.capacity
  counts : ∃ final datagrams,
    transport.sendAll (sendings.map Sending.call) = some (final, datagrams) ∧
      final.mInfo.nRTPSent.toNat = (transport.mInfo.nRTPSent.toNat +
        (sendings.filter Sending.transmitted).length) % 4294967296 ∧
      final.mInfo.nRTPOctetsSent.toNat = (transport.mInfo.nRTPOctetsSent.toNat +
        ((sendings.filter Sending.transmitted).map Sending.payload).sum) % 4294967296

/-- One call: the header is written if it fits, and both numbers grow, by one and by the
size less twelve. -/
theorem doSend_counts (transport : RTPTransport) {call : SendCall}
    (hcapacity : 12 ≤ call.buffer.capacity)
    (hfit : call.buffer.mRangeOffset + 12 ≤ call.buffer.capacity) :
    ∃ next buffer sent,
      transport.doSend call.buffer call.timeUs call.video call.marker call.now =
        some (next, buffer, sent) ∧
      next.mInfo.nRTPSent.toNat = (transport.mInfo.nRTPSent.toNat + 1) % 4294967296 ∧
      (next.mInfo.nRTPOctetsSent.toNat : Int) =
        (transport.mInfo.nRTPOctetsSent.toNat + (call.buffer.size - 12 : Int)) % 4294967296 := by
  let header := transport.rtpHeader (transport.rtpTimeOf call.timeUs call.video) call.marker
  obtain ⟨written, hwritten⟩ : ∃ written, call.buffer.write header = some written :=
    ⟨_, if_pos hfit⟩
  obtain ⟨-, -, -, hlength, -⟩ := MetaBuffer.data_write hwritten
  have hsize : written.size = call.buffer.size := hlength
  simp only [header] at hwritten
  simp only [doSend, if_pos hcapacity, hwritten, Option.map_some, hsize, Option.some.injEq,
    Prod.mk.injEq]
  refine ⟨_, _, _, ⟨rfl, rfl, rfl⟩, UInt32.toNat_add _ _, ?_⟩
  simp only [UInt32.toNat_add, UInt32.toNat_sub, UInt32.toNat_ofNat']
  have htwelve : (12 : UInt32).toNat = 12 := rfl
  rw [htwelve]
  omega

theorem forall_headerPlaces_lt (sending : Sending) :
    (∀ i ∈ sending.headerPlaces, i < sending.call.buffer.capacity) ↔
      sending.call.buffer.mRangeOffset + 12 ≤ sending.call.buffer.capacity := by
  rw [Sending.headerPlaces, List.forall_mem_map]
  constructor
  · intro hplaces
    have hlast := hplaces 11 (by decide)
    omega
  · intro hfit i hi
    have hlt := List.mem_range.mp hi
    omega

theorem sendAll_cons {transport next : RTPTransport} {call : SendCall} {buffer : MetaBuffer}
    {sent : Option (List UInt8)}
    (hsend : transport.doSend call.buffer call.timeUs call.video call.marker call.now =
      some (next, buffer, sent)) (calls : List SendCall) :
    transport.sendAll (call :: calls) =
      (next.sendAll calls).map fun (final, datagrams) => (final, sent.toList ++ datagrams) := by
  rw [sendAll, hsend]
  rfl

theorem countsRight_nil (transport : RTPTransport) : transport.CountsRight [] := by
  refine ⟨fun sending hsending => absurd hsending List.not_mem_nil, transport, [], rfl, ?_, ?_⟩
  · exact (Nat.mod_eq_of_lt transport.mInfo.nRTPSent.toNat_lt).symm
  · exact (Nat.mod_eq_of_lt transport.mInfo.nRTPOctetsSent.toNat_lt).symm

/-- A packet that is counted right is one that may be counted. -/
theorem CountsRight.countable {transport : RTPTransport} {sending : Sending}
    (hcapacity : 12 ≤ sending.call.buffer.capacity)
    (hcounts : transport.CountsRight [sending]) : sending.Countable := by
  have hfit := (forall_headerPlaces_lt sending).mp (hcounts.inside sending List.mem_cons_self)
  obtain ⟨next, buffer, sent, hsend, hnumber, hoctets⟩ := transport.doSend_counts hcapacity hfit
  obtain ⟨final, datagrams, hrun, hnumber', hoctets'⟩ := hcounts.counts
  rw [List.map_singleton, sendAll_cons hsend, sendAll, Option.map_some] at hrun
  obtain ⟨rfl, -⟩ := Prod.mk.inj (Option.some.inj hrun)
  have htransmitted : sending.transmitted = true := by
    by_contra hfailed
    rw [List.filter_cons_of_neg hfailed, List.filter_nil, hnumber, List.length_nil] at hnumber'
    have hlt := transport.mInfo.nRTPSent.toNat_lt
    omega
  refine ⟨hfit, ?_, htransmitted⟩
  rw [List.filter_cons_of_pos htransmitted, List.filter_nil, List.map_singleton,
    List.sum_singleton, Sending.payload] at hoctets'
  omega

/-- Behind a packet that may be counted, the numbers are right if they are right for the
rest. -/
theorem countsRight_cons_iff {transport next : RTPTransport} {sending : Sending}
    {buffer : MetaBuffer} {sent : Option (List UInt8)} (hcountable : sending.Countable)
    (hsend : transport.doSend sending.call.buffer sending.call.timeUs sending.call.video
      sending.call.marker sending.call.now = some (next, buffer, sent))
    (hnumber : next.mInfo.nRTPSent.toNat = (transport.mInfo.nRTPSent.toNat + 1) % 4294967296)
    (hoctets : (next.mInfo.nRTPOctetsSent.toNat : Int) =
      (transport.mInfo.nRTPOctetsSent.toNat + (sending.call.buffer.size - 12 : Int)) % 4294967296)
    (rest : List Sending) :
    transport.CountsRight (sending :: rest) ↔ next.CountsRight rest := by
  obtain ⟨hfit, hsize, htransmitted⟩ := hcountable
  have hpayload : (sending.payload : Int) = sending.call.buffer.size - 12 := by
    rw [Sending.payload]
    omega
  have hrun := sendAll_cons hsend (rest.map Sending.call)
  constructor
  · rintro ⟨hinside, final, datagrams, hall, hnumber', hoctets'⟩
    rw [List.map_cons, hrun] at hall
    obtain ⟨⟨final', others⟩, hothers, hsame⟩ := Option.map_eq_some_iff.mp hall
    obtain ⟨rfl, -⟩ := Prod.mk.inj hsame
    rw [List.filter_cons_of_pos htransmitted, List.length_cons] at hnumber'
    rw [List.filter_cons_of_pos htransmitted, List.map_cons, List.sum_cons] at hoctets'
    exact ⟨fun other hother => hinside other (List.mem_cons_of_mem _ hother), final', others,
      hothers, by omega, by omega⟩
  · rintro ⟨hinside, final, others, hothers, hnumber', hoctets'⟩
    refine ⟨List.forall_mem_cons.mpr ⟨(forall_headerPlaces_lt sending).mpr hfit, hinside⟩,
      final, sent.toList ++ others, by rw [List.map_cons, hrun, hothers]; rfl, ?_, ?_⟩
    · rw [List.filter_cons_of_pos htransmitted, List.length_cons]
      omega
    · rw [List.filter_cons_of_pos htransmitted, List.map_cons, List.sum_cons]
      omega

/-- The numbers are right after every call of a run exactly when every packet of it may be
counted. -/
theorem statistics_right_iff (transport : RTPTransport) {sendings : List Sending}
    (hpass : ∀ sending ∈ sendings, 12 ≤ sending.call.buffer.capacity) :
    (∀ k, transport.CountsRight (sendings.take k)) ↔ ∀ sending ∈ sendings, sending.Countable := by
  induction sendings generalizing transport with
  | nil =>
      refine iff_of_true (fun k => ?_) fun sending hsending => absurd hsending List.not_mem_nil
      rw [List.take_nil]
      exact countsRight_nil transport
  | cons sending rest ih =>
      obtain ⟨hcapacity, hrest⟩ := List.forall_mem_cons.mp hpass
      rw [List.forall_mem_cons]
      constructor
      · intro hright
        have hcountable := (hright 1).countable hcapacity
        obtain ⟨next, buffer, sent, hsend, hnumber, hoctets⟩ :=
          transport.doSend_counts hcapacity hcountable.1
        refine ⟨hcountable, (ih next hrest).mp fun k => ?_⟩
        exact (countsRight_cons_iff hcountable hsend hnumber hoctets _).mp (hright (k + 1))
      · rintro ⟨hcountable, hothers⟩ k
        obtain ⟨next, buffer, sent, hsend, hnumber, hoctets⟩ :=
          transport.doSend_counts hcapacity hcountable.1
        cases k with
        | zero => exact countsRight_nil transport
        | succ k =>
            exact (countsRight_cons_iff hcountable hsend hnumber hoctets _).mpr
              ((ih next hrest).mpr hothers k)

/-- A transport that has not sent anything. -/
def quietSender : RTPTransport :=
  ⟨true, 0, ⟨0, 0, 0, 0, 0, 0, 0, 0, 0⟩, 0xCAFEBABE, 0, 0, 0, 0, 0, 96, []⟩

/-- A packet in a block of 20 bytes, where `sendto` returns `n`. -/
def sendingOf (offset size : Nat) (n : Int) : Sending :=
  ⟨⟨⟨List.replicate 20 7, offset, size, 0, []⟩, 1, true, true, ⟨0, 0⟩⟩, n⟩

theorem statistics_right_iff_delivered :
    let sendings := [sendingOf 0 16 16, sendingOf 4 12 12]
    (∀ sending ∈ sendings, 12 ≤ sending.call.buffer.capacity) ∧
      ∀ k, quietSender.CountsRight (sendings.take k) :=
  ⟨by decide, (statistics_right_iff quietSender (by decide)).mpr (by decide)⟩

/-- A packet that `sendto` does not take, a range that is shorter than the header, and a
range that starts less than a header before the end of its block. -/
theorem packets_miscounted :
    ¬ quietSender.CountsRight [sendingOf 0 16 (-1)] ∧
      ¬ quietSender.CountsRight [sendingOf 0 8 8] ∧
      ¬ quietSender.CountsRight [sendingOf 10 12 12] :=
  ⟨fun hright => absurd (hright.countable (by decide)) (by decide),
    fun hright => absurd (hright.countable (by decide)) (by decide),
    fun hright => absurd (hright.countable (by decide)) (by decide)⟩

end RTPTransport

end McuProxy.Net

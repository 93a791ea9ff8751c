/-
# Receiving datagrams

`udpTransport::receive` takes one datagram from the socket into a buffer. It sets
the range of the buffer only when bytes have arrived, stores the address they came
from, and, while an answer to a STUN request is outstanding, looks for that answer
in the buffer.

What `recvfrom` does is an input: it fails, or it delivers a datagram with its
source, possibly an empty one. The walk over the attributes of a STUN message
follows lengths that the datagram gives, inside the block of the buffer or out of
it; a step out of the block has no behaviour. The host is little-endian, so
`ntohs` swaps two bytes.
-/

import McuProxy.Net.Rtcp

namespace McuProxy.Net

open McuProxy.Math

/-- `sockaddr_in`. Port and address are in network byte order, and written here as
the numbers they stand for. -/
structure SockAddr where
  sinFamily : UInt16
  sinPort : UInt16
  sinAddr : UInt32
  deriving DecidableEq

def afInet : UInt16 := 2

def maxCapacity : Nat := 1664

/-- What a call of `recvfrom` does. -/
inductive Recvfrom
  | error
  | datagram (source : SockAddr) (bytes : List UInt8)
  deriving DecidableEq

/-- The bytes that reach a buffer of the given capacity: a longer datagram is
cut. -/
def Recvfrom.delivered (capacity : Nat) : Recvfrom → List UInt8
  | .error => []
  | .datagram _ bytes => bytes.take capacity

/-- The part of `udpTransport` that receiving depends on. -/
structure UdpTransport where
  mPeerAddr : SockAddr
  mStunRequested : Bool
  mStunResponsed : Bool
  mReflAddr : SockAddr
  deriving DecidableEq

namespace UdpTransport

open RTPTransport (putAt)

/-- The loop of `parseStunResponse` over the attributes, at `_cursor` with
`_length` left: the block it leaves, where each length it has looked at is swapped
in place, and the position of the address if there is one. The cursor advances by
eight in every turn that goes on, so a unit of fuel for each byte of the block
lasts until it leaves the block. -/
def stunWalk : Nat → List UInt8 → Nat → UInt16 → Option (List UInt8 × Option Nat)
  | 0, _, _, _ => none
  | fuel + 1, data, cursor, length =>
      if length &&& 0x3 = 0 ∧ 4 ≤ length then
        if cursor + 4 ≤ data.length then
          let len := u16at (data.drop (cursor + 2))
          let data := putAt data (cursor + 2) [byteAt data (cursor + 3), byteAt data (cursor + 2)]
          if len &&& 0x3 ≠ 0 then some (data, none)
          else if len ≠ 8 then some (data, none)
          else if u16at (data.drop cursor) = 0x0001 then some (data, some (cursor + 4))
          else stunWalk fuel data (cursor + len.toNat) (length - len)
        else none
      else some (data, none)

/-- The address at a position of the block, if it lies in the block. -/
def reflectiveAddress (data : List UInt8) (pAttrIP : Nat) : Option SockAddr :=
  if pAttrIP + 8 ≤ data.length then
    some ⟨afInet, u16at (data.drop (pAttrIP + 2)), u32at (data.drop (pAttrIP + 4))⟩
  else none

/-- `parseStunResponse`. -/
def parseStunResponse (udp : UdpTransport) (buffer : MetaBuffer) :
    Option (UdpTransport × MetaBuffer) :=
  let data := buffer.data
  if !udp.mStunRequested || udp.mStunResponsed then some (udp, buffer)
  else if data.length < 8 then none
  else if u16at data ≠ 0x0101 then some (udp, buffer)
  else if u32at (data.drop 4) ≠ 0x2112A442 then some (udp, buffer)
  else do
    let (data, pAttrIP) ← stunWalk data.length data 20 (u16at (data.drop 2))
    let buffer := { buffer with mData := buffer.mData.take buffer.mRangeOffset ++ data }
    match pAttrIP with
    | none => return (udp, buffer)
    | some pAttrIP => do
        let mReflAddr ← reflectiveAddress data pAttrIP
        return ({ udp with mReflAddr, mStunResponsed := true }, buffer)

/-- `receive`, where `peerAddr` is what the pointer of that name points to, if it is
not `NULL`. -/
def receive (udp : UdpTransport) (buffer : MetaBuffer) (outcome : Recvfrom)
    (peerAddr : Option SockAddr) :
    Option (Status × UdpTransport × MetaBuffer × Option SockAddr) :=
  match outcome with
  | .error => some (.unknownError, udp, buffer, peerAddr)
  | .datagram source bytes =>
      let udp := { udp with mPeerAddr := source }
      if bytes.take buffer.capacity = [] then some (.deadObject, udp, buffer, peerAddr)
      else do
        let buffer ← receiveDatagram buffer bytes
        let peerAddr := peerAddr.map fun _ => udp.mPeerAddr
        if udp.mStunRequested && !udp.mStunResponsed then do
          let (udp, buffer) ← udp.parseStunResponse buffer
          return (.noError, udp, buffer, peerAddr)
        else return (.noError, udp, buffer, peerAddr)

theorem length_putAt {array bytes : List UInt8} {offset : Nat}
    (hfit : offset + bytes.length ≤ array.length) :
    (putAt array offset bytes).length = array.length := by
  simp only [putAt, List.length_append, List.length_take, List.length_drop]
  omega

/-- The fuel of the walk does not matter once the cursor would have left the block:
more of it gives the same result. -/
theorem stunWalk_fuel {fuel cursor : Nat} {data : List UInt8} (length : UInt16) (more : Nat)
    (hfuel : data.length < cursor + 4 + 8 * fuel) :
    stunWalk (fuel + 1 + more) data cursor length = stunWalk (fuel + 1) data cursor length := by
  induction fuel generalizing data cursor length with
  | zero =>
      rw [show 0 + 1 + more = more + 1 by omega, stunWalk, stunWalk]
      have houtside : ¬ cursor + 4 ≤ data.length := by omega
      simp only [if_neg houtside]
  | succ fuel ih =>
      rw [show fuel + 1 + 1 + more = fuel + 1 + more + 1 by omega]
      conv_lhs => rw [stunWalk]
      conv_rhs => rw [stunWalk]
      by_cases hinside : cursor + 4 ≤ data.length
      · simp only [if_pos hinside]
        by_cases hlen : u16at (data.drop (cursor + 2)) = 8
        · have hswapped : (putAt data (cursor + 2)
              [byteAt data (cursor + 3), byteAt data (cursor + 2)]).length = data.length :=
            length_putAt (by simpa using hinside)
          have hvalue : (8 : UInt16).toNat = 8 := rfl
          rw [hlen, hvalue, ih _ (by omega)]
        · simp only [ne_eq, hlen, not_false_eq_true, if_true]
      · simp only [if_neg hinside]

theorem byteAt_putAt_of_lt {array bytes : List UInt8} {offset i : Nat}
    (hfit : offset ≤ array.length) (hi : i < offset) :
    byteAt (putAt array offset bytes) i = byteAt array i := by
  have htake : i < (array.take offset).length := by
    rw [List.length_take]
    omega
  rw [putAt, List.append_assoc, byteAt, byteAt, List.getD_eq_getElem?_getD,
    List.getD_eq_getElem?_getD, List.getElem?_append_left htake, List.getElem?_take_of_lt hi]

/-- The walk keeps the size of the block and everything before its cursor. -/
theorem stunWalk_keeps {fuel cursor : Nat} {data data' : List UInt8} {length : UInt16}
    {pAttrIP : Option Nat} (hwalk : stunWalk fuel data cursor length = some (data', pAttrIP)) :
    data'.length = data.length ∧ ∀ i, i < cursor → byteAt data' i = byteAt data i := by
  induction fuel generalizing data cursor length with
  | zero => simp [stunWalk] at hwalk
  | succ fuel ih =>
      simp only [stunWalk] at hwalk
      by_cases hmore : length &&& 0x3 = 0 ∧ 4 ≤ length
      · rw [if_pos hmore] at hwalk
        by_cases hinside : cursor + 4 ≤ data.length
        · rw [if_pos hinside] at hwalk
          generalize hswapped : putAt data (cursor + 2)
            [byteAt data (cursor + 3), byteAt data (cursor + 2)] = swapped at hwalk
          have hlength : swapped.length = data.length := by
            rw [← hswapped]
            exact length_putAt (by simpa using hinside)
          have hfront : ∀ i, i < cursor → byteAt swapped i = byteAt data i := by
            intro i hi
            rw [← hswapped]
            exact byteAt_putAt_of_lt (by omega) (by omega)
          split_ifs at hwalk
          · obtain ⟨rfl, -⟩ := Prod.mk.inj (Option.some.inj hwalk)
            exact ⟨hlength, hfront⟩
          · obtain ⟨rfl, -⟩ := Prod.mk.inj (Option.some.inj hwalk)
            exact ⟨hlength, hfront⟩
          · obtain ⟨rfl, -⟩ := Prod.mk.inj (Option.some.inj hwalk)
            exact ⟨hlength, hfront⟩
          · obtain ⟨hlater, hkept⟩ := ih hwalk
            exact ⟨hlater.trans hlength, fun i hi => (hkept i (by omega)).trans (hfront i hi)⟩
        · simp [hinside] at hwalk
      · rw [if_neg hmore] at hwalk
        obtain ⟨rfl, -⟩ := Prod.mk.inj (Option.some.inj hwalk)
        exact ⟨rfl, fun _ _ => rfl⟩

/-- The first byte of a STUN response. -/
theorem byteAt_of_stunMethod {data : List UInt8} (hmethod : u16at data = 0x0101) :
    byteAt data 0 = 1 := by
  have hvalue := congrArg UInt16.toNat hmethod
  rw [u16at, toNat_join16] at hvalue
  have hlow := (byteAt data 1).toNat_lt
  have hhigh : (byteAt data 0).toNat = 1 := by
    have hnumber : (0x0101 : UInt16).toNat = 257 := rfl
    omega
  exact UInt8.toNat_inj.mp hhigh

/-- `parseStunResponse` leaves the range, the table and the first byte of the
buffer; and it leaves all bytes unless the first one is that of a STUN
response. -/
theorem parseStunResponse_keeps {udp udp' : UdpTransport} {buffer buffer' : MetaBuffer}
    (hoffset : buffer.mRangeOffset = 0)
    (hparse : udp.parseStunResponse buffer = some (udp', buffer')) :
    buffer' = buffer ∨ (byteAt buffer.data 0 = 1 ∧ byteAt buffer'.data 0 = 1 ∧
      buffer'.mRangeOffset = 0 ∧ buffer'.size = buffer.size) := by
  simp only [parseStunResponse] at hparse
  split_ifs at hparse with hidle hshort hmethod hmagic
  · exact Or.inl (Prod.mk.inj (Option.some.inj hparse)).2.symm
  · exact Or.inl (Prod.mk.inj (Option.some.inj hparse)).2.symm
  · exact Or.inl (Prod.mk.inj (Option.some.inj hparse)).2.symm
  · have hfirst := byteAt_of_stunMethod (not_not.mp hmethod)
    obtain ⟨⟨data', pAttrIP⟩, hwalk, hrest⟩ := Option.bind_eq_some_iff.mp hparse
    have hkept := (stunWalk_keeps hwalk).2 0 (by omega)
    have hbuffer : buffer' =
      { buffer with mData := buffer.mData.take buffer.mRangeOffset ++ data' } := by
      cases pAttrIP with
      | none => exact (Prod.mk.inj (Option.some.inj hrest)).2.symm
      | some position =>
          obtain ⟨address, -, hanswer⟩ := Option.bind_eq_some_iff.mp hrest
          exact (Prod.mk.inj (Option.some.inj hanswer)).2.symm
    have hdata : buffer'.data = data' := by
      rw [hbuffer, MetaBuffer.data]
      simp [hoffset]
    right
    rw [hdata, hkept]
    exact ⟨hfirst, hfirst, by rw [hbuffer, hoffset], by rw [hbuffer]; rfl⟩

/-- Whether the walk stays inside the block does not depend on the peer. -/
theorem isSome_parseStunResponse (udp : UdpTransport) (source : SockAddr) (buffer : MetaBuffer) :
    ({ udp with mPeerAddr := source }.parseStunResponse buffer).isSome =
      (udp.parseStunResponse buffer).isSome := by
  simp only [parseStunResponse]
  split_ifs
  · rfl
  · rfl
  · rfl
  · rfl
  · cases stunWalk buffer.data.length buffer.data 20 (u16at (buffer.data.drop 2)) with
    | none => rfl
    | some walked =>
        obtain ⟨data, pAttrIP⟩ := walked
        cases pAttrIP with
        | none => rfl
        | some position =>
            cases hreflect : reflectiveAddress data position <;> simp [hreflect]

/-- A fresh buffer with the contents `junk`, after a datagram was received into
it. -/
def received (junk datagram : List UInt8) : MetaBuffer :=
  ⟨datagram ++ junk.drop datagram.length, 0, datagram.length, 0, []⟩

theorem received_data (junk datagram : List UInt8) :
    (received junk datagram).data = datagram ++ junk.drop datagram.length := rfl

theorem received_holds (junk datagram : List UInt8) : (received junk datagram).Holds datagram :=
  ⟨rfl, rfl, List.take_left, Nat.zero_le _⟩

theorem receiveDatagram_create (junk bytes : List UInt8) :
    receiveDatagram (MetaBuffer.create junk) bytes =
      some (received junk (bytes.take junk.length)) := by
  have hfit : (bytes.take junk.length).length ≤ junk.length := by
    rw [List.length_take]
    omega
  simp only [receiveDatagram, MetaBuffer.write, MetaBuffer.capacity, MetaBuffer.create,
    List.take_zero, List.nil_append, Nat.zero_add, if_pos hfit]
  rfl

/-- Nothing is delivered: `receive` reports an error and leaves the buffer as it
was created, with its range over the whole block. -/
theorem receive_silent (udp : UdpTransport) (junk : List UInt8) {outcome : Recvfrom}
    (hsilent : outcome.delivered junk.length = []) (peerAddr : Option SockAddr) :
    ∃ status udp', udp.receive (MetaBuffer.create junk) outcome peerAddr =
        some (status, udp', MetaBuffer.create junk, peerAddr) := by
  cases outcome with
  | error => exact ⟨_, _, rfl⟩
  | datagram source bytes => exact ⟨_, _, if_pos hsilent⟩

/-- Bytes are delivered: the source is stored, and the buffer holds the bytes
unless they are taken for a STUN response. -/
theorem receive_delivered (udp : UdpTransport) (junk : List UInt8) (source : SockAddr)
    {bytes : List UInt8} (hbytes : bytes.take junk.length ≠ []) (peerAddr : Option SockAddr) :
    udp.receive (MetaBuffer.create junk) (.datagram source bytes) peerAddr =
      ({ udp with mPeerAddr := source }.parseStunResponse
          (received junk (bytes.take junk.length))).map
        fun (udp, buffer) => (.noError, udp, buffer, peerAddr.map fun _ => source) := by
  have hcapacity : bytes.take (MetaBuffer.create junk).capacity ≠ [] := hbytes
  simp only [receive, if_neg hcapacity, receiveDatagram_create, Option.bind_eq_bind,
    Option.bind_some]
  by_cases hidle : (udp.mStunRequested && !udp.mStunResponsed) = true
  · simp only [if_pos hidle]
    cases { udp with mPeerAddr := source }.parseStunResponse
      (received junk (bytes.take junk.length)) <;> rfl
  · have hskip : (!udp.mStunRequested || udp.mStunResponsed) = true := by
      revert hidle
      cases udp.mStunRequested <;> cases udp.mStunResponsed <;> decide
    have hparse : { udp with mPeerAddr := source }.parseStunResponse
        (received junk (bytes.take junk.length)) =
          some ({ udp with mPeerAddr := source }, received junk (bytes.take junk.length)) :=
      if_pos hskip
    simp only [if_neg hidle, hparse]
    rfl

end UdpTransport

end McuProxy.Net

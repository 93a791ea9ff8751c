/-
# The packet format of RTP

A packet has twelve fixed bytes, a list of contributing sources, an optional
extension of the header, the payload and optional padding that ends in its own
length. `parseRTP` checks these parts one after the other against a size that it
reduces on the way. The format is written down here as five inequalities about a
byte string, and `parseRTP` accepts exactly the strings that satisfy them.

What it reads is told by a second form of the same function, as a program that
asks for single bytes.
-/

import McuProxy.Math.Reading
import McuProxy.Math.Machine
import McuProxy.Net.Rtcp

namespace McuProxy.Net

open McuProxy.Math Reading

/-! ## Reading fields -/

def readU16 (data : Nat) : Reading UInt8 UInt16 := do
  let high ← ask data
  let low ← ask (data + 1)
  return high.toUInt16 <<< 8 ||| low.toUInt16

def readU32 (data : Nat) : Reading UInt8 UInt32 := do
  let high ← readU16 data
  let low ← readU16 (data + 2)
  return high.toUInt32 <<< 16 ||| low.toUInt32

theorem byteAt_drop (data : List UInt8) (k i : Nat) :
    byteAt (data.drop k) i = byteAt data (k + i) := by
  rw [byteAt, byteAt, List.getD_eq_getElem?_getD, List.getD_eq_getElem?_getD, List.getElem?_drop]

@[simp]
theorem run_readU16 (bytes : List UInt8) (data : Nat) :
    (readU16 data).run (byteAt bytes) = u16at (bytes.drop data) := by
  simp [readU16, u16at, byteAt_drop]

@[simp]
theorem run_readU32 (bytes : List UInt8) (data : Nat) :
    (readU32 data).run (byteAt bytes) = u32at (bytes.drop data) := by
  simp [readU32, u32at]

@[simp]
theorem readsBelow_readU16 (memory : Nat → UInt8) (bound data : Nat) :
    (readU16 data).ReadsBelow bound memory ↔ data + 2 ≤ bound := by
  simp only [readU16, readsBelow_bind, readsBelow_ask, readsBelow_pure, and_true]
  omega

@[simp]
theorem readsBelow_readU32 (memory : Nat → UInt8) (bound data : Nat) :
    (readU32 data).ReadsBelow bound memory ↔ data + 4 ≤ bound := by
  simp only [readU32, readsBelow_bind, readsBelow_readU16, readsBelow_pure, and_true]
  omega

/-- A buffer that holds a datagram has it at the front of its block. -/
theorem MetaBuffer.Holds.front {buffer : MetaBuffer} {datagram : List UInt8}
    (hholds : buffer.Holds datagram) : buffer.data.take datagram.length = datagram := by
  rw [← hholds.size]
  exact hholds.bytes

namespace RTPTransport

/-- The check of the padding bit at the packet that starts at `data`. -/
def readPadding (minimum data size : Nat) : Reading UInt8 (Option Nat) := do
  let first ← ask data
  if first &&& 0x20 ≠ 0 then do
    let paddingLength ← ask (data + (size - 1))
    return if paddingLength.toNat + minimum > size then none else some (size - paddingLength.toNat)
  else return some size

theorem run_readPadding (bytes : List UInt8) (minimum data size : Nat) :
    (readPadding minimum data size).run (byteAt bytes) =
      stripPadding minimum (bytes.drop data) size := by
  simp only [readPadding, stripPadding, byteAt_drop, run_ask_bind, Nat.add_zero]
  by_cases hbit : byteAt bytes data &&& 0x20 ≠ 0
  · rw [if_pos hbit, if_pos hbit, run_ask_bind, run_pure]
  · rw [if_neg hbit, if_neg hbit, run_pure]

theorem readsBelow_readPadding (memory : Nat → UInt8) {minimum data size bound : Nat}
    (hsize : 0 < size) (hbound : data + size ≤ bound) :
    (readPadding minimum data size).ReadsBelow bound memory := by
  have hfirst : data < bound := by omega
  have hlast : data + (size - 1) < bound := by omega
  simp only [readPadding, readsBelow_ask_bind]
  refine ⟨hfirst, ?_⟩
  split_ifs <;> simp [hlast]

/-- The end of the header extension. -/
def readExtension (size payloadOffset : Nat) : Reading UInt8 (Option Nat) := do
  let first ← ask 0
  if first &&& 0x10 ≠ 0 then
    if size < payloadOffset + 4 then return none
    else do
      let words ← readU16 (payloadOffset + 2)
      let extensionLength := 4 * words.toNat
      return if size < payloadOffset + 4 + extensionLength then none
        else some (payloadOffset + 4 + extensionLength)
  else return some payloadOffset

theorem run_readExtension (bytes : List UInt8) (size payloadOffset : Nat) :
    (readExtension size payloadOffset).run (byteAt bytes) =
      skipExtension bytes size payloadOffset := by
  simp only [readExtension, skipExtension, run_ask_bind]
  by_cases hbit : byteAt bytes 0 &&& 0x10 ≠ 0
  · rw [if_pos hbit, if_pos hbit]
    by_cases hshort : size < payloadOffset + 4
    · rw [if_pos hshort, if_pos hshort, run_pure]
    · rw [if_neg hshort, if_neg hshort]
      simp only [run_bind, run_readU16, run_pure]
  · rw [if_neg hbit, if_neg hbit, run_pure]

theorem readsBelow_readExtension (memory : Nat → UInt8) {size payloadOffset bound : Nat}
    (hpositive : 0 < size) (hbound : size ≤ bound) :
    (readExtension size payloadOffset).ReadsBelow bound memory := by
  have hfirst : 0 < bound := by omega
  simp only [readExtension, readsBelow_ask_bind]
  refine ⟨hfirst, ?_⟩
  split_ifs with hbit hshort
  · exact readsBelow_pure _ _ _
  · have hwords : payloadOffset + 2 + 2 ≤ bound := by omega
    simp [hwords]
  · exact readsBelow_pure _ _ _

/-! ## `parseRTP` as a program that reads -/

/-- The end of `parseRTP` once all checks have passed. -/
def acceptRTP (transport : RTPTransport) (buffer : MetaBuffer) (payloadOffset size : Nat)
    (rcvdSourceId rtpTime : UInt32) (second : UInt8) (seqNo : UInt16) :
    Option (Status × RTPTransport × MetaBuffer) :=
  let transport := { transport with
    mInfo := { transport.mInfo with rcvdSourceId := rcvdSourceId } }
  (tagPacket buffer rcvdSourceId rtpTime second).map fun buffer =>
    let buffer := buffer.setQuickData seqNo.toUInt32
    let buffer := buffer.setRange payloadOffset (size - payloadOffset)
    let transport :=
      if transport.firstRTP then
        { transport.notify (.rtpFirstPacket rtpTime) with firstRTP := false }
      else transport
    (.noError, transport, buffer)

/-- `++mInfo.rcvdRTP`. -/
def countRTP (transport : RTPTransport) : RTPTransport :=
  { transport with mInfo := { transport.mInfo with rcvdRTP := transport.mInfo.rcvdRTP + 1 } }

theorem parseRTP_refused {transport : RTPTransport} {buffer : MetaBuffer}
    (hrange : payloadRange buffer.data buffer.size = none) :
    transport.parseRTP buffer = some (.unknownError, transport.countRTP, buffer) := by
  simp only [parseRTP, hrange]
  rfl

theorem parseRTP_accepted {transport : RTPTransport} {buffer : MetaBuffer} {range : Nat × Nat}
    (hrange : payloadRange buffer.data buffer.size = some range) :
    transport.parseRTP buffer = transport.countRTP.acceptRTP buffer range.1 range.2
      (u32at (buffer.data.drop 8)) (u32at (buffer.data.drop 4)) (byteAt buffer.data 1)
      (u16at (buffer.data.drop 2)) := by
  simp only [parseRTP, hrange]
  rfl

/-- `parseRTP` with every read of a byte of the buffer, in the order of the
source. -/
def readRTP (transport : RTPTransport) (buffer : MetaBuffer) :
    Reading UInt8 (Option (Status × RTPTransport × MetaBuffer)) :=
  let refused := some (.unknownError, transport.countRTP, buffer)
  let size := buffer.size
  if size < 12 then return refused
  else do
    let version ← ask 0
    if version >>> 6 ≠ 2 then return refused
    else
      match ← readPadding 12 0 size with
      | none => return refused
      | some size => do
          let numCSRCs ← ask 0
          let payloadOffset := 12 + 4 * (numCSRCs &&& 0x0f).toNat
          if size < payloadOffset then return refused
          else
            match ← readExtension size payloadOffset with
            | none => return refused
            | some payloadOffset => do
                let rcvdSourceId ← readU32 8
                let rtpTime ← readU32 4
                let ptype ← ask 1
                let _marker ← ask 1
                let seqNo ← readU16 2
                return transport.countRTP.acceptRTP buffer payloadOffset size rcvdSourceId rtpTime
                  ptype seqNo

/-- The program computes what `parseRTP` computes. -/
theorem run_readRTP (transport : RTPTransport) (buffer : MetaBuffer) :
    (transport.readRTP buffer).run (byteAt buffer.data) = transport.parseRTP buffer := by
  unfold readRTP parseRTP payloadRange
  by_cases hshort : buffer.size < 12
  · simp only [if_pos hshort, run_pure]
    rfl
  simp only [if_neg hshort, run_ask_bind]
  by_cases hversion : byteAt buffer.data 0 >>> 6 ≠ 2
  · simp only [if_pos hversion, run_pure]
    rfl
  simp only [if_neg hversion, run_bind, run_readPadding, List.drop_zero]
  cases hpadding : stripPadding 12 buffer.data buffer.size with
  | none => rfl
  | some size =>
      simp only [run_ask_bind, Option.bind_some]
      by_cases hsources : size < 12 + 4 * (byteAt buffer.data 0 &&& 0x0f).toNat
      · simp only [if_pos hsources, run_pure]
        rfl
      simp only [if_neg hsources, run_bind, run_readExtension]
      cases skipExtension buffer.data size (12 + 4 * (byteAt buffer.data 0 &&& 0x0f).toNat) with
      | none => rfl
      | some payloadOffset =>
          simp only [run_bind, run_readU32, run_readU16, run_ask, run_pure]
          rfl

theorem stripPadding_le {minimum size stripped : Nat} {data : List UInt8} (hfit : minimum ≤ size)
    (hstrip : stripPadding minimum data size = some stripped) :
    minimum ≤ stripped ∧ stripped ≤ size := by
  simp only [stripPadding] at hstrip
  split_ifs at hstrip with hbit hshort
  · obtain rfl := Option.some.inj hstrip
    omega
  · obtain rfl := Option.some.inj hstrip
    omega

/-- `parseRTP` reads no byte behind the end of the range. -/
theorem readsBelow_readRTP (transport : RTPTransport) (buffer : MetaBuffer) :
    (transport.readRTP buffer).ReadsBelow buffer.size (byteAt buffer.data) := by
  unfold readRTP
  by_cases hshort : buffer.size < 12
  · simp [hshort]
  have hfirst : 0 < buffer.size := by omega
  simp only [if_neg hshort, readsBelow_ask_bind, hfirst, true_and]
  by_cases hversion : byteAt buffer.data 0 >>> 6 ≠ 2
  · simp only [if_pos hversion, readsBelow_pure]
  simp only [if_neg hversion, readsBelow_bind, run_readPadding, List.drop_zero]
  refine ⟨readsBelow_readPadding _ hfirst (by omega), ?_⟩
  cases hpadding : stripPadding 12 buffer.data buffer.size with
  | none => simp
  | some size =>
      obtain ⟨hlow, hhigh⟩ := stripPadding_le (not_lt.mp hshort) hpadding
      simp only [readsBelow_ask_bind, hfirst, true_and]
      by_cases hsources : size < 12 + 4 * (byteAt buffer.data 0 &&& 0x0f).toNat
      · simp only [if_pos hsources, readsBelow_pure]
      simp only [if_neg hsources, readsBelow_bind, run_readExtension]
      refine ⟨readsBelow_readExtension _ (by omega) hhigh, ?_⟩
      cases skipExtension buffer.data size (12 + 4 * (byteAt buffer.data 0 &&& 0x0f).toNat) with
      | none => simp
      | some payloadOffset =>
          have hfields : 12 ≤ buffer.size := not_lt.mp hshort
          simp only [readsBelow_bind, readsBelow_readU32, readsBelow_readU16, readsBelow_ask,
            readsBelow_pure, and_true]
          omega

/-! ## The format -/

/-- A number in network byte order. -/
def bigEndian (bytes : List UInt8) : Nat := bytes.foldl (fun high byte => 256 * high + byte.toNat) 0

/-- The field of `length` bytes at an offset of a datagram. -/
def field (datagram : List UInt8) (offset length : Nat) : Nat :=
  bigEndian ((datagram.drop offset).take length)

/-- The pad count: the last byte if the P bit is set, else 0. -/
def padCount (datagram : List UInt8) : Nat :=
  if (byteAt datagram 0).toNat / 32 % 2 = 1 then
    (byteAt datagram (datagram.length - 1)).toNat
  else 0

/-- The CC field: how many contributing sources follow the fixed header. -/
def sourceCount (datagram : List UInt8) : Nat := (byteAt datagram 0).toNat % 16

/-- The X bit. -/
def Extended (datagram : List UInt8) : Prop := (byteAt datagram 0).toNat / 16 % 2 = 1

instance (datagram : List UInt8) : Decidable (Extended datagram) :=
  inferInstanceAs (Decidable (_ = _))

/-- The length field of the extension, in words. -/
def extensionWords (datagram : List UInt8) : Nat :=
  field datagram (12 + 4 * sourceCount datagram + 2) 2

/-- The length of the whole header. -/
def headerLength (datagram : List UInt8) : Nat :=
  12 + 4 * sourceCount datagram + if Extended datagram then 4 + 4 * extensionWords datagram else 0

/-- The packet format. -/
structure WellFormed (datagram : List UInt8) : Prop where
  fixed : 12 ≤ datagram.length
  version : (byteAt datagram 0).toNat / 64 = 2
  padding : padCount datagram + 12 ≤ datagram.length
  sources : 12 + 4 * sourceCount datagram ≤ datagram.length - padCount datagram
  extension : Extended datagram → 12 + 4 * sourceCount datagram + 4 + 4 * extensionWords datagram ≤
    datagram.length - padCount datagram

/-- The masks and shifts of the first byte as digits. -/
theorem firstByte_digits (first : UInt8) :
    (first >>> 6 ≠ 2 ↔ first.toNat / 64 ≠ 2) ∧ (first &&& 0x20 ≠ 0 ↔ first.toNat / 32 % 2 = 1) ∧
      (first &&& 0x10 ≠ 0 ↔ first.toNat / 16 % 2 = 1) ∧
      (first &&& 0x0f).toNat = first.toNat % 16 := by
  have hall : ∀ n : Fin 256,
      (UInt8.ofNat n >>> 6 ≠ 2 ↔ n.val / 64 ≠ 2) ∧
        (UInt8.ofNat n &&& 0x20 ≠ 0 ↔ n.val / 32 % 2 = 1) ∧
        (UInt8.ofNat n &&& 0x10 ≠ 0 ↔ n.val / 16 % 2 = 1) ∧
        (UInt8.ofNat n &&& 0x0f).toNat = n.val % 16 := by decide +kernel
  simpa using hall ⟨first.toNat, first.toNat_lt⟩

/-- The masks and shifts of the second byte as digits. -/
theorem secondByte_digits (second : UInt8) :
    (second &&& 0x7f).toUInt32.toInt32 = Int32.ofNat (second.toNat % 128) ∧
      (second >>> 7).toUInt32.toInt32 = Int32.ofNat (second.toNat / 128) := by
  have hall : ∀ n : Fin 256,
      (UInt8.ofNat n &&& 0x7f).toUInt32.toInt32 = Int32.ofNat (n.val % 128) ∧
        (UInt8.ofNat n >>> 7).toUInt32.toInt32 = Int32.ofNat (n.val / 128) := by decide +kernel
  simpa using hall ⟨second.toNat, second.toNat_lt⟩

/-- A byte of the datagram that the front of a block holds. -/
theorem byteAt_take {data : List UInt8} {i n : Nat} (hi : i < n) :
    byteAt (data.take n) i = byteAt data i := by
  rw [byteAt, byteAt, List.getD_eq_getElem?_getD, List.getD_eq_getElem?_getD,
    List.getElem?_take_of_lt hi]

/-- A field that lies in the datagram, read from the block. -/
theorem field_take {data : List UInt8} {n offset length : Nat} (hfit : offset + length ≤ n) :
    field (data.take n) offset length = bigEndian ((data.drop offset).take length) := by
  rw [field, List.drop_take, List.take_take, min_eq_left (by omega)]

theorem field_two {data : List UInt8} {n offset : Nat} (hlength : n ≤ data.length)
    (hfit : offset + 2 ≤ n) : field (data.take n) offset 2 = (u16at (data.drop offset)).toNat := by
  have hrest : 2 ≤ (data.drop offset).length := by
    rw [List.length_drop]
    omega
  rw [field_take hfit]
  match hdrop : data.drop offset with
  | [] => simp [hdrop] at hrest
  | [_] => simp [hdrop] at hrest
  | high :: low :: rest =>
      rw [u16at, toNat_join16]
      simp only [bigEndian, byteAt, List.take_succ_cons, List.take_zero, List.foldl_cons,
        List.foldl_nil, List.getD_cons_zero, List.getD_cons_succ]
      omega

theorem field_four {data : List UInt8} {n offset : Nat} (hlength : n ≤ data.length)
    (hfit : offset + 4 ≤ n) : field (data.take n) offset 4 = (u32at (data.drop offset)).toNat := by
  have hrest : 4 ≤ (data.drop offset).length := by
    rw [List.length_drop]
    omega
  rw [field_take hfit]
  match hdrop : data.drop offset with
  | [] => simp [hdrop] at hrest
  | [_] => simp [hdrop] at hrest
  | [_, _] => simp [hdrop] at hrest
  | [_, _, _] => simp [hdrop] at hrest
  | b₀ :: b₁ :: b₂ :: b₃ :: rest =>
      rw [u32at, toNat_join32, u16at, u16at, toNat_join16, toNat_join16]
      simp only [bigEndian, byteAt, List.take_succ_cons, List.take_zero, List.foldl_cons,
        List.foldl_nil, List.drop_succ_cons, List.drop_zero, List.getD_cons_zero,
        List.getD_cons_succ]
      omega

/-! ## The checks of `parseRTP` are those of the format -/

section Front

variable {data datagram : List UInt8} (hbytes : data.take datagram.length = datagram)
include hbytes

theorem length_le_of_front : datagram.length ≤ data.length := by
  have htake := congrArg List.length hbytes
  rw [List.length_take] at htake
  omega

theorem byteAt_front {i : Nat} (hi : i < datagram.length) : byteAt datagram i = byteAt data i := by
  nth_rewrite 1 [← hbytes]
  exact byteAt_take hi

theorem field_two_front {offset : Nat} (hfit : offset + 2 ≤ datagram.length) :
    field datagram offset 2 = (u16at (data.drop offset)).toNat := by
  have hfield := field_two (length_le_of_front hbytes) hfit
  rwa [hbytes] at hfield

theorem field_four_front {offset : Nat} (hfit : offset + 4 ≤ datagram.length) :
    field datagram offset 4 = (u32at (data.drop offset)).toNat := by
  have hfield := field_four (length_le_of_front hbytes) hfit
  rwa [hbytes] at hfield

theorem stripPadding_front (hfixed : 12 ≤ datagram.length) :
    stripPadding 12 data datagram.length =
      if padCount datagram + 12 ≤ datagram.length then some (datagram.length - padCount datagram)
      else none := by
  have hbit := (firstByte_digits (byteAt data 0)).2.1
  have hfirst := byteAt_front hbytes (show 0 < datagram.length by omega)
  have hlast := byteAt_front hbytes (show datagram.length - 1 < datagram.length by omega)
  simp only [stripPadding, padCount, hfirst, hlast]
  by_cases hpadded : byteAt data 0 &&& 0x20 ≠ 0
  · rw [if_pos hpadded, if_pos (hbit.mp hpadded)]
    split_ifs <;> first | rfl | omega
  · rw [if_neg hpadded, if_neg (fun hset => hpadded (hbit.mpr hset))]
    rw [if_pos (by omega), Nat.sub_zero]

theorem skipExtension_front {size : Nat} (hsize : size ≤ datagram.length)
    (hsources : 12 + 4 * sourceCount datagram ≤ size) :
    skipExtension data size (12 + 4 * sourceCount datagram) =
      if Extended datagram →
          12 + 4 * sourceCount datagram + 4 + 4 * extensionWords datagram ≤ size then
        some (headerLength datagram)
      else none := by
  have hbit := (firstByte_digits (byteAt data 0)).2.2.1
  have hfirst := byteAt_front hbytes (show 0 < datagram.length by omega)
  have hset : byteAt data 0 &&& 0x10 ≠ 0 ↔ Extended datagram := by
    rw [Extended, hfirst]
    exact hbit
  simp only [skipExtension, headerLength]
  by_cases hextended : Extended datagram
  · rw [if_pos (hset.mpr hextended), if_pos hextended]
    by_cases hshort : size < 12 + 4 * sourceCount datagram + 4
    · rw [if_pos hshort, if_neg (fun hfit => absurd (hfit hextended) (by omega))]
    · have hwords : extensionWords datagram =
          (u16at (data.drop (12 + 4 * sourceCount datagram + 2))).toNat :=
        field_two_front hbytes (by omega)
      rw [if_neg hshort, ← hwords]
      by_cases hfit : 12 + 4 * sourceCount datagram + 4 + 4 * extensionWords datagram ≤ size
      · rw [if_neg (by omega), if_pos (fun _ => hfit), Nat.add_assoc]
      · rw [if_pos (by omega), if_neg (fun himp => hfit (himp hextended))]
  · rw [if_neg (fun hbit => hextended (hset.mp hbit)), if_neg hextended,
      if_pos (fun h => absurd h hextended), Nat.add_zero]

/-- The checks accept the well-formed datagrams, and find the ends of their header
and of their payload. -/
theorem payloadRange_wellFormed (hformat : WellFormed datagram) :
    payloadRange data datagram.length =
      some (headerLength datagram, datagram.length - padCount datagram) := by
  obtain ⟨hfixed, hversion, hpadding, hsources, hextension⟩ := hformat
  have hfirst := byteAt_front hbytes (show 0 < datagram.length by omega)
  obtain ⟨hversionBits, -, -, hcount⟩ := firstByte_digits (byteAt data 0)
  rw [hfirst] at hversion
  have hoffset : 12 + 4 * (byteAt data 0 &&& 0x0f).toNat = 12 + 4 * sourceCount datagram := by
    rw [hcount, sourceCount, hfirst]
  rw [payloadRange, if_neg (by omega), if_neg (fun hbad => hversionBits.mp hbad hversion),
    stripPadding_front hbytes hfixed, if_pos hpadding, Option.bind_some]
  simp only [hoffset]
  rw [if_neg (by omega), skipExtension_front hbytes (Nat.sub_le _ _) hsources, if_pos hextension]
  rfl

/-- The checks refuse every other datagram. -/
theorem payloadRange_malformed (hformat : ¬ WellFormed datagram) :
    payloadRange data datagram.length = none := by
  rw [payloadRange]
  split_ifs with hshort hbad
  · rfl
  · rfl
  have hfixed : 12 ≤ datagram.length := not_lt.mp hshort
  have hfirst := byteAt_front hbytes (show 0 < datagram.length by omega)
  obtain ⟨hversionBits, -, -, hcount⟩ := firstByte_digits (byteAt data 0)
  have hversion : (byteAt datagram 0).toNat / 64 = 2 := by
    rw [hfirst]
    by_contra hne
    exact hbad (hversionBits.mpr hne)
  have hoffset : 12 + 4 * (byteAt data 0 &&& 0x0f).toNat = 12 + 4 * sourceCount datagram := by
    rw [hcount, sourceCount, hfirst]
  rw [stripPadding_front hbytes hfixed]
  split_ifs with hpadding
  · rw [Option.bind_some]
    simp only [hoffset]
    split_ifs with hsources
    · rfl
    · rw [skipExtension_front hbytes (Nat.sub_le _ _) (not_lt.mp hsources), if_neg]
      · rfl
      · intro hextension
        exact hformat ⟨hfixed, hversion, hpadding, not_lt.mp hsources, hextension⟩
  · rfl

end Front

/-! ## The announcement of the first packet -/

/-- What may happen to a transport after a packet was accepted. -/
inductive TransportCall
  | parseRTP (buffer : MetaBuffer)
  | parseRTCP (buffer : MetaBuffer) (clock : Nat → UInt64)
  | doSend (call : SendCall)
  | handleTimeout (_buffer : Fin 88 → UInt8) (now : UInt64)

/-- One call as a step of a machine. -/
def callStep (transport : RTPTransport) : TransportCall → Option RTPTransport
  | .parseRTP buffer => (transport.parseRTP buffer).map fun answer => answer.2.1
  | .parseRTCP buffer clock => some (transport.parseRTCP buffer clock).2.1
  | .doSend call =>
      (transport.doSend call.buffer call.timeUs call.video call.marker call.now).map Prod.fst
  | .handleTimeout _buffer now => some (transport.handleTimeout _buffer now).1

/-- The first packet was announced before: the flag is down, and since the
messages `earlier` no announcement was added. -/
structure FirstSpent (earlier : List RTPMessage) (transport : RTPTransport) : Prop where
  flag : transport.firstRTP = false
  later : ∃ later, transport.notified = earlier ++ later ∧
    ∀ rtpTime, .rtpFirstPacket rtpTime ∉ later

theorem FirstSpent.refl {transport : RTPTransport} (hflag : transport.firstRTP = false) :
    FirstSpent transport.notified transport :=
  ⟨hflag, [], (List.append_nil _).symm, fun _ => List.not_mem_nil⟩

/-- A message of another kind. -/
theorem FirstSpent.notify {earlier : List RTPMessage} {transport : RTPTransport}
    (hspent : FirstSpent earlier transport) {msg : RTPMessage}
    (hmsg : ∀ rtpTime, msg ≠ .rtpFirstPacket rtpTime) :
    FirstSpent earlier (transport.notify msg) := by
  obtain ⟨hflag, later, hlater, hnone⟩ := hspent
  refine ⟨hflag, later ++ [msg], ?_, ?_⟩
  · rw [RTPTransport.notify, hlater, List.append_assoc]
  · intro rtpTime hmem
    rcases List.mem_append.mp hmem with hold | hnew
    · exact hnone rtpTime hold
    · exact hmsg rtpTime (List.mem_singleton.mp hnew).symm

/-- A change of other fields. -/
theorem FirstSpent.congr {earlier : List RTPMessage} {transport other : RTPTransport}
    (hspent : FirstSpent earlier transport) (hflag : other.firstRTP = transport.firstRTP)
    (hnotified : other.notified = transport.notified) : FirstSpent earlier other :=
  ⟨hflag.trans hspent.flag, hnotified ▸ hspent.later⟩

theorem parsePacket_firstSpent {earlier : List RTPMessage} {transport : RTPTransport}
    (hspent : FirstSpent earlier transport) (data : List UInt8) (headerLength : Nat)
    (now : UInt64) :
    FirstSpent earlier (transport.parsePacket data headerLength now).2 := by
  obtain ⟨-, hparse⟩ | ⟨-, hparse⟩ | ⟨-, -, hparse⟩ :=
    parsePacket_cases transport data headerLength now
  · simp only [hparse, parseSR]
    split_ifs
    · exact hspent.congr rfl rfl
    · apply FirstSpent.notify
      · exact hspent.congr rfl rfl
      · simp
  · simp only [hparse, parseBYE]
    split_ifs
    · exact hspent
    · exact hspent.notify (by simp)
  · rw [hparse]
    exact hspent

/-- The loop of `parseRTCP`, by induction on its fuel. -/
theorem parseRTCPLoop_firstSpent {earlier : List RTPMessage} (fuel : Nat) (clock : Nat → UInt64)
    {transport : RTPTransport} (hspent : FirstSpent earlier transport) (data : List UInt8)
    (size : Nat) : FirstSpent earlier (parseRTCPLoop fuel clock transport data size).2.1 := by
  induction fuel generalizing clock transport data size with
  | zero => exact hspent
  | succ fuel ih =>
      rw [parseRTCPLoop_succ]
      split_ifs
      · exact hspent
      · cases nextPacket data size with
        | none => exact hspent
        | some packet => exact ih _ (parsePacket_firstSpent hspent _ _ _) _ _

/-- No call announces a first packet a second time. -/
theorem callStep_firstSpent {earlier : List RTPMessage} {transport next : RTPTransport}
    {call : TransportCall} (hspent : FirstSpent earlier transport)
    (hstep : transport.callStep call = some next) : FirstSpent earlier next := by
  cases call with
  | parseRTP buffer =>
      simp only [callStep, Option.map_eq_some_iff] at hstep
      obtain ⟨⟨status, after, parsed⟩, hparse, rfl⟩ := hstep
      cases hrange : payloadRange buffer.data buffer.size with
      | none =>
          rw [parseRTP_refused hrange] at hparse
          obtain ⟨-, rfl, -⟩ := by simpa using hparse
          exact hspent.congr rfl rfl
      | some range =>
          rw [parseRTP_accepted hrange, acceptRTP] at hparse
          simp only [Option.map_eq_some_iff, Prod.mk.injEq] at hparse
          obtain ⟨tagged, -, -, rfl, -⟩ := hparse
          rw [if_neg (by simp [countRTP, hspent.flag])]
          exact hspent.congr rfl rfl
  | parseRTCP buffer clock =>
      obtain rfl := Option.some.inj hstep
      apply parseRTCPLoop_firstSpent
      unfold countRTCP
      split_ifs
      · apply FirstSpent.notify
        · exact hspent.congr rfl rfl
        · simp
      · exact hspent.congr rfl rfl
  | doSend call =>
      simp only [callStep, Option.map_eq_some_iff] at hstep
      obtain ⟨⟨after, buffer, sent⟩, hsend, rfl⟩ := hstep
      simp only [doSend] at hsend
      split_ifs at hsend
      · obtain ⟨written, -, hanswer⟩ := Option.map_eq_some_iff.mp hsend
        obtain ⟨rfl, -⟩ := Prod.mk.inj hanswer
        exact hspent.congr rfl rfl
      · obtain ⟨rfl, -⟩ := Prod.mk.inj (Option.some.inj hsend)
        exact hspent.congr rfl rfl
  | handleTimeout _buffer now =>
      obtain rfl := Option.some.inj hstep
      exact hspent.congr rfl rfl

/-! ## What is accepted, and what follows -/

/-- What accepting a datagram does to the buffer and to the transport. -/
structure Accepted (datagram : List UInt8) (before after : RTPTransport) (parsed : MetaBuffer) :
    Prop where
  range : parsed.mRangeOffset = headerLength datagram ∧
    parsed.mRangeLength = datagram.length - padCount datagram - headerLength datagram
  source : ∃ ssrc : UInt32, ssrc.toNat = field datagram 8 4 ∧
    parsed.findInt32 "ssrc" = some ssrc.toInt32 ∧ after.mInfo.rcvdSourceId = ssrc
  time : ∃ rtpTime : UInt32, rtpTime.toNat = field datagram 4 4 ∧
    parsed.findInt32 "rtp-time" = some rtpTime.toInt32 ∧
    after.notified = before.notified ++ if before.firstRTP then [.rtpFirstPacket rtpTime] else []
  ptype : parsed.findInt32 "PT" = some (Int32.ofNat ((byteAt datagram 1).toNat % 128))
  marker : parsed.findInt32 "M" = some (Int32.ofNat ((byteAt datagram 1).toNat / 128))
  seqNo : parsed.mQuickData.toNat = field datagram 2 2
  never : ∀ calls final, runMachine callStep after calls = some final →
    FirstSpent after.notified final

/-- What refusing a datagram leaves as it was. -/
structure Refused (before after : RTPTransport) (buffer parsed : MetaBuffer) : Prop where
  buffer : parsed = buffer
  source : after.mInfo.rcvdSourceId = before.mInfo.rcvdSourceId
  flag : after.firstRTP = before.firstRTP
  notified : after.notified = before.notified

/-- The last steps of `parseRTP` on a buffer that holds a well-formed datagram. -/
theorem acceptRTP_accepted (transport : RTPTransport) {buffer : MetaBuffer} {datagram : List UInt8}
    (hholds : buffer.Holds datagram) (hfixed : 12 ≤ datagram.length) :
    ∃ after parsed, transport.countRTP.acceptRTP buffer (headerLength datagram)
        (datagram.length - padCount datagram) (u32at (buffer.data.drop 8))
        (u32at (buffer.data.drop 4)) (byteAt buffer.data 1) (u16at (buffer.data.drop 2)) =
          some (.noError, after, parsed) ∧ Accepted datagram transport after parsed := by
  have hbytes := hholds.front
  obtain ⟨tagged, htagged, hssrc, htime, hptype, hmarker, -⟩ := tagPacket_spec hholds.room
    (u32at (buffer.data.drop 8)) (u32at (buffer.data.drop 4)) (byteAt buffer.data 1)
  obtain ⟨htypeDigits, hmarkerDigits⟩ := secondByte_digits (byteAt buffer.data 1)
  have hsecond := byteAt_front hbytes (show 1 < datagram.length by omega)
  have hsource := field_four_front hbytes (show 8 + 4 ≤ datagram.length by omega)
  have hstamp := field_four_front hbytes (show 4 + 4 ≤ datagram.length by omega)
  have hnumber := field_two_front hbytes (show 2 + 2 ≤ datagram.length by omega)
  simp only [acceptRTP, htagged, Option.map_some, Option.some.injEq, Prod.mk.injEq, true_and]
  refine ⟨_, _, ⟨rfl, rfl⟩, ?_⟩
  refine ⟨⟨rfl, rfl⟩, ⟨_, hsource.symm, hssrc, ?_⟩, ⟨_, hstamp.symm, htime, ?_⟩, ?_, ?_, ?_, ?_⟩
  · split_ifs <;> rfl
  · cases hflag : transport.firstRTP with
    | false => simp [countRTP, hflag]
    | true => simp [countRTP, hflag, notify]
  · rw [hsecond, ← htypeDigits]
    exact hptype
  · rw [hsecond, ← hmarkerDigits]
    exact hmarker
  · exact (UInt16.toNat_toUInt32 _).trans hnumber.symm
  · intro calls final hrun
    apply runMachine_preserves _ (fun _ _ _ => callStep_firstSpent) _ hrun
    apply FirstSpent.refl
    split_ifs with hflag
    · rfl
    · exact Bool.eq_false_of_not_eq_true hflag

theorem parseRTP_wellFormed (transport : RTPTransport) {buffer : MetaBuffer}
    {datagram : List UInt8} (hholds : buffer.Holds datagram) (hformat : WellFormed datagram) :
    ∃ after parsed, transport.parseRTP buffer = some (.noError, after, parsed) ∧
      Accepted datagram transport after parsed := by
  have hrange := payloadRange_wellFormed hholds.front hformat
  rw [← hholds.size] at hrange
  rw [parseRTP_accepted hrange, hholds.size]
  exact acceptRTP_accepted transport hholds hformat.fixed

theorem parseRTP_malformed (transport : RTPTransport) {buffer : MetaBuffer}
    {datagram : List UInt8} (hfront : buffer.data.take datagram.length = datagram)
    (hsize : buffer.size = datagram.length) (hformat : ¬ WellFormed datagram) :
    transport.parseRTP buffer = some (.unknownError, transport.countRTP, buffer) := by
  have hrange := payloadRange_malformed hfront hformat
  rw [← hsize] at hrange
  exact parseRTP_refused hrange

/-- `parseRTP` accepts exactly its packet format. It reads no byte behind the
datagram, it accepts if and only if the datagram is well-formed, and what it does
then and what it leaves alone otherwise holds for every state of the transport. -/
theorem parseRTP_format (transport : RTPTransport) {buffer : MetaBuffer} {datagram : List UInt8}
    (hholds : buffer.Holds datagram) :
    (transport.readRTP buffer).run (byteAt buffer.data) = transport.parseRTP buffer ∧
      (∀ i ∈ (transport.readRTP buffer).indices (byteAt buffer.data), i < datagram.length) ∧
      ∃ status after parsed, transport.parseRTP buffer = some (status, after, parsed) ∧
        (status = .noError ↔ WellFormed datagram) ∧
        (status = .noError → Accepted datagram transport after parsed) ∧
        (status ≠ .noError → Refused transport after buffer parsed) := by
  refine ⟨run_readRTP transport buffer, hholds.size ▸ readsBelow_readRTP transport buffer, ?_⟩
  by_cases hformat : WellFormed datagram
  · obtain ⟨after, parsed, hparse, haccepted⟩ := parseRTP_wellFormed transport hholds hformat
    exact ⟨.noError, after, parsed, hparse, by simp [hformat], fun _ => haccepted, by simp⟩
  · exact ⟨.unknownError, transport.countRTP, buffer,
      parseRTP_malformed transport hholds.front hholds.size hformat, by simp [hformat], by simp,
      fun _ => ⟨rfl, rfl, rfl, rfl⟩⟩

/-- A packet with one contributing source, an extension of one word, one byte of
payload and two bytes of padding. -/
theorem parseRTP_format_everything :
    let datagram : List UInt8 := [0xB1, 0xE0, 1, 2, 0, 0, 0, 5, 0, 0, 0, 9, 0, 0, 0, 3,
      0, 0, 0, 1, 0, 0, 0, 0, 7, 0, 2]
    let buffer : MetaBuffer := ⟨datagram, 0, 27, 0, []⟩
    let transport : RTPTransport :=
      ⟨true, 0, ⟨0, 0, 0, 0, 0, 0, 0, 0, 0⟩, 0, 0, 0, 0, 0, 0, 96, []⟩
    buffer.Holds datagram ∧ ∃ after parsed,
      transport.parseRTP buffer = some (.noError, after, parsed) ∧
        parsed.mRangeOffset = 24 ∧ parsed.mRangeLength = 1 := by
  intro datagram buffer transport
  have hholds : buffer.Holds datagram := ⟨rfl, rfl, rfl, by decide⟩
  have hformat : WellFormed datagram :=
    ⟨by decide, by decide, by decide, by decide, fun _ => by decide⟩
  obtain ⟨-, -, status, after, parsed, hparse, hiff, haccepted, -⟩ :=
    transport.parseRTP_format hholds
  obtain rfl := hiff.mpr hformat
  obtain ⟨hoffset, hlength⟩ := (haccepted rfl).range
  exact ⟨hholds, after, parsed, hparse, hoffset.trans (by decide +kernel),
    hlength.trans (by decide +kernel)⟩

end RTPTransport

end McuProxy.Net

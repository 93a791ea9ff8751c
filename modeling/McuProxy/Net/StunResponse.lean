/-
# The walk over a STUN response

`parseStunResponse` trusts the message. It looks at the header without knowing how
many bytes have arrived, and it walks over the attributes by two numbers that the
message gives: the length of the message, which it counts down in 16 bits, and the
length of each attribute. The walk stops at every attribute that is not eight bytes
long, and it steps over the value of an attribute but not over its header. So it
looks at one word in every eight bytes, whatever the attributes are.

The function is written a second time, as a program that reads and writes single
bytes, with fuel for the turns of its loop. What it does depends on the first of
these words that is not the header of an attribute of eight bytes to be passed
over.
-/

import McuProxy.Math.Editing
import McuProxy.Net.RtpFormat
import McuProxy.Net.UdpReceive

namespace McuProxy.Net

open McuProxy.Math Editing

theorem getElem?_eq_byteAt {data : List UInt8} {i : Nat} (hi : i < data.length) :
    data[i]? = some (byteAt data i) := by
  rw [byteAt, List.getD_eq_getElem?_getD, List.getElem?_eq_getElem hi, Option.getD_some]

def loadU16 (data : Nat) : Editing UInt8 UInt16 := do
  let high ← load data
  let low ← load (data + 1)
  return high.toUInt16 <<< 8 ||| low.toUInt16

def loadU32 (data : Nat) : Editing UInt8 UInt32 := do
  let high ← loadU16 data
  let low ← loadU16 (data + 2)
  return high.toUInt32 <<< 16 ||| low.toUInt32

@[simp]
theorem run_loadU16 (i : Nat) (data : List UInt8) :
    (loadU16 i).run data =
      if i + 2 ≤ data.length then some (u16at (data.drop i), data) else none := by
  simp only [loadU16, run_load_bind, run_pure]
  split_ifs with hinside
  · rw [getElem?_eq_byteAt (show i < data.length by omega),
      getElem?_eq_byteAt (show i + 1 < data.length by omega)]
    simp only [Option.bind_some, u16at, byteAt_drop, Nat.add_zero]
  · have hsecond : data[i + 1]? = none := List.getElem?_eq_none (by omega)
    simp only [hsecond, Option.bind_none, Option.bind_fun_none]

@[simp]
theorem run_loadU32 (i : Nat) (data : List UInt8) :
    (loadU32 i).run data =
      if i + 4 ≤ data.length then some (u32at (data.drop i), data) else none := by
  simp only [loadU32, run_bind, run_loadU16, run_pure]
  by_cases hinside : i + 4 ≤ data.length
  · rw [if_pos hinside, if_pos (show i + 2 ≤ data.length by omega)]
    simp only [Option.bind_some, if_pos (show i + 2 + 2 ≤ data.length by omega), u32at,
      List.drop_drop]
  · rw [if_neg hinside]
    split_ifs with hhalf
    · simp only [Option.bind_some, if_neg (show ¬ i + 2 + 2 ≤ data.length by omega),
        Option.bind_none]
    · rfl

theorem u16at_congr {data data' : List UInt8} {i : Nat}
    (hagrees : ∀ j, i ≤ j → byteAt data' j = byteAt data j) :
    u16at (data'.drop i) = u16at (data.drop i) := by
  simp only [u16at, byteAt_drop]
  rw [hagrees _ (by omega), hagrees _ (by omega)]

theorem u32at_congr {data data' : List UInt8} {i : Nat}
    (hagrees : ∀ j, i ≤ j → byteAt data' j = byteAt data j) :
    u32at (data'.drop i) = u32at (data.drop i) := by
  simp only [u32at, List.drop_drop]
  rw [u16at_congr hagrees, u16at_congr fun j hj => hagrees j (by omega)]

namespace UdpTransport

open RTPTransport (putAt)

/-! ## The function as a program -/

/-- The loop over the attributes, with fuel for its turns: the position of the
address if there is one, and nothing when the fuel runs out. -/
def editAttributes : Nat → Nat → UInt16 → Editing UInt8 (Option (Option Nat))
  | 0, _, length =>
      if length &&& 0x3 = 0 ∧ 4 ≤ length then return none else return some none
  | fuel + 1, cursor, length =>
      if length &&& 0x3 = 0 ∧ 4 ≤ length then do
        let high ← load (cursor + 2)
        let low ← load (cursor + 3)
        let len := high.toUInt16 <<< 8 ||| low.toUInt16
        -- On a little-endian host the low byte of the swapped length comes first.
        store (cursor + 2) low
        store (cursor + 3) high
        if len &&& 0x3 ≠ 0 then return some none
        else if len ≠ 8 then return some none
        else do
          let attr ← loadU16 cursor
          if attr = 0x0001 then return some (some (cursor + 4))
          else editAttributes fuel (cursor + len.toNat) (length - len)
      else return some none

/-- The address at a position. -/
def loadAddress (pAttrIP : Nat) : Editing UInt8 SockAddr := do
  let port ← loadU16 (pAttrIP + 2)
  let ipv4 ← loadU32 (pAttrIP + 4)
  return ⟨afInet, port, ipv4⟩

/-- `parseStunResponse`, with the fuel of its loop. -/
def editStunResponse (udp : UdpTransport) (fuel : Nat) : Editing UInt8 (Option UdpTransport) :=
  if !udp.mStunRequested || udp.mStunResponsed then return some udp
  else do
    let method ← loadU16 0
    if method ≠ 0x0101 then return some udp
    else do
      let magic ← loadU32 4
      if magic ≠ 0x2112A442 then return some udp
      else do
        let length ← loadU16 2
        match ← editAttributes fuel 20 length with
        | none => return none
        | some none => return some udp
        | some (some pAttrIP) => do
            let mReflAddr ← loadAddress pAttrIP
            return some { udp with mReflAddr, mStunResponsed := true }

/-! ## One turn -/

/-- The block with the length of the attribute at `cursor` swapped. -/
def swapLength (data : List UInt8) (cursor : Nat) : List UInt8 :=
  putAt data (cursor + 2) [byteAt data (cursor + 3), byteAt data (cursor + 2)]

theorem length_swapLength {data : List UInt8} {cursor : Nat} (hinside : cursor + 4 ≤ data.length) :
    (swapLength data cursor).length = data.length := length_putAt (by simpa using hinside)

theorem swapLength_eq_set {data : List UInt8} {cursor : Nat} (hinside : cursor + 4 ≤ data.length) :
    (data.set (cursor + 2) (byteAt data (cursor + 3))).set (cursor + 3) (byteAt data (cursor + 2)) =
      swapLength data cursor := by
  obtain ⟨front, first, second, rest, rfl, hfront⟩ : ∃ front first second rest,
      data = front ++ first :: second :: rest ∧ front.length = cursor + 2 := by
    refine ⟨data.take (cursor + 2), data.get ⟨cursor + 2, by omega⟩,
      data.get ⟨cursor + 3, by omega⟩, data.drop (cursor + 4), ?_,
        List.length_take_of_le (by omega)⟩
    simp only [List.get_eq_getElem, List.getElem_cons_drop, List.take_append_drop]
  have hnext : cursor + 3 = front.length + 1 := by omega
  rw [swapLength, putAt, List.take_left' hfront, hnext, ← hfront]
  simp [byteAt]

theorem byteAt_swapLength {data : List UInt8} {cursor i : Nat} (hinside : cursor + 4 ≤ data.length)
    (hi : i < cursor + 2 ∨ cursor + 4 ≤ i) : byteAt (swapLength data cursor) i = byteAt data i := by
  rw [← swapLength_eq_set hinside, byteAt, List.getD_eq_getElem?_getD,
    List.getElem?_set_ne (by omega), List.getElem?_set_ne (by omega), byteAt,
    List.getD_eq_getElem?_getD]

theorem u16at_swapLength {data : List UInt8} {cursor i : Nat} (hinside : cursor + 4 ≤ data.length)
    (hi : i ≤ cursor ∨ cursor + 4 ≤ i) :
    u16at ((swapLength data cursor).drop i) = u16at (data.drop i) := by
  simp only [u16at, byteAt_drop, Nat.add_zero]
  rw [byteAt_swapLength hinside (by omega), byteAt_swapLength hinside (by omega)]

/-- The test of the loop. -/
def GoesOn (length : UInt16) : Prop := length &&& 0x3 = 0 ∧ 4 ≤ length

/-- An attribute of eight bytes that is not MAPPED-ADDRESS is passed over, and every
other one ends the walk. -/
theorem run_editAttributes_turn (fuel cursor : Nat) {length : UInt16} (hmore : GoesOn length)
    (data : List UInt8) :
    (editAttributes (fuel + 1) cursor length).run data =
      if cursor + 4 ≤ data.length then
        if u16at (data.drop (cursor + 2)) ≠ 8 then some (some none, swapLength data cursor)
        else if u16at (data.drop cursor) = 1 then
          some (some (some (cursor + 4)), swapLength data cursor)
        else (editAttributes fuel (cursor + 8) (length - 8)).run (swapLength data cursor)
      else none := by
  have htest : length &&& 0x3 = 0 ∧ 4 ≤ length := hmore
  rw [editAttributes, if_pos htest]
  simp only [run_load_bind, run_store_bind]
  by_cases hinside : cursor + 4 ≤ data.length
  · have hlen : (byteAt data (cursor + 2)).toUInt16 <<< 8 ||| (byteAt data (cursor + 3)).toUInt16 =
        u16at (data.drop (cursor + 2)) := by
      simp only [u16at, byteAt_drop, Nat.add_zero, Nat.add_assoc, Nat.reduceAdd]
    have hattr := u16at_swapLength hinside (Or.inl le_rfl)
    rw [getElem?_eq_byteAt (show cursor + 2 < data.length by omega),
      getElem?_eq_byteAt (show cursor + 3 < data.length by omega)]
    simp only [Option.bind_some, List.length_set, if_pos (show cursor + 2 < data.length by omega),
      if_pos (show cursor + 3 < data.length by omega), if_pos hinside, swapLength_eq_set hinside,
      hlen]
    by_cases height : u16at (data.drop (cursor + 2)) = 8
    · have hvalue : (8 : UInt16).toNat = 8 := rfl
      have hmultiple : ¬ (8 : UInt16) &&& 0x3 ≠ 0 := by decide
      simp only [height, ne_eq, not_true_eq_false, if_false, if_neg hmultiple, run_bind,
        run_loadU16, length_swapLength hinside, if_pos (show cursor + 2 ≤ data.length by omega),
        Option.bind_some, hattr, hvalue]
      split_ifs <;> rfl
    · simp only [ne_eq, height, not_false_eq_true, if_true]
      split_ifs <;> rfl
  · rw [if_neg hinside]
    cases hhigh : data[cursor + 2]? with
    | none => rfl
    | some high =>
        have hlow : data[cursor + 3]? = none := List.getElem?_eq_none (by omega)
        simp only [hlow, Option.bind_some, Option.bind_none]

/-- The same turn in `stunWalk`. -/
theorem stunWalk_turn (fuel cursor : Nat) {length : UInt16} (hmore : GoesOn length)
    (data : List UInt8) :
    stunWalk (fuel + 1) data cursor length =
      if cursor + 4 ≤ data.length then
        if u16at (data.drop (cursor + 2)) ≠ 8 then some (swapLength data cursor, none)
        else if u16at (data.drop cursor) = 1 then
          some (swapLength data cursor, some (cursor + 4))
        else stunWalk fuel (swapLength data cursor) (cursor + 8) (length - 8)
      else none := by
  have htest : length &&& 0x3 = 0 ∧ 4 ≤ length := hmore
  rw [stunWalk, if_pos htest]
  by_cases hinside : cursor + 4 ≤ data.length
  · have hattr := u16at_swapLength hinside (Or.inl le_rfl)
    rw [if_pos hinside, if_pos hinside]
    rw [swapLength] at hattr ⊢
    by_cases height : u16at (data.drop (cursor + 2)) = 8
    · have hvalue : (8 : UInt16).toNat = 8 := rfl
      have hmultiple : ¬ (8 : UInt16) &&& 0x3 ≠ 0 := by decide
      simp only [height, ne_eq, not_true_eq_false, if_false, if_neg hmultiple, hattr, hvalue]
    · simp only [ne_eq, height, not_false_eq_true, if_true]
      split_ifs <;> rfl
  · rw [if_neg hinside, if_neg hinside]

theorem run_editAttributes_stop (fuel cursor : Nat) {length : UInt16} (hstop : ¬ GoesOn length)
    (data : List UInt8) :
    (editAttributes fuel cursor length).run data = some (some none, data) := by
  have htest : ¬ (length &&& 0x3 = 0 ∧ 4 ≤ length) := hstop
  cases fuel with
  | zero => rw [editAttributes, if_neg htest, run_pure]
  | succ fuel => rw [editAttributes, if_neg htest, run_pure]

theorem stunWalk_stop (fuel cursor : Nat) {length : UInt16} (hstop : ¬ GoesOn length)
    (data : List UInt8) : stunWalk (fuel + 1) data cursor length = some (data, none) := by
  have htest : ¬ (length &&& 0x3 = 0 ∧ 4 ≤ length) := hstop
  rw [stunWalk, if_neg htest]

/-- The program computes the walk, as long as its fuel lasts until the cursor has
left the block. -/
theorem run_editAttributes {fuel cursor : Nat} {data : List UInt8} (length : UInt16)
    (hfuel : data.length < cursor + 4 + 8 * fuel) :
    (editAttributes (fuel + 1) cursor length).run data =
      (stunWalk (fuel + 1) data cursor length).map fun answer => (some answer.2, answer.1) := by
  induction fuel generalizing data cursor length with
  | zero =>
      by_cases hmore : GoesOn length
      · have houtside : ¬ cursor + 4 ≤ data.length := by omega
        rw [run_editAttributes_turn _ _ hmore, stunWalk_turn _ _ hmore, if_neg houtside,
          if_neg houtside]
        rfl
      · rw [run_editAttributes_stop _ _ hmore, stunWalk_stop _ _ hmore]
        rfl
  | succ fuel ih =>
      by_cases hmore : GoesOn length
      · rw [run_editAttributes_turn _ _ hmore, stunWalk_turn _ _ hmore]
        split_ifs with hinside hlen hattr
        · rfl
        · rfl
        · exact ih _ (by rw [length_swapLength hinside]; omega)
        · rfl
      · rw [run_editAttributes_stop _ _ hmore, stunWalk_stop _ _ hmore]
        rfl

@[simp]
theorem run_loadAddress (pAttrIP : Nat) (data : List UInt8) :
    (loadAddress pAttrIP).run data =
      (reflectiveAddress data pAttrIP).map fun address => (address, data) := by
  simp only [loadAddress, reflectiveAddress, run_bind, run_loadU16, run_loadU32, run_pure]
  by_cases hinside : pAttrIP + 8 ≤ data.length
  · simp only [if_pos (show pAttrIP + 2 + 2 ≤ data.length by omega),
      if_pos (show pAttrIP + 4 + 4 ≤ data.length by omega), Option.bind_some, Option.map_some]
  · have hword : ¬ pAttrIP + 4 + 4 ≤ data.length := by omega
    rw [if_neg hinside]
    split_ifs
    · simp only [Option.bind_some, if_neg hword, Option.bind_none, Option.map_none]
    · rfl

/-- The program computes what `parseStunResponse` computes. -/
theorem run_editStunResponse (udp : UdpTransport) {buffer : MetaBuffer}
    (hoffset : buffer.mRangeOffset = 0) (hblock : 8 ≤ buffer.data.length) :
    (udp.editStunResponse buffer.data.length).run buffer.data =
      (udp.parseStunResponse buffer).map fun answer => (some answer.1, answer.2.data) := by
  obtain ⟨fuel, hfuel⟩ : ∃ fuel, buffer.data.length = fuel + 1 :=
    ⟨buffer.data.length - 1, by omega⟩
  have hwalk := run_editAttributes (u16at (buffer.data.drop 2))
    (show buffer.data.length < 20 + 4 + 8 * fuel by omega)
  rw [← hfuel] at hwalk
  unfold editStunResponse parseStunResponse
  by_cases hidle : (!udp.mStunRequested || udp.mStunResponsed) = true
  · simp only [if_pos hidle, run_pure, Option.map_some]
  have hshort : ¬ buffer.data.length < 8 := by omega
  simp only [if_neg hidle, if_neg hshort, run_bind, run_loadU16, List.drop_zero,
    if_pos (show 0 + 2 ≤ buffer.data.length by omega), Option.bind_some]
  by_cases hmethod : u16at buffer.data ≠ 0x0101
  · simp only [if_pos hmethod, run_pure, Option.map_some]
  simp only [if_neg hmethod, run_bind, run_loadU32,
    if_pos (show 4 + 4 ≤ buffer.data.length by omega), Option.bind_some]
  by_cases hmagic : u32at (buffer.data.drop 4) ≠ 0x2112A442
  · simp only [if_pos hmagic, run_pure, Option.map_some]
  simp only [if_neg hmagic, run_bind, run_loadU16,
    if_pos (show 2 + 2 ≤ buffer.data.length by omega), Option.bind_some, hwalk]
  cases hanswer : stunWalk buffer.data.length buffer.data 20 (u16at (buffer.data.drop 2)) with
  | none => rfl
  | some answer =>
      obtain ⟨data, pAttrIP⟩ := answer
      have hdata : ({ buffer with
          mData := buffer.mData.take buffer.mRangeOffset ++ data } : MetaBuffer).data = data := by
        simp [MetaBuffer.data, hoffset]
      cases pAttrIP with
      | none => simp [hdata]
      | some position => cases haddr : reflectiveAddress data position <;> simp [haddr, hdata]

/-! ## Where the walk ends -/

/-- The word at the place that the walk reaches after `k` turns is a whole header, of
an attribute of eight bytes that is not MAPPED-ADDRESS. -/
def PassedOver (data : List UInt8) (k : Nat) : Prop :=
  24 + 8 * k ≤ data.length ∧ u16at (data.drop (22 + 8 * k)) = 8 ∧ u16at (data.drop (20 + 8 * k)) ≠ 1

instance (data : List UInt8) (k : Nat) : Decidable (PassedOver data k) :=
  inferInstanceAs (Decidable (_ ∧ _))

theorem exists_not_passedOver (data : List UInt8) : ∃ k, ¬ PassedOver data k := by
  refine ⟨data.length, fun hpassed => ?_⟩
  have hinside := hpassed.1
  omega

/-- How many words are passed over before the first that is not. -/
def passedOver (data : List UInt8) : Nat := Nat.find (exists_not_passedOver data)

/-- The word behind those that are passed over is the header of a MAPPED-ADDRESS of
eight bytes. -/
def MappedWord (data : List UInt8) : Prop :=
  u16at (data.drop (22 + 8 * passedOver data)) = 8 ∧
    u16at (data.drop (20 + 8 * passedOver data)) = 1

instance (data : List UInt8) : Decidable (MappedWord data) := inferInstanceAs (Decidable (_ ∧ _))

/-- The length of the message is counted down to zero before the walk comes to a word
that is not passed over. A length that is no multiple of eight is never counted down
to zero: from four it goes to 65532. -/
def CountedDown (data : List UInt8) : Prop :=
  (u16at (data.drop 2)).toNat % 8 = 0 ∧ (u16at (data.drop 2)).toNat / 8 ≤ passedOver data

instance (data : List UInt8) : Decidable (CountedDown data) := inferInstanceAs (Decidable (_ ∧ _))

theorem goesOn_iff (length : UInt16) (k : Nat) :
    GoesOn (length - UInt16.ofNat (8 * k)) ↔
      length.toNat % 4 = 0 ∧ 8 * k % 65536 ≠ length.toNat := by
  have hlength := length.toNat_lt
  have hleft : (length - UInt16.ofNat (8 * k)).toNat =
      (65536 - 8 * k % 65536 + length.toNat) % 65536 := by
    rw [UInt16.toNat_sub, UInt16.toNat_ofNat']
  have hmask : (length - UInt16.ofNat (8 * k)) &&& 0x3 = 0 ↔
      (length - UInt16.ofNat (8 * k)).toNat % 4 = 0 := by
    rw [← UInt16.toNat_inj, UInt16.toNat_and]
    exact iff_of_eq (congrArg (· = 0) (Nat.and_two_pow_sub_one_eq_mod _ 2))
  have hfour : 4 ≤ length - UInt16.ofNat (8 * k) ↔
      4 ≤ (length - UInt16.ofNat (8 * k)).toNat := UInt16.le_iff_toNat_le
  rw [GoesOn, hmask, hfour, hleft]
  omega

/-- A block that agrees from the next place of the walk on. -/
def AgreesFrom (k : Nat) (data data' : List UInt8) : Prop :=
  data'.length = data.length ∧ ∀ i, 20 + 8 * k ≤ i → byteAt data' i = byteAt data i

/-- Turns that pass over words move the cursor by eight bytes each. -/
theorem run_editAttributes_pass (data : List UInt8) (length : UInt16) {k : Nat}
    (hpassed : ∀ j, j < k → PassedOver data j)
    (hmore : ∀ j, j < k → GoesOn (length - UInt16.ofNat (8 * j))) (fuel : Nat) :
    ∃ data', AgreesFrom k data data' ∧ (editAttributes (fuel + k) 20 length).run data =
      (editAttributes fuel (20 + 8 * k) (length - UInt16.ofNat (8 * k))).run data' := by
  induction k generalizing fuel with
  | zero => exact ⟨data, ⟨rfl, fun _ _ => rfl⟩, by simp⟩
  | succ k ih =>
      obtain ⟨data', ⟨hlength, hagrees⟩, hrun⟩ := ih (fun j hj => hpassed j (by omega))
        (fun j hj => hmore j (by omega)) (fuel + 1)
      obtain ⟨hinside, hlen, hattr⟩ := hpassed k (by omega)
      have hword : ∀ i, 20 + 8 * k ≤ i → u16at (data'.drop i) = u16at (data.drop i) :=
        fun i hi => u16at_congr fun j hj => hagrees j (hi.trans hj)
      have hinside' : 20 + 8 * k + 4 ≤ data'.length := by omega
      have hlen' : ¬ u16at (data'.drop (20 + 8 * k + 2)) ≠ 8 := by
        rw [hword _ (by omega), show 20 + 8 * k + 2 = 22 + 8 * k by omega]
        exact not_not.mpr hlen
      have hattr' : u16at (data'.drop (20 + 8 * k)) ≠ 1 := by
        rw [hword _ le_rfl]
        exact hattr
      have hleft : length - UInt16.ofNat (8 * k) - 8 = length - UInt16.ofNat (8 * (k + 1)) := by
        rw [show 8 * (k + 1) = 8 * k + 8 by omega, UInt16.ofNat_add, sub_sub]
        rfl
      refine ⟨swapLength data' (20 + 8 * k), ⟨?_, ?_⟩, ?_⟩
      · rw [length_swapLength hinside', hlength]
      · intro i hi
        rw [byteAt_swapLength hinside' (by omega), hagrees i (by omega)]
      · rw [show fuel + (k + 1) = fuel + 1 + k by omega, hrun,
          run_editAttributes_turn _ _ (hmore k (by omega)), if_pos hinside', if_neg hlen',
          if_neg hattr', hleft, show 20 + 8 * k + 8 = 20 + 8 * (k + 1) by omega]

/-- The number of words that are passed over, as it is used: all of them are, and the
next one is not. -/
theorem passedOver_spec (data : List UInt8) :
    (∀ j, j < passedOver data → PassedOver data j) ∧ ¬ PassedOver data (passedOver data) :=
  ⟨fun _ hj => not_not.mp (Nat.find_min (exists_not_passedOver data) hj),
    Nat.find_spec (exists_not_passedOver data)⟩

/-- The words that are passed over lie in the block. -/
theorem passedOver_le (data : List UInt8) :
    passedOver data = 0 ∨ 16 + 8 * passedOver data ≤ data.length := by
  cases hpassed : passedOver data with
  | zero => exact Or.inl rfl
  | succ k =>
      have hinside := ((passedOver_spec data).1 k (by omega)).1
      omega

theorem not_goesOn_of_odd {length : UInt16} (hodd : length.toNat % 4 ≠ 0) : ¬ GoesOn length := by
  have hzero := goesOn_iff length 0
  rw [Nat.mul_zero, show UInt16.ofNat 0 = 0 from rfl, sub_zero] at hzero
  rw [hzero]
  omega

/-- The length runs out in time. -/
theorem run_editAttributes_countedDown {data : List UInt8} (hcounted : CountedDown data)
    {fuel : Nat} (hfuel : (u16at (data.drop 2)).toNat / 8 ≤ fuel) :
    ∃ data', (editAttributes fuel 20 (u16at (data.drop 2))).run data = some (some none, data') := by
  obtain ⟨height, hin⟩ := hcounted
  generalize hlength : u16at (data.drop 2) = length at height hin hfuel ⊢
  have hlt := length.toNat_lt
  have hmore : ∀ j, j < length.toNat / 8 → GoesOn (length - UInt16.ofNat (8 * j)) := by
    intro j hj
    rw [goesOn_iff]
    omega
  have hstop : ¬ GoesOn (length - UInt16.ofNat (8 * (length.toNat / 8))) := by
    rw [goesOn_iff]
    omega
  obtain ⟨data', -, hrun⟩ := run_editAttributes_pass data length
    (fun j hj => (passedOver_spec data).1 j (by omega)) hmore (fuel - length.toNat / 8)
  rw [show fuel - length.toNat / 8 + length.toNat / 8 = fuel by omega,
    run_editAttributes_stop _ _ hstop] at hrun
  exact ⟨data', hrun⟩

theorem goesOn_of_not_countedDown {data : List UInt8}
    (hfour : (u16at (data.drop 2)).toNat % 4 = 0) (hlasting : ¬ CountedDown data) {j : Nat}
    (hj : j ≤ passedOver data) : GoesOn (u16at (data.drop 2) - UInt16.ofNat (8 * j)) := by
  have hlt := (u16at (data.drop 2)).toNat_lt
  rw [CountedDown] at hlasting
  rw [goesOn_iff]
  omega

/-- Without fuel for the word that is not passed over, the walk is not finished. -/
theorem run_editAttributes_unfinished {data : List UInt8}
    (hfour : (u16at (data.drop 2)).toNat % 4 = 0) (hlasting : ¬ CountedDown data) {fuel : Nat}
    (hfuel : fuel ≤ passedOver data) :
    ∃ data', (editAttributes fuel 20 (u16at (data.drop 2))).run data = some (none, data') := by
  obtain ⟨data', -, hrun⟩ := run_editAttributes_pass data (u16at (data.drop 2))
    (fun j hj => (passedOver_spec data).1 j (lt_of_lt_of_le hj hfuel))
    (fun j hj => goesOn_of_not_countedDown hfour hlasting (hj.le.trans hfuel)) 0
  have hmore : _ ∧ _ := goesOn_of_not_countedDown hfour hlasting hfuel
  rw [zero_add, editAttributes, if_pos hmore, run_pure] at hrun
  exact ⟨data', hrun⟩

/-- The walk ends at the first word that is not passed over. -/
theorem run_editAttributes_reached {data : List UInt8}
    (hfour : (u16at (data.drop 2)).toNat % 4 = 0) (hlasting : ¬ CountedDown data) {fuel : Nat}
    (hfuel : passedOver data < fuel) :
    ∃ data', data'.length = data.length ∧
      (∀ i, 24 + 8 * passedOver data ≤ i → byteAt data' i = byteAt data i) ∧
      (editAttributes fuel 20 (u16at (data.drop 2))).run data =
        if 24 + 8 * passedOver data ≤ data.length then
          some (some (if MappedWord data then some (24 + 8 * passedOver data) else none), data')
        else none := by
  obtain ⟨hpassed, hlast⟩ := passedOver_spec data
  generalize hk : passedOver data = k at *
  obtain ⟨data', ⟨hlength, hagrees⟩, hrun⟩ := run_editAttributes_pass data (u16at (data.drop 2))
    hpassed (fun j hj => goesOn_of_not_countedDown hfour hlasting (by omega)) (fuel - k - 1 + 1)
  have hmore := goesOn_of_not_countedDown hfour hlasting hk.ge
  have hword : ∀ i, 20 + 8 * k ≤ i → u16at (data'.drop i) = u16at (data.drop i) :=
    fun i hi => u16at_congr fun j hj => hagrees j (hi.trans hj)
  rw [show fuel - k - 1 + 1 + k = fuel by omega, run_editAttributes_turn _ _ hmore, hlength,
    hword _ (by omega), hword _ le_rfl, show 20 + 8 * k + 2 = 22 + 8 * k by omega,
    show 20 + 8 * k + 4 = 24 + 8 * k by omega] at hrun
  by_cases hinside : 24 + 8 * k ≤ data.length
  · have hinside' : 20 + 8 * k + 4 ≤ data'.length := by omega
    refine ⟨swapLength data' (20 + 8 * k), ?_, ?_, ?_⟩
    · rw [length_swapLength hinside', hlength]
    · intro i hi
      rw [byteAt_swapLength hinside' (by omega), hagrees i (by omega)]
    · have hmapped : MappedWord data ↔
          u16at (data.drop (22 + 8 * k)) = 8 ∧ u16at (data.drop (20 + 8 * k)) = 1 := by
        rw [MappedWord, hk]
      rw [hrun, if_pos hinside, if_pos hinside]
      by_cases hlen : u16at (data.drop (22 + 8 * k)) = 8
      · have hattr : u16at (data.drop (20 + 8 * k)) = 1 := by
          by_contra hother
          exact hlast ⟨hinside, hlen, hother⟩
        rw [if_neg (not_not.mpr hlen), if_pos hattr, if_pos (hmapped.mpr ⟨hlen, hattr⟩)]
      · rw [if_pos hlen, if_neg fun hword => hlen (hmapped.mp hword).1]
  · refine ⟨data, rfl, fun _ _ => rfl, ?_⟩
    rw [hrun, if_neg hinside, if_neg hinside]

/-! ## Staying inside the datagram -/

/-- The parse of a block that holds `nbytes` bytes of a datagram ends within a turn of
the loop for every four bytes behind the header, and touches no byte behind the
datagram. -/
def StunInside (udp : UdpTransport) (block : List UInt8) (nbytes : Nat) : Prop :=
  let program := udp.editStunResponse ((nbytes - 20) / 4)
  (∃ after left, program.run block = some (some after, left)) ∧
    ∀ i ∈ program.touched block, i < nbytes

/-- The walk over the attributes ends inside the datagram: it does not start, or the
length runs out in time, or the first word that is not passed over is there, with the
address behind it if it is the header of one. -/
def WalkFits (datagram : List UInt8) : Prop :=
  (u16at (datagram.drop 2)).toNat % 4 ≠ 0 ∨ CountedDown datagram ∨
    (24 + 8 * passedOver datagram ≤ datagram.length ∧
      (MappedWord datagram → 32 + 8 * passedOver datagram ≤ datagram.length))

/-- The datagram has room for the words that `parseStunResponse` looks at. -/
def StunFits (datagram : List UInt8) : Prop :=
  2 ≤ datagram.length ∧ (u16at datagram = 0x0101 → 8 ≤ datagram.length ∧
    (u32at (datagram.drop 4) = 0x2112A442 → WalkFits datagram))

/-- Nothing behind the datagram is looked at exactly when it can be parsed without
what is behind it. -/
theorem stunInside_iff_run (udp : UdpTransport) {block : List UInt8} {nbytes : Nat}
    (hfit : nbytes ≤ block.length) :
    StunInside udp block nbytes ↔ ∃ after left,
      (udp.editStunResponse ((nbytes - 20) / 4)).run (block.take nbytes) =
        some (some after, left) := by
  rw [StunInside]
  simp only [touched_lt_iff _ hfit]
  constructor
  · rintro ⟨⟨after, left, hrun⟩, hfront⟩
    obtain ⟨⟨result, front⟩, hfront⟩ := Option.isSome_iff_exists.mp hfront
    have hwhole := run_take hfront
    rw [hrun] at hwhole
    obtain ⟨rfl, -⟩ := Prod.mk.inj (Option.some.inj hwhole)
    exact ⟨after, front, hfront⟩
  · rintro ⟨after, left, hfront⟩
    exact ⟨⟨after, _, run_take hfront⟩, by rw [hfront]; rfl⟩

/-- A request is outstanding and unanswered. -/
def Outstanding (udp : UdpTransport) : Prop :=
  udp.mStunRequested = true ∧ udp.mStunResponsed = false

/-- The transport that has got an answer. -/
def answered (udp : UdpTransport) (mReflAddr : SockAddr) : UdpTransport :=
  { udp with mReflAddr, mStunResponsed := true }

/-- The header of a STUN response leads to the walk. -/
theorem run_editStunResponse_walk {udp : UdpTransport} (hudp : udp.Outstanding)
    {data : List UInt8} (hlength : 8 ≤ data.length) (hmethod : u16at data = 0x0101)
    (hmagic : u32at (data.drop 4) = 0x2112A442) (fuel : Nat) :
    (udp.editStunResponse fuel).run data =
      ((editAttributes fuel 20 (u16at (data.drop 2))).run data).bind fun answer =>
        answer.1.elim (some (none, answer.2)) fun pAttrIP =>
          pAttrIP.elim (some (some udp, answer.2)) fun pAttrIP =>
            (reflectiveAddress answer.2 pAttrIP).map fun address =>
              (some (udp.answered address), answer.2) := by
  have hidle : ¬ (!udp.mStunRequested || udp.mStunResponsed) = true := by
    rw [hudp.1, hudp.2]
    decide
  simp only [editStunResponse, if_neg hidle, run_bind, run_loadU16, List.drop_zero,
    if_pos (show 0 + 2 ≤ data.length by omega), Option.bind_some, hmethod, ne_eq,
    not_true_eq_false, if_false, run_loadU32, if_pos (show 4 + 4 ≤ data.length by omega), hmagic,
    if_pos (show 2 + 2 ≤ data.length by omega)]
  cases (editAttributes fuel 20 (u16at (data.drop 2))).run data with
  | none => rfl
  | some answer =>
      obtain ⟨result, left⟩ := answer
      cases result with
      | none => rfl
      | some pAttrIP =>
          cases pAttrIP with
          | none => rfl
          | some position =>
              cases haddr : reflectiveAddress left position <;> simp [haddr, answered]

section

variable {udp : UdpTransport} {datagram : List UInt8}

/-- An address is read the same where two blocks of one length agree. -/
theorem reflectiveAddress_congr {data data' : List UInt8} {pAttrIP : Nat}
    (hlength : data'.length = data.length)
    (hagrees : ∀ j, pAttrIP ≤ j → byteAt data' j = byteAt data j) :
    reflectiveAddress data' pAttrIP = reflectiveAddress data pAttrIP := by
  rw [reflectiveAddress, reflectiveAddress, hlength, u16at_congr fun j hj => hagrees j (by omega),
    u32at_congr fun j hj => hagrees j (by omega)]

/-- The walk comes to the first word that is not passed over. -/
theorem run_editStunResponse_reached (hudp : udp.Outstanding) (hlength : 8 ≤ datagram.length)
    (hmethod : u16at datagram = 0x0101) (hmagic : u32at (datagram.drop 4) = 0x2112A442)
    (hfour : (u16at (datagram.drop 2)).toNat % 4 = 0) (hlasting : ¬ CountedDown datagram)
    {fuel : Nat} (hfuel : passedOver datagram < fuel) :
    ∃ data', (udp.editStunResponse fuel).run datagram =
      if 24 + 8 * passedOver datagram ≤ datagram.length then
        if MappedWord datagram then
          (reflectiveAddress datagram (24 + 8 * passedOver datagram)).map fun address =>
            (some (udp.answered address), data')
        else some (some udp, data')
      else none := by
  obtain ⟨data', hsame, hagrees, hrun⟩ := run_editAttributes_reached hfour hlasting hfuel
  refine ⟨data', ?_⟩
  rw [run_editStunResponse_walk hudp hlength hmethod hmagic, hrun]
  by_cases hinside : 24 + 8 * passedOver datagram ≤ datagram.length
  · rw [if_pos hinside, if_pos hinside, Option.bind_some, Option.elim_some]
    by_cases hmapped : MappedWord datagram
    · rw [if_pos hmapped, if_pos hmapped, Option.elim_some, reflectiveAddress_congr hsame hagrees]
    · rw [if_neg hmapped, if_neg hmapped, Option.elim_none]
  · rw [if_neg hinside, if_neg hinside, Option.bind_none]

/-- The parse ends when that word is there, with the address behind it if it is the
header of one. -/
theorem finishes_iff_of_reached (hudp : udp.Outstanding) (hlength : 8 ≤ datagram.length)
    (hmethod : u16at datagram = 0x0101) (hmagic : u32at (datagram.drop 4) = 0x2112A442)
    (hfour : (u16at (datagram.drop 2)).toNat % 4 = 0) (hlasting : ¬ CountedDown datagram)
    {fuel : Nat} (hfuel : passedOver datagram < fuel) :
    (∃ after left, (udp.editStunResponse fuel).run datagram = some (some after, left)) ↔
      24 + 8 * passedOver datagram ≤ datagram.length ∧
        (MappedWord datagram → 32 + 8 * passedOver datagram ≤ datagram.length) := by
  obtain ⟨data', hrun⟩ :=
    run_editStunResponse_reached hudp hlength hmethod hmagic hfour hlasting hfuel
  rw [hrun]
  by_cases hinside : 24 + 8 * passedOver datagram ≤ datagram.length
  · rw [if_pos hinside]
    by_cases hmapped : MappedWord datagram
    · rw [if_pos hmapped, reflectiveAddress]
      by_cases hbehind : 32 + 8 * passedOver datagram ≤ datagram.length
      · rw [if_pos (show 24 + 8 * passedOver datagram + 8 ≤ datagram.length by omega)]
        exact iff_of_true ⟨_, _, rfl⟩ ⟨hinside, fun _ => hbehind⟩
      · rw [if_neg (show ¬ 24 + 8 * passedOver datagram + 8 ≤ datagram.length by omega)]
        exact iff_of_false (by simp) fun hfits => hbehind (hfits.2 hmapped)
    · rw [if_neg hmapped]
      exact iff_of_true ⟨udp, data', rfl⟩ ⟨hinside, fun hword => absurd hword hmapped⟩
  · rw [if_neg hinside]
    exact iff_of_false (by simp) fun hfits => hinside hfits.1

/-- A datagram whose header leads to the walk is parsed exactly when the walk ends
inside it. -/
theorem finishes_iff_walkFits (hudp : udp.Outstanding) (hlength : 8 ≤ datagram.length)
    (hmethod : u16at datagram = 0x0101) (hmagic : u32at (datagram.drop 4) = 0x2112A442) {fuel : Nat}
    (henough : (datagram.length - 20) / 4 ≤ fuel) :
    (∃ after left, (udp.editStunResponse fuel).run datagram = some (some after, left)) ↔
      WalkFits datagram := by
  have hpassed := passedOver_le datagram
  have hwalk := run_editStunResponse_walk hudp hlength hmethod hmagic fuel
  by_cases hfour : (u16at (datagram.drop 2)).toNat % 4 = 0
  · by_cases hcounted : CountedDown datagram
    · have hfuel : (u16at (datagram.drop 2)).toNat / 8 ≤ fuel := by
        have hin := hcounted.2
        omega
      obtain ⟨data', hrun⟩ := run_editAttributes_countedDown hcounted hfuel
      rw [hwalk, hrun]
      exact iff_of_true ⟨udp, data', rfl⟩ (Or.inr (Or.inl hcounted))
    · by_cases hfuel : fuel ≤ passedOver datagram
      · -- The fuel does not last until the word, and the datagram does not reach there.
        obtain ⟨data', hrun⟩ := run_editAttributes_unfinished hfour hcounted hfuel
        rw [hwalk, hrun]
        refine iff_of_false (by simp) ?_
        rintro (hodd | hdown | ⟨hinside, -⟩)
        · exact hodd hfour
        · exact hcounted hdown
        · omega
      · rw [finishes_iff_of_reached hudp hlength hmethod hmagic hfour hcounted (not_le.mp hfuel),
          WalkFits]
        simp only [hfour, ne_eq, not_true_eq_false, hcounted, false_or]
  · rw [hwalk, run_editAttributes_stop _ _ (not_goesOn_of_odd hfour)]
    exact iff_of_true ⟨udp, datagram, rfl⟩ (Or.inl hfour)

/-- A datagram is parsed within the turns it has room for exactly when it has room for
the words that are looked at. -/
theorem finishes_iff_stunFits (hudp : udp.Outstanding) {fuel : Nat}
    (henough : (datagram.length - 20) / 4 ≤ fuel) :
    (∃ after left, (udp.editStunResponse fuel).run datagram = some (some after, left)) ↔
      StunFits datagram := by
  have hidle : ¬ (!udp.mStunRequested || udp.mStunResponsed) = true := by
    rw [hudp.1, hudp.2]
    decide
  by_cases hword : 2 ≤ datagram.length
  · by_cases hmethod : u16at datagram = 0x0101
    · by_cases hhead : 8 ≤ datagram.length
      · by_cases hmagic : u32at (datagram.drop 4) = 0x2112A442
        · rw [finishes_iff_walkFits hudp hhead hmethod hmagic henough]
          simp only [StunFits, hword, hmethod, hhead, hmagic, true_and, true_imp_iff]
        · refine iff_of_true ⟨udp, datagram, ?_⟩
            ⟨hword, fun _ => ⟨hhead, fun hcookie => absurd hcookie hmagic⟩⟩
          simp [editStunResponse, hidle, hword, hmethod, hhead, hmagic]
      · refine iff_of_false ?_ fun hfits => hhead (hfits.2 hmethod).1
        simp [editStunResponse, hidle, hword, hmethod, hhead]
    · refine iff_of_true ⟨udp, datagram, ?_⟩ ⟨hword, fun hsame => absurd hsame hmethod⟩
      simp [editStunResponse, hidle, hword, hmethod]
  · refine iff_of_false ?_ fun hfits => hword hfits.1
    simp [editStunResponse, hidle, hword]

end

/-- Parsing what was received stays inside the datagram exactly when the datagram has
room for the words that are looked at. -/
theorem stunInside_iff {udp : UdpTransport} (hudp : udp.Outstanding)
    (junk : Fin maxCapacity → UInt8) (bytes : List UInt8) :
    let datagram := bytes.take maxCapacity
    StunInside udp (received (List.ofFn junk) datagram).data datagram.length ↔
      StunFits datagram := by
  intro datagram
  have hfront : (received (List.ofFn junk) datagram).data.take datagram.length = datagram :=
    List.take_left
  have hfit : datagram.length ≤ (received (List.ofFn junk) datagram).data.length := by
    rw [MetaBuffer.data, received, List.drop_zero, List.length_append]
    omega
  rw [stunInside_iff_run udp hfit, hfront]
  exact finishes_iff_stunFits hudp le_rfl

/-- What `parseStunResponse` does is defined when it does nothing, or when the block has room
for the words that are looked at. -/
theorem parseStunResponse_isSome_iff (udp : UdpTransport) {buffer : MetaBuffer}
    (hoffset : buffer.mRangeOffset = 0) (hblock : 8 ≤ buffer.data.length) :
    (udp.parseStunResponse buffer).isSome ↔ (udp.Outstanding → StunFits buffer.data) := by
  by_cases hudp : udp.Outstanding
  · rw [← finishes_iff_stunFits hudp
      (show (buffer.data.length - 20) / 4 ≤ buffer.data.length by omega),
        run_editStunResponse udp hoffset hblock, Option.isSome_iff_exists]
    constructor
    · rintro ⟨answer, hanswer⟩ -
      exact ⟨answer.1, answer.2.data, by rw [hanswer]; rfl⟩
    · intro hends
      obtain ⟨after, left, hends⟩ := hends hudp
      obtain ⟨answer, hanswer, -⟩ := Option.map_eq_some_iff.mp hends
      exact ⟨answer, hanswer⟩
  · have hidle : (!udp.mStunRequested || udp.mStunResponsed) = true := by
      rw [Bool.or_eq_true, Bool.not_eq_true']
      by_contra hactive
      obtain ⟨hrequested, hresponsed⟩ := not_or.mp hactive
      exact hudp ⟨Bool.not_eq_false _ ▸ hrequested, Bool.not_eq_true _ ▸ hresponsed⟩
    refine iff_of_true ?_ fun hactive => absurd hactive hudp
    rw [parseStunResponse, if_pos hidle]
    rfl

/-- A transport that waits for its answer. -/
def waiting : UdpTransport := ⟨⟨afInet, 0, 0⟩, true, false, ⟨afInet, 0, 0⟩⟩

/-- The header of a binding response with attributes of `length` bytes. -/
def stunHeader (length : UInt8) : List UInt8 :=
  [1, 1, 0, length, 0x21, 0x12, 0xA4, 0x42, 0, 0, 0, 0, 0, 0, 0, 0, 0, 0, 0, 0]

/-- The address 192.0.2.1 with port 5004 in an attribute of its own. -/
def mappedAttribute : List UInt8 := [0, 1, 0, 8, 0, 1, 0x13, 0x8C, 192, 0, 2, 1]

/-- A response with nothing but the address. -/
theorem stunInside_iff_plain :
    StunInside waiting
      (received (List.ofFn fun _ : Fin maxCapacity => 0) (stunHeader 12 ++ mappedAttribute)).data
      32 := by
  have hpassed : passedOver (stunHeader 12 ++ mappedAttribute) = 0 :=
    (Nat.find_eq_zero _).mpr (by decide)
  refine (stunInside_iff (show waiting.Outstanding from ⟨rfl, rfl⟩) (fun _ => 0)
    (stunHeader 12 ++ mappedAttribute)).mpr ?_
  refine ⟨by decide, fun _ => ⟨by decide, fun _ => Or.inr (Or.inr ?_)⟩⟩
  change 24 + 8 * passedOver (stunHeader 12 ++ mappedAttribute) ≤ 32 ∧
    (_ → 32 + 8 * passedOver (stunHeader 12 ++ mappedAttribute) ≤ 32)
  rw [hpassed]
  exact ⟨by decide, fun _ => by decide⟩

/-- A response that is cut behind the header of its address: the address is read behind
the end of the datagram. -/
theorem cut_response_overrun :
    ¬ StunInside waiting
      (received (List.ofFn fun _ : Fin maxCapacity => 0) (stunHeader 12 ++ [0, 1, 0, 8])).data 24 :=
  fun hinside => absurd hinside.2 (by decide +kernel)

end UdpTransport

end McuProxy.Net

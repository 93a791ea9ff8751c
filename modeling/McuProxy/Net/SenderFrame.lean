/-
# The variables of the sending loop

`SocketSender::threadLoop` declares `bool video, marker` and finds their values with
`findInt32` through a cast of their addresses: a flag that is found is written with
four bytes to a variable of one. The three bytes behind `video` and behind `marker`
belong to whatever the compiler put there.

The variables are therefore bytes of the frame, at addresses that are a parameter
here. A store that reaches the object of a variable which the loop does not read
from the buffer is undefined; one that reaches the variables of the buffer is carried
out, and what is then read is what the loop reads.
-/

import McuProxy.Memory.Word
import McuProxy.Net.MetaBuffer

namespace McuProxy.Net

open McuProxy.Memory

/-- Where the variables of `threadLoop` are: `_fd` of four bytes, two flags of one
byte and `timeUs` of eight, and the bytes of its other variables. -/
structure Layout where
  fd : Nat
  video : Nat
  marker : Nat
  timeUs : Nat
  others : List Nat
  fd_video : Apart fd 4 video 1
  fd_marker : Apart fd 4 marker 1
  fd_timeUs : Apart fd 4 timeUs 8
  video_marker : Apart video 1 marker 1
  video_timeUs : Apart video 1 timeUs 8
  marker_timeUs : Apart marker 1 timeUs 8

/-- What `threadLoop` has read from a buffer. -/
structure Packet where
  fd : Int32
  video : Bool
  marker : Bool
  timeUs : Int64
  deriving DecidableEq

/-- `findInt32` with the address of its result: a value that is not found leaves the
bytes as they were. -/
def findInt32At (frame : Mem) (addr : Nat) : Option Int32 → Mem
  | some value => store32 frame addr value.toUInt32.toNat
  | none => frame

/-- `findInt64` with the address of its result. -/
def findInt64At (frame : Mem) (addr : Nat) : Option Int64 → Mem
  | some value => store64 frame addr value.toUInt64.toNat
  | none => frame

namespace Layout

/-- The three bytes behind a flag. -/
def behind (flag : Nat) : List Nat := [flag + 1, flag + 2, flag + 3]

/-- The four statements that find the values of a buffer. -/
def findAll (layout : Layout) (buffer : MetaBuffer) (frame : Mem) : Mem :=
  let frame := findInt32At frame layout.fd (buffer.findInt32 "fd")
  let frame := findInt32At frame layout.video (buffer.findInt32 "video")
  let frame := findInt32At frame layout.marker (buffer.findInt32 "marker")
  findInt64At frame layout.timeUs (buffer.findInt64 "ts")

/-- A flag that is found is stored over a byte of another variable. -/
def Spills (layout : Layout) (buffer : MetaBuffer) : Prop :=
  ((buffer.findInt32 "video").isSome ∧ ∃ addr ∈ behind layout.video, addr ∈ layout.others) ∨
    ((buffer.findInt32 "marker").isSome ∧ ∃ addr ∈ behind layout.marker, addr ∈ layout.others)

instance (layout : Layout) (buffer : MetaBuffer) : Decidable (layout.Spills buffer) :=
  inferInstanceAs (Decidable (_ ∨ _))

/-- What the loop reads after the four statements, in a frame that held `frame`
before them. -/
def readPacket (layout : Layout) (buffer : MetaBuffer) (frame : Mem) : Option Packet :=
  if layout.Spills buffer then none
  else
    let frame := layout.findAll buffer frame
    some ⟨(UInt32.ofNat (load32 frame layout.fd)).toInt32, frame layout.video != 0,
      frame layout.marker != 0, (UInt64.ofNat (load64 frame layout.timeUs)).toInt64⟩

/-- The stores of the flags change nothing that was stored before them: `video` is not
behind `marker`, unless it is to be false, and the bytes of `_fd` that are behind one
of the flags are to be zero. -/
structure Spares (layout : Layout) (fd : Int32) (video : Bool) : Prop where
  video : layout.video ∈ behind layout.marker → video = false
  fd : ∀ k < 4, layout.fd + k ∈ behind layout.video ∨ layout.fd + k ∈ behind layout.marker →
    fd.toUInt32.toNat / 256 ^ k % 256 = 0

instance (layout : Layout) (fd : Int32) (video : Bool) : Decidable (layout.Spares fd video) :=
  decidable_of_iff
    ((layout.video ∈ behind layout.marker → video = false) ∧
      ∀ k < 4, layout.fd + k ∈ behind layout.video ∨ layout.fd + k ∈ behind layout.marker →
        fd.toUInt32.toNat / 256 ^ k % 256 = 0)
    ⟨fun ⟨hvideo, hfd⟩ => ⟨hvideo, hfd⟩, fun hspares => ⟨hspares.video, hspares.fd⟩⟩

theorem mem_behind {addr flag : Nat} :
    addr ∈ behind flag ↔ addr = flag + 1 ∨ addr = flag + 2 ∨ addr = flag + 3 := by
  simp [behind]

end Layout

/-- A flag as `setInt32` takes it. -/
def flag (value : Bool) : Int32 := if value then 1 else 0

theorem toNat_flag (value : Bool) : (flag value).toUInt32.toNat = value.toNat := by
  cases value <;> decide

/-- The store of a flag writes the flag, -/
theorem store_flag_same (frame : Mem) (addr : Nat) (value : Bool) :
    (findInt32At frame addr (some (flag value)) addr != 0) = value := by
  rw [findInt32At, toNat_flag, store32, if_pos rfl]
  cases value <;> decide

/-- zeros behind it, -/
theorem store_flag_behind {frame : Mem} {addr other : Nat} (value : Bool)
    (hother : other ∈ Layout.behind addr) :
    findInt32At frame addr (some (flag value)) other = 0 := by
  have hsmall : value.toNat ≤ 1 := Bool.toNat_le value
  rw [findInt32At, toNat_flag, store32]
  rcases Layout.mem_behind.mp hother with rfl | rfl | rfl
  · rw [if_neg (by omega), if_pos rfl, Nat.div_eq_of_lt (by omega)]
    rfl
  · rw [if_neg (by omega), if_neg (by omega), if_pos rfl, Nat.div_eq_of_lt (by omega)]
    rfl
  · rw [if_neg (by omega), if_neg (by omega), if_neg (by omega), if_pos rfl,
      Nat.div_eq_of_lt (by omega)]
    rfl

/-- and nothing else. -/
theorem store_flag_of_ne {frame : Mem} {addr other : Nat} (value : Bool) (hne : other ≠ addr)
    (hother : other ∉ Layout.behind addr) :
    findInt32At frame addr (some (flag value)) other = frame other := by
  rw [Layout.mem_behind] at hother
  apply store32_apply
  omega

/-- A byte that has the value it is to keep keeps it over the store of a flag that may
only write zero to it. -/
theorem store_flag_keeps {frame : Mem} {addr other : Nat} {byte : UInt8} (value : Bool)
    (hne : other ≠ addr) (hbyte : frame other = byte)
    (hbehind : other ∈ Layout.behind addr → byte = 0) :
    findInt32At frame addr (some (flag value)) other = byte := by
  by_cases hmem : other ∈ Layout.behind addr
  · rw [store_flag_behind value hmem, hbehind hmem]
  · rw [store_flag_of_ne value hne hmem, hbyte]

/-- The bytes of a word. -/
theorem store32_byte (mem : Mem) (addr value : Nat) {k : Nat} (hk : k < 4) :
    store32 mem addr value (addr + k) = UInt8.ofNat (value / 256 ^ k) := by
  rw [store32]
  interval_cases k
  · rw [if_pos (by omega), pow_zero, Nat.div_one]
  · rw [if_neg (by omega), if_pos rfl, pow_one]
  · rw [if_neg (by omega), if_neg (by omega), if_pos rfl]
    norm_num
  · rw [if_neg (by omega), if_neg (by omega), if_neg (by omega), if_pos rfl]
    norm_num

/-- A load of four bytes that are those of a word. -/
theorem load32_of_bytes {mem : Mem} {addr value : Nat} (hvalue : value < wordModulus)
    (hbytes : ∀ k < 4, mem (addr + k) = UInt8.ofNat (value / 256 ^ k)) :
    load32 mem addr = value := by
  have hsame : SameOn (store32 mem addr value) mem addr (addr + 4) := by
    intro other hlow hhigh
    obtain ⟨k, rfl⟩ := Nat.exists_eq_add_of_le hlow
    rw [hbytes k (by omega), store32_byte mem addr value (by omega)]
  rw [load32_congr hsame, load32_store32_same, Nat.mod_eq_of_lt hvalue]

/-- In a layout that spares the packet the loop reads what the buffer carries. -/
theorem Layout.readPacket_eq {layout : Layout} {buffer : MetaBuffer} {frame : Mem}
    (packet : Packet) (hfd : buffer.findInt32 "fd" = some packet.fd)
    (hvideo : buffer.findInt32 "video" = some (flag packet.video))
    (hmarker : buffer.findInt32 "marker" = some (flag packet.marker))
    (hts : buffer.findInt64 "ts" = some packet.timeUs)
    (hspares : layout.Spares packet.fd packet.video) (hspills : ¬ layout.Spills buffer) :
    layout.readPacket buffer frame = some packet := by
  have hfdVideo := layout.fd_video
  have hfdMarker := layout.fd_marker
  have hfdTs := layout.fd_timeUs
  have hflags := layout.video_marker
  have hvideoTs := layout.video_timeUs
  have hmarkerTs := layout.marker_timeUs
  unfold Apart at hfdVideo hfdMarker hfdTs hflags hvideoTs hmarkerTs
  have hnumber : load32 (layout.findAll buffer frame) layout.fd = packet.fd.toUInt32.toNat := by
    refine load32_of_bytes packet.fd.toUInt32.toNat_lt fun k hk => ?_
    have hzero : layout.fd + k ∈ behind layout.video ∨ layout.fd + k ∈ behind layout.marker →
        UInt8.ofNat (packet.fd.toUInt32.toNat / 256 ^ k) = 0 := by
      intro hmem
      rw [← UInt8.toNat_inj, UInt8.toNat_ofNat']
      exact hspares.fd k hk hmem
    simp only [findAll, hfd, hvideo, hmarker, hts]
    refine (store64_apply (by omega)).trans ?_
    refine store_flag_keeps _ (by omega) ?_ fun hmem => hzero (Or.inr hmem)
    refine store_flag_keeps _ (by omega) ?_ fun hmem => hzero (Or.inl hmem)
    exact store32_byte _ _ _ hk
  have hfirst : (layout.findAll buffer frame layout.video != 0) = packet.video := by
    simp only [findAll, hfd, hvideo, hmarker, hts]
    rw [findInt64At, store64_apply (by omega)]
    by_cases hmem : layout.video ∈ behind layout.marker
    · rw [store_flag_behind _ hmem, hspares.video hmem]
      rfl
    · rw [store_flag_of_ne _ (by omega) hmem, store_flag_same]
  have hsecond : (layout.findAll buffer frame layout.marker != 0) = packet.marker := by
    simp only [findAll, hfd, hvideo, hmarker, hts]
    rw [findInt64At, store64_apply (by omega), store_flag_same]
  have htime : load64 (layout.findAll buffer frame) layout.timeUs =
      packet.timeUs.toUInt64.toNat := by
    simp only [findAll, hts]
    exact load64_store64_same _ _ packet.timeUs.toUInt64.toNat_lt
  simp only [readPacket, if_neg hspills, hnumber, hfirst, hsecond, htime, UInt32.ofNat_toNat,
    UInt64.ofNat_toNat, Int32.toInt32_toUInt32, Int64.toInt64_toUInt64]

/-- A marker that is stored right before `video` makes it false, whatever the buffer
says. -/
theorem Layout.video_cleared {layout : Layout} {buffer : MetaBuffer} {frame : Mem} {packet : Packet}
    {marker : Bool} (hmarker : buffer.findInt32 "marker" = some (flag marker))
    (hbehind : layout.video ∈ behind layout.marker)
    (hread : layout.readPacket buffer frame = some packet) : packet.video = false := by
  obtain ⟨-, hpacket⟩ := Option.ite_none_left_eq_some.mp hread
  obtain rfl := Option.some.inj hpacket
  have htime : ∀ value : Option Int64, ∀ mem : Mem,
      findInt64At mem layout.timeUs value layout.video = mem layout.video := by
    intro value mem
    have hvideoTs := layout.video_timeUs
    unfold Apart at hvideoTs
    cases value with
    | none => rfl
    | some value => exact store64_apply (by omega)
  simp only [findAll, hmarker, htime, store_flag_behind marker hbehind]
  rfl

end McuProxy.Net

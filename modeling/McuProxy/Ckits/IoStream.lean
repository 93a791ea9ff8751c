/-
# Writing to a bounded stream

`ioStream.c` writes text into a buffer of fixed size. A stream keeps the place of
the next byte twice, as a pointer and as the number of bytes left, and a print
that is cut off moves both by the length the text would have had: the pointer
leaves the buffer and the number wraps.

What survives is a relation between the two. Counted modulo `2 ^ 32`, the pointer
is as far behind the start of the buffer as the number of bytes left is short of
the size. A pointer that is seen to be inside the buffer then shows how many bytes
are really left, and that is all that a write relies on.
-/

import McuProxy.Math.Armv7
import McuProxy.Memory.Word

namespace McuProxy.Ckits

open McuProxy.Math McuProxy.Memory

/-- `ioStream`, on a 32-bit ABI. -/
structure IoStream where
  buffer : Nat
  size : Nat
  cursor : Nat
  length : Nat
  deriving DecidableEq, Repr

/-- The result of a call: what it returns, the stream, and the bytes it stored with
their addresses. -/
structure Outcome where
  ret : Int
  stream : IoStream
  stored : List (Nat × UInt8)
  deriving DecidableEq, Repr

/-- What `vsnprintf` makes of a format and its arguments: the bytes it stores, never
more than its size argument, and the `int` it returns, the length of the whole text
whatever was stored of it, or a negative number. -/
structure Formatted where
  stores : Nat → List UInt8
  untruncated : Int
  stores_le : ∀ size, (stores size).length ≤ size
  fits : untruncated ≤ 2147483647

namespace IoStream

def seekSet : Int := 0

def seekCur : Int := 1

def seekEnd : Int := 2

/-- Consecutive bytes, with their addresses. -/
def bytesAt (addr : Nat) (bytes : List UInt8) : List (Nat × UInt8) :=
  bytes.mapIdx fun k byte => (addrPlus addr k, byte)

/-- `cursor += n; length -= n`. -/
def advance (stream : IoStream) (n : Nat) : IoStream :=
  { stream with cursor := addrPlus stream.cursor n, length := subWord stream.length n }

def ioStreamRewind (stream : IoStream) : Outcome :=
  ⟨0, { stream with cursor := stream.buffer, length := stream.size }, []⟩

def ioStreamOpen (stream : IoStream) : Outcome :=
  { ioStreamRewind stream with stored := bytesAt stream.buffer (List.replicate stream.size 0) }

def ioStreamTell (stream : IoStream) : Int := signed32 (subWord stream.size stream.length)

/-- `move` before it is clamped. Sums of a `size_t` and an `off_t` are unsigned, and
become signed in the assignment. -/
def seekMove (stream : IoStream) (offset whence : Int) : Option Int :=
  if seekSet = whence then some offset
  else if seekEnd = whence then some (signed32 (stream.size + offset))
  else if seekCur = whence then some (signed32 (subWord stream.size stream.length + offset))
  else none

def ioStreamSeek (stream : IoStream) (offset whence : Int) : Outcome :=
  match seekMove stream offset whence with
  | none => ⟨-1, stream, []⟩
  | some move =>
      let move := if move < 0 then 0 else if move > stream.size then stream.size else move.toNat
      let stream := { stream with
        cursor := addrPlus stream.buffer move, length := subWord stream.size move }
      ⟨ioStreamTell stream, stream, []⟩

/-- The test in front of every write as well. -/
def ioStreamIsEnd (stream : IoStream) : Bool :=
  stream.cursor < stream.buffer || addrPlus stream.buffer stream.size ≤ stream.cursor

def ioStreamPrint (stream : IoStream) (text : Formatted) : Outcome :=
  if ioStreamIsEnd stream then ⟨-1, stream, []⟩
  else
    ⟨text.untruncated,
      if text.untruncated ≥ 0 then stream.advance text.untruncated.toNat else stream,
      bytesAt stream.cursor (text.stores stream.length)⟩

/-- `ioStreamWrite` of the bytes of `buf`; `count` is their number. A count from
`2 ^ 31` on is negative as an `int`, and nothing is written. -/
def ioStreamWrite (stream : IoStream) (buf : List UInt8) : Outcome :=
  if ioStreamIsEnd stream then ⟨-1, stream, []⟩
  else
    let ret := signed32 (if buf.length < stream.length then buf.length else stream.length)
    if ret > 0 then
      ⟨ret, stream.advance ret.toNat, bytesAt stream.cursor (buf.take ret.toNat)⟩
    else ⟨ret, stream, []⟩

/-- `ioStreamPutc`, with a plain `char` that is unsigned. -/
def ioStreamPutc (c : Int) (stream : IoStream) : Outcome :=
  if ioStreamIsEnd stream then ⟨-1, stream, []⟩
  else if stream.length > 1 then
    ⟨(UInt8.ofInt c).toNat, stream.advance 1, bytesAt stream.cursor [UInt8.ofInt c]⟩
  else ⟨-1, stream, []⟩

end IoStream

/-- The calls on a stream. -/
inductive IoCall
  | rewind
  | openStream
  | seek (offset whence : Int)
  | print (text : Formatted)
  | write (buf : List UInt8)
  | putc (c : Int)

namespace IoStream

def call (stream : IoStream) : IoCall → Outcome
  | .rewind => stream.ioStreamRewind
  | .openStream => stream.ioStreamOpen
  | .seek offset whence => stream.ioStreamSeek offset whence
  | .print text => stream.ioStreamPrint text
  | .write buf => stream.ioStreamWrite buf
  | .putc c => ioStreamPutc c stream

/-- A sequence of calls: the stream it leaves, and everything that it stored. -/
def runCalls : IoStream → List IoCall → IoStream × List (Nat × UInt8)
  | stream, [] => (stream, [])
  | stream, call :: calls =>
      let outcome := stream.call call
      let rest := runCalls outcome.stream calls
      (rest.1, outcome.stored ++ rest.2)

/-- The buffer is memory: it is not null and does not wrap around. -/
structure Allocated (stream : IoStream) : Prop where
  buffer_pos : 0 < stream.buffer
  size_pos : 0 < stream.size
  space : stream.buffer + stream.size ≤ wordModulus

/-- Pointer and number of bytes left are those of one position. A position from
`size` on is the end of a text that was cut off. -/
structure At (stream : IoStream) (position : Nat) : Prop where
  lt : position < wordModulus
  cursor : stream.cursor = addrPlus stream.buffer position
  length : stream.length = subWord stream.size position

/-- What every call keeps. -/
structure Safe (stream : IoStream) (outcome : Outcome) : Prop where
  buffer : outcome.stream.buffer = stream.buffer
  size : outcome.stream.size = stream.size
  at_position : ∃ position, At outcome.stream position
  inside : ∀ store ∈ outcome.stored,
    stream.buffer ≤ store.1 ∧ store.1 < stream.buffer + stream.size

section

variable {stream : IoStream} {position : Nat}

theorem At.advance (hat : At stream position) {n : Nat} (hn : n < wordModulus) :
    At (stream.advance n) ((position + n) % wordModulus) := by
  have hposition := hat.lt
  constructor
  · exact Nat.mod_lt _ (by decide)
  · simp only [IoStream.advance, hat.cursor, addrPlus, wordModulus]
    omega
  · simp only [IoStream.advance, hat.length, subWord, wordModulus] at hposition hn ⊢
    omega

/-- `ioStreamTell` tells the position, also one behind the end of the buffer. -/
theorem At.tell (hat : At stream position) (hstream : Allocated stream) :
    ioStreamTell stream = signed32 position := by
  have hposition := hat.lt
  have hpos := hstream.buffer_pos
  have hspace := hstream.space
  have hback : subWord stream.size stream.length = position := by
    simp only [hat.length, subWord, wordModulus] at hposition hspace ⊢
    omega
  rw [ioStreamTell, hback]

/-- A position that passes the test is inside the buffer, and the number of bytes
left is what is left of the buffer. -/
theorem At.room (hat : At stream position) (hstream : Allocated stream)
    (hroom : ioStreamIsEnd stream = false) :
    position < stream.size ∧ stream.cursor = stream.buffer + position ∧
      stream.length = stream.size - position := by
  obtain ⟨hlt, hcursor, hlength⟩ := hat
  obtain ⟨hpos, -, hspace⟩ := hstream
  simp only [ioStreamIsEnd, Bool.or_eq_false_iff, decide_eq_false_iff_not, not_lt, not_le] at hroom
  rw [hcursor] at hroom ⊢
  rw [hlength]
  simp only [addrPlus, subWord, wordModulus] at hlt hspace hroom ⊢
  omega

/-- Bytes behind an address, no more of them than there is room for. -/
theorem bytesAt_inside {addr : Nat} {bytes : List UInt8} {low high : Nat} (hlow : low ≤ addr)
    (hhigh : addr + bytes.length ≤ high) (hspace : high ≤ wordModulus) :
    ∀ store ∈ bytesAt addr bytes, low ≤ store.1 ∧ store.1 < high := by
  intro store hstore
  obtain ⟨k, hk, rfl⟩ := List.mem_mapIdx.mp hstore
  simp only [addrPlus]
  rw [Nat.mod_eq_of_lt (by omega)]
  omega

/-- A call that changes nothing. -/
theorem At.stays (hat : At stream position) (ret : Int) : Safe stream ⟨ret, stream, []⟩ :=
  ⟨rfl, rfl, ⟨position, hat⟩, by simp⟩

/-- A write of no more bytes than are left. -/
theorem At.writes (hat : At stream position) (hstream : Allocated stream)
    (hroom : ioStreamIsEnd stream = false) (ret : Int) {n : Nat} (hn : n < wordModulus)
    {bytes : List UInt8} (hbytes : bytes.length ≤ stream.length) :
    Safe stream ⟨ret, stream.advance n, bytesAt stream.cursor bytes⟩ := by
  obtain ⟨hinside, hcursor, hlength⟩ := hat.room hstream hroom
  refine ⟨rfl, rfl, ⟨_, hat.advance hn⟩, ?_⟩
  apply bytesAt_inside _ _ hstream.space
  · omega
  · omega

/-- Going to a place in the buffer, or to its end. -/
theorem Safe.goes (hstream : Allocated stream) (ret : Int) {move : Nat}
    (hmove : move ≤ stream.size) :
    Safe stream ⟨ret, { stream with
      cursor := addrPlus stream.buffer move, length := subWord stream.size move }, []⟩ := by
  have hpos := hstream.buffer_pos
  have hspace := hstream.space
  exact ⟨rfl, rfl, ⟨move, by omega, rfl, rfl⟩, by simp⟩

/-- Rewinding needs nothing of the stream but its buffer. -/
theorem ioStreamRewind_safe (hstream : Allocated stream) : Safe stream (ioStreamRewind stream) := by
  have hpos := hstream.buffer_pos
  have hsize := hstream.size_pos
  have hspace := hstream.space
  refine ⟨rfl, rfl, ⟨0, by decide, ?_, ?_⟩, by simp [ioStreamRewind]⟩
  · simp only [ioStreamRewind, addrPlus]
    rw [Nat.mod_eq_of_lt (by omega), Nat.add_zero]
  · simp only [ioStreamRewind]
    rw [subWord_eq (Nat.zero_le _) (by omega), Nat.sub_zero]

theorem ioStreamSeek_safe (hat : At stream position) (hstream : Allocated stream)
    (offset whence : Int) : Safe stream (ioStreamSeek stream offset whence) := by
  unfold ioStreamSeek
  split
  · exact hat.stays (-1)
  · apply Safe.goes hstream
    split
    · exact Nat.zero_le _
    · split
      · exact le_rfl
      · omega

theorem ioStreamPrint_safe (hat : At stream position) (hstream : Allocated stream)
    (text : Formatted) : Safe stream (ioStreamPrint stream text) := by
  unfold ioStreamPrint
  split
  · exact hat.stays (-1)
  · rename_i hroom
    rw [Bool.not_eq_true] at hroom
    have hfits := text.fits
    have hbytes := text.stores_le stream.length
    split
    · apply hat.writes hstream hroom _ _ hbytes
      rw [wordModulus]
      omega
    · -- an error leaves the stream, but bytes may have been stored
      have hwrites := hat.writes hstream hroom text.untruncated (by decide : 0 < wordModulus) hbytes
      exact ⟨rfl, rfl, ⟨position, hat⟩, hwrites.inside⟩

/-- A number of bytes that is positive as an `int` is that number. -/
theorem toNat_signed32 {n : Nat} (hn : n < wordModulus) (hpos : signed32 n > 0) :
    (signed32 n).toNat = n := by
  simp only [signed32, wordModulus, Int.bmod_def] at hn hpos ⊢
  omega

theorem ioStreamWrite_safe (hat : At stream position) (hstream : Allocated stream)
    (buf : List UInt8) : Safe stream (ioStreamWrite stream buf) := by
  unfold ioStreamWrite
  split
  · exact hat.stays (-1)
  · rename_i hroom
    rw [Bool.not_eq_true] at hroom
    obtain ⟨hinside, -, hlength⟩ := hat.room hstream hroom
    have hpos := hstream.buffer_pos
    have hspace := hstream.space
    obtain ⟨count, hcount, hle⟩ : ∃ count : Nat,
        (if buf.length < stream.length then (buf.length : Int) else stream.length) = count ∧
          count ≤ stream.length := by
      split
      · rename_i hlt
        exact ⟨_, rfl, hlt.le⟩
      · exact ⟨_, rfl, le_rfl⟩
    rw [hcount]
    have hvalue := @toNat_signed32 count (by omega)
    generalize signed32 count = ret at hvalue
    dsimp only
    split
    · rename_i hpos
      have hbytes : (buf.take ret.toNat).length ≤ stream.length := by
        rw [List.length_take, hvalue hpos]
        omega
      apply hat.writes hstream hroom _ _ hbytes
      rw [hvalue hpos]
      omega
    · exact hat.stays ret

theorem ioStreamPutc_safe (hat : At stream position) (hstream : Allocated stream) (c : Int) :
    Safe stream (ioStreamPutc c stream) := by
  unfold ioStreamPutc
  split
  · exact hat.stays (-1)
  · rename_i hroom
    rw [Bool.not_eq_true] at hroom
    split
    · rename_i hlength
      apply hat.writes hstream hroom _ (by decide)
      rw [List.length_singleton]
      omega
    · exact hat.stays (-1)

theorem ioStreamOpen_safe (hstream : Allocated stream) : Safe stream (ioStreamOpen stream) := by
  obtain ⟨hbuffer, hsize, hat, -⟩ := ioStreamRewind_safe hstream
  refine ⟨hbuffer, hsize, hat, ?_⟩
  apply bytesAt_inside le_rfl _ hstream.space
  rw [List.length_replicate]

/-- Every call keeps the position and stores inside the buffer. -/
theorem call_safe (hat : At stream position) (hstream : Allocated stream) (call : IoCall) :
    Safe stream (stream.call call) := by
  cases call with
  | rewind => exact ioStreamRewind_safe hstream
  | openStream => exact ioStreamOpen_safe hstream
  | seek offset whence => exact ioStreamSeek_safe hat hstream offset whence
  | print text => exact ioStreamPrint_safe hat hstream text
  | write buf => exact ioStreamWrite_safe hat hstream buf
  | putc c => exact ioStreamPutc_safe hat hstream c

end

theorem Allocated.of_safe {stream : IoStream} {outcome : Outcome} (hstream : Allocated stream)
    (hsafe : Safe stream outcome) : Allocated outcome.stream := by
  constructor
  · rw [hsafe.buffer]
    exact hstream.buffer_pos
  · rw [hsafe.size]
    exact hstream.size_pos
  · rw [hsafe.buffer, hsafe.size]
    exact hstream.space

/-- From a stream at some position, every sequence of calls stores inside the
buffer. -/
theorem runCalls_inside {stream : IoStream} (hstream : Allocated stream)
    (hat : ∃ position, At stream position) (calls : List IoCall) :
    ∀ store ∈ (runCalls stream calls).2,
      stream.buffer ≤ store.1 ∧ store.1 < stream.buffer + stream.size := by
  induction calls generalizing stream with
  | nil => simp [runCalls]
  | cons call calls ih =>
      obtain ⟨position, hat⟩ := hat
      have hsafe := call_safe hat hstream call
      have hrest := ih (hstream.of_safe hsafe) hsafe.at_position
      rw [hsafe.buffer, hsafe.size] at hrest
      intro store hstore
      rcases List.mem_append.mp hstore with hfirst | hlater
      · exact hsafe.inside store hfirst
      · exact hrest store hlater

/-- Whatever a stream held before, a sequence of calls that starts by rewinding it
stores inside its buffer. -/
theorem stores_inside {stream : IoStream} (hstream : Allocated stream) (calls : List IoCall) :
    ∀ store ∈ (runCalls stream (.rewind :: calls)).2,
      stream.buffer ≤ store.1 ∧ store.1 < stream.buffer + stream.size := by
  have hsafe := ioStreamRewind_safe hstream
  have hrest := runCalls_inside (hstream.of_safe hsafe) hsafe.at_position calls
  rw [hsafe.buffer, hsafe.size] at hrest
  exact hrest

/-- A text of the given bytes, as `vsnprintf` stores it: cut off, with a null byte. -/
def plainText (text : List UInt8) (hshort : text.length ≤ 2147483647) : Formatted where
  stores size := if size = 0 then [] else text.take (size - 1) ++ [0]
  untruncated := text.length
  stores_le := by
    intro size
    split
    · exact Nat.zero_le _
    · rw [List.length_append, List.length_take, List.length_singleton]
      omega
  fits := by exact_mod_cast hshort

/-- A buffer of eight bytes: a text of twelve is cut off, the stream is taken back
six places from where that text would have ended, and five bytes are written. -/
def cutOff : List IoCall :=
  [.print (plainText (List.replicate 12 65) (by decide)), .putc 66, .seek (-6) seekCur,
    .write (List.replicate 5 67)]

theorem stores_inside_cutOff :
    (runCalls ⟨1000, 8, 0, 0⟩ (.rewind :: cutOff)).2.length = 10 ∧
      ∀ store ∈ (runCalls ⟨1000, 8, 0, 0⟩ (.rewind :: cutOff)).2,
        1000 ≤ store.1 ∧ store.1 < 1000 + 8 :=
  ⟨by decide +kernel, stores_inside ⟨by decide, by decide, by decide⟩ cutOff⟩

end IoStream

end McuProxy.Ckits

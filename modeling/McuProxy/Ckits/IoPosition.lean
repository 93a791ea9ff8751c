/-
# The position of a bounded stream

`ioStreamTell` is what the dumps of the server rely on when they print a list of
members and step back over the last separator. It says where the pointer is as
long as no text was cut off: `ioStreamPrint` moves on by the length that
`vsnprintf` returns, which is the length of the whole text, while `ioStreamWrite`
and `ioStreamSeek` stop at the end of the buffer.

The position is told as an `int`. In a buffer of more than `2 ^ 31 - 1` bytes
there are places that it cannot tell, and a write may reach them.
-/

import McuProxy.Ckits.IoStream

namespace McuProxy.Ckits

open McuProxy.Math McuProxy.Memory

/-- An `off_t` has 32 bits. -/
def IoCall.Typed : IoCall → Prop
  | .seek offset _ => -2147483648 ≤ offset ∧ offset ≤ 2147483647
  | _ => True

instance : DecidablePred IoCall.Typed
  | .seek offset _ =>
      inferInstanceAs (Decidable (-2147483648 ≤ offset ∧ offset ≤ 2147483647))
  | .rewind => isTrue trivial
  | .openStream => isTrue trivial
  | .print _ => isTrue trivial
  | .write _ => isTrue trivial
  | .putc _ => isTrue trivial

namespace IoStream

/-- The pointer is where `ioStreamTell` says, in the buffer or at its end. -/
def Meaningful (stream : IoStream) : Prop :=
  stream.cursor = addrPlus stream.buffer (ioStreamTell stream).toNat ∧
    0 ≤ ioStreamTell stream ∧ ioStreamTell stream ≤ stream.size ∧ stream.length ≤ stream.size

instance (stream : IoStream) : Decidable (Meaningful stream) :=
  inferInstanceAs (Decidable (_ ∧ _))

/-- The number of bytes that a call means to move on, where it is not negative. -/
def asked (stream : IoStream) : IoCall → Int
  | .print text => text.untruncated
  | .write buf => signed32 (min buf.length stream.length)
  | .putc _ => if stream.length > 1 then 1 else 0
  | .rewind | .openStream | .seek _ _ => 0

/-- There is room for what the call means to write, if it comes to writing, and the
place behind it can be told. -/
def HasRoom (stream : IoStream) (call : IoCall) : Prop :=
  ioStreamIsEnd stream = true ∨ stream.asked call ≤ 0 ∨
    stream.asked call ≤ stream.length ∧ ioStreamTell stream + stream.asked call ≤ 2147483647

instance (stream : IoStream) (call : IoCall) : Decidable (HasRoom stream call) :=
  inferInstanceAs (Decidable (_ ∨ _))

section

variable {stream : IoStream} {position : Nat}

/-- The meaningful positions are those in the buffer that an `int` can tell. -/
theorem At.meaningful_iff (hat : At stream position) (hstream : Allocated stream) :
    Meaningful stream ↔ position ≤ stream.size ∧ position ≤ 2147483647 := by
  obtain ⟨hlt, hcursor, hlength⟩ := hat
  have hpos := hstream.buffer_pos
  have hspace := hstream.space
  rw [Meaningful, At.tell ⟨hlt, hcursor, hlength⟩ hstream, hcursor, hlength]
  simp only [subWord, wordModulus] at hlt hspace ⊢
  by_cases htold : position ≤ 2147483647
  · have htell : signed32 position = position := by
      simp only [signed32, Int.bmod_def]
      omega
    rw [htell, Int.toNat_natCast]
    omega
  · have htell : signed32 position < 0 := by
      simp only [signed32, Int.bmod_def]
      omega
    omega

theorem At.tell_eq (hat : At stream position) (hstream : Allocated stream)
    (htold : position ≤ 2147483647) : ioStreamTell stream = position := by
  rw [hat.tell hstream, signed32, Int.bmod_def]
  omega

/-- Moving on from inside the buffer. -/
theorem At.meaningful_advance (hat : At stream position) (hstream : Allocated stream)
    (hroom : ioStreamIsEnd stream = false) (htold : position ≤ 2147483647) {n : Nat}
    (hn : n ≤ 2147483647) :
    Meaningful (stream.advance n) ↔
      (n : Int) ≤ stream.length ∧ ioStreamTell stream + n ≤ 2147483647 := by
  obtain ⟨hinside, -, hlength⟩ := hat.room hstream hroom
  have hnext := hat.advance (n := n) (by rw [wordModulus]; omega)
  rw [Nat.mod_eq_of_lt (by rw [wordModulus]; omega)] at hnext
  have hstream' : Allocated (stream.advance n) :=
    ⟨hstream.buffer_pos, hstream.size_pos, hstream.space⟩
  rw [hnext.meaningful_iff hstream', hat.tell_eq hstream htold, hlength]
  simp only [IoStream.advance]
  omega

theorem At.told (hat : At stream position) (hstream : Allocated stream)
    (hmeaningful : Meaningful stream) : position ≤ 2147483647 :=
  ((hat.meaningful_iff hstream).mp hmeaningful).2

/-- Going to a place in the buffer. -/
theorem meaningful_place (hstream : Allocated stream) {move : Nat} (hmove : move ≤ stream.size)
    (htold : move ≤ 2147483647) :
    Meaningful { stream with
      cursor := addrPlus stream.buffer move, length := subWord stream.size move } := by
  have hat : At { stream with
      cursor := addrPlus stream.buffer move, length := subWord stream.size move } move :=
    ⟨by rw [wordModulus]; omega, rfl, rfl⟩
  exact (hat.meaningful_iff ⟨hstream.buffer_pos, hstream.size_pos, hstream.space⟩).mpr
    ⟨hmove, htold⟩

theorem ioStreamRewind_meaningful (hstream : Allocated stream) :
    Meaningful (ioStreamRewind stream).stream := by
  have hplace := meaningful_place hstream (Nat.zero_le stream.size) (Nat.zero_le _)
  have hpos := hstream.buffer_pos
  have hsize := hstream.size_pos
  have hspace := hstream.space
  rw [addrPlus, Nat.add_zero, Nat.mod_eq_of_lt (by omega), subWord_eq (Nat.zero_le _) (by omega),
    Nat.sub_zero] at hplace
  exact hplace

theorem ioStreamSeek_meaningful (hstream : Allocated stream) (hmeaningful : Meaningful stream)
    {offset : Int} (htyped : offset ≤ 2147483647) (whence : Int) :
    Meaningful (ioStreamSeek stream offset whence).stream := by
  have hmove : ∀ move, seekMove stream offset whence = some move → move ≤ 2147483647 := by
    intro move hmove
    unfold seekMove at hmove
    split_ifs at hmove <;> obtain rfl := Option.some.inj hmove
    · exact htyped
    · rw [signed32, Int.bmod_def]
      omega
    · rw [signed32, Int.bmod_def]
      omega
  unfold ioStreamSeek
  split
  · exact hmeaningful
  · rename_i move hsome
    have htold := hmove move hsome
    apply meaningful_place hstream
    · split_ifs <;> omega
    · split_ifs <;> omega

/-- Inside the buffer only what the call means to write is in question. -/
theorem hasRoom_iff (hroom : ioStreamIsEnd stream = false) (call : IoCall) :
    HasRoom stream call ↔ stream.asked call ≤ 0 ∨
      stream.asked call ≤ stream.length ∧
        ioStreamTell stream + stream.asked call ≤ 2147483647 := by
  rw [HasRoom, hroom, or_iff_right Bool.false_ne_true]

theorem ioStreamPrint_meaningful_iff (hat : At stream position) (hstream : Allocated stream)
    (hmeaningful : Meaningful stream) (text : Formatted) :
    Meaningful (ioStreamPrint stream text).stream ↔ HasRoom stream (.print text) := by
  have htold := hat.told hstream hmeaningful
  have htell := hat.tell_eq hstream htold
  have hfits := text.fits
  unfold ioStreamPrint
  split
  · rename_i hend
    exact iff_of_true hmeaningful (.inl hend)
  · rename_i hroom
    rw [Bool.not_eq_true] at hroom
    rw [hasRoom_iff hroom, asked]
    split
    · rename_i hprinted
      obtain ⟨n, hn⟩ := Int.eq_ofNat_of_zero_le hprinted
      rw [hn, Int.toNat_natCast, hat.meaningful_advance hstream hroom htold (by omega)]
      omega
    · exact iff_of_true hmeaningful (.inl (by omega))

theorem ioStreamWrite_meaningful_iff (hat : At stream position) (hstream : Allocated stream)
    (hmeaningful : Meaningful stream) (buf : List UInt8) :
    Meaningful (ioStreamWrite stream buf).stream ↔ HasRoom stream (.write buf) := by
  have htold := hat.told hstream hmeaningful
  have hcount : (if buf.length < stream.length then (buf.length : Int) else stream.length) =
      min (buf.length : Int) stream.length := by
    split <;> omega
  unfold ioStreamWrite
  rw [hcount]
  have hbound : signed32 (min (buf.length : Int) stream.length) ≤ 2147483647 := by
    rw [signed32, Int.bmod_def]
    omega
  split
  · rename_i hend
    exact iff_of_true hmeaningful (.inl hend)
  · rename_i hroom
    rw [Bool.not_eq_true] at hroom
    rw [hasRoom_iff hroom, asked]
    generalize signed32 (min (buf.length : Int) stream.length) = ret at hbound
    dsimp only
    split
    · rename_i hpos
      obtain ⟨n, rfl⟩ := Int.eq_ofNat_of_zero_le (le_of_lt hpos)
      rw [Int.toNat_natCast, hat.meaningful_advance hstream hroom htold (by omega)]
      omega
    · exact iff_of_true hmeaningful (.inl (by omega))

theorem ioStreamPutc_meaningful_iff (hat : At stream position) (hstream : Allocated stream)
    (hmeaningful : Meaningful stream) (c : Int) :
    Meaningful (ioStreamPutc c stream).stream ↔ HasRoom stream (.putc c) := by
  have htold := hat.told hstream hmeaningful
  unfold ioStreamPutc
  split
  · rename_i hend
    exact iff_of_true hmeaningful (.inl hend)
  · rename_i hroom
    rw [Bool.not_eq_true] at hroom
    rw [hasRoom_iff hroom, asked]
    split
    · rw [hat.meaningful_advance hstream hroom htold (by decide)]
      omega
    · exact iff_of_true hmeaningful (.inl le_rfl)

/-- After a call from a meaningful position the position is meaningful exactly when
there was room. -/
theorem call_meaningful_iff (hat : At stream position) (hstream : Allocated stream)
    (hmeaningful : Meaningful stream) {call : IoCall} (htyped : call.Typed) :
    Meaningful (stream.call call).stream ↔ HasRoom stream call := by
  cases call with
  | rewind => exact iff_of_true (ioStreamRewind_meaningful hstream) (.inr (.inl le_rfl))
  | openStream => exact iff_of_true (ioStreamRewind_meaningful hstream) (.inr (.inl le_rfl))
  | seek offset whence =>
      exact iff_of_true (ioStreamSeek_meaningful hstream hmeaningful htyped.2 whence)
        (.inr (.inl le_rfl))
  | print text => exact ioStreamPrint_meaningful_iff hat hstream hmeaningful text
  | write buf => exact ioStreamWrite_meaningful_iff hat hstream hmeaningful buf
  | putc c => exact ioStreamPutc_meaningful_iff hat hstream hmeaningful c

end

theorem runCalls_append (stream : IoStream) (first second : List IoCall) :
    (runCalls stream (first ++ second)).1 = (runCalls (runCalls stream first).1 second).1 := by
  induction first generalizing stream with
  | nil => rfl
  | cons call first ih =>
      rw [List.cons_append, runCalls, runCalls]
      exact ih (stream.call call).stream

/-- Whatever the calls, the stream stays at some position of its buffer or behind
it. -/
theorem runCalls_at {stream : IoStream} (hstream : Allocated stream)
    (hat : ∃ position, At stream position) (calls : List IoCall) :
    Allocated (runCalls stream calls).1 ∧ ∃ position, At (runCalls stream calls).1 position := by
  induction calls generalizing stream with
  | nil => exact ⟨hstream, hat⟩
  | cons call calls ih =>
      obtain ⟨position, hat⟩ := hat
      have hsafe := call_safe hat hstream call
      exact ih (hstream.of_safe hsafe) hsafe.at_position

/-- After a rewind the position is meaningful after each of a sequence of calls
exactly when each of them finds room for what it means to write. -/
theorem meaningful_iff_hasRoom {stream : IoStream} (hstream : Allocated stream)
    {calls : List IoCall} (htyped : ∀ call ∈ calls, call.Typed) :
    (∀ before, before <+: calls → Meaningful (runCalls stream (.rewind :: before)).1) ↔
      ∀ before call, before ++ [call] <+: calls →
        HasRoom (runCalls stream (.rewind :: before)).1 call := by
  have hrewind := ioStreamRewind_safe hstream
  -- the law for the call behind `before`, from the position that `before` led to
  have hcall : ∀ before call, before ++ [call] <+: calls →
      Meaningful (runCalls stream (.rewind :: before)).1 →
      (Meaningful (runCalls stream (.rewind :: (before ++ [call]))).1 ↔
        HasRoom (runCalls stream (.rewind :: before)).1 call) := by
    intro before call hearly hmeaningful
    obtain ⟨hbefore, position, hat⟩ :=
      runCalls_at (hstream.of_safe hrewind) hrewind.at_position before
    rw [← List.cons_append, runCalls_append]
    apply call_meaningful_iff hat hbefore hmeaningful
    exact htyped call (hearly.subset (by simp))
  constructor
  · intro hmeaningful before call hearly
    have hshorter : before <+: calls := (List.prefix_append before [call]).trans hearly
    exact (hcall before call hearly (hmeaningful before hshorter)).mp
      (hmeaningful _ hearly)
  · intro hroom before hearly
    induction before using List.reverseRecOn with
    | nil => exact ioStreamRewind_meaningful hstream
    | append_singleton before call ih =>
        have hshorter := ih ((List.prefix_append before [call]).trans hearly)
        exact (hcall before call hearly hshorter).mpr (hroom before call hearly)

/-- Two texts that fit in a buffer of eight bytes, the second to the last byte, a
step back, and more bytes than there is room for. -/
def fittingCalls : List IoCall :=
  [.print (plainText (List.replicate 3 65) (by decide)),
    .print (plainText (List.replicate 5 65) (by decide)), .seek (-2) seekCur,
    .write (List.replicate 5 67)]

/-- The writes end where the buffer ends. -/
theorem meaningful_iff_hasRoom_fitting :
    (runCalls ⟨1000, 8, 0, 0⟩ (.rewind :: fittingCalls)).1 = ⟨1000, 8, 1008, 0⟩ ∧
      ∀ before, before <+: fittingCalls →
        Meaningful (runCalls ⟨1000, 8, 0, 0⟩ (.rewind :: before)).1 := by
  refine ⟨by decide +kernel, ?_⟩
  refine (meaningful_iff_hasRoom ⟨by decide, by decide, by decide⟩ (by decide)).mpr ?_
  have hroom : ∀ n (hn : n < fittingCalls.length),
      HasRoom (runCalls ⟨1000, 8, 0, 0⟩ (.rewind :: fittingCalls.take n)).1 fittingCalls[n] := by
    decide +kernel
  intro before call hearly
  have hlt : before.length < fittingCalls.length := by
    have hle := hearly.length_le
    rwa [List.length_append] at hle
  have hbefore : before = fittingCalls.take before.length :=
    List.prefix_iff_eq_take.mp ((List.prefix_append before [call]).trans hearly)
  have hcall : fittingCalls[before.length] = call := by
    have hlast : before.length < (before ++ [call]).length := by simp
    rw [← hearly.getElem hlast, List.getElem_concat_length rfl]
  have hlast := hroom before.length hlt
  rwa [hcall, ← hbefore] at hlast

/-- A text of twelve bytes in a buffer of eight: the position is told as twelve, and
the number of bytes left is above four thousand million. -/
theorem cut_text_overshoots :
    ¬ ∀ before, before <+: [IoCall.print (plainText (List.replicate 12 65) (by decide))] →
      Meaningful (runCalls ⟨1000, 8, 0, 0⟩ (.rewind :: before)).1 := by
  intro hmeaningful
  have hlast := hmeaningful _ (List.prefix_rfl)
  revert hlast
  decide +kernel

end IoStream

end McuProxy.Ckits

/-
# UTF-16 escapes as UTF-8

`parse_string` builds the bytes of a code point from its last to its first. The
result is UTF-8: for the value of every character it is the encoding that Lean's
strings have. A character behind the first 2 ^ 16 is written as two escapes, and the
ten bits of each make its value.
-/

import Mathlib.Tactic.SplitIfs
import McuProxy.Json.Text

namespace McuProxy.Json

/-- The last six bits behind a mark. -/
theorem continuation_eq (uc : UInt32) : continuation uc = uc.toUInt8 &&& 0x3F ||| 0x80 := by
  have hbyte : ∀ byte : BitVec 8, (byte ||| 0x80) &&& 0xBF = byte &&& 0x3F ||| 0x80 := by decide
  rw [continuation, UInt32.toUInt8_and, UInt32.toUInt8_or]
  exact UInt8.eq_of_toBitVec_eq (hbyte uc.toUInt8.toBitVec)

/-- A byte with few bits is kept by a mask over these. -/
theorem toUInt8_and_mask {uc : UInt32} (bits : Nat) (hbits : bits ≤ 8)
    (huc : uc.toNat < 2 ^ bits) : uc.toUInt8 &&& UInt8.ofNat (2 ^ bits - 1) = uc.toUInt8 := by
  apply UInt8.toNat_inj.mp
  have hle : 2 ^ bits ≤ 2 ^ 8 := Nat.pow_le_pow_right (by decide) hbits
  have hsmall : uc.toUInt8.toNat < 2 ^ bits := by
    rw [UInt32.toNat_toUInt8]
    exact Nat.lt_of_le_of_lt (Nat.mod_le _ _) huc
  rw [UInt8.toNat_and, UInt8.toNat_ofNat', Nat.mod_eq_of_lt (by omega),
    Nat.and_two_pow_sub_one_eq_mod, Nat.mod_eq_of_lt hsmall]

theorem toNat_shiftRight_six (uc : UInt32) : (uc >>> 6).toNat = uc.toNat / 64 := by
  rw [UInt32.toNat_shiftRight]
  exact Nat.shiftRight_eq_div_pow _ _

/-- The first byte of several: a mark, and the bits that are left. -/
theorem leadByte_eq {uc : UInt32} (mark : UInt32) (bits : Nat) (hbits : bits ≤ 8)
    (huc : uc.toNat < 2 ^ bits) :
    (uc ||| mark).toUInt8 = uc.toUInt8 &&& UInt8.ofNat (2 ^ bits - 1) ||| mark.toUInt8 := by
  rw [UInt32.toUInt8_or, toUInt8_and_mask bits hbits huc]

/-- The number of bytes that `len` counts is that of the encoding. -/
theorem extraBytes_eq (c : Char) : extraBytes c.val + 1 = c.utf8Size := by
  have hle : ∀ bound : UInt32, c.val ≤ bound ↔ c.val.toNat ≤ bound.toNat :=
    fun bound => UInt32.le_iff_toNat_le
  have hlt : ∀ bound : UInt32, c.val < bound ↔ c.val.toNat < bound.toNat :=
    fun bound => UInt32.lt_iff_toNat_lt
  have hone : c.val < 0x80 ↔ c.val ≤ 0x7F := by
    rw [hlt, hle]
    exact Nat.lt_succ_iff
  have htwo : c.val < 0x800 ↔ c.val ≤ 0x7FF := by
    rw [hlt, hle]
    exact Nat.lt_succ_iff
  have hthree : c.val < 0x10000 ↔ c.val ≤ 0xFFFF := by
    rw [hlt, hle]
    exact Nat.lt_succ_iff
  change _ = ite (c.val ≤ 0x7F) 1 (ite (c.val ≤ 0x7FF) 2 (ite (c.val ≤ 0xFFFF) 3 4))
  simp only [extraBytes, hone, htwo, hthree]
  split_ifs <;> rfl

/-- The bytes that are stored for a code point are its UTF-8 encoding. -/
theorem transcode_eq (c : Char) : (transcode c.val).1 = String.utf8EncodeChar c := by
  have htwelve : c.val >>> 6 >>> 6 = c.val >>> 12 := by
    apply UInt32.toNat_inj.mp
    simp [UInt32.toNat_shiftRight, ← Nat.shiftRight_add]
  have heighteen : c.val >>> 12 >>> 6 = c.val >>> 18 := by
    apply UInt32.toNat_inj.mp
    simp [UInt32.toNat_shiftRight, ← Nat.shiftRight_add]
  have hvalid : c.val.toNat < 0x110000 := c.valid.elim (fun h => by omega) fun h => h.2
  have hsize := extraBytes_eq c
  have hbound : ∀ bound : UInt32, c.val < bound ↔ c.val.toNat < bound.toNat :=
    fun bound => UInt32.lt_iff_toNat_lt
  unfold transcode
  unfold extraBytes at hsize ⊢
  split_ifs at hsize ⊢ with hone htwo hthree
  · exact (String.utf8EncodeChar_eq_singleton hsize.symm).symm
  · rw [String.utf8EncodeChar_eq_cons_cons hsize.symm]
    have hlead : (c.val >>> 6).toNat < 2 ^ 5 := by
      rw [toNat_shiftRight_six]
      have := (hbound _).mp htwo
      change c.val.toNat < 2048 at this
      omega
    simp only [continuation_eq, leadByte_eq 0xC0 5 (by decide) hlead]
    rfl
  · rw [String.utf8EncodeChar_eq_cons_cons_cons hsize.symm]
    have hlead : (c.val >>> 6 >>> 6).toNat < 2 ^ 4 := by
      rw [toNat_shiftRight_six, toNat_shiftRight_six]
      have := (hbound _).mp hthree
      change c.val.toNat < 65536 at this
      omega
    rw [htwelve] at hlead ⊢
    simp only [continuation_eq, leadByte_eq 0xE0 4 (by decide) hlead]
    rfl
  · rw [String.utf8EncodeChar_eq_cons_cons_cons_cons hsize.symm]
    have hlead : (c.val >>> 6 >>> 6 >>> 6).toNat < 2 ^ 3 := by
      rw [toNat_shiftRight_six, toNat_shiftRight_six, toNat_shiftRight_six]
      omega
    rw [htwelve, heighteen] at hlead ⊢
    simp only [continuation_eq, leadByte_eq 0xF0 3 (by decide) hlead]
    rfl

/-- Two surrogates make the value of a character. -/
theorem joinSurrogates_toNat {high low : UInt32} (hhigh : 0xD800 ≤ high ∧ high ≤ 0xDBFF)
    (hlow : 0xDC00 ≤ low ∧ low ≤ 0xDFFF) :
    (joinSurrogates high low).toNat =
      0x10000 + (high.toNat - 0xD800) * 0x400 + (low.toNat - 0xDC00) := by
  have hhigh1 : 55296 ≤ high.toNat := UInt32.le_iff_toNat_le.mp hhigh.1
  have hhigh2 : high.toNat ≤ 56319 := UInt32.le_iff_toNat_le.mp hhigh.2
  have hlow1 : 56320 ≤ low.toNat := UInt32.le_iff_toNat_le.mp hlow.1
  have hlow2 : low.toNat ≤ 57343 := UInt32.le_iff_toNat_le.mp hlow.2
  have hmask : ∀ n : Nat, n &&& 1023 = n % 1024 := fun n => Nat.and_two_pow_sub_one_eq_mod n 10
  have hshift : (high.toNat % 1024) <<< 10 = high.toNat % 1024 * 1024 := Nat.shiftLeft_eq _ _
  have hbits : (high.toNat % 1024) <<< 10 ||| low.toNat % 1024 =
      high.toNat % 1024 * 1024 + low.toNat % 1024 := by
    rw [← Nat.shiftLeft_add_eq_or_of_lt (Nat.mod_lt _ (by decide)) _, hshift]
  have hsum : ((high &&& 0x3FF) <<< 10 ||| (low &&& 0x3FF)).toNat =
      high.toNat % 1024 * 1024 + low.toNat % 1024 := by
    rw [UInt32.toNat_or, UInt32.toNat_shiftLeft, UInt32.toNat_and, UInt32.toNat_and]
    change (high.toNat &&& 1023) <<< 10 % 2 ^ 32 ||| (low.toNat &&& 1023) = _
    rw [hmask, hmask, Nat.mod_eq_of_lt (by rw [hshift]; omega), hbits]
  rw [joinSurrogates, UInt32.toNat_add, hsum]
  change (65536 + _) % 2 ^ 32 = _
  omega

end McuProxy.Json

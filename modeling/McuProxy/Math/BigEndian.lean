/-
# Numbers in network byte order

A number is put together from smaller ones by shifts and bitwise or, and taken
apart by shifts and masks. Each of these expressions is given its value once, as
division and remainder; equations between encodings are then linear arithmetic.
-/

import Mathlib.Data.UInt
import Mathlib.Tactic

namespace McuProxy.Math

/-- A shifted number and a number below the shift do not overlap. -/
theorem shiftLeft_lor_eq {high low k : Nat} (hlow : low < 2 ^ k) :
    high <<< k ||| low = high * 2 ^ k + low := by
  rw [← Nat.shiftLeft_add_eq_or_of_lt hlow, Nat.shiftLeft_eq]

/-- Two bytes as a 16-bit number. -/
theorem toNat_join16 (high low : UInt8) :
    (high.toUInt16 <<< 8 ||| low.toUInt16).toNat = high.toNat * 256 + low.toNat := by
  have hhigh := high.toNat_lt
  have hlow := low.toNat_lt
  have hfit : high.toNat <<< 8 % 65536 = high.toNat <<< 8 := by
    rw [Nat.shiftLeft_eq]
    omega
  simp only [UInt16.toNat_or, UInt16.toNat_shiftLeft, UInt8.toNat_toUInt16]
  exact (congrArg (· ||| low.toNat) hfit).trans (shiftLeft_lor_eq hlow)

/-- Two 16-bit numbers as a 32-bit number. -/
theorem toNat_join32 (high low : UInt16) :
    (high.toUInt32 <<< 16 ||| low.toUInt32).toNat = high.toNat * 65536 + low.toNat := by
  have hhigh := high.toNat_lt
  have hlow := low.toNat_lt
  have hfit : high.toNat <<< 16 % 4294967296 = high.toNat <<< 16 := by
    rw [Nat.shiftLeft_eq]
    omega
  simp only [UInt32.toNat_or, UInt32.toNat_shiftLeft, UInt16.toNat_toUInt32]
  exact (congrArg (· ||| low.toNat) hfit).trans (shiftLeft_lor_eq hlow)

/-- Two 32-bit numbers as a 64-bit number. -/
theorem toNat_join64 (high low : UInt32) :
    (high.toUInt64 <<< 32 ||| low.toUInt64).toNat = high.toNat * 4294967296 + low.toNat := by
  have hhigh := high.toNat_lt
  have hlow := low.toNat_lt
  have hfit : high.toNat <<< 32 % 18446744073709551616 = high.toNat <<< 32 := by
    rw [Nat.shiftLeft_eq]
    omega
  simp only [UInt64.toNat_or, UInt64.toNat_shiftLeft, UInt32.toNat_toUInt64]
  exact (congrArg (· ||| low.toNat) hfit).trans (shiftLeft_lor_eq hlow)

/-- A mask of the low byte. -/
theorem land_lowByte (n : Nat) : n &&& 255 = n % 256 := Nat.and_two_pow_sub_one_eq_mod n 8

/-- The four bytes of a word, the most significant first. -/
def wordBytes (word : UInt32) : List UInt8 :=
  [(word >>> 24).toUInt8, ((word >>> 16) &&& 0xff).toUInt8, ((word >>> 8) &&& 0xff).toUInt8,
    (word &&& 0xff).toUInt8]

/-- The bytes of a word are the digits of its value. -/
theorem wordBytes_toNat (word : UInt32) :
    (wordBytes word).map UInt8.toNat =
      [word.toNat / 16777216, word.toNat / 65536 % 256, word.toNat / 256 % 256,
        word.toNat % 256] := by
  have hword := word.toNat_lt
  have htop : word.toNat / 16777216 % 256 = word.toNat / 16777216 := by omega
  simp [wordBytes, land_lowByte, Nat.shiftRight_eq_div_pow, htop]

/-- The bytes of a word, joined again, are the word. -/
theorem join_wordBytes {word : UInt32} {b₀ b₁ b₂ b₃ : UInt8}
    (hbytes : wordBytes word = [b₀, b₁, b₂, b₃]) :
    (b₀.toUInt16 <<< 8 ||| b₁.toUInt16).toUInt32 <<< 16 |||
      (b₂.toUInt16 <<< 8 ||| b₃.toUInt16).toUInt32 = word := by
  have hword := word.toNat_lt
  have hdigits := wordBytes_toNat word
  rw [hbytes] at hdigits
  simp only [List.map_cons, List.map_nil, List.cons.injEq, and_true] at hdigits
  obtain ⟨h₀, h₁, h₂, h₃⟩ := hdigits
  apply UInt32.toNat_inj.mp
  rw [toNat_join32, toNat_join16, toNat_join16, h₀, h₁, h₂, h₃]
  omega

end McuProxy.Math

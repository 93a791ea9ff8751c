/-
# Byte memory with 32-bit words

Memory is a function from addresses to bytes. A word is stored in four bytes, the least
significant first, and a value of 64 bits in two words. Proofs about programs on this
memory only need what a load returns after a store and which bytes a store leaves alone.
-/

import Mathlib.Data.List.Pairwise
import Mathlib.Data.UInt
import Mathlib.Tactic

namespace McuProxy.Memory

/-- A memory of bytes. -/
abbrev Mem := Nat → UInt8

/-- `2 ^ 32`, the size of the address space and the modulus of word arithmetic. -/
def wordModulus : Nat := 4294967296

/-- The word at an address. -/
def load32 (mem : Mem) (addr : Nat) : Nat :=
  (mem addr).toNat + (mem (addr + 1)).toNat * 256 + (mem (addr + 2)).toNat * 65536 +
    (mem (addr + 3)).toNat * 16777216

/-- Write a word at an address. -/
def store32 (mem : Mem) (addr value : Nat) : Mem := fun other =>
  if other = addr then UInt8.ofNat value
  else if other = addr + 1 then UInt8.ofNat (value / 256)
  else if other = addr + 2 then UInt8.ofNat (value / 65536)
  else if other = addr + 3 then UInt8.ofNat (value / 16777216)
  else mem other

/-- The value of eight bytes at an address. -/
def load64 (mem : Mem) (addr : Nat) : Nat :=
  load32 mem addr + load32 mem (addr + 4) * wordModulus

/-- Write eight bytes. -/
def store64 (mem : Mem) (addr value : Nat) : Mem :=
  store32 (store32 mem addr (value % wordModulus)) (addr + 4) (value / wordModulus)

/-- Write a byte. -/
def store8 (mem : Mem) (addr : Nat) (byte : UInt8) : Mem := fun other =>
  if other = addr then byte else mem other

/-- Difference of words. -/
def subWord (first second : Nat) : Nat := (first + wordModulus - second) % wordModulus

/-- Sum of an address and a number of bytes. -/
def addrPlus (addr n : Nat) : Nat := (addr + n) % wordModulus

/-- Write consecutive bytes. -/
def writeBytes (mem : Mem) (addr : Nat) : List UInt8 → Mem
  | [] => mem
  | byte :: bytes => writeBytes (store8 mem addr byte) (addr + 1) bytes

/-- Two memories agree on the bytes from `low` up to `high`. -/
def SameOn (mem mem' : Mem) (low high : Nat) : Prop :=
  ∀ addr, low ≤ addr → addr < high → mem' addr = mem addr

instance (mem mem' : Mem) (low high : Nat) : Decidable (SameOn mem mem' low high) :=
  inferInstanceAs (Decidable (∀ addr, low ≤ addr → addr < high → mem' addr = mem addr))

/-- Ranges of `n` bytes at `first` and `k` bytes at `second` do not overlap. -/
def Apart (first n second k : Nat) : Prop := first + n ≤ second ∨ second + k ≤ first

instance (first n second k : Nat) : Decidable (Apart first n second k) :=
  inferInstanceAs (Decidable (first + n ≤ second ∨ second + k ≤ first))

theorem subWord_eq {first second : Nat} (hle : second ≤ first) (hfirst : first < wordModulus) :
    subWord first second = first - second := by
  simp only [subWord, wordModulus] at *
  omega

/-- Clearing the low bits of a word rounds it down. -/
theorem land_mask_eq {value : Nat} (hvalue : value < wordModulus) {k : Nat} (hk : k ≤ 32) :
    value &&& (2 ^ 32 - 2 ^ k) = value / 2 ^ k * 2 ^ k := by
  have hmask : 2 ^ 32 - 2 ^ k = (2 ^ (32 - k) - 1) <<< k := by
    rw [Nat.shiftLeft_eq, Nat.sub_mul, one_mul, ← pow_add, Nat.sub_add_cancel hk]
  rw [hmask, ← Nat.shiftRight_eq_div_pow, ← Nat.shiftLeft_eq]
  apply Nat.eq_of_testBit_eq
  intro i
  simp only [Nat.testBit_and, Nat.testBit_shiftLeft, Nat.testBit_shiftRight,
    Nat.testBit_two_pow_sub_one]
  by_cases hlow : k ≤ i
  · have hindex : k + (i - k) = i := by omega
    by_cases hhigh : i < 32
    · have hlt : i - k < 32 - k := by omega
      simp [hlow, hindex, hlt]
    · have hbit : value.testBit i = false := by
        apply Nat.testBit_lt_two_pow
        have hpow : 2 ^ 32 ≤ 2 ^ i := Nat.pow_le_pow_right (by norm_num) (not_lt.mp hhigh)
        exact hvalue.trans_le hpow
      simp [hindex, hbit]
  · simp [hlow]

instance (n : Nat) : Std.Symm fun first second => Apart first n second n where
  symm _ _ h := h.symm

theorem load32_lt (mem : Mem) (addr : Nat) : load32 mem addr < wordModulus := by
  have h0 := (mem addr).toNat_lt
  have h1 := (mem (addr + 1)).toNat_lt
  have h2 := (mem (addr + 2)).toNat_lt
  have h3 := (mem (addr + 3)).toNat_lt
  simp only [load32, wordModulus]
  omega

/-- A load sees four bytes. -/
theorem load32_congr {mem mem' : Mem} {addr : Nat} (hsame : SameOn mem mem' addr (addr + 4)) :
    load32 mem' addr = load32 mem addr := by
  simp only [load32, hsame addr (by omega) (by omega), hsame (addr + 1) (by omega) (by omega),
    hsame (addr + 2) (by omega) (by omega), hsame (addr + 3) (by omega) (by omega)]

theorem load32_store32_same (mem : Mem) (addr value : Nat) :
    load32 (store32 mem addr value) addr = value % wordModulus := by
  simp only [load32, store32, wordModulus]
  simp
  omega

/-- A store changes four bytes. -/
theorem store32_apply {mem : Mem} {addr value other : Nat}
    (hother : other < addr ∨ addr + 4 ≤ other) :
    store32 mem addr value other = mem other := by
  simp only [store32]
  rw [if_neg (by omega), if_neg (by omega), if_neg (by omega), if_neg (by omega)]

theorem store32_sameOn {mem : Mem} {addr value low n : Nat} (hapart : Apart addr 4 low n) :
    SameOn mem (store32 mem addr value) low (low + n) := by
  intro other hlow hhigh
  apply store32_apply
  rcases hapart with h | h <;> omega

theorem load32_store32_of_apart {mem : Mem} {addr value other : Nat}
    (hapart : Apart addr 4 other 4) : load32 (store32 mem addr value) other = load32 mem other :=
  load32_congr (store32_sameOn hapart)

/-- Stores to words that do not overlap can be exchanged. -/
theorem store32_comm (mem : Mem) {first second : Nat} (value other : Nat)
    (hapart : Apart first 4 second 4) :
    store32 (store32 mem first value) second other =
      store32 (store32 mem second other) first value := by
  funext addr
  simp only [store32]
  unfold Apart at hapart
  split_ifs <;> first | rfl | omega

theorem store64_apply {mem : Mem} {addr value other : Nat}
    (hother : other < addr ∨ addr + 8 ≤ other) :
    store64 mem addr value other = mem other := by
  rw [store64, store32_apply (by omega), store32_apply (by omega)]

theorem load64_store64_same (mem : Mem) (addr : Nat) {value : Nat} (hvalue : value < 2 ^ 64) :
    load64 (store64 mem addr value) addr = value := by
  have hhigh : value / wordModulus < wordModulus := by
    simp only [wordModulus]
    omega
  rw [load64, store64, load32_store32_of_apart (Or.inr le_rfl), load32_store32_same,
    load32_store32_same, Nat.mod_mod, Nat.mod_eq_of_lt hhigh]
  exact Nat.mod_add_div' value wordModulus

theorem SameOn.refl (mem : Mem) (low high : Nat) : SameOn mem mem low high := fun _ _ _ => rfl

theorem SameOn.trans {first second third : Mem} {low high : Nat}
    (hfirst : SameOn first second low high) (hsecond : SameOn second third low high) :
    SameOn first third low high := fun addr hlow hhigh =>
  (hsecond addr hlow hhigh).trans (hfirst addr hlow hhigh)

theorem SameOn.mono {mem mem' : Mem} {low high low' high' : Nat} (hsame : SameOn mem mem' low high)
    (hlow : low ≤ low') (hhigh : high' ≤ high) : SameOn mem mem' low' high' :=
  fun addr hlow' hhigh' => hsame addr (hlow.trans hlow') (hhigh'.trans_le hhigh)

theorem writeBytes_apply {mem : Mem} {addr other : Nat} {bytes : List UInt8}
    (hother : other < addr ∨ addr + bytes.length ≤ other) :
    writeBytes mem addr bytes other = mem other := by
  induction bytes generalizing mem addr with
  | nil => rfl
  | cons byte bytes ih =>
      simp only [List.length_cons] at hother
      rw [writeBytes, ih (by omega), store8, if_neg (by omega)]

end McuProxy.Memory

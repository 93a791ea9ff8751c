/-
# Strings in memory

A string occupies its characters and the null character behind them. `strcpy`
puts one there, and `strcmp` reads no further than the string it is compared
with: a difference, or the end of that string, stops it.
-/

import McuProxy.Math.CString
import McuProxy.Memory.Word

namespace McuProxy.Memory

open McuProxy.Math

/-- The characters from an address on, with the null character behind them. -/
def Spells (mem : Mem) : Nat → List UInt8 → Prop
  | addr, [] => mem addr = 0
  | addr, c :: bytes => mem addr = c ∧ Spells mem (addr + 1) bytes

/-- `strcpy`. -/
def strcpy (mem : Mem) (addr : Nat) (string : CString) : Mem :=
  writeBytes mem addr (string.1 ++ [0])

/-- `0 == strcmp(addr, string)`, where only the addresses below `limit` can be
read. -/
def strcmpEq (mem : Mem) (limit : Nat) : Nat → List UInt8 → Option Bool
  | addr, [] => if addr < limit then some (mem addr = 0) else none
  | addr, c :: bytes =>
      if addr < limit then
        if mem addr = c then strcmpEq mem limit (addr + 1) bytes else some false
      else none

theorem Spells.congr {mem mem' : Mem} {addr : Nat} {bytes : List UInt8}
    (hspells : Spells mem addr bytes) (hsame : SameOn mem mem' addr (addr + bytes.length + 1)) :
    Spells mem' addr bytes := by
  induction bytes generalizing addr with
  | nil => exact (hsame addr (Nat.le_refl _) (by simp)).trans hspells
  | cons c bytes ih =>
      refine ⟨(hsame addr (Nat.le_refl _) (by simp)).trans hspells.1, ih hspells.2 ?_⟩
      intro other hlow hhigh
      exact hsame other (by omega) (by simp only [List.length_cons]; omega)

/-- Two strings at one address are the same string. -/
theorem Spells.unique {mem : Mem} {addr : Nat} {first second : List UInt8}
    (hfirst : Spells mem addr first) (hsecond : Spells mem addr second) (hzero : 0 ∉ first)
    (hzero' : 0 ∉ second) : first = second := by
  induction first generalizing addr second with
  | nil =>
      cases second with
      | nil => rfl
      | cons c second =>
          have hc : c = 0 := hsecond.1.symm.trans hfirst
          exact absurd (hc ▸ List.mem_cons_self) hzero'
  | cons c first ih =>
      cases second with
      | nil =>
          have hc : c = 0 := hfirst.1.symm.trans hsecond
          exact absurd (hc ▸ List.mem_cons_self) hzero
      | cons d second =>
          obtain rfl : c = d := hfirst.1.symm.trans hsecond.1
          rw [ih hfirst.2 hsecond.2 (fun hmem => hzero (List.mem_cons_of_mem _ hmem))
            fun hmem => hzero' (List.mem_cons_of_mem _ hmem)]

theorem writeBytes_spells (mem : Mem) (addr : Nat) (bytes : List UInt8) :
    Spells (writeBytes mem addr (bytes ++ [0])) addr bytes := by
  induction bytes generalizing mem addr with
  | nil => simp [Spells, writeBytes, store8]
  | cons c bytes ih =>
      refine ⟨?_, ih _ _⟩
      rw [List.cons_append, writeBytes, writeBytes_apply (.inl (Nat.lt_succ_self addr)), store8,
        if_pos rfl]

theorem strcpy_spells (mem : Mem) (addr : Nat) (string : CString) :
    Spells (strcpy mem addr string) addr string.1 :=
  writeBytes_spells mem addr string.1

/-- Comparing a string in memory with a string: both end, and the comparison
finds out whether they are one. -/
theorem strcmpEq_spells {mem : Mem} {limit addr : Nat} {stored bytes : List UInt8}
    (hspells : Spells mem addr stored) (hlimit : addr + stored.length < limit)
    (hstored : 0 ∉ stored) (hbytes : 0 ∉ bytes) :
    strcmpEq mem limit addr bytes = some (decide (stored = bytes)) := by
  induction stored generalizing addr bytes with
  | nil =>
      have haddr : addr < limit := by simpa using hlimit
      have hend : mem addr = 0 := hspells
      cases bytes with
      | nil => simp [strcmpEq, haddr, hend]
      | cons c bytes =>
          have hc : ¬ 0 = c := fun hc => hbytes (hc ▸ List.mem_cons_self)
          simp [strcmpEq, haddr, hend, hc]
  | cons d stored ih =>
      simp only [List.length_cons] at hlimit
      have haddr : addr < limit := by omega
      cases bytes with
      | nil =>
          have hd : ¬ d = 0 := fun hd => hstored (hd ▸ List.mem_cons_self)
          simp [strcmpEq, haddr, hspells.1, hd]
      | cons c bytes =>
          have hrest := ih hspells.2 (by omega)
            (fun hmem => hstored (List.mem_cons_of_mem _ hmem))
            fun hmem : 0 ∈ bytes => hbytes (List.mem_cons_of_mem _ hmem)
          by_cases hc : d = c
          · simp [strcmpEq, haddr, hspells.1, hc, hrest]
          · simp [strcmpEq, haddr, hspells.1, hc]

end McuProxy.Memory

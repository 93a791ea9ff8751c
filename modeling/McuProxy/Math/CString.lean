/-
# Strings of C

A string that ends with a null character has no null character before it, and
`strcmp` finds two of them equal exactly when they have the same characters.

The hash of both token tables multiplies by 33 and adds a character, for a
limited number of characters. Whether `char` is signed is left to the compiler,
so the value that a character contributes is a parameter.
-/

import Mathlib.Data.UInt

namespace McuProxy.Math

/-- The characters of a string before the one that ends it. -/
def CString : Type := { bytes : List UInt8 // 0 ∉ bytes }

namespace CString

instance : DecidableEq CString := inferInstanceAs (DecidableEq { bytes : List UInt8 // 0 ∉ bytes })

/-- `strlen`. -/
def strlen (string : CString) : Nat := string.1.length

end CString

/-- `while ((c = *(str++)) && count--) hash = ((hash << 5) + hash) + c;`. -/
def djb2 (charValue : UInt8 → UInt32) : List UInt8 → Nat → UInt32 → UInt32
  | [], _, hash => hash
  | _ :: _, 0, hash => hash
  | c :: str, count + 1, hash => djb2 charValue str count (((hash <<< 5) + hash) + charValue c)

end McuProxy.Math

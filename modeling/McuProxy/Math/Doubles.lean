/-
# Floating-point numbers as a parameter

A program that computes with `double` is modelled over any type with the operations
it uses. What it relies on is said of these operations: that they are exact on whole
numbers small enough, and how long the texts are that `sprintf` makes of a number.
-/

import Mathlib.Algebra.Order.Field.Rat
import Mathlib.Algebra.Order.Floor.Defs
import Mathlib.Data.Int.Log
import Mathlib.Data.Rat.Floor

namespace McuProxy.Math

/-- The operations on `double`. `ofScientific m e` is the literal `m * 10 ^ e`, and the
last three are the texts of `%.0f`, `%e` and `%f`. -/
class Doubles (D : Type) where
  ofInt : Int → D
  ofScientific : Int → Int → D
  add : D → D → D
  sub : D → D → D
  mul : D → D → D
  pow : D → D → D
  abs : D → D
  floor : D → D
  le : D → D → Bool
  lt : D → D → Bool
  toInt32 : D → Int32
  wholeText : D → List UInt8
  exponentText : D → List UInt8
  fixedText : D → List UInt8

namespace Doubles

/-- `DBL_EPSILON`. -/
def epsilon {D : Type} [Doubles D] : D := ofScientific 2220446049250313080847 (-37)

/-- The whole numbers that a `double` keeps, each of them and all below it. -/
def Whole (n : Int) : Prop := n.natAbs ≤ 2 ^ 53

instance (n : Int) : Decidable (Whole n) := inferInstanceAs (Decidable (n.natAbs ≤ 2 ^ 53))

/-- Arithmetic is exact where the operands and the result are whole numbers that are kept.
A product that is zero may still carry a sign, unless no factor does. -/
class Exact (D : Type) [Doubles D] : Prop where
  add_ofInt : ∀ a b : Int, Whole a → Whole b → Whole (a + b) →
    add (ofInt a) (ofInt b) = (ofInt (a + b) : D)
  sub_ofInt : ∀ a b : Int, Whole a → Whole b → Whole (a - b) →
    sub (ofInt a) (ofInt b) = (ofInt (a - b) : D)
  mul_ofInt : ∀ a b : Int, 0 ≤ a ∧ 0 ≤ b ∨ a * b ≠ 0 → Whole a → Whole b → Whole (a * b) →
    mul (ofInt a) (ofInt b) = (ofInt (a * b) : D)
  pow_zero : pow (ofInt 10) (ofInt 0) = (ofInt 1 : D)
  sub_self_le : ∀ i : Int32, le (abs (sub (ofInt i.toInt) (ofInt i.toInt))) (epsilon : D) = true
  ofInt_le : ∀ a b : Int, a ≤ b → le (ofInt a) (ofInt b : D) = true

/-- How long the texts of a number are, within the bounds that are tested before. -/
class Short (D : Type) [Doubles D] : Prop where
  wholeText_le : ∀ d : D, lt (abs d) (ofScientific 1 60) = true → (wholeText d).length ≤ 63
  exponentText_le : ∀ d : D, (exponentText d).length ≤ 63
  fixedText_le : ∀ d : D, lt (ofScientific 1 9) (abs d) = false → (fixedText d).length ≤ 63

/-- The decimal digits of a number. -/
def decimalText (n : Int) : List UInt8 := (toString n).toList.map fun c => c.toNat.toUInt8

/-- Six decimal digits. -/
def sixDigits (n : Nat) : List UInt8 :=
  [100000, 10000, 1000, 100, 10, 1].map fun unit => (48 + n / unit % 10).toUInt8

/-- A number of millionths, behind its sign. -/
def millionths (negative : Bool) (n : Nat) : List UInt8 :=
  (if negative then [45] else []) ++ (decimalText (n / 1000000) ++ 46 :: sixDigits n)

/-- The exponent of a number that is written with one digit in front of the point. -/
def exponentPart (e : Int) : List UInt8 :=
  101 :: (if e < 0 then 45 else 43) :: (if e.natAbs < 10 then [48] else []) ++ decimalText e.natAbs

/-- The rationals, which never round. No text of a `double` within its bounds is longer
than 63 characters. -/
instance : Doubles ℚ where
  ofInt n := n
  ofScientific m e := m * 10 ^ e
  add x y := x + y
  sub x y := x - y
  mul x y := x * y
  pow x y := x ^ ⌊y⌋
  abs x := |x|
  floor x := ⌊x⌋
  le x y := x ≤ y
  lt x y := x < y
  toInt32 x := Int32.ofInt (x.num.tdiv x.den)
  wholeText x := (decimalText ⌊x + 1 / 2⌋).take 63
  exponentText x :=
    let e := if x = 0 then 0 else Int.log 10 |x|
    (millionths (x < 0) ⌊|x| * 10 ^ (6 - e) + 1 / 2⌋₊ ++ exponentPart e).take 63
  fixedText x := (millionths (x < 0) ⌊|x| * 1000000 + 1 / 2⌋₊).take 63

instance : Exact ℚ where
  add_ofInt a b _ _ _ := (Int.cast_add a b).symm
  sub_ofInt a b _ _ _ := (Int.cast_sub a b).symm
  mul_ofInt a b _ _ _ _ := (Int.cast_mul a b).symm
  pow_zero := by
    change (10 : ℚ) ^ ⌊((0 : Int) : ℚ)⌋ = ((1 : Int) : ℚ)
    rw [Int.floor_intCast, zpow_zero, Int.cast_one]
  sub_self_le i := by
    change decide (|(i.toInt : ℚ) - i.toInt| ≤
      ((2220446049250313080847 : Int) : ℚ) * 10 ^ (-37 : Int)) = true
    rw [sub_self, abs_zero, decide_eq_true_iff]
    positivity
  ofInt_le a b hle := decide_eq_true (Int.cast_le.mpr hle)

instance : Short ℚ where
  wholeText_le _ _ := List.length_take_le _ _
  exponentText_le _ := List.length_take_le _ _
  fixedText_le _ _ := List.length_take_le _ _

end Doubles

end McuProxy.Math

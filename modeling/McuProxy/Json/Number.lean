/-
# Numbers of a JSON text

A number ends where its characters do, so what follows a number must not continue it;
in a JSON text it is white space, a comma, a bracket or nothing.

What the parser computes is compared with what the numeral denotes. As long as the
digits together, the point left out, and the exponent are small enough, only the last
two steps round: the power of ten, and the product with it.
-/

import Mathlib.Data.List.TakeWhile
import McuProxy.Json.Grammar

namespace McuProxy.Json

open McuProxy.Math

/-- A text that does not go on with digits. -/
def EndsDigits (rest : Text) : Prop := ∀ c ∈ rest.head?, isDigit c = false

/-- A text that does not go on with a number. -/
def EndsNumber (rest : Text) : Prop :=
  ∀ c ∈ rest.head?, isDigit c = false ∧ c ≠ ch '.' ∧ c ≠ ch 'e' ∧ c ≠ ch 'E'

theorem takeWhile_digits {digits : List UInt8} (hdigits : ∀ c ∈ digits, isDigit c = true)
    {rest : Text} (hrest : EndsDigits rest) : (digits ++ rest).takeWhile isDigit = digits := by
  rw [List.takeWhile_append_of_pos hdigits]
  cases rest with
  | nil => exact List.append_nil digits
  | cons c rest => rw [List.takeWhile_cons_of_neg (by simp [hrest c rfl]), List.append_nil]

theorem dropWhile_digits {digits : List UInt8} (hdigits : ∀ c ∈ digits, isDigit c = true)
    {rest : Text} (hrest : EndsDigits rest) : (digits ++ rest).dropWhile isDigit = rest := by
  rw [List.dropWhile_append_of_pos hdigits]
  cases rest with
  | nil => rfl
  | cons c rest => exact List.dropWhile_cons_of_neg (by simp [hrest c rfl])

theorem isDigit_iff (c : UInt8) : isDigit c = true ↔ 48 ≤ c.toNat ∧ c.toNat ≤ 57 := by
  rw [isDigit, Bool.and_eq_true, decide_eq_true_iff, decide_eq_true_iff]
  exact Iff.and UInt8.le_iff_toNat_le UInt8.le_iff_toNat_le

/-- A digit is not this mark. -/
theorem ne_of_digit {c mark : UInt8} (hc : isDigit c = true) (hmark : isDigit mark = false) :
    c ≠ mark := by
  rintro rfl
  exact Bool.false_ne_true (hmark.symm.trans hc)

theorem firstDigit_of_ne {c : UInt8} (hc : isDigit c = true) (hzero : c ≠ ch '0') :
    (decide (ch '1' ≤ c) && decide (c ≤ ch '9')) = true := by
  obtain ⟨hlow, hhigh⟩ := (isDigit_iff c).mp hc
  have hne : c.toNat ≠ 48 := fun heq => hzero (UInt8.toNat_inj.mp heq)
  rw [Bool.and_eq_true, decide_eq_true_iff, decide_eq_true_iff, UInt8.le_iff_toNat_le,
    UInt8.le_iff_toNat_le]
  change 49 ≤ c.toNat ∧ c.toNat ≤ 57
  omega

theorem not_firstDigit {rest : Text} (hrest : EndsDigits rest) :
    (rest.head?.any fun c => decide (ch '1' ≤ c) && decide (c ≤ ch '9')) = false := by
  cases rest with
  | nil => rfl
  | cons c rest =>
      rw [Bool.eq_false_iff]
      intro hfirst
      have hfirst : (decide (ch '1' ≤ c) && decide (c ≤ ch '9')) = true := hfirst
      rw [Bool.and_eq_true, decide_eq_true_iff, decide_eq_true_iff] at hfirst
      have hdigit : isDigit c = true := by
        rw [isDigit, Bool.and_eq_true, decide_eq_true_iff, decide_eq_true_iff]
        exact ⟨UInt8.le_trans (by decide) hfirst.1, hfirst.2⟩
      exact Bool.false_ne_true ((hrest c rfl).symm.trans hdigit)

/-- The exponent that the parser computes. -/
def Exponent.subscale (exponent : Exponent) : Int32 :=
  exponent.digits.foldl pushExponent 0 * if exponent.sign = some (ch '-') then -1 else 1

/-- The part in front of the point begins with a digit. -/
theorem Numeral.whole_begins (numeral : Numeral) :
    ∃ c rest, (if numeral.whole = [] then [ch '0'] else numeral.whole) = c :: rest ∧
      isDigit c = true := by
  by_cases hempty : numeral.whole = []
  · rw [if_pos hempty]
    exact ⟨_, _, rfl, by decide⟩
  · obtain ⟨c, digits, hwhole⟩ := List.exists_cons_of_ne_nil hempty
    rw [if_neg hempty, hwhole]
    exact ⟨_, _, rfl, numeral.isWhole c (hwhole ▸ List.mem_cons_self)⟩

/-- What follows the digits behind the point is neither a digit nor another point. -/
theorem Numeral.exponent_begins (numeral : Numeral) {rest : Text} (hrest : EndsNumber rest) :
    ∀ c ∈ (numeral.exponent.elim [] Exponent.text ++ rest).head?,
      isDigit c = false ∧ c ≠ ch '.' := by
  intro c hc
  cases hsome : numeral.exponent with
  | none =>
      rw [hsome] at hc
      exact ⟨(hrest c hc).1, (hrest c hc).2.1⟩
  | some exponent =>
      rw [hsome] at hc
      obtain rfl : exponent.mark = c := Option.some.inj hc
      rcases exponent.isMark with hmark | hmark <;> rw [hmark] <;> decide

section Double

variable {D : Type} [Doubles D]

/-- The number that the parser computes. -/
def Numeral.double (numeral : Numeral) : D :=
  scaled (Doubles.ofInt numeral.sign)
    ((numeral.whole ++ numeral.fraction).foldl pushDigit (Doubles.ofInt 0))
    (numeral.fraction.foldl (fun scale _ => Doubles.sub scale (Doubles.ofInt 1)) (Doubles.ofInt 0))
    (numeral.exponent.elim 0 Exponent.subscale)

theorem readWhole_eq (numeral : Numeral) {rest : Text} (hrest : EndsDigits rest) :
    readWhole (D := D) ((if numeral.whole = [] then [ch '0'] else numeral.whole) ++ rest) =
      (numeral.whole.foldl pushDigit (Doubles.ofInt 0), rest) := by
  obtain ⟨-, whole, -, -, hwhole, hleading, -⟩ := numeral
  cases whole with
  | nil =>
      change (if (rest.head?.any _) = true then _ else _) = _
      rw [if_neg (by rw [not_firstDigit hrest]; exact Bool.false_ne_true)]
      rfl
  | cons c digits =>
      have hc := hwhole c List.mem_cons_self
      have hzero : c ≠ ch '0' := hleading c rfl
      rw [readWhole, if_neg (List.cons_ne_nil c digits)]
      simp only [List.cons_append, List.head?_cons, Option.some.injEq, hzero, if_false,
        Option.any_some, firstDigit_of_ne hc hzero, if_true]
      rw [← List.cons_append, takeWhile_digits hwhole hrest, dropWhile_digits hwhole hrest]

theorem readFraction_eq (numeral : Numeral) (n : D) {rest : Text} (hrest : EndsDigits rest)
    (hpoint : ∀ c ∈ rest.head?, c ≠ ch '.') :
    readFraction n ((if numeral.fraction = [] then [] else ch '.' :: numeral.fraction) ++ rest) =
      (numeral.fraction.foldl pushDigit n,
        numeral.fraction.foldl (fun scale _ => Doubles.sub scale (Doubles.ofInt 1))
          (Doubles.ofInt 0), rest) := by
  obtain ⟨-, -, fraction, -, -, -, hfraction⟩ := numeral
  cases fraction with
  | nil =>
      change readFraction n rest = _
      rw [readFraction, if_neg]
      · rfl
      · rintro ⟨hhead, -⟩
        exact hpoint _ hhead rfl
  | cons c digits =>
      have hc := hfraction c List.mem_cons_self
      simp only [if_neg (List.cons_ne_nil c digits)]
      rw [List.cons_append, readFraction, if_pos ⟨rfl, by exact hc⟩, List.tail_cons,
        takeWhile_digits hfraction hrest, dropWhile_digits hfraction hrest]

theorem readExponent_eq (exponent : Option Exponent) {rest : Text} (hrest : EndsNumber rest) :
    readExponent (exponent.elim [] Exponent.text ++ rest) =
      (exponent.elim 0 Exponent.subscale, rest) := by
  have hdigits : EndsDigits rest := fun c hc => (hrest c hc).1
  cases exponent with
  | none =>
      change readExponent rest = (0, rest)
      rw [readExponent, if_neg]
      rintro (hmark | hmark)
      · exact (hrest _ hmark).2.2.1 rfl
      · exact (hrest _ hmark).2.2.2 rfl
  | some exponent =>
      obtain ⟨mark, sign, digits, hmark, hsign, hexponent, hsome⟩ := exponent
      have hhead : some mark = some (ch 'e') ∨ some mark = some (ch 'E') :=
        hmark.imp (congrArg some) (congrArg some)
      change readExponent (mark :: (sign.toList ++ digits) ++ rest) = _
      rw [List.cons_append, readExponent, List.head?_cons, if_pos hhead, List.tail_cons]
      cases sign with
      | none =>
          obtain ⟨c, digits, rfl⟩ := List.exists_cons_of_ne_nil hsome
          have hc := hexponent c List.mem_cons_self
          have hplus : c ≠ ch '+' := ne_of_digit hc (by decide)
          have hminus : c ≠ ch '-' := ne_of_digit hc (by decide)
          simp only [Option.toList_none, List.nil_append, List.cons_append, List.head?_cons,
            Option.some.injEq, hplus, hminus, false_or, if_false]
          rw [← List.cons_append, takeWhile_digits hexponent hdigits,
            dropWhile_digits hexponent hdigits]
          rfl
      | some sign =>
          rcases hsign sign rfl with rfl | rfl
          · change (List.foldl pushExponent 0 ((digits ++ rest).takeWhile isDigit) * 1,
              (digits ++ rest).dropWhile isDigit) = _
            rw [takeWhile_digits hexponent hdigits, dropWhile_digits hexponent hdigits]
            rfl
          · change (List.foldl pushExponent 0 ((digits ++ rest).takeWhile isDigit) * (-1),
              (digits ++ rest).dropWhile isDigit) = _
            rw [takeWhile_digits hexponent hdigits, dropWhile_digits hexponent hdigits]
            rfl

/-- The sign in front of a number. -/
theorem parseNumber_signed (fields : Fields D) {negative : Bool} {text : Text}
    (htext : ∀ c ∈ text.head?, c ≠ ch '-') :
    parseNumber fields ((if negative then [ch '-'] else []) ++ text) =
      let (n, num) := readWhole text
      let (n, scale, num) := readFraction n num
      let (subscale, num) := readExponent num
      let n := scaled (Doubles.ofInt (if negative then -1 else 1)) n scale subscale
      ({ fields with valuedouble := n, valueint := Doubles.toInt32 n, type := typeNumber },
        num) := by
  cases negative with
  | false =>
      have hhead : text.head? ≠ some (ch '-') := fun hhead => htext _ hhead rfl
      simp only [Bool.false_eq_true, if_false, List.nil_append, parseNumber, hhead]
  | true => rfl

theorem parseNumber_eq (numeral : Numeral) (fields : Fields D) {rest : Text}
    (hrest : EndsNumber rest) :
    parseNumber fields (numeral.text ++ rest) =
      ({ fields with
          valuedouble := numeral.double
          valueint := Doubles.toInt32 (numeral.double : D)
          type := typeNumber }, rest) := by
  have hexponent := numeral.exponent_begins hrest
  have hfraction : EndsDigits ((if numeral.fraction = [] then [] else
      ch '.' :: numeral.fraction) ++ (numeral.exponent.elim [] Exponent.text ++ rest)) := by
    split_ifs
    · exact fun c hc => (hexponent c hc).1
    · rintro c hc
      obtain rfl : ch '.' = c := Option.some.inj hc
      decide
  have hwhole : ∀ c ∈ ((if numeral.whole = [] then [ch '0'] else numeral.whole) ++
      ((if numeral.fraction = [] then [] else ch '.' :: numeral.fraction) ++
        (numeral.exponent.elim [] Exponent.text ++ rest))).head?, c ≠ ch '-' := by
    obtain ⟨first, digits, hwhole, hdigit⟩ := numeral.whole_begins
    rw [hwhole]
    rintro c hc
    obtain rfl : first = c := Option.some.inj hc
    exact ne_of_digit hdigit (by decide)
  have hpoint : ∀ c ∈ (numeral.exponent.elim [] Exponent.text ++ rest).head?, c ≠ ch '.' :=
    fun c hc => (hexponent c hc).2
  have hunsigned : numeral.text ++ rest = (if numeral.negative then [ch '-'] else []) ++
      ((if numeral.whole = [] then [ch '0'] else numeral.whole) ++
        ((if numeral.fraction = [] then [] else ch '.' :: numeral.fraction) ++
          (numeral.exponent.elim [] Exponent.text ++ rest))) := by
    simp only [Numeral.text, List.append_assoc]
  rw [hunsigned, parseNumber_signed fields hwhole, readWhole_eq numeral hfraction]
  simp only [readFraction_eq numeral _ (fun c hc => (hexponent c hc).1) hpoint,
    readExponent_eq numeral.exponent hrest, Numeral.double, Numeral.sign, List.foldl_append]

end Double

theorem Numeral.begins (numeral : Numeral) :
    ∃ c rest, numeral.text = c :: rest ∧ (c = ch '-' ∨ isDigit c = true) := by
  unfold Numeral.text
  cases numeral.negative with
  | true => exact ⟨_, _, rfl, .inl rfl⟩
  | false =>
      obtain ⟨c, digits, hwhole, hdigit⟩ := numeral.whole_begins
      rw [hwhole]
      exact ⟨_, _, rfl, .inr hdigit⟩

theorem digitsValue_cons (c : UInt8) (digits : List UInt8) :
    digitsValue (c :: digits) = (c.toNat - 48) * 10 ^ digits.length + digitsValue digits := by
  rw [digitsValue, List.map_reverse, List.map_cons, Nat.ofDigits_reverse_cons, List.length_map,
    ← List.map_reverse, ← digitsValue, mul_comm, add_comm]

/-- Every digit makes the exponent ten times as large, modulo `2 ^ 32`. -/
theorem foldl_pushExponent {digits : List UInt8} (hdigits : ∀ c ∈ digits, isDigit c = true)
    (n : Nat) : digits.foldl pushExponent (Int32.ofInt n) =
      Int32.ofInt (n * 10 ^ digits.length + digitsValue digits : Nat) := by
  induction digits generalizing n with
  | nil => simp [digitsValue]
  | cons c digits ih =>
      have hc := ((isDigit_iff c).mp (hdigits c List.mem_cons_self)).1
      have hpush : pushExponent (Int32.ofInt n) c =
        Int32.ofInt (n * 10 + (c.toNat - 48) : Nat) := by
        rw [pushExponent, Nat.cast_add, Nat.cast_mul, Nat.cast_sub hc, Int32.ofInt_add,
          Int32.ofInt_mul]
        rfl
      rw [List.foldl_cons, hpush, ih (fun c hc => hdigits c (List.mem_cons_of_mem _ hc)),
        digitsValue_cons, List.length_cons]
      congr 2
      ring

/-- An exponent of type `int` is read as it is. -/
theorem Exponent.subscale_toInt {exponent : Exponent} (hsmall : exponent.value.natAbs < 2 ^ 31) :
    exponent.subscale.toInt = exponent.value := by
  have hdigits := foldl_pushExponent exponent.isDigits 0
  rw [Nat.zero_mul, Nat.zero_add] at hdigits
  have hsubscale : exponent.subscale = Int32.ofInt exponent.value := by
    rw [subscale, show (0 : Int32) = Int32.ofInt (0 : Nat) from rfl, hdigits, value, mul_comm,
      Int32.ofInt_mul]
    split_ifs <;> rfl
  rw [hsubscale, Int32.toInt_ofInt_of_le (by omega) (by omega)]

/-- The digits are a number that is kept, the exponent is an `int`, and the point is not
too far to the left. -/
structure Numeral.Fits (numeral : Numeral) : Prop where
  mantissa : Doubles.Whole numeral.mantissa
  power : numeral.power.natAbs < 2 ^ 31
  fraction : numeral.fraction.length ≤ 2 ^ 52

/-- The number that is read from a numeral that fits: the digits with their sign, times the
power of ten. -/
def ReadFrom {D : Type} [Doubles D] (n : D) (numeral : Numeral) : Prop :=
  numeral.Fits → n = Doubles.mul
    (Doubles.mul (Doubles.ofInt numeral.sign) (Doubles.ofInt numeral.mantissa))
    (Doubles.pow (Doubles.ofInt 10)
      (Doubles.ofInt (numeral.power - numeral.fraction.length)))

/-- Where nothing is rounded, it is the number that the numeral denotes. -/
theorem ReadFrom.eq_value {n : ℚ} {numeral : Numeral} (hread : ReadFrom n numeral)
    (hfits : numeral.Fits) : n = numeral.value := by
  rw [hread hfits]
  change ((numeral.sign : ℚ) * (numeral.mantissa : Int)) *
    ((10 : Int) : ℚ) ^ ⌊((numeral.power - numeral.fraction.length : Int) : ℚ)⌋ = numeral.value
  rw [Int.floor_intCast]
  rfl

section Exact

variable {D : Type} [Doubles D] [Doubles.Exact D]

/-- Every digit makes the number ten times as large. -/
theorem foldl_pushDigit {digits : List UInt8} (hdigits : ∀ c ∈ digits, isDigit c = true) {n : Nat}
    (hsmall : n * 10 ^ digits.length + digitsValue digits ≤ 2 ^ 53) :
    digits.foldl pushDigit (Doubles.ofInt n) =
      (Doubles.ofInt (n * 10 ^ digits.length + digitsValue digits : Nat) : D) := by
  induction digits generalizing n with
  | nil => simp [digitsValue]
  | cons c digits ih =>
      have hc := ((isDigit_iff c).mp (hdigits c List.mem_cons_self)).1
      have hvalue : n * 10 ^ (c :: digits).length + digitsValue (c :: digits) =
          (n * 10 + (c.toNat - 48)) * 10 ^ digits.length + digitsValue digits := by
        rw [digitsValue_cons, List.length_cons]
        ring
      have hnext : n * 10 + (c.toNat - 48) ≤ 2 ^ 53 :=
        (Nat.le_mul_of_pos_right _ (Nat.pow_pos (by decide))).trans
          ((Nat.le_add_right _ _).trans (hvalue ▸ hsmall))
      have hpush : pushDigit (Doubles.ofInt n) c =
          (Doubles.ofInt (n * 10 + (c.toNat - 48) : Nat) : D) := by
        rw [pushDigit, Doubles.Exact.mul_ofInt _ _ (.inl ⟨by omega, by decide⟩),
          Doubles.Exact.add_ofInt, Nat.cast_add, Nat.cast_mul, Nat.cast_sub hc]
        · rfl
        all_goals simp only [Doubles.Whole]; omega
      rw [List.foldl_cons, hpush, hvalue]
      exact ih (fun c hc => hdigits c (List.mem_cons_of_mem _ hc)) (hvalue ▸ hsmall)

/-- Every digit behind the point makes the scale one less. -/
theorem foldl_scale (digits : List UInt8) {n : Nat} (hsmall : n + digits.length ≤ 2 ^ 53) :
    digits.foldl (fun scale _ => Doubles.sub scale (Doubles.ofInt 1)) (Doubles.ofInt (-n)) =
      (Doubles.ofInt (-(n + digits.length : Nat)) : D) := by
  induction digits generalizing n with
  | nil => rfl
  | cons c digits ih =>
      rw [List.length_cons] at hsmall
      have hless : Doubles.sub (Doubles.ofInt (-n)) (Doubles.ofInt 1) =
          (Doubles.ofInt (-(n + 1 : Nat)) : D) := by
        rw [Doubles.Exact.sub_ofInt]
        · congr 1
          omega
        all_goals simp only [Doubles.Whole]; omega
      rw [List.foldl_cons, hless, ih (by omega), List.length_cons]
      congr 2
      omega

/-- Of a numeral that fits nothing is lost before the last two steps. -/
theorem Numeral.double_readFrom (numeral : Numeral) : ReadFrom (numeral.double : D) numeral := by
  intro hfits
  have hmantissa : (numeral.whole ++ numeral.fraction).foldl pushDigit (Doubles.ofInt 0) =
      (Doubles.ofInt numeral.mantissa : D) := by
    have hall : ∀ c ∈ numeral.whole ++ numeral.fraction, isDigit c = true :=
      List.forall_mem_append.mpr ⟨numeral.isWhole, numeral.isFraction⟩
    have hread := foldl_pushDigit (D := D) hall (n := 0) (by
      rw [Nat.zero_mul, Nat.zero_add]
      exact hfits.mantissa)
    rwa [Nat.zero_mul, Nat.zero_add] at hread
  have hfraction : numeral.fraction.foldl (fun scale _ => Doubles.sub scale (Doubles.ofInt 1))
      (Doubles.ofInt 0) = (Doubles.ofInt (-numeral.fraction.length) : D) := by
    have hread := foldl_scale (D := D) numeral.fraction (n := 0) (by
      have hlength := hfits.fraction
      omega)
    rwa [Nat.zero_add] at hread
  have hpower : (numeral.exponent.elim 0 Exponent.subscale).toInt = numeral.power := by
    have hsmall := hfits.power
    unfold power at hsmall ⊢
    cases hexponent : numeral.exponent with
    | none => rfl
    | some exponent =>
        rw [hexponent] at hsmall
        exact exponent.subscale_toInt hsmall
  have hscale : Doubles.add (Doubles.ofInt (-numeral.fraction.length))
      (Doubles.ofInt numeral.power) =
        (Doubles.ofInt (numeral.power - numeral.fraction.length) : D) := by
    have hsmall := hfits.power
    have hlength := hfits.fraction
    rw [Doubles.Exact.add_ofInt, neg_add_eq_sub]
    all_goals simp only [Doubles.Whole]; omega
  rw [double, hmantissa, hfraction, scaled, hpower, hscale]

/-- A numeral that fits and denotes a whole number is read as it, unless it is a zero with a
sign. -/
theorem ReadFrom.whole {n : D} {numeral : Numeral} (hread : ReadFrom n numeral)
    (hfits : numeral.Fits) (hscale : numeral.power = numeral.fraction.length)
    (hsigned : 0 ≤ numeral.sign ∨ numeral.mantissa ≠ 0) :
    n = Doubles.ofInt (numeral.sign * numeral.mantissa) := by
  have hsmall : Doubles.Whole numeral.mantissa := hfits.mantissa
  have hsign : numeral.sign = 1 ∨ numeral.sign = -1 := by
    unfold Numeral.sign
    split_ifs
    · exact .inr rfl
    · exact .inl rfl
  have hproduct : Doubles.mul (Doubles.ofInt numeral.sign) (Doubles.ofInt numeral.mantissa) =
      (Doubles.ofInt (numeral.sign * numeral.mantissa) : D) := by
    rcases hsign with hsign | hsign <;> rw [hsign] at hsigned ⊢
    · exact Doubles.Exact.mul_ofInt _ _ (.inl (by omega)) (by decide) hsmall
        (by rwa [one_mul])
    · have hsome : numeral.mantissa ≠ 0 := hsigned.resolve_left (by decide)
      refine Doubles.Exact.mul_ofInt _ _ (.inr (by omega)) (by decide) hsmall ?_
      unfold Doubles.Whole at hsmall ⊢
      omega
  rw [hread hfits, hscale, sub_self, Doubles.Exact.pow_zero, hproduct]
  have hwhole : Doubles.Whole (numeral.sign * numeral.mantissa) := by
    unfold Doubles.Whole at hsmall ⊢
    rcases hsign with hsign | hsign <;> rw [hsign] <;> omega
  have hone : 0 ≤ numeral.sign * numeral.mantissa ∧ 0 ≤ (1 : Int) ∨
      numeral.sign * numeral.mantissa * 1 ≠ 0 := by
    rcases hsign with hsign | hsign <;> rw [hsign] at hsigned ⊢ <;> omega
  rw [Doubles.Exact.mul_ofInt _ _ hone hwhole (by decide) (by rwa [mul_one]), mul_one]

end Exact

end McuProxy.Json

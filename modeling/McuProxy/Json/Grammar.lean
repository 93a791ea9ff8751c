/-
# JSON texts

What a JSON text is and what it says, after RFC 8259. Around every value, name and
mark there may be white space; a string is read as UTF-8, with two escapes for a
character that UTF-16 writes as a pair. The null character cannot be escaped, since it
ends a string of C.

A value keeps its numbers as they are written. What they denote is a rational number,
and no `double` has a part in it.
-/

import Mathlib.Data.Nat.Digits.Defs
import McuProxy.Json.Parse

namespace McuProxy.Json

open McuProxy.Math

/-- A JSON value over some kind of numbers. Strings are bytes, and members keep their
order. -/
inductive Value (N : Type)
  | null
  | false
  | true
  | number (value : N)
  | string (chars : List UInt8)
  | array (elements : List (Value N))
  | object (members : List (List UInt8 × Value N))

section Values

variable {D : Type}

/-- The value of an item, from its fields and the values of its children with their
names. -/
def Fields.value (fields : Fields D) (children : Option (List (Option (List UInt8) × Value D))) :
    Option (Value D) :=
  if fields.kind = typeFalse then some .false
  else if fields.kind = typeTrue then some .true
  else if fields.kind = typeNull then some .null
  else if fields.kind = typeNumber then some (.number fields.valuedouble)
  else if fields.kind = typeString then fields.valuestring.map fun str => .string str.chars
  else if fields.kind = typeArray then children.map fun values => .array (values.map Prod.snd)
  else if fields.kind = typeObject then
    (children.bind fun values => values.mapM fun child => child.1.map (·, child.2)).map .object
  else none

theorem Fields.kind_of_type {fields : Fields D} {type : Nat} (htype : fields.type = type)
    (hsmall : type < 256) : fields.kind = type := by
  rw [Fields.kind, htype]
  exact Nat.and_two_pow_sub_one_of_lt_two_pow (n := 8) hsmall

variable {fields : Fields D} (children : Option (List (Option (List UInt8) × Value D)))

theorem Fields.value_false (hkind : fields.kind = typeFalse) :
    fields.value children = some .false := by
  rw [Fields.value, hkind]
  rfl

theorem Fields.value_true (hkind : fields.kind = typeTrue) :
    fields.value children = some .true := by
  rw [Fields.value, hkind]
  rfl

theorem Fields.value_null (hkind : fields.kind = typeNull) :
    fields.value children = some .null := by
  rw [Fields.value, hkind]
  rfl

theorem Fields.value_number (hkind : fields.kind = typeNumber) :
    fields.value children = some (.number fields.valuedouble) := by
  rw [Fields.value, hkind]
  rfl

theorem Fields.value_string (hkind : fields.kind = typeString) :
    fields.value children = fields.valuestring.map fun str => .string str.chars := by
  rw [Fields.value, hkind]
  rfl

theorem Fields.value_array (hkind : fields.kind = typeArray) :
    fields.value children = children.map fun values => .array (values.map Prod.snd) := by
  rw [Fields.value, hkind]
  rfl

theorem Fields.value_object (hkind : fields.kind = typeObject) :
    fields.value children =
      (children.bind fun values => values.mapM fun child => child.1.map (·, child.2)).map
        .object := by
  rw [Fields.value, hkind]
  rfl

/-- The values of a chain of items, with their names. -/
def Item.values : Item D → Option (List (Option (List UInt8) × Value D))
  | .null => some []
  | .node _ fields child next => do
      let value ← fields.value child.values
      let values ← next.values
      return (fields.string.map Str.chars, value) :: values

end Values

/-- A letter behind a backslash, and the character that it stands for. -/
def simpleEscapes : List (UInt8 × UInt8) :=
  [(ch '"', ch '"'), (ch '\\', ch '\\'), (ch '/', ch '/'), (ch 'b', 8), (ch 'f', 12),
    (ch 'n', 10), (ch 'r', 13), (ch 't', 9)]

/-- The bytes of a string, and its text between the quotes. -/
inductive Quoted : List UInt8 → Text → Prop
  | nil : Quoted [] []
  | plain {c : UInt8} {chars : List UInt8} {text : Text} (hc : 32 ≤ c) (hquote : c ≠ ch '"')
      (hslash : c ≠ ch '\\') (htext : Quoted chars text) : Quoted (c :: chars) (c :: text)
  | escape {e c : UInt8} {chars : List UInt8} {text : Text} (he : (e, c) ∈ simpleEscapes)
      (htext : Quoted chars text) : Quoted (c :: chars) (ch '\\' :: e :: text)
  | unicode {a b c d : UInt8} {char : Char} {chars : List UInt8} {text : Text}
      (hnumber : hexNumber a b c d = some char.val) (hzero : char.val ≠ 0)
      (htext : Quoted chars text) :
      Quoted (String.utf8EncodeChar char ++ chars) (ch '\\' :: ch 'u' :: a :: b :: c :: d :: text)
  | pair {a b c d e f g h : UInt8} {high low : UInt32} {char : Char} {chars : List UInt8}
      {text : Text} (hfirst : hexNumber a b c d = some high)
      (hsecond : hexNumber e f g h = some low) (hhigh : 0xD800 ≤ high ∧ high ≤ 0xDBFF)
      (hlow : 0xDC00 ≤ low ∧ low ≤ 0xDFFF)
      (hchar : char.toNat = 0x10000 + (high.toNat - 0xD800) * 0x400 + (low.toNat - 0xDC00))
      (htext : Quoted chars text) :
      Quoted (String.utf8EncodeChar char ++ chars)
        (ch '\\' :: ch 'u' :: a :: b :: c :: d :: ch '\\' :: ch 'u' :: e :: f :: g :: h :: text)

/-- `e` or `E`, a sign, and digits. -/
structure Exponent where
  mark : UInt8
  sign : Option UInt8
  digits : List UInt8
  isMark : mark = ch 'e' ∨ mark = ch 'E'
  isSign : ∀ c ∈ sign, c = ch '+' ∨ c = ch '-'
  isDigits : ∀ c ∈ digits, isDigit c = true
  someDigits : digits ≠ []

/-- A number. `whole` are the digits in front of the point, none of them for a zero, and
the first of them is not a zero. -/
structure Numeral where
  negative : Bool
  whole : List UInt8
  fraction : List UInt8
  exponent : Option Exponent
  isWhole : ∀ c ∈ whole, isDigit c = true
  leading : ∀ c ∈ whole.head?, c ≠ ch '0'
  isFraction : ∀ c ∈ fraction, isDigit c = true

/-- The number that digits denote. -/
def digitsValue (digits : List UInt8) : Nat :=
  Nat.ofDigits 10 (digits.reverse.map fun c => c.toNat - 48)

namespace Exponent

def text (exponent : Exponent) : Text :=
  exponent.mark :: (exponent.sign.toList ++ exponent.digits)

def value (exponent : Exponent) : Int :=
  (if exponent.sign = some (ch '-') then -1 else 1) * digitsValue exponent.digits

end Exponent

namespace Numeral

def text (numeral : Numeral) : Text :=
  (if numeral.negative then [ch '-'] else []) ++
    ((if numeral.whole = [] then [ch '0'] else numeral.whole) ++
      ((if numeral.fraction = [] then [] else ch '.' :: numeral.fraction) ++
        numeral.exponent.elim [] Exponent.text))

def sign (numeral : Numeral) : Int := if numeral.negative then -1 else 1

/-- All the digits as one number, as if there were no point. -/
def mantissa (numeral : Numeral) : Nat := digitsValue (numeral.whole ++ numeral.fraction)

/-- The power of ten behind `e`. -/
def power (numeral : Numeral) : Int := numeral.exponent.elim 0 Exponent.value

/-- The number that a numeral denotes. -/
def value (numeral : Numeral) : ℚ :=
  numeral.sign * numeral.mantissa * 10 ^ (numeral.power - numeral.fraction.length)

end Numeral

/-- White space. -/
def Blank (text : Text) : Prop := ∀ c ∈ text, c ∈ [ch ' ', 9, 10, 13]

/-- What a piece of text says: a value, or the inside of an array or of an object. -/
inductive Phrase (N : Type)
  | value (json : Value N)
  | elements (elements : List (Value N))
  | members (members : List (List UInt8 × Value N))

/-- The texts of a phrase. An array or an object without an item is a value of its own. -/
inductive Derives : Phrase Numeral → Text → Prop
  | null : Derives (.value .null) nullText
  | false : Derives (.value .false) falseText
  | true : Derives (.value .true) trueText
  | number (numeral : Numeral) : Derives (.value (.number numeral)) numeral.text
  | string {chars : List UInt8} {text : Text} (htext : Quoted chars text) :
      Derives (.value (.string chars)) (ch '"' :: (text ++ [ch '"']))
  | emptyArray {blank : Text} (hblank : Blank blank) :
      Derives (.value (.array [])) (ch '[' :: (blank ++ [ch ']']))
  | array {elements : List (Value Numeral)} {text : Text}
      (htext : Derives (.elements elements) text) :
      Derives (.value (.array elements)) (ch '[' :: (text ++ [ch ']']))
  | emptyObject {blank : Text} (hblank : Blank blank) :
      Derives (.value (.object [])) (ch '{' :: (blank ++ [ch '}']))
  | object {members : List (List UInt8 × Value Numeral)} {text : Text}
      (htext : Derives (.members members) text) :
      Derives (.value (.object members)) (ch '{' :: (text ++ [ch '}']))
  | lastElement {json : Value Numeral} {before text after : Text} (hbefore : Blank before)
      (htext : Derives (.value json) text) (hafter : Blank after) :
      Derives (.elements [json]) (before ++ (text ++ after))
  | element {json : Value Numeral} {elements : List (Value Numeral)} {before text after rest : Text}
      (hbefore : Blank before) (htext : Derives (.value json) text) (hafter : Blank after)
      (hrest : Derives (.elements elements) rest) :
      Derives (.elements (json :: elements)) (before ++ (text ++ (after ++ ch ',' :: rest)))
  | lastMember {name : List UInt8} {json : Value Numeral}
      {before quoted middle space text after : Text}
      (hbefore : Blank before) (hname : Quoted name quoted) (hmiddle : Blank middle)
      (hspace : Blank space) (htext : Derives (.value json) text) (hafter : Blank after) :
      Derives (.members [(name, json)])
        (before ++ ch '"' :: (quoted ++ ch '"' :: (middle ++ ch ':' ::
          (space ++ (text ++ after)))))
  | member {name : List UInt8} {json : Value Numeral} {members : List (List UInt8 × Value Numeral)}
      {before quoted middle space text after rest : Text} (hbefore : Blank before)
      (hname : Quoted name quoted) (hmiddle : Blank middle) (hspace : Blank space)
      (htext : Derives (.value json) text) (hafter : Blank after)
      (hrest : Derives (.members members) rest) :
      Derives (.members ((name, json) :: members))
        (before ++ ch '"' :: (quoted ++ ch '"' :: (middle ++ ch ':' ::
          (space ++ (text ++ (after ++ ch ',' :: rest))))))

/-- Two phrases are alike up to their numbers, and the numbers are related in pairs. -/
inductive Alike {M N : Type} (related : M → N → Prop) : Phrase M → Phrase N → Prop
  | null : Alike related (.value .null) (.value .null)
  | false : Alike related (.value .false) (.value .false)
  | true : Alike related (.value .true) (.value .true)
  | number {m : M} {n : N} (hrelated : related m n) :
      Alike related (.value (.number m)) (.value (.number n))
  | string (chars : List UInt8) : Alike related (.value (.string chars)) (.value (.string chars))
  | array {elements : List (Value M)} {others : List (Value N)}
      (helements : Alike related (.elements elements) (.elements others)) :
      Alike related (.value (.array elements)) (.value (.array others))
  | object {members : List (List UInt8 × Value M)} {others : List (List UInt8 × Value N)}
      (hmembers : Alike related (.members members) (.members others)) :
      Alike related (.value (.object members)) (.value (.object others))
  | noElement : Alike related (.elements []) (.elements [])
  | element {json : Value M} {other : Value N} {elements : List (Value M)}
      {others : List (Value N)} (hjson : Alike related (.value json) (.value other))
      (helements : Alike related (.elements elements) (.elements others)) :
      Alike related (.elements (json :: elements)) (.elements (other :: others))
  | noMember : Alike related (.members []) (.members [])
  | member (name : List UInt8) {json : Value M} {other : Value N}
      {members : List (List UInt8 × Value M)} {others : List (List UInt8 × Value N)}
      (hjson : Alike related (.value json) (.value other))
      (hmembers : Alike related (.members members) (.members others)) :
      Alike related (.members ((name, json) :: members)) (.members ((name, other) :: others))

/-- Numbers that are settled by what they are related to settle the phrase. -/
theorem Alike.unique {M N : Type} {left right : M → N → Prop}
    (hunique : ∀ m m' n, left m n → right m' n → m = m') {first second : Phrase M}
    {third : Phrase N} (hfirst : Alike left first third) (hsecond : Alike right second third) :
    first = second := by
  induction hfirst generalizing second with
  | null | false | true | string | noElement | noMember => cases hsecond; rfl
  | number hrelated =>
      cases hsecond with
      | number hother => rw [hunique _ _ _ hrelated hother]
  | array _ ih =>
      cases hsecond with
      | array helements => rw [Phrase.elements.inj (ih helements)]
  | object _ ih =>
      cases hsecond with
      | object hmembers => rw [Phrase.members.inj (ih hmembers)]
  | element _ _ ihjson ihelements =>
      cases hsecond with
      | element hjson helements =>
          rw [Phrase.value.inj (ihjson hjson), Phrase.elements.inj (ihelements helements)]
  | member name _ _ ihjson ihmembers =>
      cases hsecond with
      | member _ hjson hmembers =>
          rw [Phrase.value.inj (ihjson hjson), Phrase.members.inj (ihmembers hmembers)]

end McuProxy.Json

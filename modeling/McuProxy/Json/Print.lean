/-
# Printing JSON

`print_value` makes the text of an item in a new buffer. An array or an object first
makes the texts of its children, adds up a length for all of them, and composes them
in a buffer of that length; then the texts are given back. Where a buffer is refused,
all there is is given back.

The length is computed in one place and the text composed in another, and nothing but
the two computations keeps the text inside. A buffer is filled in one step here, which
has no result where the text and the null character at its end are longer than the
buffer.
-/

import Mathlib.Data.Nat.Digits.Defs
import McuProxy.Json.Parse

namespace McuProxy.Json

open McuProxy.Math Allocating

/-- What is stored in a buffer of this size, and the null character behind it. -/
def fill (size addr : Nat) (chars : Text) : Allocating Str :=
  if chars.length < size then pure ⟨addr, chars⟩ else fault

/-- A new buffer of this size with a text, or nothing. -/
def buffer (size : Nat) (chars : Text) : Allocating (Option Str) := do
  match ← malloc with
  | none => return none
  | some addr => return some (← fill size addr chars)

/-- `cJSON_strdup`. -/
def strdup (str : List UInt8) : Allocating (Option Str) :=
  buffer ((str.takeWhile (· != 0)).length + 1) (str.takeWhile (· != 0))

/-- The digits of a number, none for zero. -/
def digitText (n : Nat) : Text := (Nat.digits 10 n).reverse.map fun digit => (48 + digit).toUInt8

/-- `%d`. -/
def decimal (n : Int) : Text :=
  (if n < 0 then [ch '-'] else []) ++ if n = 0 then [ch '0'] else digitText n.natAbs

section Numbers

variable {D : Type} [Doubles D]

/-- `fabs(((double)item->valueint)-d)<=DBL_EPSILON && d<=INT_MAX && d>=INT_MIN`. -/
def printsInt (fields : Fields D) : Bool :=
  Doubles.le (Doubles.abs (Doubles.sub (Doubles.ofInt fields.valueint.toInt) fields.valuedouble))
      Doubles.epsilon &&
    Doubles.le fields.valuedouble (Doubles.ofInt 2147483647) &&
    Doubles.le (Doubles.ofInt (-2147483648)) fields.valuedouble

/-- The text of a number that is not printed as an `int`. -/
def doubleText (d : D) : Text :=
  if Doubles.le (Doubles.abs (Doubles.sub (Doubles.floor d) d)) Doubles.epsilon ∧
      Doubles.lt (Doubles.abs d) (Doubles.ofScientific 1 60) then Doubles.wholeText d
  else if Doubles.lt (Doubles.abs d) (Doubles.ofScientific 1 (-6)) ∨
      Doubles.lt (Doubles.ofScientific 1 9) (Doubles.abs d) then Doubles.exponentText d
  else Doubles.fixedText d

/-- `print_number`. -/
def printNumber (fields : Fields D) : Allocating (Option Str) :=
  if printsInt fields then buffer 21 (decimal fields.valueint.toInt)
  else buffer 64 (doubleText fields.valuedouble)

end Numbers

/-- `"\"\\\b\f\n\r\t"`. -/
def marked : List UInt8 := [ch '"', ch '\\', 8, 12, 10, 13, 9]

/-- What the first loop of `print_string_ptr` counts. -/
def printedLength : List UInt8 → Nat
  | [] => 0
  | token :: str =>
      if token = 0 then 0
      else (if token ∈ marked then 2 else if token < 32 then 6 else 1) + printedLength str

/-- A digit of `%x`. -/
def hexText (digit : UInt8) : UInt8 := if digit < 10 then ch '0' + digit else ch 'a' + (digit - 10)

/-- What is stored behind a backslash. -/
def escapeText (token : UInt8) : Text :=
  if token = ch '\\' then [ch '\\']
  else if token = ch '"' then [ch '"']
  else if token = 8 then [ch 'b']
  else if token = 12 then [ch 'f']
  else if token = 10 then [ch 'n']
  else if token = 13 then [ch 'r']
  else if token = 9 then [ch 't']
  else [ch 'u', ch '0', ch '0', hexText (token / 16), hexText (token % 16)]

/-- What the second loop stores. -/
def escapedText : List UInt8 → Text
  | [] => []
  | token :: str =>
      if token = 0 then []
      else if 31 < token ∧ token ≠ ch '"' ∧ token ≠ ch '\\' then token :: escapedText str
      else ch '\\' :: (escapeText token ++ escapedText str)

/-- A string with its quotes. -/
def quotedText (str : List UInt8) : Text := ch '"' :: (escapedText str ++ [ch '"'])

/-- `print_string_ptr`. -/
def printStringPtr : Option Str → Allocating (Option Str)
  | none => strdup []
  | some str => buffer (printedLength str.chars + 3) (quotedText str.chars)

/-- Every string is given back, if it is there. -/
def freeAll (strs : List (Option Str)) : Allocating Unit := strs.forM freeStr

/-- `for (i=0;i<depth;i++) *ptr++='\t';`. -/
def tabs (depth : Nat) : Text := List.replicate depth 9

/-- The texts of the children with their separators. -/
def elementsText (fmt : Bool) : List Text → Text
  | [] => []
  | [ret] => ret
  | ret :: next :: entries =>
      ret ++ (ch ',' :: ((if fmt then [ch ' '] else []) ++ elementsText fmt (next :: entries)))

/-- The text of an array. -/
def arrayText (fmt : Bool) (entries : List Text) : Text :=
  ch '[' :: (elementsText fmt entries ++ [ch ']'])

/-- The names and texts of the children with their separators. -/
def membersText (fmt : Bool) (depth : Nat) : List (Text × Text) → Text
  | [] => []
  | (str, ret) :: entries =>
      (if fmt then tabs depth else []) ++ (str ++ (ch ':' :: ((if fmt then [9] else []) ++
        (ret ++ ((if entries.isEmpty then [] else [ch ',']) ++ ((if fmt then [10] else []) ++
          membersText fmt depth entries))))))

/-- The text of an object whose members are at this depth. -/
def objectText (fmt : Bool) (depth : Nat) (entries : List (Text × Text)) : Text :=
  ch '{' :: ((if fmt then [10] else []) ++ (membersText fmt depth entries ++
    ((if fmt then tabs (depth - 1) else []) ++ [ch '}'])))

/-- The end of `print_array` and of `print_object`. If all of the parts are there, the text
is composed in a buffer of this size; the parts and the arrays that held them are
given back. -/
def compose (given : List (Option Str)) (arrays : List Nat) (len : Nat) (text : Text) :
    Allocating (Option Str) := do
  let out ← if given.all Option.isSome then malloc else pure none
  match out with
  | none =>
      freeAll given
      arrays.forM free
      return none
  | some addr =>
      let out ← fill len addr text
      freeAll given
      arrays.forM free
      return some out

/-- `print_array`, with the loop over the children. -/
def printArray (fmt : Bool) (empty : Bool) (elements : Nat → Allocating (List (Option Str)))
    (depth : Nat) : Allocating (Option Str) := do
  if empty then buffer 3 [ch '[', ch ']']
  else
    match ← malloc with
    | none => return none
    | some entries =>
        let rets ← elements (depth + 1)
        let texts := rets.filterMap fun ret => ret.map Str.chars
        let len := 5 + (texts.map fun ret => ret.length + 2 + if fmt then 1 else 0).sum
        compose rets [entries] len (arrayText fmt texts)

/-- The name and the text of a member, if both are there. -/
def memberChars (ret : Option Str × Option Str) : Option (Text × Text) :=
  ret.1.bind fun str => ret.2.map fun ret => (str.chars, ret.chars)

/-- `print_object`, with the loop over the children. -/
def printObject (fmt : Bool) (empty : Bool)
    (members : Nat → Allocating (List (Option Str × Option Str))) (depth : Nat) :
    Allocating (Option Str) := do
  if empty then
    buffer (if fmt then depth + 3 else 3)
      (ch '{' :: ((if fmt then 10 :: tabs (depth - 1) else []) ++ [ch '}']))
  else
    match ← malloc with
    | none => return none
    | some entries =>
        match ← malloc with
        | none =>
            free entries
            return none
        | some names =>
            let depth := depth + 1
            let rets ← members depth
            let texts := rets.filterMap memberChars
            let len := 7 + (if fmt then depth else 0) + (texts.map fun ret =>
              ret.2.length + ret.1.length + 2 + if fmt then 2 + depth else 0).sum
            compose (rets.flatMap fun ret => [ret.1, ret.2]) [names, entries] len
              (objectText fmt depth texts)

section Values

variable {D : Type} [Doubles D]

/-- `print_value` of an item with these fields, whose children are printed by these
loops. -/
def printFields (fmt : Bool) (fields : Fields D) (empty : Bool)
    (elements : Nat → Allocating (List (Option Str)))
    (members : Nat → Allocating (List (Option Str × Option Str))) (depth : Nat) :
    Allocating (Option Str) :=
  if fields.kind = typeNull then strdup nullText
  else if fields.kind = typeFalse then strdup falseText
  else if fields.kind = typeTrue then strdup trueText
  else if fields.kind = typeNumber then printNumber fields
  else if fields.kind = typeString then printStringPtr fields.valuestring
  else if fields.kind = typeArray then printArray fmt empty elements depth
  else if fields.kind = typeObject then printObject fmt empty members depth
  else pure none

/-- Is the pointer `NULL`? -/
def Item.isNull : Item D → Bool
  | .null => true
  | .node _ _ _ _ => false

mutual

/-- The loop of `print_array`, which ends with the first child that has no text. -/
def printElements (fmt : Bool) : Item D → Nat → Allocating (List (Option Str))
  | .null, _ => return []
  | .node _ fields child next, depth => do
      let ret ← printFields fmt fields child.isNull (fun depth => printElements fmt child depth)
        (fun depth => printMembers fmt child depth) depth
      if ret.isSome then return ret :: (← printElements fmt next depth) else return [ret]

/-- The loop of `print_object`, over all of the children. -/
def printMembers (fmt : Bool) : Item D → Nat → Allocating (List (Option Str × Option Str))
  | .null, _ => return []
  | .node _ fields child next, depth => do
      let str ← printStringPtr fields.string
      let ret ← printFields fmt fields child.isNull (fun depth => printElements fmt child depth)
        (fun depth => printMembers fmt child depth) depth
      return (str, ret) :: (← printMembers fmt next depth)

end

/-- `print_value`. -/
def printValue (fmt : Bool) : Item D → Nat → Allocating (Option Str)
  | .null, _ => return none
  | .node _ fields child _, depth =>
      printFields fmt fields child.isNull (fun depth => printElements fmt child depth)
        (fun depth => printMembers fmt child depth) depth

/-- `cJSON_Print`. -/
def cJSONPrint (item : Item D) : Allocating (Option Str) := printValue true item 0

/-- `cJSON_PrintUnformatted`. -/
def cJSONPrintUnformatted (item : Item D) : Allocating (Option Str) := printValue false item 0

end Values

end McuProxy.Json

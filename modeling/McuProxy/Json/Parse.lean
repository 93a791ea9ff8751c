/-
# The JSON parser

`parse_value` looks at the first characters of a text and goes on with a string, a
number, an array or an object. Arrays and objects are read in a loop, and every item
is linked to the tree before it is filled: when the parser fails, what there is hangs
on the root, and `cJSON_ParseWithOpts` deletes it.

The functions that call each other have a bound on the depth of the calls. Every
character is worth two of them.
-/

import McuProxy.Json.Text

namespace McuProxy.Json

open McuProxy.Math Allocating

variable {D : Type} [Doubles D]

/-- `n=(n*10.0)+(*num++ -'0')`. -/
def pushDigit (n : D) (c : UInt8) : D :=
  Doubles.add (Doubles.mul n (Doubles.ofInt 10)) (Doubles.ofInt (c.toNat - 48))

/-- `subscale=(subscale*10)+(*num++ - '0')`, which wraps. -/
def pushExponent (subscale : Int32) (c : UInt8) : Int32 :=
  subscale * 10 + Int32.ofInt (c.toNat - 48)

/-- The digits in front of the point: one zero, and then a number that does not begin
with one. -/
def readWhole (num : Text) : D × Text :=
  let num := if num.head? = some (ch '0') then num.tail else num
  if num.head?.any fun c => ch '1' ≤ c && c ≤ ch '9' then
    ((num.takeWhile isDigit).foldl pushDigit (Doubles.ofInt 0), num.dropWhile isDigit)
  else (Doubles.ofInt 0, num)

/-- The digits behind the point, and one less in `scale` for each. -/
def readFraction (n : D) (num : Text) : D × D × Text :=
  if num.head? = some (ch '.') ∧ num.tail.head?.any isDigit then
    ((num.tail.takeWhile isDigit).foldl pushDigit n,
      (num.tail.takeWhile isDigit).foldl (fun scale _ => Doubles.sub scale (Doubles.ofInt 1))
        (Doubles.ofInt 0),
      num.tail.dropWhile isDigit)
  else (n, Doubles.ofInt 0, num)

/-- `subscale*signsubscale`. -/
def readExponent (num : Text) : Int32 × Text :=
  if num.head? = some (ch 'e') ∨ num.head? = some (ch 'E') then
    let negative := num.tail.head? = some (ch '-')
    let digits :=
      if num.tail.head? = some (ch '+') ∨ negative then num.tail.tail else num.tail
    let subscale := (digits.takeWhile isDigit).foldl pushExponent 0
    (subscale * (if negative then -1 else 1), digits.dropWhile isDigit)
  else (0, num)

/-- `n=sign*n*pow(10.0,(scale+subscale*signsubscale))`. -/
def scaled (sign n scale : D) (subscale : Int32) : D :=
  Doubles.mul (Doubles.mul sign n)
    (Doubles.pow (Doubles.ofInt 10) (Doubles.add scale (Doubles.ofInt subscale.toInt)))

/-- `parse_number`. -/
def parseNumber (fields : Fields D) (num : Text) : Fields D × Text :=
  let negative := num.head? = some (ch '-')
  let num := if negative then num.tail else num
  let (n, num) := readWhole num
  let (n, scale, num) := readFraction n num
  let (subscale, num) := readExponent num
  let n := scaled (Doubles.ofInt (if negative then -1 else 1)) n scale subscale
  ({ fields with valuedouble := n, valueint := Doubles.toInt32 n, type := typeNumber }, num)

def nullText : Text := [ch 'n', ch 'u', ch 'l', ch 'l']
def falseText : Text := [ch 'f', ch 'a', ch 'l', ch 's', ch 'e']
def trueText : Text := [ch 't', ch 'r', ch 'u', ch 'e']

/-- The loops of `parse_array` and `parse_object` behind the value of a child: a comma
and a new item, or the bracket at the end. `link` is the child with the chain behind
it. -/
def continueChain (close : UInt8) (more : Nat → Text → Allocating (Item D × Cursor))
    (link : Item D → Item D) (cursor : Cursor) : Allocating (Item D × Cursor) := do
  match cursor with
  | .error ep => return (link .null, .error ep)
  | .ok value =>
      match skip value with
      | [] => return (link .null, .error (some []))
      | c :: rest =>
          if c = ch ',' then
            match ← malloc with
            | none => return (link .null, .error none)
            | some addr =>
                let (chain, cursor) ← more addr rest
                return (link chain, cursor)
          else if c = close then return (link .null, .ok rest)
          else return (link .null, .error (some (c :: rest)))

/-- `parse_array` and `parse_object` up to their loop, behind the opening bracket. -/
def openChain (type : Nat) (close : UInt8) (more : Nat → Text → Allocating (Item D × Cursor))
    (fields : Fields D) (value : Text) : Allocating (Fields D × Item D × Cursor) := do
  let fields := { fields with type := type }
  if (skip value).head? = some close then return (fields, .null, .ok (skip value).tail)
  else
    match ← malloc with
    | none => return (fields, .null, .error none)
    | some addr =>
        let (child, cursor) ← more addr (skip value)
        return (fields, child, cursor)

mutual

/-- `parse_value`: the fields of the item, its child, and the pointer. -/
def parseValue (hex : HexScan) :
    Nat → Fields D → Text → Allocating (Fields D × Item D × Cursor)
  | 0, _, _ => fault
  | depth + 1, fields, value => do
      if nullText.isPrefixOf value then
        return ({ fields with type := typeNull }, .null, .ok (value.drop 4))
      else if falseText.isPrefixOf value then
        return ({ fields with type := typeFalse }, .null, .ok (value.drop 5))
      else if trueText.isPrefixOf value then
        return ({ fields with type := typeTrue, valueint := 1 }, .null, .ok (value.drop 4))
      else
        match value with
        | [] => return (fields, .null, .error (some []))
        | c :: rest =>
            if c = ch '"' then
              let (fields, cursor) ← parseString hex fields (c :: rest)
              return (fields, .null, cursor)
            else if c = ch '-' ∨ isDigit c then
              let (fields, rest) := parseNumber fields (c :: rest)
              return (fields, .null, .ok rest)
            else if c = ch '[' then
              openChain typeArray (ch ']') (fun addr text => parseElements hex depth addr text)
                fields rest
            else if c = ch '{' then
              openChain typeObject (ch '}') (fun addr text => parseMembers hex depth addr text)
                fields rest
            else return (fields, .null, .error (some (c :: rest)))

/-- The loop of `parse_array`, from a new item on. -/
def parseElements (hex : HexScan) : Nat → Nat → Text → Allocating (Item D × Cursor)
  | 0, _, _ => fault
  | depth + 1, addr, value => do
      let (fields, child, cursor) ← parseValue hex depth zeroFields (skip value)
      continueChain (ch ']') (fun addr text => parseElements hex depth addr text)
        (.node addr fields child) cursor

/-- The loop of `parse_object`, from a new item on. -/
def parseMembers (hex : HexScan) : Nat → Nat → Text → Allocating (Item D × Cursor)
  | 0, _, _ => fault
  | depth + 1, addr, value => do
      let (fields, cursor) ← parseString hex zeroFields (skip value)
      match cursor with
      | .error ep => return (.node addr fields .null .null, .error ep)
      | .ok value =>
          let fields := { fields with string := fields.valuestring, valuestring := none }
          match skip value with
          | [] => return (.node addr fields .null .null, .error (some []))
          | c :: rest =>
              if c = ch ':' then
                let (fields, child, cursor) ← parseValue hex depth fields (skip rest)
                continueChain (ch '}') (fun addr text => parseMembers hex depth addr text)
                  (.node addr fields child) cursor
              else return (.node addr fields .null .null, .error (some (c :: rest)))

end

/-- What `cJSON_ParseWithOpts` returns, what it stores in `return_parse_end`, and
what it leaves in `ep`. -/
structure Parsed (D : Type) where
  root : Item D
  parseEnd : Option Text
  ep : Option Text
  deriving DecidableEq, Repr

/-- `cJSON_ParseWithOpts`. -/
def cJSONParseWithOpts (hex : HexScan) (value : Text) (requireNullTerminated : Bool) :
    Allocating (Parsed D) := do
  match ← malloc with
  | none => return ⟨.null, none, none⟩
  | some addr =>
      let (fields, child, cursor) ← parseValue hex (2 * value.length + 2) zeroFields (skip value)
      let c := Item.node addr fields child .null
      match cursor with
      | .error ep =>
          delete c
          return ⟨.null, none, ep⟩
      | .ok rest =>
          let rest := if requireNullTerminated then skip rest else rest
          if requireNullTerminated ∧ rest.head?.any (· ≠ 0) then
            delete c
            return ⟨.null, none, some rest⟩
          else return ⟨c, some rest, none⟩

/-- `cJSON_Parse`. -/
def cJSONParse (hex : HexScan) (value : Text) : Allocating (Parsed D) :=
  cJSONParseWithOpts hex value false

end McuProxy.Json

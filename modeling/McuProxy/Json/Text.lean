/-
# Reading JSON text

The parser moves a pointer through a text that ends with a null character. The
pointer is modelled as the characters that are left, the last null character not among
them: what is read behind the last one is null, and to go further leaves the text.

A string is read twice. The first pass counts the characters and makes room for
them, the second one copies them and undoes the escapes; a code unit of UTF-16 is
written as UTF-8. The two passes do not take the same steps. The first one looks for
the quote behind every pair of a backslash and a character, the second one skips four
characters behind `\u` without a look at them.
-/

import Mathlib.Data.UInt
import McuProxy.Json.Item

namespace McuProxy.Json

open McuProxy.Math

/-- The characters behind a pointer. -/
abbrev Text : Type := List UInt8

/-- An ASCII character. -/
def ch (c : Char) : UInt8 := c.toNat.toUInt8

/-- An ASCII text. -/
def ascii (text : List Char) : Text := text.map ch

/-- `skip`: white space, and every other character up to it. -/
def skip (text : Text) : Text := text.dropWhile fun c => c != 0 && c ≤ 32

/-- `*num>='0' && *num<='9'`. -/
def isDigit (c : UInt8) : Bool := ch '0' ≤ c && c ≤ ch '9'

/-- A hexadecimal digit. -/
def hexDigit (c : UInt8) : Option UInt32 :=
  if isDigit c then some (c.toUInt32 - 48)
  else if ch 'a' ≤ c && c ≤ ch 'f' then some (c.toUInt32 - 87)
  else if ch 'A' ≤ c && c ≤ ch 'F' then some (c.toUInt32 - 55)
  else none

/-- The number that four hexadecimal digits make. -/
def hexNumber (a b c d : UInt8) : Option UInt32 := do
  let a ← hexDigit a
  let b ← hexDigit b
  let c ← hexDigit c
  let d ← hexDigit d
  return ((a * 16 + b) * 16 + c) * 16 + d

/-- `sscanf(text, "%4x", &uc)`: what it stores, if it stores anything. Four hexadecimal
digits are stored as their number. `stale` is what the two variables of a call hold
before anything is stored in them. -/
structure HexScan where
  scan : Text → Option UInt32
  stale : Text → UInt32 × UInt32
  scan_digits : ∀ a b c d number rest, hexNumber a b c d = some number →
    scan (a :: b :: c :: d :: rest) = some number

/-- The digits that a text begins with, four at most. In front of them `sscanf` would
also take white space, a sign and `0x`. -/
def leadingDigits : HexScan where
  scan text :=
    let digits := (text.take 4).takeWhile fun c => (hexDigit c).isSome
    if digits.isEmpty then none
    else some ((digits.filterMap hexDigit).foldl (fun number digit => number * 16 + digit) 0)
  stale _ := (0, 0)
  scan_digits a b c d number rest hnumber := by
    simp only [hexNumber, Option.bind_eq_bind, Option.bind_eq_some_iff] at hnumber
    obtain ⟨a', ha, b', hb, c', hc, d', hd, hnumber⟩ := hnumber
    simpa [ha, hb, hc, hd] using hnumber

/-- `while (*ptr!='\"' && *ptr && ++len) if (*ptr++ == '\\') ptr++;`. There is no count
where the pointer leaves the text. -/
def stringLength : Text → Option Nat
  | [] => some 0
  | c :: text =>
      if c = ch '"' ∨ c = 0 then some 0
      else if c = ch '\\' then
        match text with
        | [] => none
        | _ :: text => (stringLength text).map (· + 1)
      else (stringLength text).map (· + 1)

/-- The character that a letter behind a backslash stands for. -/
def escaped (c : UInt8) : UInt8 :=
  if c = ch 'b' then 8
  else if c = ch 'f' then 12
  else if c = ch 'n' then 10
  else if c = ch 'r' then 13
  else if c = ch 't' then 9
  else c

/-- The number of bytes of a code point, less one. -/
def extraBytes (uc : UInt32) : Nat :=
  if uc < 0x80 then 0 else if uc < 0x800 then 1 else if uc < 0x10000 then 2 else 3

/-- `*--ptr2 =((uc | 0x80) & 0xBF)`. -/
def continuation (uc : UInt32) : UInt8 := ((uc ||| 0x80) &&& 0xBF).toUInt8

/-- The bytes that `switch (len)` stores, and what it leaves in `uc`. -/
def transcode (uc : UInt32) : List UInt8 × UInt32 :=
  match extraBytes uc with
  | 0 => ([uc.toUInt8], uc)
  | 1 => ([((uc >>> 6) ||| 0xC0).toUInt8, continuation uc], uc >>> 6)
  | 2 =>
      ([((uc >>> 6 >>> 6) ||| 0xE0).toUInt8, continuation (uc >>> 6), continuation uc],
        uc >>> 6 >>> 6)
  | _ =>
      ([((uc >>> 6 >>> 6 >>> 6) ||| 0xF0).toUInt8, continuation (uc >>> 6 >>> 6),
        continuation (uc >>> 6), continuation uc], uc >>> 6 >>> 6 >>> 6)

/-- `0x10000 + (((uc&0x3FF)<<10) | (uc2&0x3FF))`. -/
def joinSurrogates (uc uc2 : UInt32) : UInt32 :=
  (0x10000 : UInt32) + (((uc &&& 0x3FF) <<< 10) ||| (uc2 &&& 0x3FF))

/-- Bytes in front of what is stored later. -/
def store (bytes : List UInt8) (later : List UInt8 × Text) : List UInt8 × Text :=
  (bytes ++ later.1, later.2)

/-- The second loop of `parse_string`: what it stores, and the text at which it ends.
There is no result where the pointer leaves the text. -/
def copyString (hex : HexScan) : UInt32 → UInt32 → Text → Option (List UInt8 × Text)
  | _, _, [] => some ([], [])
  | uc, uc2, c :: text =>
      if c = ch '"' ∨ c = 0 then some ([], c :: text)
      else if c ≠ ch '\\' then (copyString hex uc uc2 text).map (store [c])
      else
        match text with
        | [] => none
        | e :: text =>
            if e ≠ ch 'u' then (copyString hex uc uc2 text).map (store [escaped e])
            else
              match text with
              | a :: b :: c :: d :: text =>
                  let uc := (hex.scan (a :: b :: c :: d :: text)).getD uc
                  if 0xDC00 ≤ uc ∧ uc ≤ 0xDFFF ∨ uc = 0 then copyString hex uc uc2 text
                  else if 0xD800 ≤ uc ∧ uc ≤ 0xDBFF then
                    match text with
                    | p :: q :: low =>
                        if p = ch '\\' ∧ q = ch 'u' then
                          match low with
                          | e :: f :: g :: h :: text =>
                              let uc2 := (hex.scan (e :: f :: g :: h :: text)).getD uc2
                              if uc2 < 0xDC00 ∨ uc2 > 0xDFFF then copyString hex uc uc2 text
                              else
                                let uc := joinSurrogates uc uc2
                                (copyString hex (transcode uc).2 uc2 text).map
                                  (store (transcode uc).1)
                          | _ => none
                        else copyString hex uc uc2 (p :: q :: low)
                    | text => copyString hex uc uc2 text
                  else
                    (copyString hex (transcode uc).2 uc2 text).map (store (transcode uc).1)
              | _ => none

open Allocating

/-- What a parsing function leaves: the pointer behind what it read, or `NULL`, with
the position in `ep` unless the memory ran out. -/
abbrev Cursor : Type := Except (Option Text) Text

/-- `parse_string`. Bytes are stored one behind the other, so there is room for all of
them and the null character as soon as there is for the last. -/
def parseString {D : Type} (hex : HexScan) (fields : Fields D) (str : Text) :
    Allocating (Fields D × Cursor) := do
  match str with
  | [] => return (fields, .error (some str))
  | c :: body =>
      if c ≠ ch '"' then return (fields, .error (some str))
      else
        let len ← ofOption (stringLength body)
        match ← malloc with
        | none => return (fields, .error none)
        | some addr =>
            let (out, rest) ← ofOption (copyString hex (hex.stale body).1 (hex.stale body).2 body)
            if out.length < len + 1 then
              return ({ fields with valuestring := some ⟨addr, out⟩, type := typeString },
                .ok (if rest.head? = some (ch '"') then rest.tail else rest))
            else fault

end McuProxy.Json

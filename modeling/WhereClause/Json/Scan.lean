/-
**The pieces of a JSON document.**

A document is read once, from left to right, as bytes, and the first thing that is wrong decides
what kind of fault it has.  This module reads the pieces: blanks, words, strings and numbers.  A
string is checked for well-formed UTF-8 at its closing quotation mark; a string or number that is
only skipped is checked for less.

Main definitions:

* `WhereClause.Json.Fault` — the kinds of fault;
* `WhereClause.Json.skipSpace`, `WhereClause.Json.readWord` — blanks and fixed words;
* `WhereClause.Json.readString`, `WhereClause.Json.skipString` — strings behind their opening mark;
* `WhereClause.Json.Numeral`, `WhereClause.Json.readNumber`, `WhereClause.Json.skipNumber` —
  numbers.
-/

import WhereClause.Json.Basic
import WhereClause.Text.Ascii
import WhereClause.Text.Utf8

set_option autoImplicit false

namespace WhereClause.Json

open Text

/-- What is wrong with a document. -/
inductive Fault where
  /-- It ends too early. -/
  | truncated
  /-- It is not well formed. -/
  | malformed
  /-- It is well formed up to here, but holds a value of another kind than is asked for. -/
  | unexpected
deriving DecidableEq, Repr

/-- The byte of an ASCII character. -/
def byte (c : Char) : UInt8 := c.toUInt8

/-- The four blanks that may stand between the pieces of a document. -/
def isSpace (b : UInt8) : Bool := b == 0x20 || b == 0x0A || b == 0x0D || b == 0x09

/-- The bytes from the first one that is no blank. -/
def skipSpace (bytes : List UInt8) : List UInt8 := bytes.dropWhile isSpace

/-- The value of an ASCII digit. -/
def digitOf? (b : UInt8) : Option Nat := if 0x30 ≤ b ∧ b ≤ 0x39 then some (b.toNat - 0x30) else none

/-- Whether the bytes go on with a digit. -/
def startsWithDigit : List UInt8 → Bool
  | [] => false
  | b :: _ => (digitOf? b).isSome

/-- The bytes from the first one that is no digit. -/
def skipDigits (bytes : List UInt8) : List UInt8 := bytes.dropWhile fun b => (digitOf? b).isSome

/-- The rest of a fixed word. -/
def readWord : List UInt8 → List UInt8 → Except Fault (List UInt8)
  | [], bytes => .ok bytes
  | _ :: _, [] => .error .truncated
  | w :: word, b :: bytes => if w = b then readWord word bytes else .error .malformed

/-! ### Strings -/

/-- The number that four hexadecimal digits write. -/
def hexNumber? (a b c d : UInt8) : Option Nat := do
  let a ← hexDigit? (Char.ofNat a.toNat)
  let b ← hexDigit? (Char.ofNat b.toNat)
  let c ← hexDigit? (Char.ofNat c.toNat)
  let d ← hexDigit? (Char.ofNat d.toNat)
  pure (((a * 16 + b) * 16 + c) * 16 + d)

/-- The byte that a one-letter escape stands for. -/
def escaped? (b : UInt8) : Option UInt8 :=
  if b = byte '"' ∨ b = byte '\\' ∨ b = byte '/' then some b
  else if b = byte 'b' then some 0x08
  else if b = byte 'f' then some 0x0C
  else if b = byte 'n' then some 0x0A
  else if b = byte 'r' then some 0x0D
  else if b = byte 't' then some 0x09
  else none

/-- The first half of a surrogate pair. -/
def isLeading (n : Nat) : Bool := 0xD800 ≤ n && n ≤ 0xDBFF

/-- The second half of a surrogate pair. -/
def isTrailing (n : Nat) : Bool := 0xDC00 ≤ n && n ≤ 0xDFFF

/-- Put bytes in front of what is read. -/
def prepend (front : List UInt8) :
    Except Fault (List UInt8 × List UInt8) → Except Fault (List UInt8 × List UInt8)
  | .error fault => .error fault
  | .ok (content, rest) => .ok (front ++ content, rest)

/-- The bytes of a string behind its opening quotation mark, with the escapes replaced. -/
def readContent : List UInt8 → Except Fault (List UInt8 × List UInt8)
  | [] => .error .truncated
  | b :: s =>
      if b = byte '"' then .ok ([], s)
      else if b = byte '\\' then
        match s with
        | [] => .error .truncated
        | e :: s =>
            if e = byte 'u' then
              match s with
              | h₁ :: h₂ :: h₃ :: h₄ :: s =>
                  match hexNumber? h₁ h₂ h₃ h₄ with
                  | none => .error .malformed
                  | some n =>
                      if isTrailing n then .error .malformed
                      else if isLeading n then
                        match s with
                        | [] => .error .truncated
                        | x :: s =>
                            if x = byte '\\' then
                              match s with
                              | [] => .error .truncated
                              | y :: s =>
                                  if y = byte 'u' then
                                    match s with
                                    | k₁ :: k₂ :: k₃ :: k₄ :: s =>
                                        match hexNumber? k₁ k₂ k₃ k₄ with
                                        | none => .error .malformed
                                        | some m =>
                                            if isTrailing m then
                                              prepend (String.utf8EncodeChar (Char.ofNat
                                                ((n - 0xD800) * 0x400 + (m - 0xDC00) + 0x10000)))
                                                (readContent s)
                                            else .error .malformed
                                    | _ => .error .truncated
                                  else .error .malformed
                            else .error .malformed
                      else prepend (String.utf8EncodeChar (Char.ofNat n)) (readContent s)
              | _ => .error .truncated
            else
              match escaped? e with
              | none => .error .malformed
              | some c => prepend [c] (readContent s)
      else if b < 0x20 then .error .malformed
      else prepend [b] (readContent s)

/-- A string behind its opening quotation mark. -/
def readString (bytes : List UInt8) : Except Fault (String × List UInt8) := do
  let (content, rest) ← readContent bytes
  match Utf8.decode? content with
  | none => .error .malformed
  | some cs => .ok (String.ofList cs, rest)

/-- What follows a string of which only the extent matters: its escapes are not put together, and
its bytes need not be UTF-8. -/
def skipString : List UInt8 → Except Fault (List UInt8)
  | [] => .error .truncated
  | b :: s =>
      if b = byte '"' then .ok s
      else if b = byte '\\' then
        match s with
        | [] => .error .truncated
        | e :: s =>
            if e = byte 'u' then
              match s with
              | h₁ :: h₂ :: h₃ :: h₄ :: s =>
                  if (hexNumber? h₁ h₂ h₃ h₄).isSome then skipString s else .error .malformed
              | _ => .error .truncated
            else if (escaped? e).isSome then skipString s
            else .error .malformed
      else if b < 0x20 then .error .malformed
      else skipString s

/-! ### Numbers -/

/-- A number as it is read. -/
inductive Numeral where
  /-- A whole number from zero to `2 ^ 64 - 1`. -/
  | natural (n : Nat)
  /-- A whole number from `-2 ^ 63` to `-1`, by its magnitude. -/
  | negative (n : Nat)
  /-- Any other number; negative zero is one. -/
  | real (x : Binary .double)
deriving Repr

/-- The value of a number. -/
def Numeral.toJson : Numeral → Json
  | .natural n => .integer n
  | .negative n => .integer (-(n : Int))
  | .real x => .double x

/-- The largest significand that is kept digit by digit. -/
def largest : Nat := Nat.pow 2 64 - 1

/-- Read digits onto a significand as long as it stays in 64 bits: the significand, and the bytes
from the first digit that does not fit or the first byte that is no digit. -/
def readDigits : Nat → List UInt8 → Nat × List UInt8
  | n, [] => (n, [])
  | n, b :: rest =>
      match digitOf? b with
      | none => (n, b :: rest)
      | some d => if n * 10 + d ≤ largest then readDigits (n * 10 + d) rest else (n, b :: rest)

/-- A power of ten as a double. -/
def powerOfTen (n : Nat) : Binary .double := Binary.ofScaled .double false 1 n

/-- Divide by `10 ^ 308` until the remaining division can be done at once. -/
def scaleDown : Nat → Binary .double → Nat → Binary .double
  | 0, x, n => x.dividedBy (powerOfTen n)
  | steps + 1, x, n =>
      if n ≤ 308 then x.dividedBy (powerOfTen n)
      else if x.isZero then x
      else scaleDown steps (x.dividedBy (powerOfTen 308)) (n - 308)

/-- A significand times a power of ten: the significand is rounded, then the product or quotient.
A number beyond the greatest double is no number of a document. -/
def scaled (negative : Bool) (significand : Nat) (exponent : Int) : Except Fault (Binary .double) :=
  let sign := fun (x : Binary .double) => if negative then x.negate else x
  let x : Binary .double := Binary.ofInt .double significand
  if exponent < 0 then .ok (sign (scaleDown exponent.natAbs x exponent.natAbs))
  else if exponent ≤ 308 then
    let y := x.times (powerOfTen exponent.toNat)
    if y.isInfinite then .error .malformed else .ok (sign y)
  else if x.isZero then .ok (sign x)
  else .error .malformed

/-- The exponent of a number behind its letter. -/
def readExponent (negative : Bool) (significand : Nat) (place : Int) (bytes : List UInt8) :
    Except Fault (Numeral × List UInt8) :=
  let (down, bytes) := match bytes with
    | [] => (false, [])
    | b :: rest =>
        if b = byte '-' then (true, rest)
        else if b = byte '+' then (false, rest)
        else (false, b :: rest)
  match bytes with
  | [] => .error .truncated
  | b :: rest =>
      if (digitOf? b).isSome then
        let digits := (b :: rest).takeWhile fun b => (digitOf? b).isSome
        let e : Int := digitsValue (digits.map fun b => Char.ofNat b.toNat)
        match scaled negative significand (if down then place - e else place + e) with
        | .error fault => .error fault
        | .ok x => .ok (.real x, skipDigits rest)
      else .error .malformed

/-- What may follow the digits of a fraction or of a number too long for 64 bits. -/
def readScale (negative : Bool) (significand : Nat) (place : Int) (bytes : List UInt8) :
    Except Fault (Numeral × List UInt8) :=
  let finish : Except Fault (Numeral × List UInt8) := match scaled negative significand place with
    | .error fault => .error fault
    | .ok x => .ok (.real x, bytes)
  match bytes with
  | [] => finish
  | b :: rest =>
      if b = byte 'e' ∨ b = byte 'E' then readExponent negative significand place rest else finish

/-- The fraction of a number behind its point.  Digits that no longer fit are ignored. -/
def readFraction (negative : Bool) (significand : Nat) (place : Int) (bytes : List UInt8) :
    Except Fault (Numeral × List UInt8) :=
  let (n, rest) := readDigits significand bytes
  let place' := place - (bytes.length - rest.length)
  if startsWithDigit rest then readScale negative n place' (skipDigits rest)
  else if bytes.length = rest.length then
    if rest.isEmpty then .error .truncated else .error .malformed
  else readScale negative n place' rest

/-- What follows the digits of a whole number that fits 64 bits. -/
def readAfterDigits (negative : Bool) (significand : Nat) (bytes : List UInt8) :
    Except Fault (Numeral × List UInt8) :=
  let whole : Numeral :=
    if !negative then .natural significand
    else if 1 ≤ significand ∧ significand ≤ Nat.pow 2 63 then .negative significand
    else .real (Binary.ofInt .double significand : Binary .double).negate
  match bytes with
  | [] => .ok (whole, [])
  | b :: rest =>
      if b = byte '.' then readFraction negative significand 0 rest
      else if b = byte 'e' ∨ b = byte 'E' then readExponent negative significand 0 rest
      else .ok (whole, b :: rest)

/-- A number behind its minus sign, if it has one.  Digits beyond 64 bits only move the point. -/
def readNumber (negative : Bool) (bytes : List UInt8) : Except Fault (Numeral × List UInt8) :=
  match bytes with
  | [] => .error .truncated
  | b :: rest =>
      if b = byte '0' then
        if startsWithDigit rest then .error .malformed else readAfterDigits negative 0 rest
      else if (digitOf? b).isSome then
        let (n, rest) := readDigits 0 bytes
        if startsWithDigit rest then
          let after := skipDigits rest
          let place : Int := rest.length - after.length
          match after with
          | [] => readScale negative n place []
          | p :: after' =>
              if p = byte '.' then readFraction negative n place after'
              else readScale negative n place (p :: after')
        else readAfterDigits negative n rest
      else .error .malformed

/-- What follows the exponent of a number of which only the extent matters. -/
def skipExponent (bytes : List UInt8) : Except Fault (List UInt8) :=
  let digits := match bytes with
    | [] => []
    | b :: rest => if b = byte '+' ∨ b = byte '-' then rest else b :: rest
  if startsWithDigit digits then .ok (skipDigits digits) else .error .malformed

/-- What follows the exponent, if there is one. -/
def skipScale (bytes : List UInt8) : Except Fault (List UInt8) :=
  match bytes with
  | [] => .ok []
  | b :: rest => if b = byte 'e' ∨ b = byte 'E' then skipExponent rest else .ok (b :: rest)

/-- What follows a number of which only the extent matters, behind its minus sign. -/
def skipNumber (bytes : List UInt8) : Except Fault (List UInt8) :=
  let whole : Except Fault (List UInt8) := match bytes with
    | [] => .error .malformed
    | b :: rest =>
        if b = byte '0' then if startsWithDigit rest then .error .malformed else .ok rest
        else if (digitOf? b).isSome then .ok (skipDigits rest)
        else .error .malformed
  match whole with
  | .error fault => .error fault
  | .ok [] => .ok []
  | .ok (b :: rest) =>
      if b = byte '.' then
        if startsWithDigit rest then skipScale (skipDigits rest) else .error .malformed
      else skipScale (b :: rest)

end WhereClause.Json

/-
**Decimal numerals with a fraction and an exponent.**

A numeral is an optional sign, digits with an optional point (at least one digit on either side of
it) and an optional exponent; or one of the words `inf`, `infinity` and `nan` in any case.

Main definitions:

* `WhereClause.Decimal` — digits and the power of ten of the last one;
* `WhereClause.Decimal.read?` — the numeral a text writes, and what follows its mantissa;
* `WhereClause.Decimal.Fault` — why a token is no floating-point number;
* `WhereClause.Binary.read` — the number of a format nearest to a token.
-/

import WhereClause.Number.Binary
import WhereClause.Text.Ascii

set_option autoImplicit false

namespace WhereClause

open Text

/-- A non-negative decimal numeral: `digits * 10 ^ exponent`. -/
structure Decimal where
  digits : Nat
  exponent : Int
deriving DecidableEq, Repr

namespace Decimal

/-- Why a token is no floating-point number. -/
inductive Fault where
  /-- There is no text at all. -/
  | empty
  /-- The text is neither a numeral nor a word for an infinity or not-a-number. -/
  | invalid
deriving DecidableEq, Repr

/-- The wording of a fault. -/
def Fault.message : Fault → String
  | .empty => "cannot parse float from empty string"
  | .invalid => "invalid float literal"

/-- The integer that an exponent writes: an optional sign and at least one digit, nothing else. -/
def readExponent? : List Char → Option Int
  | [] => none
  | '-' :: digits =>
      if digits.isEmpty || !digits.all isDigit then none else some (-(digitsValue digits : Int))
  | '+' :: digits =>
      if digits.isEmpty || !digits.all isDigit then none else some (digitsValue digits)
  | digits => if !digits.all isDigit then none else some (digitsValue digits)

/-- The numeral that a text without a sign writes. -/
def read? (s : List Char) : Option Decimal :=
  let whole := s.takeWhile isDigit
  let afterWhole := s.dropWhile isDigit
  let fraction := match afterWhole with
    | '.' :: rest => rest.takeWhile isDigit
    | _ => []
  let afterMantissa := match afterWhole with
    | '.' :: rest => rest.dropWhile isDigit
    | _ => afterWhole
  if whole.isEmpty && fraction.isEmpty then none
  else
    let shift := -(fraction.length : Int)
    match afterMantissa with
    | [] => some ⟨digitsValue (whole ++ fraction), shift⟩
    | c :: rest =>
        if c = 'e' ∨ c = 'E' then
          (readExponent? rest).map fun e => ⟨digitsValue (whole ++ fraction), e + shift⟩
        else none

end Decimal

namespace Binary

/-- The number that a text behind its sign writes. -/
def readUnsigned? (f : Format) (negative : Bool) (s : List Char) : Option (Binary f) :=
  if sameLetters s "inf".toList || sameLetters s "infinity".toList then some (.infinite negative)
  else if sameLetters s "nan".toList then some .nan
  else (Decimal.read? s).map fun d => ofScaled f negative d.digits d.exponent

/-- The number of the format nearest to a token. -/
def read (f : Format) (token : List Char) : Except Decimal.Fault (Binary f) :=
  let answer := fun (x : Option (Binary f)) => match x with
    | none => Except.error Decimal.Fault.invalid
    | some x => .ok x
  match token with
  | [] => .error .empty
  | '-' :: rest => answer (readUnsigned? f true rest)
  | '+' :: rest => answer (readUnsigned? f false rest)
  | rest => answer (readUnsigned? f false rest)

end Binary

end WhereClause

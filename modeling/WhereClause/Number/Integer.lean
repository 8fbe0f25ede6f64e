/-
**Decimal integers within bounds.**

An integer token is an optional sign and decimal digits, nothing else.  It is read from the left,
and the first thing that is wrong decides: a character that is no digit, or the digit at which the
number leaves its bounds.

Main definitions:

* `WhereClause.Integer.Fault` — why a token is not an integer within the bounds;
* `WhereClause.Integer.readMagnitude` — digits read against the largest magnitude allowed;
* `WhereClause.Integer.readSigned`, `WhereClause.Integer.readUnsigned` — tokens with and without a
  minus sign.
-/

import WhereClause.Text.Ascii

set_option autoImplicit false

namespace WhereClause.Integer

open Text

/-- Why a token is not an integer within its bounds. -/
inductive Fault where
  /-- There is no text at all. -/
  | empty
  /-- Something stands where a digit is required; a sign alone is such a case. -/
  | invalidDigit
  /-- The number is above the upper bound. -/
  | tooLarge
  /-- The number is below the lower bound. -/
  | tooSmall
deriving DecidableEq, Repr

/-- The wording of a fault. -/
def Fault.message : Fault → String
  | .empty => "cannot parse integer from empty string"
  | .invalidDigit => "invalid digit found in string"
  | .tooLarge => "number too large to fit in target type"
  | .tooSmall => "number too small to fit in target type"

/-- Read digits onto `magnitude`; `beyond` is the fault at the first digit that takes the number
above `bound`. -/
def readMagnitude (bound : Nat) (beyond : Fault) : Nat → List Char → Except Fault Nat
  | magnitude, [] => .ok magnitude
  | magnitude, c :: rest =>
      match digit? c with
      | none => .error .invalidDigit
      | some d =>
          if magnitude * 10 + d ≤ bound then readMagnitude bound beyond (magnitude * 10 + d) rest
          else .error beyond

/-- A number without a minus sign, from zero to `greatest`. -/
def readUnsigned (greatest : Nat) : List Char → Except Fault Nat
  | [] => .error .empty
  | ['+'] => .error .invalidDigit
  | '+' :: digits => readMagnitude greatest .tooLarge 0 digits
  | digits => readMagnitude greatest .tooLarge 0 digits

/-- A number from `-below` to `greatest`. -/
def readSigned (below greatest : Nat) : List Char → Except Fault Int
  | [] => .error .empty
  | ['+'] => .error .invalidDigit
  | ['-'] => .error .invalidDigit
  | '-' :: digits => (readMagnitude below .tooSmall 0 digits).map fun n => -(n : Int)
  | '+' :: digits => (readMagnitude greatest .tooLarge 0 digits).map Int.ofNat
  | digits => (readMagnitude greatest .tooLarge 0 digits).map Int.ofNat

end WhereClause.Integer

/-
**Binary floating-point numbers.**

A number of a format is a whole significand times a power of two, an infinity, or not a number.
Everything that makes such numbers rounds once, to the nearest of the format, a tie going to the
even significand; all arithmetic before the rounding is exact arithmetic on natural numbers.

Main definitions:

* `WhereClause.Format` — the precision and the range of exponents; `Format.single`, `Format.double`;
* `WhereClause.Binary` — the numbers of a format;
* `WhereClause.Binary.round` — the number nearest to a quotient of naturals;
* `WhereClause.Binary.ofScaled` — the number nearest to a decimal numeral;
* `WhereClause.Binary.ofInt`, `WhereClause.Binary.widen` — integers and single numbers as doubles;
* `WhereClause.Binary.times`, `WhereClause.Binary.dividedBy` — product and quotient, rounded once;
* `WhereClause.Binary.comparesEqual` — numeric equality, under which nothing equals not-a-number.
-/

set_option autoImplicit false

namespace WhereClause

/-- A binary format: significands below `2 ^ precision`, with exponents of the last place from
`least` to `greatest`. -/
structure Format where
  precision : Nat
  least : Int
  greatest : Int
deriving DecidableEq, Repr

/-- Thirty-two bits: 24 of precision. -/
def Format.single : Format := ⟨24, -149, 104⟩

/-- Sixty-four bits: 53 of precision. -/
def Format.double : Format := ⟨53, -1074, 971⟩

/-- A number of a binary format.  Both zeros are finite, with significand zero. -/
inductive Binary (f : Format) where
  /-- The result that is no number. -/
  | nan
  /-- Positive or negative infinity. -/
  | infinite (negative : Bool)
  /-- A significand times two to an exponent. -/
  | finite (negative : Bool) (significand : Nat) (exponent : Int)
deriving DecidableEq, Repr, Inhabited

namespace Binary

variable {f : Format}

/-- Zero with a sign. -/
def zero (negative : Bool) : Binary f := .finite negative 0 f.least

/-- The quotient rounded to a whole number, a tie to even. -/
def roundQuotient (num den : Nat) : Nat :=
  let q := num / den
  let r := num % den
  if 2 * r < den then q
  else if den < 2 * r then q + 1
  else q + q % 2

/-- The part of a power of two that multiplies: `2 ^ e` for a positive `e`, else one. -/
def scaleUp (e : Int) : Nat := Nat.pow 2 e.toNat

/-- The exponent that the last place of a quotient has in the format. -/
def lastPlace (f : Format) (num den : Nat) : Int :=
  let guess : Int := Int.ofNat num.log2 - Int.ofNat den.log2
  let atLeast := den * scaleUp guess ≤ num * scaleUp (-guess)
  let top := if atLeast then guess else guess - 1
  max f.least (top - f.precision + 1)

/-- The number of the format nearest to `num / den`. -/
def round (f : Format) (negative : Bool) (num den : Nat) : Binary f :=
  if num = 0 then zero negative
  else
    let e := lastPlace f num den
    let m := roundQuotient (num * scaleUp (-e)) (den * scaleUp e)
    let carried := m == Nat.pow 2 f.precision
    let m := if carried then Nat.pow 2 (f.precision - 1) else m
    let e := if carried then e + 1 else e
    if f.greatest < e then .infinite negative else .finite negative m e

/-- How many decimal digits a number has. -/
def digitCount (n : Nat) : Nat := (Nat.toDigits 10 n).length

/-- The number of the format nearest to `digits * 10 ^ exponent`.  Far outside the range of every
format the answer is an infinity or a zero without looking at the digits. -/
def ofScaled (f : Format) (negative : Bool) (digits : Nat) (exponent : Int) : Binary f :=
  if digits = 0 then zero negative
  else
    let magnitude := exponent + digitCount digits
    if 400 < magnitude then .infinite negative
    else if magnitude < -400 then zero negative
    else round f negative (digits * Nat.pow 10 exponent.toNat) (Nat.pow 10 (-exponent).toNat)

/-- The number nearest to an integer. -/
def ofInt (f : Format) (n : Int) : Binary f := round f (n < 0) n.natAbs 1

/-- A number of one format as the nearest of another. -/
def widen {g : Format} (x : Binary f) : Binary g :=
  match x with
  | .nan => .nan
  | .infinite negative => .infinite negative
  | .finite negative m e => round g negative (m * scaleUp e) (scaleUp (-e))

/-- The product of two numbers, rounded once. -/
def times (x y : Binary f) : Binary f :=
  match x, y with
  | .finite s m e, .finite t n d => round f (s != t) (m * n * scaleUp (e + d)) (scaleUp (-(e + d)))
  | .nan, _ => .nan
  | _, .nan => .nan
  | .infinite s, .infinite t => .infinite (s != t)
  | .infinite s, .finite t n _ => if n = 0 then .nan else .infinite (s != t)
  | .finite s m _, .infinite t => if m = 0 then .nan else .infinite (s != t)

/-- The quotient of two numbers, rounded once. -/
def dividedBy (x y : Binary f) : Binary f :=
  match x, y with
  | .finite s m e, .finite t n d =>
      if n = 0 then if m = 0 then .nan else .infinite (s != t)
      else round f (s != t) (m * scaleUp (e - d)) (n * scaleUp (d - e))
  | .nan, _ => .nan
  | _, .nan => .nan
  | .infinite _, .infinite _ => .nan
  | .infinite s, .finite t _ _ => .infinite (s != t)
  | .finite s _ _, .infinite t => zero (s != t)

/-- The number with the other sign. -/
def negate : Binary f → Binary f
  | .nan => .nan
  | .infinite negative => .infinite !negative
  | .finite negative m e => .finite (!negative) m e

/-- An infinity of either sign. -/
def isInfinite : Binary f → Bool
  | .infinite _ => true
  | _ => false

/-- A zero of either sign. -/
def isZero : Binary f → Bool
  | .finite _ 0 _ => true
  | _ => false

/-- Numeric equality: the two zeros are equal, and nothing equals not-a-number. -/
def comparesEqual (x y : Binary f) : Bool :=
  match x, y with
  | .nan, _ => false
  | _, .nan => false
  | x, y => (x.isZero && y.isZero) || x == y

end Binary

end WhereClause

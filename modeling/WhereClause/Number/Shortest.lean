/-
**The fewest digits that read back.**

A finite number of a binary format is written with as few decimal digits as still round to it, and
among those with the digits nearest to it.  The reals that round to the number form an interval
around it, whose ends belong to it exactly when its significand is even.  A grid of decimals meets
the interval only if one of the number's two neighbours on that grid does, so it is enough to try
the neighbours on the grids of 1, 2, 3, … digits.

Main definitions:

* `WhereClause.Decimal.Tie` — which neighbour to take when both are equally near;
* `WhereClause.Binary.Rounds` — the number and its interval, over a common denominator;
* `WhereClause.Binary.shortest` — the digits and the place of the decimal point.
-/

import WhereClause.Number.Decimal

set_option autoImplicit false

namespace WhereClause

/-- What becomes of a number that lies half-way between two shortest decimals. -/
inductive Decimal.Tie where
  /-- The decimal with the even last digit is taken. -/
  | even
  /-- The greater decimal is taken. -/
  | up
deriving DecidableEq, Repr

namespace Binary

/-- A positive number `value / den`, and the ends `low / den` and `high / den` of the interval of
the reals that round to it. -/
structure Rounds where
  low : Nat
  value : Nat
  high : Nat
  den : Nat
  /-- Whether the ends round to the number as well. -/
  closed : Bool

/-- The interval around a positive number: half a place on either side, but only a quarter below a
power of two, where the places become finer. -/
def interval (f : Format) (m : Nat) (e : Int) : Rounds :=
  let below := if m = Nat.pow 2 (f.precision - 1) ∧ f.least < e then 1 else 2
  let up := scaleUp e
  { low := (4 * m - below) * up
    value := 4 * m * up
    high := (4 * m + 2) * up
    den := 4 * scaleUp (-e)
    closed := m % 2 == 0 }

/-- The number of digits before the decimal point of a positive number; zero or less if it is
smaller than a tenth. -/
def pointPlace (m : Nat) (e : Int) : Int :=
  let down := (-e).toNat
  Int.ofNat (digitCount (m * scaleUp e * Nat.pow 5 down)) - down

/-- Whether `n * 10 ^ place` lies in the interval. -/
def Rounds.holds (r : Rounds) (n : Nat) (place : Int) : Bool :=
  let x := n * Nat.pow 10 place.toNat * r.den
  let scale := Nat.pow 10 (-place).toNat
  if r.closed then r.low * scale ≤ x && x ≤ r.high * scale
  else r.low * scale < x && x < r.high * scale

/-- The two neighbours of the number on the grid of the multiples of `10 ^ place`: the lower one,
and twice the number's distance from it in units of the grid, over the given denominator. -/
def Rounds.below (r : Rounds) (place : Int) : Nat × Nat × Nat :=
  let num := r.value * Nat.pow 10 (-place).toNat
  let den := r.den * Nat.pow 10 place.toNat
  (num / den, 2 * (num % den), den)

/-- The nearest decimal of the grid in the interval, if there is one. -/
def Rounds.nearest? (r : Rounds) (tie : Decimal.Tie) (place : Int) : Option Nat :=
  let (n, twice, den) := r.below place
  match r.holds n place, r.holds (n + 1) place with
  | false, false => none
  | true, false => some n
  | false, true => some (n + 1)
  | true, true =>
      if twice < den then some n
      else if den < twice then some (n + 1)
      else
        match tie with
        | .up => some (n + 1)
        | .even => some (n + n % 2)

/-- The first grid with a decimal in the interval, tried from `count` digits on. -/
def Rounds.search (r : Rounds) (tie : Decimal.Tie) (point : Int) : Nat → Nat → Decimal
  | 0, count => ⟨(r.below (point - count)).1, point - count⟩
  | tries + 1, count =>
      match r.nearest? tie (point - count) with
      | some n => ⟨n, point - count⟩
      | none => r.search tie point tries (count + 1)

/-- The shortest decimal that rounds to a positive number.  Seventeen digits tell any two numbers
of either format apart. -/
def shortest (f : Format) (tie : Decimal.Tie) (m : Nat) (e : Int) : Decimal :=
  (interval f m e).search tie (pointPlace m e) 17 1

end Binary

/-- The digits of a positive decimal without the zeros at its end, and the place of the decimal
point counted from the first digit. -/
def Decimal.significant (d : Decimal) : List Char × Int :=
  let digits := Nat.toDigits 10 d.digits
  ((digits.reverse.dropWhile (· == '0')).reverse, digits.length + d.exponent)

end WhereClause

/-
**How floating-point numbers are written.**

Two texts of a number are in use: the plain one, in which every digit has its place and a whole
number has no fraction, and the one of documents, in which very large and very small numbers have
an exponent and a whole number keeps `.0`.  Both write the fewest digits that read back; what
differs is one record of decisions.

Main definitions:

* `WhereClause.NumberStyle` — the decisions;
* `WhereClause.NumberStyle.plain`, `WhereClause.NumberStyle.document` — the two styles;
* `WhereClause.Binary.text` — a number in a style.
-/

import WhereClause.Number.Shortest

set_option autoImplicit false

namespace WhereClause

open Text

/-- The decisions of a style of writing numbers. -/
structure NumberStyle where
  /-- Whether a number `d.ddd * 10 ^ e` is written with every digit in its place. -/
  positional : Int → Bool
  /-- What follows the digits of a whole number in place. -/
  wholeMark : String
  /-- Half-way between two shortest decimals. -/
  tie : Decimal.Tie
  /-- The text of an infinity behind its sign. -/
  infinity : Option String
  /-- The text of not-a-number, and of infinities without a text of their own. -/
  nan : String

/-- Every digit in its place, and no fraction where there is none. -/
def NumberStyle.plain : NumberStyle where
  positional := fun _ => true
  wholeMark := ""
  tie := .up
  infinity := some "inf"
  nan := "NaN"

/-- In documents, an exponent from `10 ^ 16` on and below `10 ^ -5`; for single numbers from
`10 ^ 13` on and below `10 ^ -6`.  What is no number is `null`. -/
def NumberStyle.document (f : Format) : NumberStyle where
  positional := fun e => if f = .single then -6 ≤ e && e < 13 else -5 ≤ e && e < 16
  wholeMark := ".0"
  tie := .even
  infinity := none
  nan := "null"

/-- Digits written in their places around the decimal point. -/
def NumberStyle.inPlace (style : NumberStyle) (digits : List Char) (point : Int) : String :=
  let count : Int := digits.length
  if point ≤ 0 then
    "0." ++ String.ofList (List.replicate (-point).toNat '0' ++ digits)
  else if count ≤ point then
    String.ofList (digits ++ List.replicate (point - count).toNat '0') ++ style.wholeMark
  else
    String.ofList (digits.take point.toNat) ++ "." ++ String.ofList (digits.drop point.toNat)

/-- Digits written with the point behind the first and a signed exponent. -/
def NumberStyle.withExponent (digits : List Char) (e : Int) : String :=
  let fraction := match digits.drop 1 with
    | [] => ""
    | rest => "." ++ String.ofList rest
  let sign := if e < 0 then "-" else "+"
  String.ofList (digits.take 1) ++ fraction ++ "e" ++ sign ++ decimal e.natAbs

/-- A number in a style. -/
def Binary.text {f : Format} (style : NumberStyle) : Binary f → String
  | .nan => style.nan
  | .infinite negative =>
      match style.infinity with
      | none => style.nan
      | some word => if negative then "-" ++ word else word
  | .finite negative m e =>
      let sign := if negative then "-" else ""
      if m = 0 then sign ++ "0" ++ style.wholeMark
      else
        let (digits, point) := (Binary.shortest f style.tie m e).significant
        if style.positional (point - 1) then sign ++ style.inPlace digits point
        else sign ++ NumberStyle.withExponent digits (point - 1)

end WhereClause

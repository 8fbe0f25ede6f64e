/-
**Letters and digits of ASCII.**

Operator names, type names, direction words and dialect names are compared without regard to the
case of the twenty-six ASCII letters, and no other character has a case here.

Main definitions:

* `WhereClause.Text.lowered` — a string with its ASCII capitals in lower case;
* `WhereClause.Text.sameLetters` — equality up to the case of ASCII letters;
* `WhereClause.Text.digit?` — the value of a decimal digit;
* `WhereClause.Text.hexDigit?` — the value of a hexadecimal digit.
-/

set_option autoImplicit false

namespace WhereClause.Text

/-- A string with its ASCII capitals replaced by small letters. -/
def lowered (s : String) : String := String.ofList (s.toList.map Char.toLower)

/-- Equality of two texts up to the case of ASCII letters. -/
def sameLetters (s t : List Char) : Bool := s.map Char.toLower == t.map Char.toLower

/-- An ASCII letter. -/
def isLetter (c : Char) : Bool := ('a' ≤ c && c ≤ 'z') || ('A' ≤ c && c ≤ 'Z')

/-- An ASCII decimal digit. -/
def isDigit (c : Char) : Bool := '0' ≤ c && c ≤ '9'

/-- The value of an ASCII decimal digit. -/
def digit? (c : Char) : Option Nat :=
  if isDigit c then some (c.toNat - '0'.toNat) else none

/-- The value of an ASCII hexadecimal digit, in either case. -/
def hexDigit? (c : Char) : Option Nat :=
  if isDigit c then some (c.toNat - '0'.toNat)
  else if 'a' ≤ c && c ≤ 'f' then some (c.toNat - 'a'.toNat + 10)
  else if 'A' ≤ c && c ≤ 'F' then some (c.toNat - 'A'.toNat + 10)
  else none

/-- The number that a run of decimal digits writes; other characters count as zero. -/
def digitsValue (digits : List Char) : Nat :=
  digits.foldl (fun n c => n * 10 + (digit? c).getD 0) 0

/-- A natural number in decimal digits. -/
def decimal (n : Nat) : String := String.ofList (Nat.toDigits 10 n)

/-- An integer in decimal digits, with a minus sign below zero. -/
def decimalInt : Int → String
  | .ofNat n => decimal n
  | .negSucc n => "-" ++ decimal (n + 1)

/-- A number in at least `width` digits, filled up with zeros on the left. -/
def padded (width n : Nat) : String :=
  let digits := Nat.toDigits 10 n
  String.ofList (List.replicate (width - digits.length) '0' ++ digits)

end WhereClause.Text

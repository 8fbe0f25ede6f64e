/-
**Numbers, dates and words in a TOML document.**

A scalar without quotes is the longest run of characters that can stand in one, and all of it must
be a word, a number, a date or a time.  Between a date and a time there may be a blank instead of
the letter.

Main definitions:

* `WhereClause.Toml.readInteger?` — whole numbers of 64 bits, in four bases;
* `WhereClause.Toml.readFloat?` — numbers with a fraction or an exponent;
* `WhereClause.Toml.isMoment` — dates and times;
* `WhereClause.Toml.readBare` — a scalar without quotes.
-/

import WhereClause.Number.Decimal
import WhereClause.Text.Ascii
import WhereClause.Text.Split
import WhereClause.Toml.Basic

set_option autoImplicit false

namespace WhereClause.Toml

open Text

/-! ### Numbers -/

/-- The values of some digits, where a single underscore may stand between two of them. -/
def groupedDigits? (digit : Char → Option Nat) : List Char → Option (List Nat)
  | [] => none
  | [c] => (digit c).map fun d => [d]
  | c :: '_' :: rest =>
      match digit c, groupedDigits? digit rest with
      | some d, some ds => some (d :: ds)
      | _, _ => none
  | c :: rest =>
      match digit c, groupedDigits? digit rest with
      | some d, some ds => some (d :: ds)
      | _, _ => none

/-- The number that some digits write in a base. -/
def valueIn (base : Nat) (digits : List Nat) : Nat := digits.foldl (fun n d => n * base + d) 0

/-- A digit of a base up to sixteen. -/
def digitIn? (base : Nat) (c : Char) : Option Nat :=
  match hexDigit? c with
  | none => none
  | some d => if d < base then some d else none

/-- A text without a sign at its beginning, and whether that was a minus. -/
def splitSign : List Char → Bool × List Char
  | '+' :: rest => (false, rest)
  | '-' :: rest => (true, rest)
  | s => (false, s)

/-- The magnitude of a decimal number, which has no zero in front. -/
def readMagnitude? (s : List Char) : Option Nat :=
  match groupedDigits? digit? s with
  | none => none
  | some [d] => some d
  | some (d :: ds) => if d = 0 then none else some (valueIn 10 (d :: ds))
  | some [] => none

/-- A whole number that fits 64 bits. -/
def fitting? (negative : Bool) (n : Nat) : Option Int :=
  if negative then if n ≤ Nat.pow 2 63 then some (-(n : Int)) else none
  else if n < Nat.pow 2 63 then some n
  else none

/-- A whole number. -/
def readInteger? (s : List Char) : Option Int :=
  let inBase := fun (base : Nat) (digits : List Char) =>
    (groupedDigits? (digitIn? base) digits).bind fun ds => fitting? false (valueIn base ds)
  match s with
  | '0' :: 'x' :: digits => inBase 16 digits
  | '0' :: 'o' :: digits => inBase 8 digits
  | '0' :: 'b' :: digits => inBase 2 digits
  | _ =>
      let (negative, magnitude) := splitSign s
      (readMagnitude? magnitude).bind (fitting? negative)

/-- Whether a text is an exponent behind its letter. -/
def isExponent (s : List Char) : Bool := (groupedDigits? digit? (splitSign s).2).isSome

/-- Whether a text is a decimal number with a fraction or an exponent. -/
def isDecimal (s : List Char) : Bool :=
  let isMark := fun (c : Char) => c == 'e' || c == 'E'
  let significand := (splitSign s).2.takeWhile fun c => !isMark c
  let scale := (splitSign s).2.dropWhile fun c => !isMark c
  let scaled := match scale with
    | [] => true
    | _ :: exponent => isExponent exponent
  match cutFirst? '.' significand with
  | none => scaled && !scale.isEmpty && (readMagnitude? significand).isSome
  | some (whole, fraction) =>
      scaled && (readMagnitude? whole).isSome && (groupedDigits? digit? fraction).isSome

/-- A number with a fraction or an exponent, or one of the words for infinity and no number.  A
number above the largest double is refused; one below the smallest is not. -/
def readFloat? (s : List Char) : Option (Binary .double) :=
  let (_, magnitude) := splitSign s
  let value := (Binary.read .double (s.filter (· != '_'))).toOption
  if magnitude == "inf".toList || magnitude == "nan".toList then value
  else if isDecimal s then
    match value with
    | some x => if x.isInfinite && (splitSign s).1 == false then none else some x
    | none => none
  else none

/-! ### Dates and times -/

/-- The number that two digits write, if it is in a range. -/
def twoDigits? (low high : Nat) (c d : Char) : Option Nat :=
  match digit? c, digit? d with
  | some a, some b => if low ≤ a * 10 + b ∧ a * 10 + b ≤ high then some (a * 10 + b) else none
  | _, _ => none

/-- The days of a month. -/
def daysIn (year month : Nat) : Nat :=
  if month = 2 then
    if year % 4 = 0 ∧ (year % 100 ≠ 0 ∨ year % 400 = 0) then 29 else 28
  else if month = 4 ∨ month = 6 ∨ month = 9 ∨ month = 11 then 30
  else 31

/-- What follows a date. -/
def dropDate? : List Char → Option (List Char)
  | y₁ :: y₂ :: y₃ :: y₄ :: '-' :: m₁ :: m₂ :: '-' :: d₁ :: d₂ :: rest =>
      match twoDigits? 0 99 y₁ y₂, twoDigits? 0 99 y₃ y₄, twoDigits? 1 12 m₁ m₂ with
      | some century, some year, some month =>
          (twoDigits? 1 (daysIn (century * 100 + year) month) d₁ d₂).map fun _ => rest
      | _, _, _ => none
  | _ => none

/-- What follows the fraction of a second, if there is one. -/
def dropFraction : List Char → List Char
  | '.' :: c :: rest => if isDigit c then rest.dropWhile isDigit else '.' :: c :: rest
  | s => s

/-- What follows a time of day. -/
def dropTime? : List Char → Option (List Char)
  | h₁ :: h₂ :: ':' :: m₁ :: m₂ :: ':' :: s₁ :: s₂ :: rest =>
      match twoDigits? 0 23 h₁ h₂, twoDigits? 0 59 m₁ m₂, twoDigits? 0 60 s₁ s₂ with
      | some _, some _, some _ => some (dropFraction rest)
      | _, _, _ => none
  | _ => none

/-- Whether a text is a distance from universal time, or empty. -/
def isOffset : List Char → Bool
  | [] => true
  | ['Z'] => true
  | ['z'] => true
  | [sign, h₁, h₂, ':', m₁, m₂] =>
      (sign == '+' || sign == '-') && (twoDigits? 0 23 h₁ h₂).isSome &&
        (twoDigits? 0 59 m₁ m₂).isSome
  | _ => false

/-- Whether a text is a time of day, possibly with its distance from universal time. -/
def isZonedTime (s : List Char) : Bool :=
  match dropTime? s with
  | none => false
  | some rest => isOffset rest

/-- Whether a text is a date, a time of day, or a date and a time with a letter between them. -/
def isMoment (s : List Char) : Bool :=
  match dropDate? s with
  | some [] => true
  | some ('T' :: time) => isZonedTime time
  | some ('t' :: time) => isZonedTime time
  | some _ => false
  | none => dropTime? s == some []

/-! ### Scalars -/

/-- A character that may stand in a scalar without quotes. -/
def isScalarChar (c : Char) : Bool :=
  isLetter c || isDigit c || c == '+' || c == '-' || c == '_' || c == '.' || c == ':'

/-- The value of a scalar without quotes. -/
def scalar? (s : List Char) : Option Toml :=
  if s == "true".toList then some (.boolean true)
  else if s == "false".toList then some (.boolean false)
  else if isMoment s then some (.moment (String.ofList s))
  else
    match readFloat? s with
    | some x => some (.float x)
    | none => (readInteger? s).map Toml.integer

/-- A scalar without quotes.  A date, one blank and the beginning of another scalar are one scalar,
a date and a time. -/
def readBare (s : List Char) : Option (Toml × List Char) :=
  let token := s.takeWhile isScalarChar
  let rest := s.dropWhile isScalarChar
  let time := match dropDate? token, rest with
    | some [], ' ' :: rest => rest.takeWhile isScalarChar
    | _, _ => []
  if time.isEmpty then (scalar? token).map fun v => (v, rest)
  else if isZonedTime time then
    some (.moment (String.ofList (token ++ 'T' :: time)), rest.drop (time.length + 1))
  else none

end WhereClause.Toml

/-
**Reading dates and times.**

A date is written year, month, day with hyphens between, a time hour, minute, second with colons
between, a date and time as both.  Reading goes from left to right, number by number, and the first
thing that is wrong decides.  Blanks may stand before any number; what is left over at the end is a
fault of its own, found before the day is looked up in its month.

Main definitions:

* `WhereClause.Calendar.Fault` — why a text is no date or time;
* `WhereClause.Calendar.readNumber`, `WhereClause.Calendar.readYear` — the numbers;
* `WhereClause.Date.read`, `WhereClause.TimeOfDay.read`, `WhereClause.DateTime.read` — the readers.
-/

import WhereClause.Calendar.Basic
import WhereClause.Text.Blank

set_option autoImplicit false

namespace WhereClause

open Text

namespace Calendar

/-- Why a text is no date or time. -/
inductive Fault where
  /-- A number is outside its range, or the day does not exist. -/
  | outOfRange
  /-- Something else stands where a number or a mark is required. -/
  | invalid
  /-- The text ends too early. -/
  | tooShort
  /-- There is text left over. -/
  | tooLong
deriving DecidableEq, Repr

/-- The wording of a fault. -/
def Fault.message : Fault → String
  | .outOfRange => "input is out of range"
  | .invalid => "input contains invalid characters"
  | .tooShort => "premature end of input"
  | .tooLong => "trailing input"

/-- The largest number that is read at all. -/
def largest : Nat := Nat.pow 2 63 - 1

/-- Read at most `limit` further digits onto `n`. -/
def readDigits (limit : Nat) (n : Nat) : List Char → Except Fault (Nat × List Char)
  | [] => .ok (n, [])
  | c :: rest =>
      match limit, digit? c with
      | 0, _ => .ok (n, c :: rest)
      | _, none => .ok (n, c :: rest)
      | limit + 1, some d =>
          if n * 10 + d ≤ largest then readDigits limit (n * 10 + d) rest else .error .outOfRange

/-- A number of one to `limit` digits. -/
def readUnsigned (limit : Nat) (s : List Char) : Except Fault (Nat × List Char) :=
  match s with
  | [] => .error .tooShort
  | c :: _ => if isDigit c then readDigits limit 0 s else .error .invalid

/-- A number of one or two digits within a range, with blanks before it. -/
def readNumber (least greatest : Nat) (s : List Char) : Except Fault (Nat × List Char) := do
  let (n, rest) ← readUnsigned 2 (trimStart s)
  if least ≤ n ∧ n ≤ greatest then .ok (n, rest) else .error .outOfRange

/-- A year with blanks before it: one to four digits, or after a sign any number of them. -/
def readYear (s : List Char) : Except Fault (Int × List Char) := do
  let (year, rest) ← match trimStart s with
    | '-' :: digits => do
        let (n, rest) ← readUnsigned digits.length digits
        pure (-(n : Int), rest)
    | '+' :: digits => do
        let (n, rest) ← readUnsigned digits.length digits
        pure ((n : Int), rest)
    | digits => do
        let (n, rest) ← readUnsigned 4 digits
        pure ((n : Int), rest)
  if -(Int.pow 2 31) ≤ year ∧ year < Int.pow 2 31 then .ok (year, rest) else .error .outOfRange

/-- A mark that has to stand next. -/
def readMark (mark : Char) : List Char → Except Fault (List Char)
  | [] => .error .tooShort
  | c :: rest => if c = mark then .ok rest else .error .invalid

/-- The three numbers of a date. -/
def readDateParts (s : List Char) : Except Fault ((Int × Nat × Nat) × List Char) := do
  let (year, s) ← readYear s
  let s ← readMark '-' s
  let (month, s) ← readNumber 1 12 s
  let s ← readMark '-' s
  let (day, s) ← readNumber 1 31 s
  pure ((year, month, day), s)

/-- The three numbers of a time. -/
def readTimeParts (s : List Char) : Except Fault ((Nat × Nat × Nat) × List Char) := do
  let (hour, s) ← readNumber 0 23 s
  let s ← readMark ':' s
  let (minute, s) ← readNumber 0 59 s
  let s ← readMark ':' s
  let (second, s) ← readNumber 0 60 s
  pure ((hour, minute, second), s)

/-- Nothing may be left over. -/
def readEnd : List Char → Except Fault Unit
  | [] => .ok ()
  | _ => .error .tooLong

end Calendar

open Calendar

/-- The day that a text writes. -/
def Date.read (s : List Char) : Except Fault Date := do
  let ((year, month, day), s) ← readDateParts s
  readEnd s
  match Date.of? year month day with
  | some d => pure d
  | none => throw .outOfRange

/-- The time of day that a text writes. -/
def TimeOfDay.read (s : List Char) : Except Fault TimeOfDay := do
  let ((hour, minute, second), s) ← readTimeParts s
  readEnd s
  match TimeOfDay.of? hour minute second with
  | some t => pure t
  | none => throw .outOfRange

/-- The day and time that a text writes, with any blanks or none between the two. -/
def DateTime.read (s : List Char) : Except Fault DateTime := do
  let ((year, month, day), s) ← readDateParts s
  let ((hour, minute, second), s) ← readTimeParts (trimStart s)
  readEnd s
  match Date.of? year month day, TimeOfDay.of? hour minute second with
  | some d, some t => pure ⟨d, t⟩
  | _, _ => throw .outOfRange

end WhereClause

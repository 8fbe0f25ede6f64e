/-
**Dates and times of day.**

The calendar is the proleptic Gregorian one, over the years from -262143 to 262142.  A time of day
has whole seconds, and the second 60 is kept as a leap second wherever it is written.

Main definitions:

* `WhereClause.Date`, `WhereClause.TimeOfDay`, `WhereClause.DateTime` — the types, which hold only
  days and times that exist;
* `WhereClause.Date.daysIn` — the length of a month;
* `WhereClause.Date.of?`, `WhereClause.TimeOfDay.of?` — the day or time with given numbers, if it
  exists;
* `text` of each type — its written form.
-/

import WhereClause.Text.Ascii

set_option autoImplicit false

namespace WhereClause

open Text

/-- A leap year of the Gregorian calendar. -/
def isLeapYear (year : Int) : Bool :=
  year % 4 == 0 && (year % 100 != 0 || year % 400 == 0)

/-- The number of days of a month. -/
def Date.daysIn (year : Int) (month : Nat) : Nat :=
  if month = 2 then if isLeapYear year then 29 else 28
  else if month = 4 ∨ month = 6 ∨ month = 9 ∨ month = 11 then 30
  else 31

/-- A day of the calendar. -/
structure Date where
  year : Int
  month : Nat
  day : Nat
  year_mem : -262143 ≤ year ∧ year ≤ 262142
  month_mem : 1 ≤ month ∧ month ≤ 12
  day_mem : 1 ≤ day ∧ day ≤ Date.daysIn year month
deriving DecidableEq, Repr

/-- A time of day in whole seconds. -/
structure TimeOfDay where
  hour : Nat
  minute : Nat
  second : Nat
  hour_lt : hour < 24
  minute_lt : minute < 60
  second_le : second ≤ 60
deriving DecidableEq, Repr

/-- A day and a time on it. -/
structure DateTime where
  date : Date
  time : TimeOfDay
deriving DecidableEq, Repr

/-- The day with the given numbers, if there is one. -/
def Date.of? (year : Int) (month day : Nat) : Option Date :=
  if hy : -262143 ≤ year ∧ year ≤ 262142 then
    if hm : 1 ≤ month ∧ month ≤ 12 then
      if hd : 1 ≤ day ∧ day ≤ Date.daysIn year month then some ⟨year, month, day, hy, hm, hd⟩
      else none
    else none
  else none

/-- The time with the given numbers, if there is one. -/
def TimeOfDay.of? (hour minute second : Nat) : Option TimeOfDay :=
  if hh : hour < 24 then
    if hm : minute < 60 then
      if hs : second ≤ 60 then some ⟨hour, minute, second, hh, hm, hs⟩ else none
    else none
  else none

@[simp] theorem Date.of?_self (d : Date) : Date.of? d.year d.month d.day = some d := by
  simp [Date.of?, d.year_mem, d.month_mem, d.day_mem]

@[simp] theorem TimeOfDay.of?_self (t : TimeOfDay) :
    TimeOfDay.of? t.hour t.minute t.second = some t := by
  simp [TimeOfDay.of?, t.hour_lt, t.minute_lt, t.second_le]

/-- A year in at least four digits; years before 0 and after 9999 carry a sign. -/
def Date.yearText (year : Int) : String :=
  if year < 0 then "-" ++ padded 4 year.natAbs
  else if 9999 < year then "+" ++ padded 4 year.natAbs
  else padded 4 year.natAbs

/-- A day as year, month and day. -/
def Date.text (d : Date) : String :=
  Date.yearText d.year ++ "-" ++ padded 2 d.month ++ "-" ++ padded 2 d.day

/-- A time as hour, minute and second. -/
def TimeOfDay.text (t : TimeOfDay) : String :=
  padded 2 t.hour ++ ":" ++ padded 2 t.minute ++ ":" ++ padded 2 t.second

/-- A day and a time with a given text between them. -/
def DateTime.text (between : String) (x : DateTime) : String :=
  x.date.text ++ between ++ x.time.text

end WhereClause

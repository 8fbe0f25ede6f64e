/-
**Typed values.**

A value is what a predicate binds: nothing, a scalar of one of the types, a list, or a pair of
bounds.  Values travel beside the text of a predicate and never inside it; the texts given here are
the ones shown to people and the ones put into reports.

Main definitions:

* `WhereClause.Value`, `WhereClause.Shape` — values and their shapes;
* `WhereClause.Value.display` — the text shown to people;
* `WhereClause.Value.toJson` — the value in a report, without its type;
* `WhereClause.Value.toDouble?`, `WhereClause.Value.text?` — a number as a double, a string as
  itself;
* `WhereClause.Value.comparesEqual` — equality in which numbers are compared as numbers.
-/

import WhereClause.Calendar.Basic
import WhereClause.Json.Basic
import WhereClause.Number.Style

set_option autoImplicit false

namespace WhereClause

open Text

/-- The shape of a value, whatever its type. -/
inductive Shape where
  | scalar
  | array
  | range
  | null
deriving DecidableEq, Repr

/-- The name of a shape. -/
def Shape.name : Shape → String
  | .scalar => "scalar"
  | .array => "array"
  | .range => "range"
  | .null => "null"

/-- A typed value. -/
inductive Value where
  | null
  | bool (b : Bool)
  | string (s : String)
  | int (n : Int32)
  | int64 (n : Int64)
  | float (x : Binary .single)
  | float64 (x : Binary .double)
  | uint (n : UInt64)
  | date (d : Date)
  | time (t : TimeOfDay)
  | dateTime (x : DateTime)
  | array (items : List Value)
  /-- The bounds of an interval, both of which belong to it. -/
  | range (lower upper : Value)
deriving Repr, Inhabited

namespace Value

/-- The shape of a value. -/
def shape : Value → Shape
  | null => .null
  | array _ => .array
  | range _ _ => .range
  | _ => .scalar

/-- The double nearest to a number. -/
def toDouble? : Value → Option (Binary .double)
  | int n => some (Binary.ofInt .double n.toInt)
  | int64 n => some (Binary.ofInt .double n.toInt)
  | float x => some x.widen
  | float64 x => some x
  | uint n => some (Binary.ofInt .double n.toNat)
  | _ => none

/-- The text of a string value. -/
def text? : Value → Option String
  | string s => some s
  | _ => none

/-! ### The text shown to people -/

mutual

/-- The text shown to people: strings, dates and times in single quotes. -/
def display : Value → String
  | null => "NULL"
  | bool true => "true"
  | bool false => "false"
  | string s => "'" ++ s ++ "'"
  | int n => decimalInt n.toInt
  | int64 n => decimalInt n.toInt
  | float x => x.text .plain
  | float64 x => x.text .plain
  | uint n => decimal n.toNat
  | date d => "'" ++ d.text ++ "'"
  | time t => "'" ++ t.text ++ "'"
  | dateTime x => "'" ++ x.text " " ++ "'"
  | array [] => "[]"
  | array (item :: items) => "[" ++ display item ++ displayItems items
  | range lower upper => display lower ++ " .. " ++ display upper

/-- The items after the first one, and the bracket that closes the list. -/
def displayItems : List Value → String
  | [] => "]"
  | item :: items => ", " ++ display item ++ displayItems items

end

/-! ### Reports -/

mutual

/-- The value in a report: bounds become a list of two, dates and times become strings. -/
def toJson : Value → Json
  | null => .null
  | bool b => .bool b
  | string s => .string s
  | int n => .integer n.toInt
  | int64 n => .integer n.toInt
  | float x => .single x
  | float64 x => .double x
  | uint n => .integer n.toNat
  | date d => .string d.text
  | time t => .string t.text
  | dateTime x => .string (x.text "T")
  | array items => .array (itemsToJson items)
  | range lower upper => .array [toJson lower, toJson upper]

/-- The values of a list in a report. -/
def itemsToJson : List Value → List Json
  | [] => []
  | item :: items => toJson item :: itemsToJson items

end

/-! ### Comparison -/

mutual

/-- Equality of values, with numbers of a binary format compared as numbers: not-a-number differs
from itself. -/
def comparesEqual : Value → Value → Bool
  | null, null => true
  | bool a, bool b => a == b
  | string a, string b => a == b
  | int a, int b => a == b
  | int64 a, int64 b => a == b
  | float a, float b => a.comparesEqual b
  | float64 a, float64 b => a.comparesEqual b
  | uint a, uint b => a == b
  | date a, date b => a == b
  | time a, time b => a == b
  | dateTime a, dateTime b => a == b
  | array as, array bs => itemsCompareEqual as bs
  | range a b, range c d => comparesEqual a c && comparesEqual b d
  | _, _ => false

/-- Equality of lists of values, item by item. -/
def itemsCompareEqual : List Value → List Value → Bool
  | [], [] => true
  | a :: as, b :: bs => comparesEqual a b && itemsCompareEqual as bs
  | _, _ => false

end

end Value

end WhereClause

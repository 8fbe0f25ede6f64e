/-
**The types a value can be declared with.**

Main definitions:

* `WhereClause.DataType` — the ten types;
* `WhereClause.DataType.name`, `WhereClause.DataType.ofName?` — their names, in small letters only.

Main results:

* `WhereClause.DataType.ofName?_eq_some_iff` — a name is read exactly as the type it names.
-/

set_option autoImplicit false

namespace WhereClause

/-- A declared type. -/
inductive DataType where
  | string
  | int
  | int64
  | float
  | float64
  | uint
  | uint64
  | date
  | time
  | dateTime
deriving DecidableEq, Repr, Inhabited

namespace DataType

/-- Every type, once. -/
def all : List DataType := [string, int, int64, float, float64, uint, uint64, date, time, dateTime]

theorem mem_all (t : DataType) : t ∈ all := by cases t <;> decide

/-- The name of a type. -/
def name : DataType → String
  | string => "string"
  | int => "int"
  | int64 => "int64"
  | float => "float"
  | float64 => "float64"
  | uint => "uint"
  | uint64 => "uint64"
  | date => "date"
  | time => "time"
  | dateTime => "datetime"

/-- The type with a given name. -/
def ofName? (s : String) : Option DataType := all.find? fun t => t.name == s

@[simp] theorem ofName?_name (t : DataType) : ofName? t.name = some t := by cases t <;> decide

/-- A name is read exactly as the type it names. -/
theorem ofName?_eq_some_iff {s : String} {t : DataType} : ofName? s = some t ↔ s = t.name := by
  constructor
  · intro h
    have := List.find?_some h
    exact (beq_iff_eq.1 this).symm
  · rintro rfl
    exact ofName?_name t

end DataType

end WhereClause

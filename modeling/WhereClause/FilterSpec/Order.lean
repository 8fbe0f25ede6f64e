/-
**Order and pagination.**

An order expression is a column, alone, behind a minus sign, or before one of the words `asc` and
`desc`.  Only letters, digits, underscores and dots may stand in a column, so that its quoted form
holds nothing else.

Main definitions:

* `WhereClause.OrderItem` — a column and its direction;
* `WhereClause.OrderItem.read?` — an order expression;
* `WhereClause.FilterSpec.orderBy` — the order of a filter document in a dialect;
* `WhereClause.FilterSpec.limitOffset` — its pagination.
-/

import WhereClause.Dialect.Basic
import WhereClause.FilterSpec.Basic
import WhereClause.Text.Blank

set_option autoImplicit false

namespace WhereClause

open Text

/-- A column and the direction in which it is sorted. -/
structure OrderItem where
  column : String
  descending : Bool
deriving DecidableEq, Repr

namespace OrderItem

/-- A character that may stand in the column of an order expression. -/
def isColumnChar (c : Char) : Bool := isLetter c || isDigit c || c == '_' || c == '.'

/-- A column with its direction, if it may be sorted by. -/
def ofColumn? (column : List Char) (descending : Bool) : Option OrderItem :=
  if !column.isEmpty && column.all isColumnChar then
    some { column := String.ofList column, descending := descending }
  else none

/-- The direction that a word names, without regard to the case of its letters. -/
def direction? (word : List Char) : Option Bool :=
  if sameLetters word "asc".toList then some false
  else if sameLetters word "desc".toList then some true
  else none

/-- An order expression. -/
def read? (expression : String) : Option OrderItem :=
  match words expression.toList with
  | [word] =>
      match dropLead? ['-'] word with
      | some column => ofColumn? column true
      | none => ofColumn? word false
  | [word, direction] =>
      match dropLead? ['-'] word with
      | some _ => none
      | none =>
          match direction? direction with
          | none => none
          | some descending => ofColumn? word descending
  | _ => none

/-- The text of a column and its direction. -/
def text (d : Dialect) (item : OrderItem) : String :=
  d.quote item.column ++ if item.descending then " DESC" else " ASC"

end OrderItem

/-- The items of order expressions; the first one that names no column and direction decides. -/
def readOrders : List String → Except Failure (List OrderItem)
  | [] => .ok []
  | expression :: rest =>
      match OrderItem.read? expression with
      | none => .error (.invalidOrder expression)
      | some item =>
          match readOrders rest with
          | .error failure => .error failure
          | .ok items => .ok (item :: items)

namespace FilterSpec

/-- The order of a filter document in a dialect, if it asks for one. -/
def orderBy (spec : FilterSpec) (d : Dialect) : Except Failure (Option String) :=
  match readOrders spec.orders with
  | .error failure => .error failure
  | .ok [] => .ok none
  | .ok items => .ok (some ("ORDER BY " ++ ", ".intercalate (items.map (OrderItem.text d))))

/-- What follows a query for the limit and offset of a filter document. -/
def limitOffset (spec : FilterSpec) (d : Dialect) : String := d.limitOffset spec.limit? spec.offset?

end FilterSpec

end WhereClause

/-
**Filter documents.**

A filter document goes with the terms of a request: the columns to return, the order of the rows,
how many of them, and free variables.  A limit or an offset below zero is none.

Main definitions:

* `WhereClause.FilterSpec` — the document;
* `WhereClause.FilterSpec.limit?`, `WhereClause.FilterSpec.offset?` — limit and offset, if set;
* `WhereClause.FilterSpec.var?` — a variable;
* `WhereClause.FilterSpec.toJson` — the document as JSON.
-/

import WhereClause.Json.Writer

set_option autoImplicit false

namespace WhereClause

/-- What goes with the terms of a request. -/
structure FilterSpec where
  /-- The columns to return; all of them, if there is none. -/
  fields : List String := []
  /-- The order expressions. -/
  orders : List String := []
  limit : Int64 := -1
  offset : Int64 := -1
  /-- The variables, sorted by name. -/
  vars : List (String × Json) := []
deriving Repr, Inhabited

/-- A count, if it is one. -/
def countOf? (n : Int64) : Option Nat := if 0 ≤ n.toInt then some n.toInt.toNat else none

namespace FilterSpec

/-- The most rows to return. -/
def limit? (spec : FilterSpec) : Option Nat := countOf? spec.limit

/-- The rows to skip. -/
def offset? (spec : FilterSpec) : Option Nat := countOf? spec.offset

/-- The value of a variable. -/
def var? (spec : FilterSpec) (name : String) : Option Json := Json.member? name spec.vars

/-- Whether a document says nothing. -/
def isDefault (spec : FilterSpec) : Bool :=
  spec.fields.isEmpty && spec.orders.isEmpty && spec.limit == -1 && spec.offset == -1 &&
    spec.vars.isEmpty

/-- A document as JSON, with all its members. -/
def toJson (spec : FilterSpec) : Json :=
  .object
    [("fields", .array (spec.fields.map Json.string)),
      ("orders", .array (spec.orders.map Json.string)),
      ("limit", .integer spec.limit.toInt), ("offset", .integer spec.offset.toInt),
      ("vars", .object spec.vars)]

end FilterSpec

end WhereClause

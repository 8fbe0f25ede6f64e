/-
**Filter terms.**

A term is one condition of a request: a column, an operator and a value.  A look-up in a document
may carry a comparison of what is found there, and that comparison may itself be a look-up, so a
term is a comparison followed by the chain of the comparisons below it.

Main definitions:

* `WhereClause.Comparison` — one comparison, with everything its rendering needs;
* `WhereClause.Term` — a comparison and the chain below it, outermost first;
* `WhereClause.Term.verbatim` — a term that keeps its text uncast;
* `WhereClause.Term.rebind` — the same condition on another column;
* `WhereClause.Term.display`, `WhereClause.Term.toJson` — the text and the report of a term;
* `WhereClause.Term.comparesEqual` — equality in which numbers are compared as numbers.
-/

import WhereClause.DataType
import WhereClause.Operator
import WhereClause.Value

set_option autoImplicit false

namespace WhereClause

/-- A comparison of a column, or of what a look-up finds, with a value. -/
structure Comparison where
  /-- The column, or the name that is looked up. -/
  key : String
  operator : Operator
  /-- The text the value was read from. -/
  raw : String := ""
  value : Value := .null
  /-- The type declared behind the value. -/
  dataType : Option DataType := none
  /-- Whether the key is rendered as a quoted identifier. -/
  quoted : Bool := true
  /-- Whether the term is joined to the ones before it with OR. -/
  isOr : Bool := false
  /-- A cast behind the column. -/
  keyCast : Option String := none
  /-- A cast behind the placeholder. -/
  valueCast : Option String := none
deriving Repr, Inhabited

/-- The shape of the value. -/
def Comparison.shape (c : Comparison) : Shape := c.value.shape

/-- A condition: a comparison, and the comparisons below it if it is a look-up. -/
structure Term extends Comparison where
  /-- The comparisons below a look-up, outermost first. -/
  path : List Comparison := []
deriving Repr, Inhabited

namespace Term

/-- A comparison with the chain below it. -/
def ofChain (c : Comparison) (path : List Comparison) : Term := { c with path := path }

/-- The comparison directly below a look-up, as a term of its own. -/
def nested? (t : Term) : Option Term :=
  match t.path with
  | [] => none
  | c :: rest => some (ofChain c rest)

/-- A term that holds a text as it is. -/
def verbatim (key raw : String) : Term :=
  { key := key, operator := .eq, raw := raw, value := .string raw }

/-- The same condition on another column. -/
def rebind (t : Term) (key : String) : Term := { t with key := key, quoted := true }

@[simp] theorem rebind_key (t : Term) (key : String) : (t.rebind key).key = key := rfl

@[simp] theorem rebind_operator (t : Term) (key : String) :
    (t.rebind key).operator = t.operator := rfl

@[simp] theorem rebind_value (t : Term) (key : String) : (t.rebind key).value = t.value := rfl

end Term

/-! ### Texts -/

/-- The text of a comparison: column, operator, value and declared type. -/
def Comparison.display (c : Comparison) : String :=
  let hint := match c.dataType with
    | none => ""
    | some type => "::" ++ type.name
  c.key ++ " " ++ c.operator.name ++ " " ++ c.value.display ++ hint

/-- The text of a chain of comparisons, each one in parentheses behind the one above it. -/
def displayChain (c : Comparison) : List Comparison → String
  | [] => c.display
  | d :: rest => c.display ++ " (" ++ displayChain d rest ++ ")"

/-- The text of a term. -/
def Term.display (t : Term) : String := displayChain t.toComparison t.path

/-- A string in a report, or `null`. -/
def Json.ofString? : Option String → Json
  | none => .null
  | some s => .string s

/-- The members of a comparison in a report, with a report of what is below it. -/
def Comparison.toJson (c : Comparison) (below : Json) : Json :=
  .object
    [("key", .string c.key), ("operator", .string c.operator.name), ("raw", .string c.raw),
      ("value", c.value.toJson), ("data_type", Json.ofString? (c.dataType.map DataType.name)),
      ("quoted", .bool c.quoted), ("is_or", .bool c.isOr), ("path", below),
      ("key_cast", Json.ofString? c.keyCast), ("value_cast", Json.ofString? c.valueCast)]

/-- The report of a chain of comparisons. -/
def chainToJson (c : Comparison) : List Comparison → Json
  | [] => c.toJson .null
  | d :: rest => c.toJson (chainToJson d rest)

/-- The report of a term. -/
def Term.toJson (t : Term) : Json := chainToJson t.toComparison t.path

/-! ### Comparison -/

/-- Equality of comparisons, with numbers compared as numbers. -/
def Comparison.comparesEqual (a b : Comparison) : Bool :=
  a.key == b.key && a.operator == b.operator && a.raw == b.raw && a.value.comparesEqual b.value &&
    a.dataType == b.dataType && a.quoted == b.quoted && a.isOr == b.isOr &&
    a.keyCast == b.keyCast && a.valueCast == b.valueCast

/-- Equality of terms, with numbers compared as numbers. -/
def Term.comparesEqual (a b : Term) : Bool :=
  a.toComparison.comparesEqual b.toComparison && a.path.length == b.path.length &&
    (a.path.zip b.path).all fun (c, d) => c.comparesEqual d

end WhereClause

/-
**From pairs to terms.**

The value of a pair is cast into the operator that its key chooses.  The value of a look-up may
carry a comparison of what is found, as a pair of its own with exactly one equals sign; it is not
looked into for a further comparison.

Main definitions:

* `WhereClause.splitPath?` — the pair in the value of a look-up;
* `WhereClause.Dialect.parseSingle` — a pair without a comparison below it;
* `WhereClause.Dialect.parse` — a pair as a formatted term.
-/

import WhereClause.Key

set_option autoImplicit false

namespace WhereClause

open Text

/-- The name and the value in a text with exactly one equals sign and something before it. -/
def splitPath? (value : List Char) : Option (List Char × List Char) :=
  match cutFirst? '=' value with
  | none => none
  | some (key, rest) => if key.all isBlank || rest.contains '=' then none else some (key, rest)

namespace Dialect

/-- The term of a key before its value is read. -/
def startTerm (key : Key) (value : String) : Term :=
  { key := String.ofList key.column, operator := key.operator, raw := value, isOr := key.isOr }

/-- A pair as a formatted term, without a comparison below it. -/
def parseSingle (d : Dialect) (key value : String) : Except Failure Term := do
  let k := Key.read d key.toList
  let t := startTerm k value
  if k.operator.isJsonPath then d.format { t with value := .string value }
  else
    let t ← d.applyCast value t
    d.format t

/-- A comparison put below a look-up, where its key is no column. -/
def lookUp (t nested : Term) : Term :=
  { t with
    value := .string nested.key
    path := { nested.toComparison with quoted := false, isOr := false } :: nested.path }

/-- A pair as a formatted term. -/
def parse (d : Dialect) (key value : String) : Except Failure Term :=
  let k := Key.read d key.toList
  match if k.operator.isJsonPath then splitPath? value.toList else none with
  | none => d.parseSingle key value
  | some (subkey, subvalue) => do
      let nested ← d.parseSingle (String.ofList subkey) (String.ofList subvalue)
      d.format (lookUp (startTerm k value) nested)

end Dialect

end WhereClause

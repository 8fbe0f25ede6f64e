/-
**Compiling a request.**

The pairs of a request, its identifier and its filter document become parameters, and the parameters
become a predicate.  The columns of the table are asked for only if they matter.

Main definitions:

* `WhereClause.ColumnSource` — what knows the columns of a table;
* `WhereClause.Predicate` — a text with its values and the filter document;
* `WhereClause.Compiler` — a dialect and the name of the identifier;
* `WhereClause.Compiler.collect` — the parameters of a request;
* `WhereClause.Compiler.assemble`, `WhereClause.Compiler.build` — its predicate.
-/

import WhereClause.Assembly
import WhereClause.FilterSpec.Reader
import WhereClause.Parsing

set_option autoImplicit false

namespace WhereClause

open Text

/-! ### Column sources -/

/-- What knows the columns of a table. -/
abbrev ColumnSource := String → Except Failure (List String)

/-- The same columns for every table. -/
def ColumnSource.fixed (columns : List String) : ColumnSource := fun _ => .ok columns

/-- A source that knows no columns. -/
def ColumnSource.none : ColumnSource := fixed []

/-- A source that fails. -/
def ColumnSource.failing (message : String) : ColumnSource := fun table =>
  .error (.schemaLookup table message)

/-! ### Predicates -/

/-- A predicate as text, with the values to bind and the filter document of the request. -/
structure Predicate where
  text : String
  values : List Value
  filter : Option FilterSpec
deriving Repr, Inhabited

namespace Predicate

/-- Whether a predicate says nothing. -/
def isEmpty (p : Predicate) : Bool := p.text.isEmpty

/-- A predicate as a clause of its own, with a blank before it. -/
def whereClause (p : Predicate) : String := if p.isEmpty then "" else " WHERE " ++ p.text

/-- The members of a predicate in a report. -/
def members (p : Predicate) : List (String × Json) :=
  [("text", .string p.text), ("values", .array (p.values.map Value.toJson)),
    ("filter", match p.filter with
      | none => .null
      | some spec => spec.toJson)]

/-- A predicate in a report. -/
def toJson (p : Predicate) : Json := .object p.members

end Predicate

/-! ### Compilers -/

/-- A dialect, and the column that the identifier of a request is compared with. -/
structure Compiler where
  dialect : Dialect
  idField : String := "id"

/-- What a pair of a request is. -/
inductive PairRole where
  /-- Its key is blank. -/
  | blank
  /-- It holds the filter document. -/
  | filter
  /-- It holds metadata. -/
  | extra
  /-- It is a condition. -/
  | term
deriving DecidableEq, Repr

/-- What the pair of a trimmed key is. -/
def ReservedKeys.role (r : ReservedKeys) (key : String) : PairRole :=
  if key.isEmpty then .blank
  else if key = r.filter then .filter
  else if key = r.extra then .extra
  else .term

namespace Compiler

/-- Take one pair into the parameters and the text of the filter document, of which the last one
counts. -/
def takePair (c : Compiler) (params : Params) (document : Option String) (key value : String) :
    Except Failure (Params × Option String) :=
  let key := trimmed key
  match c.dialect.reserved.role key with
  | .blank => .ok (params, document)
  | .filter => .ok (params, some value)
  | .extra => .ok (params.set key (Term.verbatim key value), document)
  | .term =>
      match c.dialect.parse key value with
      | .error failure => .error failure
      | .ok t => .ok (params.set t.key t, document)

/-- Take pairs in order; the first one that fails decides. -/
def takePairs (c : Compiler) (params : Params) (document : Option String) :
    List (String × String) → Except Failure (Params × Option String)
  | [] => .ok (params, document)
  | (key, value) :: pairs =>
      match c.takePair params document key value with
      | .error failure => .error failure
      | .ok (params, document) => c.takePairs params document pairs

/-- Take the identifier. -/
def takeId (c : Compiler) (params : Params) : Option String → Except Failure Params
  | none => .ok params
  | some id =>
      match c.dialect.parse c.idField id with
      | .error failure => .error failure
      | .ok t => .ok (params.setId t)

/-- The bytes of the filter document: those of the pair that holds one, or else the body. -/
def filterBytes (document : Option String) (body : Option (List UInt8)) : Option (List UInt8) :=
  match document with
  | some text => some (Utf8.encode text.toList)
  | none => body

/-- Take the filter document. -/
def takeFilter (params : Params) : Option (List UInt8) → Except Failure Params
  | none => .ok params
  | some bytes =>
      match FilterSpec.decode bytes with
      | .error fault => .error (.filterDocument fault)
      | .ok spec => .ok (params.setFilter spec)

/-- The parameters of a request: first its pairs, then its identifier, then its filter document. -/
def collect (c : Compiler) (pairs : List (String × String)) (id : Option String)
    (body : Option (List UInt8)) : Except Failure Params := do
  let (params, document) ← c.takePairs .empty none pairs
  let params ← c.takeId params id
  takeFilter params (filterBytes document body)

/-- The predicate of parameters.  The column source is asked only if the columns matter. -/
def assemble (c : Compiler) (params : Params) (source : ColumnSource) (table : String) :
    Except Failure Predicate := do
  let columns ← if params.needsColumns c.dialect.reserved then source table else .ok []
  let sql := c.dialect.assemble params columns
  pure { text := c.dialect.text sql, values := sql.values, filter := params.filter }

/-- The predicate of a request. -/
def build (c : Compiler) (pairs : List (String × String)) (id : Option String)
    (body : Option (List UInt8)) (source : ColumnSource) (table : String) :
    Except Failure Predicate := do
  let params ← c.collect pairs id body
  c.assemble params source table

end Compiler

end WhereClause

/-
**The PostgreSQL dialect.**

Names stand in double quotes, patterns are matched against the text of a column, and lists overlap
with `&&`.  A bound list is either spread over a question mark, or bound as one array to a numbered
placeholder.

Main definitions:

* `WhereClause.DataType.arrayCast` — the cast of a bound list;
* `WhereClause.PlaceholderStyle.settle` — a comparison with its casts;
* `WhereClause.postgres` — the dialect.
-/

import WhereClause.Dialect.Format
import WhereClause.Dialect.Placeholder
import WhereClause.Dialect.Suffix
import WhereClause.Text.Quoted

set_option autoImplicit false

namespace WhereClause

open Text

/-- The cast of a bound list of a declared type. -/
def DataType.arrayCast : DataType → String
  | .string => "::text[]"
  | .int => "::int[]"
  | .int64 => "::bigint[]"
  | .uint => "::numeric[]"
  | .uint64 => "::numeric[]"
  | .float => "::real[]"
  | .float64 => "::double precision[]"
  | .date => "::date[]"
  | .time => "::time[]"
  | .dateTime => "::timestamp[]"

/-- The cast behind the list of an overlap.  Without a declared type, a list that is bound as one
array is one of texts. -/
def PlaceholderStyle.overlapCast (style : PlaceholderStyle) : Option DataType → Option String
  | some type => some type.arrayCast
  | none =>
      match style with
      | .dollar => some "::text[]"
      | .question => none

/-- A comparison settled, with the casts of a pattern and of an overlap. -/
def PlaceholderStyle.settle (style : PlaceholderStyle) (c : Comparison) : Comparison :=
  let s := c.settled
  { s with
    keyCast := if s.operator.isTextual then some "::text" else s.keyCast
    valueCast := if s.operator.isOverlap then style.overlapCast s.dataType else s.valueCast }

/-- The form of PostgreSQL terms: every operator can be rendered, and what a textual look-up finds
needs no cast. -/
def PlaceholderStyle.normalForm (style : PlaceholderStyle) : NormalForm where
  name := "postgres"
  supports := fun _ => true
  settle := style.settle
  below := fun above c =>
    match above with
    | .jsonPathText => { c with keyCast := none }
    | _ => c

/-- PostgreSQL, with the given reserved keys and placeholders. -/
def postgres (reserved : ReservedKeys) (style : PlaceholderStyle) : Dialect where
  name := "postgres"
  reserved := reserved
  tokens := suffixTokens
  pattern := suffixPattern
  quote := quotedName '"'
  placeholder := style.placeholder
  format := style.normalForm.format
  rangeDelimiters := ['|', ':']
  bracesAreLists := true
  inArray := fun lhs value =>
    match style with
    | .question => lhs ++ .code " IN (" :: value ++ [.code ")"]
    | .dollar => lhs ++ .code " = ANY(" :: value ++ [.code ")"]
  notInArray := fun lhs value =>
    match style with
    | .question => lhs ++ .code " NOT IN (" :: value ++ [.code ")"]
    | .dollar => lhs ++ .code " != ALL(" :: value ++ [.code ")"]
  arrayOverlap := fun column value cast =>
    match style with
    | .question => column ++ .code " && ARRAY[" :: value ++ [.code "]", .code (cast.getD "")]
    | .dollar => column ++ .code " && " :: value ++ [.code (cast.getD "")]

end WhereClause

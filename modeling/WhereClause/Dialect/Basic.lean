/-
**SQL dialects.**

A dialect decides which operator tokens are recognised, how tokens become values, how a term is
brought into the form in which it is rendered, and how each kind of comparison is written.  A
dialect has to give its name, its reserved keys, its tokens, its quoting, its placeholders and its
normal form; for everything else there is a default.

Main definitions:

* `WhereClause.Dialect` — the decisions;
* `WhereClause.Dialect.alternation` — the operator tokens as the text of a pattern;
* `WhereClause.Dialect.applyCast` — a token cast into a term;
* `WhereClause.Dialect.text` — the text of a predicate.
-/

import WhereClause.Cast
import WhereClause.ReservedKeys
import WhereClause.Sql
import WhereClause.Term

set_option autoImplicit false

namespace WhereClause

open Text

/-- How terms are read and written for one kind of database. -/
structure Dialect where
  /-- The name used in messages. -/
  name : String
  reserved : ReservedKeys
  /-- The texts recognised as operator tokens between the brackets behind a key. -/
  tokens : List String
  /-- The tokens as the text of a pattern. -/
  pattern : String
  /-- A column name as a quoted identifier. -/
  quote : String → String
  /-- The place of the value with the given number, counted from one. -/
  placeholder : Nat → String
  /-- Bring a term into the form in which it is rendered. -/
  format : Term → Except Failure Term
  /-- The characters that may stand between the bounds of a range. -/
  rangeDelimiters : List Char := ['|']
  /-- Whether a list may also be written in braces. -/
  bracesAreLists : Bool := false
  /-- The keyword of an operator. -/
  operatorSql : Operator → String := Operator.sql
  /-- Membership of the left side in a bound list. -/
  inArray : Sql → Sql → Sql := fun lhs value => lhs ++ .code " IN (" :: value ++ [.code ")"]
  /-- Absence of the left side from a bound list. -/
  notInArray : Sql → Sql → Sql := fun lhs value => lhs ++ .code " NOT IN (" :: value ++ [.code ")"]
  /-- A common element of a list column and a bound list, with a cast behind the list. -/
  arrayOverlap : Sql → Sql → Option String → Sql := fun column value cast =>
    column ++ .code " && ARRAY[" :: value ++ [.code "]", .code (cast.getD "")]
  /-- The look-up of a bound name in a document column. -/
  jsonPath : Sql → Operator → Sql → Sql := fun column op key =>
    column ++ .code (" " ++ op.sql ++ " ") :: key
  /-- What follows a query to limit its rows. -/
  limitOffset : Option Nat → Option Nat → String := fun limit offset =>
    let limit := match limit with
      | none => ""
      | some n => " LIMIT " ++ decimal n
    let offset := match offset with
      | none => ""
      | some n => " OFFSET " ++ decimal n
    limit ++ offset

namespace Dialect

/-- The text of an alternation of fixed texts, with a backslash before every character of a given
class. -/
def alternation (escaped : Char → Bool) (tokens : List String) : String :=
  let escape := fun (token : String) =>
    String.ofList (token.toList.flatMap fun c => if escaped c then ['\\', c] else [c])
  "|".intercalate (tokens.map escape)

/-- The text of a predicate, with its placeholders counted from one. -/
def text (d : Dialect) (p : Sql) : String := Sql.textFrom d.quote d.placeholder 0 p

/-- A token in braces as one in brackets, for an operator that takes lists. -/
def bracesToBrackets (operator : Operator) (token : List Char) : List Char :=
  match enclosed? '\x7b' '\x7d' token with
  | none => token
  | some inner =>
      if !inner.isEmpty && operator.acceptsArray then '[' :: (inner ++ [']']) else token

/-- Cast a token into a term.  The type declared behind the token wins over one that the term has
already. -/
def applyCast (d : Dialect) (token : String) (t : Term) : Except Failure Term := do
  let (token, hint) ← splitTypeHint token.toList
  let token := if d.bracesAreLists then bracesToBrackets t.operator token else token
  let type := match hint with
    | none => t.dataType
    | some type => some type
  let value ← cast token type t.operator d.rangeDelimiters
  pure { t with dataType := type, value := value }

end Dialect

end WhereClause

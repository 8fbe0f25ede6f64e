/-
**The MySQL dialect.**

Names stand in backticks, every placeholder is a question mark, and there are no casts.  Overlaps,
quantified comparisons and some patterns have no rendering.

Main definitions:

* `WhereClause.Operator.inMySql` — the operators with a rendering;
* `WhereClause.mysql` — the dialect.
-/

import WhereClause.Dialect.Format
import WhereClause.Dialect.Placeholder
import WhereClause.Dialect.Suffix
import WhereClause.Text.Quoted

set_option autoImplicit false

namespace WhereClause

open Text

/-- The operators that MySQL can render. -/
def Operator.inMySql : Operator → Bool
  | .similar => false
  | .notSimilar => false
  | .iregex => false
  | .notIregex => false
  | op => !op.needsColumn

/-- The form of MySQL terms, without any cast. -/
def mysqlForm : NormalForm where
  name := "mysql"
  supports := Operator.inMySql
  settle := Comparison.settled
  below := fun _ c => c

/-- The most rows MySQL can be asked for; it stands for all of them where only rows are skipped. -/
def allRows : Nat := Nat.pow 2 64 - 1

/-- MySQL, with the given reserved keys. -/
def mysql (reserved : ReservedKeys) : Dialect where
  name := "mysql"
  reserved := reserved
  tokens := suffixTokens
  pattern := suffixPattern
  quote := quotedName '\x60'
  placeholder := PlaceholderStyle.question.placeholder
  format := mysqlForm.format
  operatorSql := fun op =>
    match op with
    | .regex => "REGEXP"
    | .notRegex => "NOT REGEXP"
    | _ => op.sql
  jsonPath := fun column op key =>
    let extract := .code "JSON_EXTRACT(" :: column ++ .code ", CONCAT('$.', " :: key ++ [.code "))"]
    match op with
    | .jsonPathText => .code "JSON_UNQUOTE(" :: extract ++ [.code ")"]
    | _ => extract
  limitOffset := fun limit offset =>
    match limit, offset with
    | some n, some m => " LIMIT " ++ decimal n ++ " OFFSET " ++ decimal m
    | some n, none => " LIMIT " ++ decimal n
    | none, some m => " LIMIT " ++ decimal allRows ++ " OFFSET " ++ decimal m
    | none, none => ""

end WhereClause

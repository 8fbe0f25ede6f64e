/-
**What can go wrong.**

A request fails through its own fault (a value, a type, a document, an order expression or an
operator that cannot be used) or through the surroundings (the column source, the configuration, a
missing file).

Main definitions:

* `WhereClause.CastFault` — why a token is no value of its declared type;
* `WhereClause.SettingsFault` — what is wrong with a configuration;
* `WhereClause.Failure` — all causes, with `Failure.message` and `Failure.isClientError`.
-/

import WhereClause.Calendar.Reader
import WhereClause.DataType
import WhereClause.Json.Scan
import WhereClause.Number.Decimal
import WhereClause.Number.Integer
import WhereClause.Operator

set_option autoImplicit false

namespace WhereClause

/-- Why a token is no value of its declared type. -/
inductive CastFault where
  | integer (fault : Integer.Fault)
  | decimal (fault : Decimal.Fault)
  | calendar (fault : Calendar.Fault)
deriving DecidableEq, Repr

/-- The wording of a cast fault. -/
def CastFault.message : CastFault → String
  | .integer fault => fault.message
  | .decimal fault => fault.message
  | .calendar fault => fault.message

/-- What is wrong with a configuration. -/
inductive SettingsFault where
  /-- The configuration document cannot be read. -/
  | unreadable
  /-- A reserved key holds nothing but blanks. -/
  | blankKey
  /-- Two reserved keys are the same. -/
  | repeatedKey (key : String)
  /-- MySQL knows no numbered placeholders. -/
  | numberedPlaceholders
  /-- There is no dialect of this name. -/
  | unknownDialect (name : String)
deriving DecidableEq, Repr

/-- The wording of a configuration fault. -/
def SettingsFault.message : SettingsFault → String
  | .unreadable => "malformed document"
  | .blankKey => "reserved keys must not be empty"
  | .repeatedKey key => "reserved key '" ++ key ++ "' is used twice"
  | .numberedPlaceholders => "the mysql dialect only supports '?' placeholders"
  | .unknownDialect name => "unknown dialect '" ++ name ++ "'"

/-- Where a dialect has no rendering for an operator. -/
inductive Position where
  /-- In every place. -/
  | anywhere
  /-- Below a look-up in a document. -/
  | insidePath
deriving DecidableEq, Repr

/-- The cause of a failed request. -/
inductive Failure where
  /-- A token is no value of the declared type. -/
  | cast (type : DataType) (token : String) (fault : CastFault)
  /-- The type named behind a value does not exist. -/
  | unknownType (name : String)
  /-- The filter document cannot be read. -/
  | filterDocument (fault : Json.Fault)
  /-- An order expression does not name a column and a direction. -/
  | invalidOrder (expression : String)
  /-- The dialect has no rendering for an operator in this position. -/
  | unsupported (dialect : String) (operator : Operator) (position : Position)
  /-- The column source failed. -/
  | schemaLookup (table message : String)
  /-- The configuration is unusable. -/
  | settings (fault : SettingsFault)
  /-- A file that was asked for does not exist. -/
  | missingFile
deriving DecidableEq, Repr

/-- The wording of a look-up of a file that does not exist. -/
def noSuchFile : String := "No such file or directory (os error 2)"

/-- The wording of a failure. -/
def Failure.message : Failure → String
  | .cast type token fault =>
      "Cannot cast '" ++ token ++ "' to " ++ type.name ++ ": " ++ fault.message
  | .unknownType name =>
      "Unknown type: '" ++ name ++ "'. Expected: string, int, int64, float, float64, uint, " ++
        "uint64, date, time or datetime"
  | .filterDocument _ => "Invalid filter"
  | .invalidOrder expression => "Invalid order expression: '" ++ expression ++ "'"
  | .unsupported dialect operator position =>
      let place := match position with
        | .anywhere => ""
        | .insidePath => " inside a json path"
      "Operator '" ++ operator.name ++ place ++ "' is not supported by the " ++ dialect ++
        " dialect"
  | .schemaLookup table message => "Schema lookup failed for '" ++ table ++ "': " ++ message
  | .settings fault => "Configuration error: " ++ fault.message
  | .missingFile => "IO error: " ++ noSuchFile

/-- The wording of what lies behind a failure, where its own wording only passes it on. -/
def Failure.cause? : Failure → Option String
  | .missingFile => some noSuchFile
  | _ => none

/-- Whether the request itself is at fault. -/
def Failure.isClientError : Failure → Bool
  | .cast .. => true
  | .unknownType _ => true
  | .filterDocument _ => true
  | .invalidOrder _ => true
  | .unsupported .. => true
  | .schemaLookup .. => false
  | .settings _ => false
  | .missingFile => false

end WhereClause

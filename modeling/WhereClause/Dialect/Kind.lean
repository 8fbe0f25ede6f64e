/-
**Choosing a dialect.**

Main definitions:

* `WhereClause.DialectKind` — the dialects that can be chosen;
* `WhereClause.DialectKind.read` — a dialect by one of its names;
* `WhereClause.DialectKind.build` — the dialect with reserved keys and placeholders, if they can be
  used with it.
-/

import WhereClause.Dialect.MySql
import WhereClause.Dialect.Postgres

set_option autoImplicit false

namespace WhereClause

open Text

/-- The dialects that can be chosen. -/
inductive DialectKind where
  | postgres
  | mysql
deriving DecidableEq, Repr, Inhabited

namespace DialectKind

/-- Every dialect, once. -/
def all : List DialectKind := [postgres, mysql]

/-- The name of a dialect in a configuration. -/
def name : DialectKind → String
  | postgres => "postgres"
  | mysql => "mysql"

/-- The dialect with a given name in a configuration. -/
def ofName? (s : String) : Option DialectKind := all.find? fun kind => kind.name == s

@[simp] theorem ofName?_name (kind : DialectKind) : ofName? kind.name = some kind := by
  cases kind <;> decide

/-- The dialect that a word names, without regard to the case of its letters. -/
def read (s : String) : Except Failure DialectKind :=
  match lowered s with
  | "postgres" => .ok postgres
  | "postgresql" => .ok postgres
  | "pg" => .ok postgres
  | "mysql" => .ok mysql
  | "mariadb" => .ok mysql
  | other => .error (.settings (.unknownDialect other))

/-- The dialect with the given reserved keys and placeholders. -/
def build (kind : DialectKind) (reserved : ReservedKeys) (style : PlaceholderStyle) :
    Except Failure Dialect :=
  match reserved.validate with
  | .error failure => .error failure
  | .ok () =>
      match kind, style with
      | postgres, _ => .ok (WhereClause.postgres reserved style)
      | mysql, .question => .ok (WhereClause.mysql reserved)
      | mysql, .dollar => .error (.settings .numberedPlaceholders)

end DialectKind

end WhereClause

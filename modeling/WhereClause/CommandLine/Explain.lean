/-
**Explaining a query pair by pair.**

Main definitions:

* `WhereClause.Explanation` — what is said about a pair;
* `WhereClause.Compiler.explain` — what a pair is;
* `WhereClause.Compiler.explainLines` — a query, pair by pair.
-/

import WhereClause.CommandLine.Report

set_option autoImplicit false

namespace WhereClause

open Text

/-- What is said about a pair. -/
inductive Explanation where
  /-- It holds the filter document. -/
  | filter
  /-- It holds metadata. -/
  | extra
  /-- It is a condition. -/
  | term (t : Term)
  /-- It is no condition. -/
  | fault (failure : Failure)
deriving Repr

/-- What a pair is. -/
def Compiler.explain (c : Compiler) (key value : String) : Explanation :=
  let reserved := c.dialect.reserved
  if trimmed key = reserved.filter then .filter
  else if trimmed key = reserved.extra then .extra
  else
    match c.dialect.parse key value with
    | .error failure => .fault failure
    | .ok t => .term t

/-- A property of a term. -/
def propertyLine (name : String) (value : Span) : Line :=
  [.plain "  ", .dim name, .plain " ", value]

/-- A term with its rendering and its values. -/
def termLines (d : Dialect) (t : Term) : List Line :=
  let type := (t.dataType.map DataType.name).getD "(inferred)"
  let path := match t.path with
    | [] => []
    | c :: _ =>
        [propertyLine "Path:" (.tint .white c.key) ++
          [.plain " ", .tint .cyan c.operator.name, .plain " ", .tint .yellow c.value.display]]
  let sql := d.render t
  [propertyLine "Column:" (.tint .white t.key),
    propertyLine "Operator:" (.tint .cyan t.operator.name),
    propertyLine "Shape:" (.tint .cyan t.shape.name), propertyLine "Type:" (.tint .cyan type),
    propertyLine "Value:" (.tint .yellow t.value.display),
    propertyLine "Joined:" (.tint .cyan (if t.isOr then "OR" else "AND"))] ++ path ++
    [propertyLine "SQL:" (.tint .green (d.text sql))] ++ numberedLines "    " 0 0 sql.values

/-- What is said about a pair; a pair that is no condition of its own is not followed by an empty
line. -/
def Explanation.lines (d : Dialect) : Explanation → List Line
  | .filter => [[.plain "  ", .tint .cyan "filter document"]]
  | .extra => [[.plain "  ", .tint .cyan "extra metadata, not part of the predicate"]]
  | .term t => termLines d t ++ [[]]
  | .fault failure =>
      [[.plain "  ", .strong .red "Error:", .plain (" " ++ failure.message)], []]

/-- A pair and what is said about it. -/
def Compiler.pairLines (c : Compiler) (pair : String × String) : List Line :=
  [.dim "Pair:", .plain " ", .tint .white pair.1, .plain " = ", .tint .yellow pair.2] ::
    (c.explain pair.1 pair.2).lines c.dialect

/-- A query, pair by pair. -/
def Compiler.explainLines (c : Compiler) (pairs : List (String × String)) : List Line :=
  [.strong .cyan "Filter Explanation"] ::
    [.dim "Dialect:", .plain " ", .tint .yellow c.dialect.name] :: [] ::
    pairs.flatMap c.pairLines

end WhereClause

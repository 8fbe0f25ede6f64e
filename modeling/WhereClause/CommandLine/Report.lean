/-
**Showing predicates.**

Main definitions:

* `WhereClause.Suffix` — what follows a predicate: its order and its pagination;
* `WhereClause.predicateLines` — a predicate for people;
* `WhereClause.predicateReport` — a predicate for programs;
* `WhereClause.usageLines`, `WhereClause.operatorLines` — fixed texts.
-/

import WhereClause.CommandLine.Styled
import WhereClause.Compiler
import WhereClause.FilterSpec.Order

set_option autoImplicit false

namespace WhereClause

open Text

/-- What follows a predicate. -/
structure Suffix where
  orderBy : Option String := none
  pagination : String := ""
deriving Repr

/-- What follows a predicate in a dialect. -/
def Predicate.suffix (p : Predicate) (d : Dialect) : Except Failure Suffix :=
  match p.filter with
  | none => .ok {}
  | some spec =>
      match spec.orderBy d with
      | .error failure => .error failure
      | .ok orderBy => .ok { orderBy := orderBy, pagination := spec.limitOffset d }

/-- A numbered value. -/
def numberedLine (indent : String) (width : Nat) (n : Nat) (value : Value) : Line :=
  [.plain indent, (Span.dim (decimal n)).padLeft width, .plain " = ", .tint .yellow value.display]

/-- Values with their numbers, counted behind `n`. -/
def numberedLines (indent : String) (width : Nat) : Nat → List Value → List Line
  | _, [] => []
  | n, value :: rest =>
      numberedLine indent width (n + 1) value :: numberedLines indent width (n + 1) rest

/-- A predicate with its values and what follows it. -/
def predicateLines (p : Predicate) (suffix : Suffix) : List Line :=
  let text := if p.isEmpty then Span.dim "(empty)" else .tint .white p.text
  let bindings :=
    if p.values.isEmpty then []
    else [] :: [.tint .cyan "Bindings:"] :: numberedLines "  " 3 0 p.values
  let order := match suffix.orderBy with
    | none => []
    | some order => [[Span.plain "  ", .tint .white order]]
  let pagination :=
    if suffix.pagination.isEmpty then []
    else [[Span.plain "  ", .tint .white (trimmed suffix.pagination)]]
  let following := match order ++ pagination with
    | [] => []
    | lines => [] :: [Span.tint .cyan "Suffix:"] :: lines
  [.strong .green "Predicate:"] :: [.plain "  ", text] :: (bindings ++ following)

/-- A predicate with its values and what follows it as one value. -/
def predicateReport (p : Predicate) (suffix : Suffix) : Json :=
  .object (p.members ++
    [("order_by", .ofString? suffix.orderBy), ("pagination", .string suffix.pagination)])

/-! ### Fixed texts -/

/-- What is shown where nothing is asked for. -/
def usageLines : List Line :=
  [[.strong .cyan "crud-filter: query-string filter compiler"], [],
    [.plain "Usage: crud-filter <QUERY> [OPTIONS]"], [], [.plain "Try: crud-filter --help"]]

/-- The operator tokens, each with an example and its rendering. -/
def operatorExamples : List (String × String × String) :=
  [("(none)", "name=john", "\"name\" = ?"),
    ("!  <>", "name[!]=john", "\"name\" != ?"),
    (">  <", "age[>]=18::int", "\"age\" > ?"),
    (">-  <-", "age[>-]=18::int", "\"age\" >= ?"),
    (":", "age[:]=[18|65]::int", "\"age\" BETWEEN ? AND ?"),
    ("%  !%", "name[%]=jo%", "\"name\"::text LIKE ?"),
    ("+  !+", "code[+]=%(a|b)%", "\"code\"::text SIMILAR TO ?"),
    ("~  ~*  !~  !~*", "name[~*]=^jo", "\"name\"::text ~* ?"),
    ("array  &&", "tags[&&]=[a,b]", "\"tags\" && ARRAY[?]"),
    ("!array  !&&", "tags[!&&]=[a,b]", "NOT \"tags\" && ARRAY[?]"),
    ("any  some  all", "tags[any]=red", "? = ANY(\"tags\")"),
    ("!any  !some  !all", "tags[!all]=red", "? != ALL(\"tags\")"),
    ("->  ->>", "meta[->>]=kind=invoice", "\"meta\" ->> ? = ?")]

/-- The forms of values, with the blanks behind them and what they mean. -/
def valueForms : List (String × String × String) :=
  [("[a,b,c]", "   ", "array, becomes IN / NOT IN"),
    ("[a|b]", "   ", "range for [:] (postgres also accepts [a:b])"),
    ("null", "      ", "IS NULL / IS NOT NULL"),
    ("v::type", "   ", "string int int64 float float64 uint uint64 date time datetime"),
    ("[|]key", "  ", "join with OR"),
    ("*", "         ", "every column without its own term")]

/-- The reference of operators and values. -/
def operatorLines : List Line :=
  let row := fun (suffix sample sql : Span) =>
    [suffix.padRight 20, .plain " ", sample.padRight 28, .plain " ", sql]
  let header := row (.strong .white "Suffix") (.strong .white "Example")
    (.strong .white "SQL (postgres)")
  let rule := [Span.dim (String.ofList (List.replicate 80 '─'))]
  let examples := operatorExamples.map fun (suffix, sample, sql) =>
    row (.strong .cyan suffix) (.tint .yellow sample) (.dim sql)
  let forms := valueForms.map fun (form, gap, meaning) =>
    [.plain "  ", .tint .cyan form, .plain gap, .dim meaning]
  [[.strong .cyan "Operator Reference"], [], header, rule] ++ examples ++
    [[], [.strong .white "Values"]] ++ forms

end WhereClause

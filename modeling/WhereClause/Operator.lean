/-
**Comparison operators.**

An operator is chosen by a token in brackets behind a column name; three operators have no token of
their own, because equality is what a bare name means and membership only arises when an equality
meets a list.

Main definitions:

* `WhereClause.Operator` — the twenty-seven operators;
* `WhereClause.Operator.name`, `WhereClause.Operator.ofName?` — their names;
* `WhereClause.Operator.tokens`, `WhereClause.Operator.ofToken?`, `WhereClause.Operator.token?` —
  the tokens, two of which may stand for one operator, and the one that is preferred;
* `WhereClause.Operator.sql` — the keyword of an operator;
* `isRange`, `isJsonPath`, `isOverlap`, `acceptsArray`, `isQuantified`, `isNegatedQuantifier`,
  `isTextual` — the classes of operators that are treated alike.
-/

set_option autoImplicit false

namespace WhereClause

/-- A comparison operator. -/
inductive Operator where
  | eq
  | neq
  | gt
  | lt
  | gte
  | lte
  | like
  | notLike
  | similar
  | notSimilar
  | regex
  | iregex
  | notRegex
  | notIregex
  | between
  | oneOf
  | noneOf
  | overlaps
  | notOverlaps
  | jsonPath
  | jsonPathText
  | anyOf
  | someOf
  | allOf
  | notAnyOf
  | notSomeOf
  | notAllOf
deriving DecidableEq, Repr, Inhabited

namespace Operator

/-- Every operator, once. -/
def all : List Operator :=
  [eq, neq, gt, lt, gte, lte, like, notLike, similar, notSimilar, regex, iregex, notRegex,
    notIregex, between, oneOf, noneOf, overlaps, notOverlaps, jsonPath, jsonPathText, anyOf, someOf,
    allOf, notAnyOf, notSomeOf, notAllOf]

theorem mem_all (op : Operator) : op ∈ all := by cases op <;> decide

/-- The name of an operator. -/
def name : Operator → String
  | eq => "eq"
  | neq => "neq"
  | gt => "gt"
  | lt => "lt"
  | gte => "gte"
  | lte => "lte"
  | like => "like"
  | notLike => "notlike"
  | similar => "similar"
  | notSimilar => "notsimilar"
  | regex => "regex"
  | iregex => "iregex"
  | notRegex => "notregex"
  | notIregex => "notiregex"
  | between => "between"
  | oneOf => "in"
  | noneOf => "notin"
  | overlaps => "arrayoverlap"
  | notOverlaps => "notarrayoverlap"
  | jsonPath => "jsonpath"
  | jsonPathText => "jsonpathtext"
  | anyOf => "any"
  | someOf => "some"
  | allOf => "all"
  | notAnyOf => "notany"
  | notSomeOf => "notsome"
  | notAllOf => "notall"

/-- The operator with a given name. -/
def ofName? (s : String) : Option Operator := all.find? fun op => op.name == s

theorem ofName?_name (op : Operator) : ofName? op.name = some op := by cases op <;> decide

/-- Every token, with the operator it chooses. -/
def tokens : List (String × Operator) :=
  [("!", neq), ("<>", neq), (">", gt), ("<", lt), (">-", gte), ("<-", lte), ("%", like),
    ("!%", notLike), ("+", similar), ("!+", notSimilar), ("~", regex), ("~*", iregex),
    ("!~", notRegex), ("!~*", notIregex), (":", between), ("->", jsonPath), ("->>", jsonPathText),
    ("array", overlaps), ("&&", overlaps), ("!array", notOverlaps), ("!&&", notOverlaps),
    ("any", anyOf), ("some", someOf), ("all", allOf), ("!any", notAnyOf), ("!some", notSomeOf),
    ("!all", notAllOf)]

/-- The operator that a token chooses. -/
def ofToken? (token : String) : Option Operator := tokens.lookup token

/-- A text chooses an operator exactly if it is a token. -/
theorem ofToken?_isSome_iff (token : String) :
    (ofToken? token).isSome = true ↔ token ∈ tokens.map Prod.fst := by
  rw [ofToken?]
  induction tokens with
  | nil => simp
  | cons entry rest ih =>
      obtain ⟨other, op⟩ := entry
      rw [List.lookup_cons]
      by_cases h : token = other
      · simp [h]
      · simp [h, beq_eq_false_iff_ne.2 h, ih]

/-- The preferred token of an operator, if it has one. -/
def token? : Operator → Option String
  | eq => none
  | oneOf => none
  | noneOf => none
  | neq => some "!"
  | gt => some ">"
  | lt => some "<"
  | gte => some ">-"
  | lte => some "<-"
  | like => some "%"
  | notLike => some "!%"
  | similar => some "+"
  | notSimilar => some "!+"
  | regex => some "~"
  | iregex => some "~*"
  | notRegex => some "!~"
  | notIregex => some "!~*"
  | between => some ":"
  | overlaps => some "&&"
  | notOverlaps => some "!&&"
  | jsonPath => some "->"
  | jsonPathText => some "->>"
  | anyOf => some "any"
  | someOf => some "some"
  | allOf => some "all"
  | notAnyOf => some "!any"
  | notSomeOf => some "!some"
  | notAllOf => some "!all"

/-- The keyword of an operator.  Where the whole rendering has a form of its own, this is only its
keyword. -/
def sql : Operator → String
  | eq => "="
  | neq => "!="
  | gt => ">"
  | lt => "<"
  | gte => ">="
  | lte => "<="
  | like => "LIKE"
  | notLike => "NOT LIKE"
  | similar => "SIMILAR TO"
  | notSimilar => "NOT SIMILAR TO"
  | regex => "~"
  | iregex => "~*"
  | notRegex => "!~"
  | notIregex => "!~*"
  | between => "BETWEEN"
  | oneOf => "IN"
  | noneOf => "NOT IN"
  | overlaps => "&&"
  | notOverlaps => "&&"
  | jsonPath => "->"
  | jsonPathText => "->>"
  | anyOf => "ANY"
  | someOf => "SOME"
  | allOf => "ALL"
  | notAnyOf => "ANY"
  | notSomeOf => "SOME"
  | notAllOf => "ALL"

/-- The operator that takes a pair of bounds. -/
def isRange : Operator → Bool
  | between => true
  | _ => false

/-- The operators that look into a document. -/
def isJsonPath : Operator → Bool
  | jsonPath => true
  | jsonPathText => true
  | _ => false

/-- The operators that compare two lists for a common element. -/
def isOverlap : Operator → Bool
  | overlaps => true
  | notOverlaps => true
  | _ => false

/-- The operators for which brackets around a value make a list; for all others the brackets are
part of the text. -/
def acceptsArray : Operator → Bool
  | eq => true
  | neq => true
  | oneOf => true
  | noneOf => true
  | between => true
  | op => op.isOverlap

/-- The operators that compare a value with the elements of a list column. -/
def isQuantified : Operator → Bool
  | anyOf => true
  | someOf => true
  | allOf => true
  | notAnyOf => true
  | notSomeOf => true
  | notAllOf => true
  | _ => false

/-- The quantified operators that ask for inequality. -/
def isNegatedQuantifier : Operator → Bool
  | notAnyOf => true
  | notSomeOf => true
  | notAllOf => true
  | _ => false

/-- The operators that match a column against a pattern. -/
def isTextual : Operator → Bool
  | like => true
  | notLike => true
  | similar => true
  | notSimilar => true
  | regex => true
  | iregex => true
  | notRegex => true
  | notIregex => true
  | _ => false

end Operator

end WhereClause

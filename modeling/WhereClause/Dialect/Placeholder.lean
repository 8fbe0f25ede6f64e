/-
**Placeholders.**

Main definitions:

* `WhereClause.PlaceholderStyle` — question marks or numbers;
* `WhereClause.PlaceholderStyle.placeholder` — the place of a bound value.
-/

import WhereClause.Text.Ascii

set_option autoImplicit false

namespace WhereClause

open Text

/-- How the places of bound values are written. -/
inductive PlaceholderStyle where
  /-- A question mark for every value. -/
  | question
  /-- A dollar sign and the number of the value. -/
  | dollar
deriving DecidableEq, Repr, Inhabited

namespace PlaceholderStyle

/-- Every style, once. -/
def all : List PlaceholderStyle := [question, dollar]

/-- The name of a style. -/
def name : PlaceholderStyle → String
  | question => "question"
  | dollar => "dollar"

/-- The style with a given name. -/
def ofName? (s : String) : Option PlaceholderStyle := all.find? fun style => style.name == s

@[simp] theorem ofName?_name (style : PlaceholderStyle) : ofName? style.name = some style := by
  cases style <;> decide

/-- The place of the value with the given number, counted from one. -/
def placeholder : PlaceholderStyle → Nat → String
  | question, _ => "?"
  | dollar, n => "$" ++ decimal n

end PlaceholderStyle

end WhereClause

/-
**Predicates before they are text.**

A rendered predicate is a list of pieces: fixed code, column names and bound values.  Only writing
it out quotes the names and puts a numbered placeholder in the place of every value, so no value
can reach the text, and the values of a predicate are in the order of their placeholders.  That
text and values can be made in one pass as well is shown in `WhereClause.Proofs.OnePass`.

Main definitions:

* `WhereClause.Piece`, `WhereClause.Sql` — the pieces, and predicates as lists of them;
* `WhereClause.Sql.values` — the bound values in order;
* `WhereClause.Sql.textFrom` — the text, with a given number of values bound before it;
* `WhereClause.Sql.joined` — predicates joined by fixed code.

Main results:

* `WhereClause.Sql.values_append`, `WhereClause.Sql.textFrom_append` — values and text of a
  predicate are those of its parts, the second numbered behind the first.
-/

import WhereClause.Value

set_option autoImplicit false

namespace WhereClause

/-- A piece of a predicate. -/
inductive Piece where
  /-- Fixed text. -/
  | code (text : String)
  /-- A column name, to be quoted. -/
  | column (name : String)
  /-- A value, to be bound. -/
  | bind (value : Value)
deriving Repr, Inhabited

/-- A predicate as a list of pieces. -/
abbrev Sql := List Piece

namespace Sql

/-- The bound values, in order. -/
def values : Sql → List Value
  | [] => []
  | .bind value :: rest => value :: values rest
  | _ :: rest => values rest

@[simp] theorem values_nil : values [] = [] := rfl

@[simp] theorem values_bind (value : Value) (rest : Sql) :
    values (.bind value :: rest) = value :: values rest := rfl

@[simp] theorem values_code (text : String) (rest : Sql) :
    values (.code text :: rest) = values rest := rfl

@[simp] theorem values_column (name : String) (rest : Sql) :
    values (.column name :: rest) = values rest := rfl

/-- The values of a whole are those of its parts. -/
@[simp] theorem values_append (p q : Sql) : values (p ++ q) = values p ++ values q := by
  induction p with
  | nil => rfl
  | cons piece rest ih => cases piece <;> simp [ih]

/-- The text of a predicate behind `bound` values: `quote` writes a name, and `placeholder` the
place of a value, counted from one. -/
def textFrom (quote : String → String) (placeholder : Nat → String) : Nat → Sql → String
  | _, [] => ""
  | bound, .code text :: rest => text ++ textFrom quote placeholder bound rest
  | bound, .column name :: rest => quote name ++ textFrom quote placeholder bound rest
  | bound, .bind _ :: rest =>
      placeholder (bound + 1) ++ textFrom quote placeholder (bound + 1) rest

/-- The text of a whole is that of its parts, the second numbered behind the first. -/
theorem textFrom_append (quote : String → String) (placeholder : Nat → String) (bound : Nat)
    (p q : Sql) :
    textFrom quote placeholder bound (p ++ q) =
      textFrom quote placeholder bound p ++
        textFrom quote placeholder (bound + (values p).length) q := by
  induction p generalizing bound with
  | nil => simp [textFrom]
  | cons piece rest ih =>
      cases piece with
      | code text => simp [textFrom, ih, String.append_assoc]
      | column name => simp [textFrom, ih, String.append_assoc]
      | bind value =>
          simp only [List.cons_append, textFrom, ih, values_bind, List.length_cons,
            String.append_assoc]
          rw [show bound + 1 + (values rest).length = bound + ((values rest).length + 1) by omega]

/-- Predicates joined by fixed code. -/
def joined (separator : String) : List Sql → Sql
  | [] => []
  | [p] => p
  | p :: q :: rest => p ++ .code separator :: joined separator (q :: rest)

@[simp] theorem joined_nil (separator : String) : joined separator [] = [] := rfl

@[simp] theorem joined_singleton (separator : String) (p : Sql) : joined separator [p] = p := rfl

/-- A bound value in a pair of parentheses. -/
def parenthesized (p : Sql) : Sql := .code "(" :: (p ++ [.code ")"])

end Sql

end WhereClause

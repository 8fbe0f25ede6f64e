/-
**From terms to a predicate.**

The term for every column is rendered first, as a group of alternatives, one for each column that
has no term of its own.  The term for the identifier and the stored terms follow as a chain in their
order; a term is joined to the ones before it with AND, or with OR if it asks for that.

Main definitions:

* `WhereClause.Dialect.targets` — the columns that the term for every column is rendered for;
* `WhereClause.Dialect.group` — the alternatives;
* `WhereClause.Dialect.chain` — the chain;
* `WhereClause.Dialect.assemble` — the whole predicate.
-/

import WhereClause.Params
import WhereClause.Rendering

set_option autoImplicit false

namespace WhereClause.Dialect

/-- The columns that the term for every column is rendered for: those that the filter document
names, or else those of the table, without the ones that have a term and the keys that are no
column. -/
def targets (d : Dialect) (p : Params) (columns : List String) : List String :=
  let candidates := if p.fields.isEmpty then columns else p.fields
  candidates.filter fun column => !p.contains column && !d.reserved.isExcluded column

/-- The alternatives of the last term for every column, one for each target. -/
def group (d : Dialect) (p : Params) (columns : List String) : List Sql :=
  match (p.get d.reserved.wildcard).getLast? with
  | none => []
  | some wildcard => (d.targets p columns).map fun column => d.render (wildcard.rebind column)

/-- The terms of the chain: the one for the identifier, then the stored ones whose key is a
column. -/
def chainTerms (d : Dialect) (p : Params) : List Term :=
  p.id.toList ++ p.terms.filter fun t => !d.reserved.isExcluded t.key

/-- The word that joins a term to the ones before it. -/
def joint (t : Term) : String := if t.isOr then " OR " else " AND "

/-- The chain of some terms. -/
def chain (d : Dialect) : List Term → Sql
  | [] => []
  | t :: rest => d.render t ++ rest.flatMap fun u => .code (joint u) :: d.render u

@[simp] theorem chain_nil (d : Dialect) : d.chain [] = [] := rfl

/-- The predicate of the parameters of a request. -/
def assemble (d : Dialect) (p : Params) (columns : List String) : Sql :=
  match d.group p columns, d.chainTerms p with
  | [], terms => d.chain terms
  | parts, [] => (Sql.joined " OR " parts).parenthesized
  | parts, terms => (Sql.joined " OR " parts).parenthesized ++ .code " AND " :: d.chain terms

end WhereClause.Dialect

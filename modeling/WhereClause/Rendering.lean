/-
**Terms as predicates.**

A formatted term is rendered by the kind of its operator: a look-up with or without a comparison of
what is found, a quantified comparison with the value in front, an overlap of two lists, or a plain
comparison.

Main definitions:

* `WhereClause.Dialect.renderComparison` — a comparison of a given left side;
* `WhereClause.Dialect.render` — a term.

Main results:

* `WhereClause.Dialect.render_lookup`, `WhereClause.Dialect.render_quantified`,
  `WhereClause.Dialect.render_overlap`, `WhereClause.Dialect.render_comparison` — how a term of each
  kind is rendered.
-/

import WhereClause.Dialect.Basic

set_option autoImplicit false

namespace WhereClause.Dialect

/-- A comparison of a left side with a value. -/
def renderComparison (d : Dialect) (lhs : Sql) (c : Comparison) : Sql :=
  match c.operator, c.value with
  | .eq, .null => lhs ++ [.code " IS NULL"]
  | .neq, .null => lhs ++ [.code " IS NOT NULL"]
  | .oneOf, value => d.inArray lhs [.bind value]
  | .noneOf, value => d.notInArray lhs [.bind value]
  | .between, .range lower upper =>
      lhs ++ [.code " BETWEEN ", .bind lower, .code " AND ", .bind upper]
  | op, value =>
      lhs ++ [.code (" " ++ d.operatorSql op ++ " "), .bind value, .code (c.valueCast.getD "")]

/-- The column of a term: a quoted name, or the key as it is. -/
def columnOf (c : Comparison) : Sql := if c.quoted then [.column c.key] else [.code c.key]

/-- What a look-up finds, with the cast of the comparison below it. -/
def castLookup (lhs : Sql) : Option String → Sql
  | none => lhs
  | some cast => lhs.parenthesized ++ [.code cast]

/-- A term as a predicate.  Of the comparisons below a look-up only the first is rendered. -/
def render (d : Dialect) (t : Term) : Sql :=
  let column := columnOf t.toComparison
  if t.operator.isJsonPath then
    let lhs := d.jsonPath column t.operator [.bind t.value]
    match t.path with
    | [] => lhs
    | c :: _ => d.renderComparison (castLookup lhs c.keyCast) c
  else if t.operator.isQuantified then
    let equality := if t.operator.isNegatedQuantifier then " != " else " = "
    .bind t.value :: .code (equality ++ d.operatorSql t.operator ++ "(") :: (column ++ [.code ")"])
  else if t.operator.isOverlap then
    let overlap := d.arrayOverlap column [.bind t.value] t.valueCast
    match t.operator with
    | .notOverlaps => .code "NOT " :: overlap
    | _ => overlap
  else
    match t.keyCast with
    | none => d.renderComparison column t.toComparison
    | some cast => d.renderComparison (column ++ [.code cast]) t.toComparison

/-! The four kinds of terms: look-ups, quantified comparisons, overlaps and plain comparisons. -/

section Kinds

variable (d : Dialect) {t : Term}

theorem render_lookup (hjson : t.operator.isJsonPath = true) :
    d.render t =
      match t.path with
      | [] => d.jsonPath (columnOf t.toComparison) t.operator [.bind t.value]
      | c :: _ =>
          d.renderComparison
            (castLookup (d.jsonPath (columnOf t.toComparison) t.operator [.bind t.value]) c.keyCast)
            c := by
  simp only [render, hjson, if_true]

theorem render_quantified (hjson : t.operator.isJsonPath = false)
    (hquant : t.operator.isQuantified = true) :
    d.render t =
      .bind t.value ::
        .code ((if t.operator.isNegatedQuantifier then " != " else " = ") ++
          d.operatorSql t.operator ++ "(") :: (columnOf t.toComparison ++ [.code ")"]) := by
  simp only [render, hjson, hquant, if_true, Bool.false_eq_true, if_false]

theorem render_overlap (hover : t.operator.isOverlap = true) :
    d.render t =
      (if t.operator = .notOverlaps then [.code "NOT "] else []) ++
        d.arrayOverlap (columnOf t.toComparison) [.bind t.value] t.valueCast := by
  cases hop : t.operator <;>
    simp_all [render, Operator.isJsonPath, Operator.isQuantified, Operator.isOverlap]

theorem render_comparison (hjson : t.operator.isJsonPath = false)
    (hquant : t.operator.isQuantified = false) (hover : t.operator.isOverlap = false) :
    d.render t =
      d.renderComparison (columnOf t.toComparison ++ t.keyCast.toList.map .code)
        t.toComparison := by
  cases hcast : t.keyCast <;> simp [render, hjson, hquant, hover, hcast]

end Kinds

end WhereClause.Dialect

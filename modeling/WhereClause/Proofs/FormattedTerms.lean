/-
**Formatting a term again.**

A dialect brings a term into the form in which it is rendered, and the comparison below a look-up
goes through this twice: once when it is read on its own, and again when the look-up is.  So a term
that is in its form has to be left as it is, whatever its operators and values are and however deep
the chain below it is.  For a chain this follows from what one comparison does.

Main definitions:

* `WhereClause.NormalForm.Lasting` — settling one comparison again changes nothing, at the head of a
  term and below a look-up.

Main results:

* `WhereClause.Comparison.settled_settled` — settling a comparison twice changes nothing more;
* `WhereClause.NormalForm.Lasting.formatBelow_self`, `WhereClause.NormalForm.Lasting.format_self` —
  what is true of one comparison is true of a chain and of a term;
* `WhereClause.Flavour.lasting` — it is true of every dialect;
* `WhereClause.format_of_format` — **a formatted term is formatted to itself**.
-/

import Mathlib.Tactic.SplitIfs
import WhereClause.Proofs.WellFormed

set_option relaxedAutoImplicit false
set_option autoImplicit false

namespace WhereClause

/-! ### Settling a comparison twice -/

/-- An overlap is settled on every shape. -/
theorem Operator.settled_of_isOverlap {op : Operator} (h : op.isOverlap = true) (shape : Shape) :
    op.settled shape = op := by
  revert h
  cases op <;> cases shape <;> decide

/-- Settling keeps the shape of a value, unless an overlap takes a scalar as a list. -/
theorem Comparison.shape_settled (c : Comparison) : c.settled.shape =
    if c.shape = .scalar ∧ c.operator.isOverlap = true then .array else c.shape := by
  rw [shape, value_settled]
  split <;> rfl

/-- **Settling a comparison twice changes nothing more.** -/
@[simp] theorem Comparison.settled_settled (c : Comparison) : c.settled.settled = c.settled := by
  have hoperator : c.settled.settled.operator = c.settled.operator := by
    rw [operator_settled, shape_settled, operator_settled]
    split
    next h => rw [Operator.settled_of_isOverlap h.2, Operator.settled_of_isOverlap h.2]
    next => rw [Operator.settled_settled]
  have hvalue : c.settled.settled.value = c.settled.value := by
    rw [value_settled c.settled, if_neg]
    rintro ⟨hscalar, hoverlap⟩
    rw [operator_settled, Operator.isOverlap_settled] at hoverlap
    -- an overlap with a scalar has become one with a list
    rw [shape_settled, hoverlap] at hscalar
    split at hscalar
    next => cases hscalar
    next h => exact h ⟨hscalar, rfl⟩
  calc
    c.settled.settled = { c.settled with
      operator := c.settled.settled.operator, value := c.settled.settled.value } := rfl
    _ = c.settled := by rw [hoperator, hvalue]

/-! ### Formatting a term twice -/

namespace NormalForm

/-- What one comparison is settled to lasts: settling it again changes nothing, neither at the head
of a term nor below a look-up, and no operator that could be rendered there is lost. -/
structure Lasting (form : NormalForm) : Prop where
  supports : ∀ c, form.supports c.operator = true →
    form.supports (form.settle c).operator = true
  needsColumn : ∀ c, (form.settle c).operator.needsColumn = c.operator.needsColumn
  settle : ∀ c, form.settle (form.settle c) = form.settle c
  operator_below : ∀ above c, (form.below above c).operator = c.operator
  operator_settle : ∀ above c,
    (form.settle (form.below above (form.settle c))).operator = (form.settle c).operator
  below : ∀ above c, form.below above (form.settle (form.below above (form.settle c))) =
    form.below above (form.settle c)

variable {form : NormalForm}

/-- A chain in its form is left as it is. -/
theorem Lasting.formatBelow_self (h : form.Lasting) {above : Operator}
    {chain path : List Comparison} (hpath : form.formatBelow above chain = .ok path) :
    form.formatBelow above path = .ok path := by
  induction chain generalizing above path with
  | nil =>
      cases hpath
      rfl
  | cons c chain ih =>
      obtain ⟨hcolumn, hsupports, rest, hrest, rfl⟩ := formatBelow_cons_eq_ok_iff.1 hpath
      refine formatBelow_cons_eq_ok_iff.2 ⟨?_, ?_, rest, ?_, ?_⟩
      · rw [h.operator_below, h.needsColumn, hcolumn]
      · rw [h.operator_below]
        exact h.supports c hsupports
      · -- the rest of the chain is below the same operator as before
        rw [h.operator_settle]
        exact ih hrest
      · rw [h.below]

/-- **A term in its form is left as it is.** -/
theorem Lasting.format_self (h : form.Lasting) {t u : Term} (hformat : form.format t = .ok u) :
    form.format u = .ok u := by
  obtain ⟨hsupports, path, hpath, rfl⟩ := format_eq_ok_iff.1 hformat
  refine format_eq_ok_iff.2 ⟨h.supports _ hsupports, path, ?_, ?_⟩
  · change form.formatBelow (form.settle (form.settle t.toComparison)).operator path = .ok path
    rw [h.settle]
    exact h.formatBelow_self hpath
  · change Term.ofChain (form.settle t.toComparison) path =
      .ofChain (form.settle (form.settle t.toComparison)) path
    rw [h.settle]

end NormalForm

/-! ### The dialects -/

/-- Settling with the casts of PostgreSQL twice changes nothing more. -/
theorem PlaceholderStyle.settle_settle (style : PlaceholderStyle) (c : Comparison) :
    style.settle (style.settle c) = style.settle c := by
  have hsettled : (style.settle c).settled = style.settle c :=
    calc
      (style.settle c).settled = { c.settled.settled with
        keyCast := (style.settle c).keyCast, valueCast := (style.settle c).valueCast } := rfl
      _ = style.settle c := by
        rw [c.settled_settled]
        rfl
  rw [settle, hsettled]
  simp only [settle]
  split_ifs <;> rfl

/-- The cast that a textual look-up takes away is put in again by settling, and taken away again. -/
theorem PlaceholderStyle.settle_withoutCast (style : PlaceholderStyle) (c : Comparison) :
    { style.settle { style.settle c with keyCast := none } with keyCast := none } =
      { style.settle c with keyCast := none } := by
  have hsettle : style.settle { style.settle c with keyCast := none } =
      { style.settle (style.settle c) with keyCast :=
          if (style.settle c).settled.operator.isTextual then some "::text" else none } := rfl
  rw [hsettle, style.settle_settle]

/-- **What one comparison is settled to lasts, in every dialect.** -/
theorem Flavour.lasting (f : Flavour) : f.normalForm.Lasting := by
  have hneeds : ∀ c, (f.normalForm.settle c).operator.needsColumn = c.operator.needsColumn := by
    intro c
    rw [operator_settle, Operator.needsColumn_settled]
  have hbelow : ∀ above c, (f.normalForm.below above c).operator = c.operator := by
    intro above c
    cases f with
    | mysql => rfl
    | postgres style => cases above <;> rfl
  cases f with
  | mysql =>
      refine ⟨fun c hc => ?_, hneeds, Comparison.settled_settled, hbelow, fun above c => ?_,
        fun above c => Comparison.settled_settled c⟩
      · rw [operator_settle]
        exact (Operator.inMySql_settled _ _).trans hc
      · exact congrArg Comparison.operator c.settled_settled
  | postgres style =>
      refine ⟨fun _ _ => rfl, hneeds, style.settle_settle, hbelow, fun above c => ?_,
        fun above c => ?_⟩
      · -- the operator does not depend on the casts
        have hoperator : ∀ c, (style.settle (style.settle c)).operator = (style.settle c).operator :=
          fun c => congrArg Comparison.operator (style.settle_settle c)
        cases above <;> exact hoperator c
      · cases above with
        | jsonPathText => exact style.settle_withoutCast c
        | _ => exact style.settle_settle c

/-- **A formatted term is formatted to itself.** -/
theorem format_of_format {f : Flavour} {r : ReservedKeys} {t u : Term}
    (h : (f.dialect r).format t = .ok u) : (f.dialect r).format u = .ok u := by
  rw [Flavour.format_dialect] at h ⊢
  exact f.lasting.format_self h

/-- A pattern loses its cast again below a textual look-up, at whatever depth; an overlap with a
scalar, with a look-up below it that no query can give it, becomes one with a list and stays one. -/
theorem format_of_deep_chain : ∃ u,
    ((Flavour.postgres .dollar).dialect {}).format
        { key := "tags", operator := .overlaps, value := .float64 (Binary.ofInt .double 1),
          path := [{ key := "a", operator := .jsonPathText }, { key := "b", operator := .jsonPathText },
            { key := "c", operator := .iregex, value := .array [.null] }] } = .ok u ∧
      u.path.map (fun c => c.keyCast) = [none, none, none] ∧
      u.valueCast = some "::text[]" ∧
      ((Flavour.postgres .dollar).dialect {}).format u = .ok u := by
  obtain ⟨u, hformat, hkeyCasts, hvalueCast⟩ : ∃ u,
      ((Flavour.postgres .dollar).dialect {}).format
        { key := "tags", operator := .overlaps, value := .float64 (Binary.ofInt .double 1),
          path := [{ key := "a", operator := .jsonPathText }, { key := "b", operator := .jsonPathText },
            { key := "c", operator := .iregex, value := .array [.null] }] } = .ok u ∧
        u.path.map (fun c => c.keyCast) = [none, none, none] ∧
        u.valueCast = some "::text[]" := ⟨_, rfl, rfl, rfl⟩
  exact ⟨u, hformat, hkeyCasts, hvalueCast, format_of_format hformat⟩

end WhereClause

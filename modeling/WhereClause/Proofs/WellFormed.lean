/-
**Well-formed terms.**

A dialect can write any term, but only some of what it writes is a predicate: an interval needs two
bounds, and a cast has to be one that the dialect itself puts in.  Every parsed term is well formed
in this sense, and so is every copy of it on another column.

Main definitions:

* `WhereClause.Operator.postgresOnly` — the operators that only PostgreSQL has;
* `WhereClause.Flavour.keyCast`, `WhereClause.Flavour.lookupCast`,
  `WhereClause.Flavour.overlapCasts` — the casts that a dialect puts in;
* `WhereClause.Comparison.WellFormed`, `WhereClause.Term.WellFormed` — comparisons and terms as a
  dialect forms them.

Main results:

* `WhereClause.Flavour.parse_of_column` — a pair whose key chooses no look-up is cast and settled;
* `WhereClause.wellFormed_of_parse` — **every parsed term is well formed**;
* `WhereClause.wellFormed_of_collect` — and so is every term of a request.
-/

import WhereClause.Proofs.Flavour
import WhereClause.Proofs.Parsed

set_option relaxedAutoImplicit false
set_option autoImplicit false

namespace WhereClause

/-! ### What settling keeps -/

@[simp] theorem Operator.isTextual_settled (op : Operator) (shape : Shape) :
    (op.settled shape).isTextual = op.isTextual := by
  cases op <;> cases shape <;> rfl

@[simp] theorem Operator.isJsonPath_settled (op : Operator) (shape : Shape) :
    (op.settled shape).isJsonPath = op.isJsonPath := by
  cases op <;> cases shape <;> rfl

@[simp] theorem Operator.needsColumn_settled (op : Operator) (shape : Shape) :
    (op.settled shape).needsColumn = op.needsColumn := by
  cases op <;> cases shape <;> rfl

@[simp] theorem Operator.inMySql_settled (op : Operator) (shape : Shape) :
    (op.settled shape).inMySql = op.inMySql := by
  cases op <;> cases shape <;> rfl

/-- A look-up is no overlap. -/
theorem Operator.isOverlap_of_isJsonPath {op : Operator} (h : op.isJsonPath = true) :
    op.isOverlap = false := by
  revert h
  cases op <;> decide

/-- Only a pair of bounds makes an operator an interval. -/
theorem Operator.shape_of_settled_eq_between {op : Operator} {shape : Shape}
    (h : op.settled shape = .between) : shape = .range := by
  cases op <;> cases shape <;> first | rfl | cases h

/-- The values with the shape of a range are the pairs of bounds. -/
theorem Value.exists_of_shape_eq_range {v : Value} (h : v.shape = .range) :
    ∃ lower upper, v = .range lower upper := by
  cases v with
  | range lower upper => exact ⟨lower, upper, rfl⟩
  | _ => cases h

@[simp] theorem Comparison.operator_settled (c : Comparison) :
    c.settled.operator = c.operator.settled c.shape := rfl

@[simp] theorem Comparison.keyCast_settled (c : Comparison) : c.settled.keyCast = c.keyCast := rfl

@[simp] theorem Comparison.valueCast_settled (c : Comparison) :
    c.settled.valueCast = c.valueCast := rfl

@[simp] theorem Comparison.quoted_settled (c : Comparison) : c.settled.quoted = c.quoted := rfl

@[simp] theorem Comparison.dataType_settled (c : Comparison) :
    c.settled.dataType = c.dataType := rfl

/-- Settling changes the value of an overlap with a scalar only. -/
theorem Comparison.value_settled (c : Comparison) : c.settled.value =
    if c.shape = .scalar ∧ c.operator.isOverlap = true then .array [c.value] else c.value := by
  cases hshape : c.shape <;> simp [settled, hshape]

/-- The operators that only PostgreSQL has. -/
def Operator.postgresOnly : List Operator :=
  [.similar, .notSimilar, .iregex, .notIregex, .overlaps, .notOverlaps, .anyOf, .someOf, .allOf,
    .notAnyOf, .notSomeOf, .notAllOf]

/-- They are the operators that MySQL cannot render. -/
theorem Operator.mem_postgresOnly_iff (op : Operator) :
    op ∈ postgresOnly ↔ op.inMySql = false := by
  cases op <;> decide

/-! ### Casts -/

namespace Flavour

/-- The cast behind the column of an operator. -/
def keyCast : Flavour → Operator → Option String
  | postgres _, op => if op.isTextual then some "::text" else none
  | mysql, _ => none

/-- The cast behind what a look-up with operator `above` finds, for the operator below it. -/
def lookupCast (f : Flavour) (above op : Operator) : Option String :=
  match above with
  | .jsonPathText => none
  | _ => f.keyCast op

/-- The casts that may stand behind the list of an overlap. -/
def overlapCasts : Flavour → List (Option String)
  | postgres style => (none :: DataType.all.map some).map style.overlapCast
  | mysql => []

end Flavour

/-! ### Well-formed comparisons and terms -/

/-- A comparison as a dialect forms it, its key and the cast of its key aside. -/
structure Comparison.WellFormed (f : Flavour) (c : Comparison) : Prop where
  supported : f.normalForm.supports c.operator = true
  bounds : c.operator = .between → ∃ lower upper, c.value = .range lower upper
  valueCast : c.valueCast ∈ if c.operator.isOverlap then f.overlapCasts else [none]

/-- A comparison as a dialect forms it below a look-up with operator `above`. -/
structure Comparison.WellFormedBelow (f : Flavour) (above : Operator) (c : Comparison) : Prop
    extends c.WellFormed f where
  needsColumn : c.operator.needsColumn = false
  keyCast : c.keyCast = f.lookupCast above c.operator

/-- A term as a dialect forms it: a comparison of a quoted column, with at most one comparison below
it, and with none unless it is a look-up. -/
structure Term.WellFormed (f : Flavour) (t : Term) : Prop extends t.toComparison.WellFormed f where
  quoted : t.quoted = true
  keyCast : t.keyCast = f.keyCast t.operator
  path : t.path = [] ∨
    t.operator.isJsonPath = true ∧ ∃ c, t.path = [c] ∧ c.WellFormedBelow f t.operator

/-- The same condition on another column is as well formed. -/
theorem Term.WellFormed.rebind {f : Flavour} {t : Term} (h : t.WellFormed f) (key : String) :
    (t.rebind key).WellFormed f :=
  { supported := h.supported, bounds := h.bounds, valueCast := h.valueCast, quoted := rfl,
    keyCast := h.keyCast, path := h.path }

/-- A term that holds a text as it is is well formed. -/
theorem Term.wellFormed_verbatim (f : Flavour) (key raw : String) :
    (Term.verbatim key raw).WellFormed f :=
  { supported := by cases f <;> rfl
    bounds := by intro h; cases h
    valueCast := by simp [verbatim, Operator.isOverlap]
    quoted := rfl
    keyCast := by cases f <;> rfl
    path := .inl rfl }

/-! ### Forming terms -/

/-- A comparison that is not formed yet, or is formed already: its casts are the ones that the
dialect puts in, or none. -/
structure Comparison.Formable (f : Flavour) (c : Comparison) : Prop where
  keyCast : c.keyCast = none ∨ c.keyCast = f.keyCast c.operator
  valueCast : c.valueCast = none ∨ c.operator.isOverlap = true

namespace Flavour

variable {f : Flavour} {c : Comparison}

theorem operator_settle (f : Flavour) (c : Comparison) :
    (f.normalForm.settle c).operator = c.operator.settled c.shape := by
  cases f <;> rfl

theorem quoted_settle (f : Flavour) (c : Comparison) :
    (f.normalForm.settle c).quoted = c.quoted := by
  cases f <;> rfl

theorem value_settle (f : Flavour) (c : Comparison) :
    (f.normalForm.settle c).value = c.settled.value := by
  cases f <;> rfl

/-- Only an overlap changes the value of a comparison. -/
theorem value_settle_of_not_isOverlap (h : c.operator.isOverlap = false) :
    (f.normalForm.settle c).value = c.value := by
  rw [value_settle, Comparison.value_settled, if_neg]
  rintro ⟨-, hoverlap⟩
  rw [h] at hoverlap
  cases hoverlap

/-- Settling puts in the cast behind the column. -/
theorem keyCast_settle (hc : c.Formable f) :
    (f.normalForm.settle c).keyCast = f.keyCast (f.normalForm.settle c).operator := by
  rw [operator_settle]
  cases f with
  | mysql => simpa [normalForm, mysqlForm, keyCast] using hc.keyCast
  | postgres style =>
      have h := hc.keyCast
      cases ht : c.operator.isTextual <;>
        simp_all [normalForm, PlaceholderStyle.normalForm, PlaceholderStyle.settle, keyCast]

/-- Settling puts in the cast behind the list of an overlap. -/
theorem valueCast_settle (hc : c.Formable f) (hs : f.normalForm.supports c.operator = true) :
    (f.normalForm.settle c).valueCast ∈
      if (f.normalForm.settle c).operator.isOverlap then f.overlapCasts else [none] := by
  rw [operator_settle, Operator.isOverlap_settled]
  have h := hc.valueCast
  cases f with
  | mysql =>
      have hover : c.operator.isOverlap = false := by
        revert hs
        cases c.operator <;> decide
      simpa [hover, normalForm, mysqlForm] using h
  | postgres style =>
      cases hover : c.operator.isOverlap with
      | false => simpa [hover, normalForm, PlaceholderStyle.normalForm,
          PlaceholderStyle.settle] using h
      | true =>
          simp only [normalForm, PlaceholderStyle.normalForm, PlaceholderStyle.settle,
            Comparison.operator_settled, Operator.isOverlap_settled, hover, if_true, overlapCasts]
          refine List.mem_map_of_mem ?_
          cases c.settled.dataType with
          | none => simp
          | some type => simp [DataType.mem_all]

/-- **A comparison that can be rendered is well formed once it is settled.** -/
theorem wellFormed_settle (hc : c.Formable f) (hs : f.normalForm.supports c.operator = true) :
    (f.normalForm.settle c).WellFormed f where
  supported := by
    rw [operator_settle]
    cases f with
    | postgres style => rfl
    | mysql => simpa [normalForm, mysqlForm] using hs
  bounds := by
    intro h
    rw [operator_settle] at h
    have hshape : c.shape = .range := Operator.shape_of_settled_eq_between h
    rw [value_settle, Comparison.value_settled, if_neg (by simp [hshape])]
    exact Value.exists_of_shape_eq_range hshape
  valueCast := valueCast_settle hc hs

/-- Below a look-up, a comparison loses the cast behind what a textual look-up finds. -/
theorem wellFormedBelow_settle {above : Operator} (hc : c.Formable f)
    (hs : f.normalForm.supports c.operator = true) (hcol : c.operator.needsColumn = false) :
    (f.normalForm.below above (f.normalForm.settle c)).WellFormedBelow f above := by
  have hwf := wellFormed_settle hc hs
  have hkey := keyCast_settle hc
  have hneeds : (f.normalForm.settle c).operator.needsColumn = false := by
    rw [operator_settle, Operator.needsColumn_settled, hcol]
  cases f with
  | mysql => exact ⟨hwf, hneeds, by cases above <;> exact hkey⟩
  | postgres style =>
      -- only what a textual look-up finds is text already and loses its cast
      cases above with
      | jsonPathText => exact ⟨⟨hwf.supported, hwf.bounds, hwf.valueCast⟩, hneeds, rfl⟩
      | _ => exact ⟨hwf, hneeds, hkey⟩

/-- A term with nothing below it is settled, if its operator can be rendered. -/
theorem format_of_path_eq_nil {t : Term} (hs : f.normalForm.supports t.operator = true)
    (hpath : t.path = []) :
    f.normalForm.format t = .ok (.ofChain (f.normalForm.settle t.toComparison) []) :=
  NormalForm.format_eq_ok_iff.2 ⟨hs, [], by rw [hpath]; rfl, rfl⟩

/-- **A pair whose key chooses no look-up is cast and settled**, if its operator can be rendered. -/
theorem parse_of_column {r : ReservedKeys} {key : String}
    (hjson : (Key.read (f.dialect r) key.toList).operator.isJsonPath = false)
    (hs : f.normalForm.supports (Key.read (f.dialect r) key.toList).operator = true)
    (value : String) :
    (f.dialect r).parse key value =
      ((f.dialect r).applyCast value
        (Dialect.startTerm (Key.read (f.dialect r) key.toList) value)).map fun u =>
          .ofChain (f.normalForm.settle u.toComparison) [] := by
  rw [Dialect.parse_eq_parseSingle hjson, Dialect.parseSingle]
  simp only [hjson, Bool.false_eq_true, if_false]
  cases hcast : (f.dialect r).applyCast value
      (Dialect.startTerm (Key.read (f.dialect r) key.toList) value) with
  | error failure => rfl
  | ok u =>
      obtain ⟨-, hint, v, -, -, rfl⟩ := Dialect.applyCast_eq_ok_iff.1 hcast
      rw [format_dialect]
      exact format_of_path_eq_nil hs rfl

/-- A term without a comparison below it is formed well. -/
theorem wellFormed_of_format {t u : Term} (hc : t.toComparison.Formable f)
    (hq : t.quoted = true) (hpath : t.path = []) (h : f.normalForm.format t = .ok u) :
    u.WellFormed f ∧ u.path = [] := by
  obtain ⟨hs, path, hbelow, rfl⟩ := NormalForm.format_eq_ok_iff.1 h
  rw [hpath] at hbelow
  cases hbelow
  exact ⟨⟨wellFormed_settle hc hs, (quoted_settle f t.toComparison).trans hq,
    keyCast_settle hc, .inl rfl⟩, rfl⟩

/-- A look-up with a comparison below it is formed well. -/
theorem wellFormed_of_format_lookUp {t u : Term} {c : Comparison}
    (ht : t.toComparison.Formable f) (hq : t.quoted = true)
    (hjson : t.operator.isJsonPath = true) (hc : c.Formable f) (hpath : t.path = [c])
    (h : f.normalForm.format t = .ok u) : u.WellFormed f := by
  obtain ⟨hs, path, hbelow, rfl⟩ := NormalForm.format_eq_ok_iff.1 h
  rw [hpath] at hbelow
  obtain ⟨hcol, hsc, rfl⟩ := NormalForm.formatBelow_singleton_eq_ok_iff.1 hbelow
  refine ⟨wellFormed_settle ht hs, (quoted_settle f t.toComparison).trans hq,
    keyCast_settle ht, .inr ⟨?_, _, rfl, wellFormedBelow_settle hc hsc hcol⟩⟩
  change (f.normalForm.settle t.toComparison).operator.isJsonPath = true
  rw [operator_settle, Operator.isJsonPath_settled, hjson]

end Flavour

/-! ### Parsed terms -/

/-- A comparison as a dialect forms it can be formed again. -/
theorem Term.WellFormed.formable {f : Flavour} {t : Term} (h : t.WellFormed f) :
    t.toComparison.Formable f where
  keyCast := .inr h.keyCast
  valueCast := by
    have hv := h.valueCast
    cases hover : t.operator.isOverlap with
    | true => exact .inr rfl
    | false => simpa [hover] using hv

/-- **Every parsed term is well formed.** -/
theorem wellFormed_of_parse {f : Flavour} {r : ReservedKeys} {key value : String} {t : Term}
    (h : (f.dialect r).parse key value = .ok t) : t.WellFormed f := by
  have hsingle : ∀ {key value : String} {t : Term}, (f.dialect r).parseSingle key value = .ok t →
      t.WellFormed f ∧ t.path = [] := by
    intro key value t h
    obtain ⟨type, v, hformat⟩ := Dialect.exists_of_parseSingle h
    rw [Flavour.format_dialect] at hformat
    exact Flavour.wellFormed_of_format ⟨.inl rfl, .inl rfl⟩ rfl rfl hformat
  rcases Dialect.exists_of_parse h with h | ⟨hjson, subkey, subvalue, nested, hnested, hformat⟩
  · exact (hsingle h).1
  · obtain ⟨hwf, hpath⟩ := hsingle hnested
    rw [Flavour.format_dialect] at hformat
    have hbelow : Comparison.Formable f
        { nested.toComparison with quoted := false, isOr := false } :=
      ⟨hwf.formable.keyCast, hwf.formable.valueCast⟩
    refine Flavour.wellFormed_of_format_lookUp ⟨.inl rfl, .inl rfl⟩ rfl hjson hbelow ?_ hformat
    simp [Dialect.lookUp, hpath]

/-- **Every term of a request is well formed.** -/
theorem wellFormed_of_collect {f : Flavour} {r : ReservedKeys} {idField : String}
    {pairs : List (String × String)} {id : Option String} {body : Option (List UInt8)} {p : Params}
    (h : Compiler.collect ⟨f.dialect r, idField⟩ pairs id body = .ok p) :
    p.Forall (Term.WellFormed f) := by
  have hparse : ∀ key value t, (f.dialect r).parse key value = .ok t → t.WellFormed f :=
    fun _ _ _ => wellFormed_of_parse
  have hextra : ∀ value, (Term.verbatim (f.dialect r).reserved.extra value).WellFormed f :=
    fun value => Term.wellFormed_verbatim f _ value
  exact Compiler.forall_of_collect (c := ⟨f.dialect r, idField⟩) hparse hextra h

end WhereClause

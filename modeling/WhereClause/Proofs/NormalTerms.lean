/-
**The normal form of parsed terms.**

How a value was written decides what its operator comes to, and the two together decide what is
rendered: an interval needs two bounds, a membership needs a list, and whatever compares a column
with one placeholder needs one scalar.  Settling brings every value that the caster gives into a
form in which its operator can be rendered, and changes nothing about a comparison that is in this
form already, as the one below a look-up is when it is settled again.

Main definitions:

* `WhereClause.Operator.shapes`, `WhereClause.Value.leaves`, `WhereClause.Value.Typed` — the shapes
  that an operator is rendered with, the scalars of a value, and their types;
* `WhereClause.Comparison.Normal`, `WhereClause.Comparison.NormalBelow`, `WhereClause.Term.Normal` —
  comparisons and terms in normal form.

Main results:

* `WhereClause.normal_settled_of_reading` — a comparison with the value of its token is in normal
  form once it is settled;
* `WhereClause.Comparison.Normal.settled_eq` — settling leaves a comparison in normal form as it is;
* `WhereClause.normal_of_parse` — **every parsed term is in normal form**.
-/

import WhereClause.Proofs.CastReading
import WhereClause.Proofs.WellFormed

set_option relaxedAutoImplicit false
set_option autoImplicit false

namespace WhereClause

open Text

/-! ### Normal forms -/

/-- The shapes of the values that an operator is rendered with. -/
def Operator.shapes : Operator → List Shape
  | .oneOf => [.array]
  | .noneOf => [.array]
  | .between => [.range]
  | .overlaps => [.array, .null]
  | .notOverlaps => [.array, .null]
  | .jsonPath => [.scalar]
  | .jsonPathText => [.scalar]
  | _ => [.scalar, .null]

/-- What a value is made of: the items of a list, the bounds of a range, or the value itself. -/
def Value.leaves : Value → List Value
  | .array items => items
  | .range lower upper => [lower, upper]
  | v => [v]

/-- A value under an operator, as its declared type has it.  The word for no value stands for itself
unless it is declared a string, and without a declared type a truth value does so too. -/
def Value.Typed (v : Value) (operator : Operator) : Option DataType → Prop
  | some type => (∀ leaf ∈ v.leaves, type.admits leaf = true) ∨ v = .null ∧ type ≠ .string
  | none => (∀ leaf ∈ v.leaves, ∃ s, leaf = .string s) ∨ v = .null ∨ (∃ b, v = .bool b) ∨
      operator.isOverlap = true ∧ ∃ b, v = .array [.bool b]

/-- A comparison in the form in which its operator can be rendered. -/
structure Comparison.Normal (c : Comparison) : Prop where
  shape : c.shape ∈ c.operator.shapes
  filled : c.value ≠ .array []
  flat : c.shape = .array ∨ c.shape = .range → ∀ leaf ∈ c.value.leaves, leaf.shape = .scalar
  text : c.operator.isJsonPath = true → ∃ s, c.value = .string s
  typed : c.value.Typed c.operator c.dataType

/-- A comparison in normal form below the comparison `above`: it compares what is found under the
name that is looked up, and needs no column. -/
structure Comparison.NormalBelow (above c : Comparison) : Prop extends c.Normal where
  key : above.value = .string c.key
  quoted : c.quoted = false
  isOr : c.isOr = false
  isQuantified : c.operator.isQuantified = false
  isOverlap : c.operator.isOverlap = false

/-- A term in normal form: with nothing below it unless it is a look-up, with at most one comparison
there, and with no operator that its dialect lacks. -/
structure Term.Normal (f : Flavour) (t : Term) : Prop extends t.toComparison.Normal where
  path : t.path = [] ∨ t.operator.isJsonPath = true ∧
    ∃ c, t.path = [c] ∧ t.toComparison.NormalBelow c
  inMySql : f = .mysql → ∀ c ∈ t.toComparison :: t.path, c.operator ∉ Operator.postgresOnly

/-! ### Types -/

/-- The values of strings are strings. -/
theorem DataType.exists_of_string_admits {v : Value} (h : DataType.string.admits v = true) :
    ∃ s, v = .string s := by
  cases v with
  | string s => exact ⟨s, rfl⟩
  | _ => cases h

/-- A value whose parts are all of the declared type, or strings without one, is as it has to be. -/
theorem Value.typed_of_leaves {v : Value} {type : Option DataType} {operator : Operator}
    (h : ∀ leaf ∈ v.leaves, (type.getD .string).admits leaf = true) : v.Typed operator type := by
  cases type with
  | none => exact .inl fun leaf hleaf => DataType.exists_of_string_admits (h leaf hleaf)
  | some type => exact .inl h

/-! ### Settling once -/

/-- Every operator but a look-up can be settled on no value. -/
theorem Operator.null_mem_shapes_settled {op : Operator} (h : op.isJsonPath = false) :
    Shape.null ∈ (op.settled .null).shapes := by
  revert h
  cases op <;> decide

/-- Every operator can be settled on a scalar, which an overlap takes as a list. -/
theorem Operator.mem_shapes_settled (op : Operator) :
    (if op.isOverlap then Shape.array else Shape.scalar) ∈ (op.settled .scalar).shapes := by
  cases op <;> decide

/-- An operator that takes lists can be settled on a list. -/
theorem Operator.array_mem_shapes_settled {op : Operator} (h : op.acceptsArray = true) :
    Shape.array ∈ (op.settled .array).shapes := by
  revert h
  cases op <;> decide

/-- An interval can be settled on two bounds. -/
theorem Operator.range_mem_shapes_settled {op : Operator} (h : op.isRange = true) :
    Shape.range ∈ (op.settled .range).shapes := by
  revert h
  cases op <;> decide

/-- A scalar is its only part. -/
theorem Value.leaves_of_scalar {v : Value} (h : v.shape = .scalar) : v.leaves = [v] := by
  cases v <;> first | rfl | cases h

section Settled

variable {c : Comparison}

/-- What a settled comparison has to be, in terms of the value that it gets. -/
theorem normal_settled_of_value {v : Value} (hv : c.settled.value = v)
    (hshape : v.shape ∈ (c.operator.settled c.shape).shapes) (hfilled : v ≠ .array [])
    (hflat : v.shape = .array ∨ v.shape = .range → ∀ leaf ∈ v.leaves, leaf.shape = .scalar)
    (htext : c.operator.isJsonPath = true → ∃ s, v = .string s)
    (htyped : v.Typed c.operator c.dataType) : c.settled.Normal := by
  subst hv
  refine ⟨hshape, hfilled, hflat, ?_, ?_⟩
  · rwa [Comparison.operator_settled, Operator.isJsonPath_settled]
  · cases htype : c.dataType <;> simpa [Value.Typed, htype] using htyped

/-- Without a value, a comparison is in normal form once it is settled. -/
theorem normal_settled_of_null (hjson : c.operator.isJsonPath = false) (hv : c.value = .null)
    (htype : c.dataType ≠ some .string) : c.settled.Normal := by
  have hshape : c.shape = .null := by rw [Comparison.shape, hv]; rfl
  have hvalue : c.settled.value = .null := by simp [Comparison.value_settled, hshape, hv]
  refine normal_settled_of_value hvalue ?_ nofun (by rintro (h | h) <;> cases h)
    (by simp [hjson]) ?_
  · rw [hshape]
    exact Operator.null_mem_shapes_settled hjson
  · cases htype' : c.dataType with
    | none => exact .inr (.inl rfl)
    | some type => exact .inr ⟨rfl, fun h => htype (by rw [htype', h])⟩

/-- A list or two bounds of the declared type are in normal form once they are settled. -/
theorem normal_settled_of_leaves (hjson : c.operator.isJsonPath = false)
    (hscalar : c.shape ≠ .scalar) (hshape : c.shape ∈ (c.operator.settled c.shape).shapes)
    (hfilled : c.value ≠ .array [])
    (hleaves : ∀ leaf ∈ c.value.leaves, (c.dataType.getD .string).admits leaf = true) :
    c.settled.Normal := by
  have hvalue : c.settled.value = c.value := by simp [Comparison.value_settled, hscalar]
  refine normal_settled_of_value hvalue hshape hfilled ?_ (by simp [hjson])
    (Value.typed_of_leaves hleaves)
  exact fun _ leaf hleaf => DataType.shape_of_admits (hleaves leaf hleaf)

/-- A scalar of the declared type, or a truth value without one, is in normal form once it is
settled. -/
theorem normal_settled_of_scalar (hjson : c.operator.isJsonPath = false)
    (hscalar : c.shape = .scalar)
    (hv : (c.dataType.getD .string).admits c.value = true ∨
      c.dataType = none ∧ ∃ b, c.value = .bool b) : c.settled.Normal := by
  have hshape := Operator.mem_shapes_settled c.operator
  rw [← hscalar] at hshape
  cases hover : c.operator.isOverlap with
  | true =>
      -- an overlap takes the scalar as a list that holds nothing else
      rw [hover] at hshape
      have hvalue : c.settled.value = .array [c.value] := by
        simp [Comparison.value_settled, hscalar, hover]
      refine normal_settled_of_value hvalue hshape nofun ?_ (by simp [hjson]) ?_
      · intro _ leaf hleaf
        rw [List.mem_singleton.1 hleaf]
        exact hscalar
      · rcases hv with hv | ⟨htype, b, hb⟩
        · refine Value.typed_of_leaves fun leaf hleaf => ?_
          rw [List.mem_singleton.1 hleaf]
          exact hv
        · rw [htype, hb]
          exact .inr (.inr (.inr ⟨hover, b, rfl⟩))
  | false =>
      rw [hover] at hshape
      have hvalue : c.settled.value = c.value := by simp [Comparison.value_settled, hover]
      have hleaves := Value.leaves_of_scalar hscalar
      refine normal_settled_of_value hvalue hshape ?_ ?_ (by simp [hjson]) ?_
      · intro h
        rw [Comparison.shape, h] at hscalar
        cases hscalar
      · intro h
        rw [← Comparison.shape, hscalar] at h
        rcases h with h | h <;> cases h
      · rcases hv with hv | ⟨htype, b, hb⟩
        · refine Value.typed_of_leaves fun leaf hleaf => ?_
          rw [hleaves] at hleaf
          rw [List.mem_singleton.1 hleaf]
          exact hv
        · rw [htype]
          exact .inr (.inr (.inl ⟨b, hb⟩))

/-- **A comparison with the value of its token is in normal form once it is settled.** -/
theorem normal_settled_of_reading {delimiters token : List Char}
    (hjson : c.operator.isJsonPath = false)
    (h : Reading c.dataType c.operator delimiters token c.value) : c.settled.Normal := by
  generalize hv : c.value = v at h
  cases h with
  | missing htype => exact normal_settled_of_null hjson hv htype
  | truth b htype =>
      have hscalar : c.shape = .scalar := by rw [Comparison.shape, hv]; rfl
      exact normal_settled_of_scalar hjson hscalar (.inr ⟨htype, b, hv⟩)
  | bounds hrange _ _ hlower hupper =>
      have hshape : c.shape = .range := by rw [Comparison.shape, hv]; rfl
      refine normal_settled_of_leaves hjson (by simp [hshape]) ?_ (by simp [hv]) ?_
      · rw [hshape]
        exact Operator.range_mem_shapes_settled hrange
      · rw [hv]
        intro leaf hleaf
        rcases List.mem_pair.1 hleaf with rfl | rfl
        · exact admits_of_castScalar hlower
        · exact admits_of_castScalar hupper
  | list harray hne _ hitems =>
      have hshape : c.shape = .array := by rw [Comparison.shape, hv]; rfl
      refine normal_settled_of_leaves hjson (by simp [hshape]) ?_ ?_ ?_
      · rw [hshape]
        exact Operator.array_mem_shapes_settled harray
      · rw [hv]
        rintro ⟨⟩
        exact hne (List.forall₂_nil_right_iff.1 hitems)
      · rw [hv]
        exact admits_of_castItems hitems
  | scalar _ hscalar =>
      have hadmits := admits_of_castScalar hscalar
      refine normal_settled_of_scalar hjson ?_ (.inl (by rwa [hv]))
      rw [Comparison.shape, hv]
      exact DataType.shape_of_admits hadmits

/-- Settling keeps what is looked up. -/
theorem Comparison.value_settled_of_isJsonPath (hjson : c.operator.isJsonPath = true) :
    c.settled.value = c.value := by
  rw [value_settled, Operator.isOverlap_of_isJsonPath hjson]
  simp

/-- A look-up of a text is in normal form once it is settled. -/
theorem normal_settled_of_lookUp {s : String} (hjson : c.operator.isJsonPath = true)
    (hv : c.value = .string s) (htype : c.dataType = none) : c.settled.Normal := by
  have hscalar : c.shape = .scalar := by rw [Comparison.shape, hv]; rfl
  have hshape := Operator.mem_shapes_settled c.operator
  rw [Operator.isOverlap_of_isJsonPath hjson] at hshape
  refine normal_settled_of_value ((Comparison.value_settled_of_isJsonPath hjson).trans hv) ?_ nofun
    (by rintro (h | h) <;> cases h) (fun _ => ⟨s, rfl⟩) ?_
  · rw [hscalar]
    exact hshape
  · rw [htype]
    exact .inl fun leaf hleaf => ⟨s, List.mem_singleton.1 hleaf⟩

end Settled

/-! ### Settling again -/

/-- An operator on a shape that it is rendered with is settled. -/
theorem Operator.settled_of_mem_shapes {op : Operator} {shape : Shape} (h : shape ∈ op.shapes) :
    op.settled shape = op := by
  revert h
  cases op <;> cases shape <;> decide

/-- An overlap is not rendered with a scalar. -/
theorem Operator.isOverlap_of_scalar_mem_shapes {op : Operator} (h : Shape.scalar ∈ op.shapes) :
    op.isOverlap = false := by
  revert h
  cases op <;> decide

/-- **Settling leaves a comparison in normal form as it is.** -/
theorem Comparison.Normal.settled_eq {c : Comparison} (h : c.Normal) : c.settled = c := by
  have hoperator : c.settled.operator = c.operator := Operator.settled_of_mem_shapes h.shape
  have hvalue : c.settled.value = c.value := by
    rw [value_settled, if_neg]
    rintro ⟨hscalar, hover⟩
    have hshape := h.shape
    rw [hscalar] at hshape
    rw [Operator.isOverlap_of_scalar_mem_shapes hshape] at hover
    cases hover
  calc
    c.settled = { c with operator := c.settled.operator, value := c.settled.value } := rfl
    _ = c := by rw [hoperator, hvalue]

/-- Whether a comparison is in normal form is a matter of its operator, its value and its type. -/
theorem Comparison.Normal.of_eq {c d : Comparison} (h : c.Normal)
    (hoperator : d.operator = c.operator) (hvalue : d.value = c.value)
    (htype : d.dataType = c.dataType) : d.Normal := by
  cases c
  cases d
  cases hoperator
  cases hvalue
  cases htype
  exact ⟨h.shape, h.filled, h.flat, h.text, h.typed⟩

namespace Flavour

/-- A dialect settles a comparison up to casts. -/
theorem settle_eq (f : Flavour) (c : Comparison) : ∃ keyCast valueCast,
    f.normalForm.settle c = { c.settled with keyCast := keyCast, valueCast := valueCast } := by
  cases f <;> exact ⟨_, _, rfl⟩

/-- Below a look-up, a dialect changes at most the cast of a key. -/
theorem below_eq (f : Flavour) (above : Operator) (c : Comparison) : ∃ keyCast,
    f.normalForm.below above c = { c with keyCast := keyCast } := by
  cases f with
  | mysql => exact ⟨c.keyCast, rfl⟩
  | postgres style => cases above <;> exact ⟨_, rfl⟩

/-- Settling a comparison in normal form again, below a look-up, changes only its casts. -/
theorem below_settle_of_normal (f : Flavour) (above : Operator) {c : Comparison} (hc : c.Normal) :
    ∃ keyCast valueCast, f.normalForm.below above (f.normalForm.settle c) =
      { c with keyCast := keyCast, valueCast := valueCast } := by
  obtain ⟨keyCast, valueCast, hsettle⟩ := f.settle_eq c
  obtain ⟨keyCast', hbelow⟩ := f.below_eq above (f.normalForm.settle c)
  rw [hbelow, hsettle, hc.settled_eq]
  exact ⟨keyCast', valueCast, rfl⟩

variable {f : Flavour} {t u : Term}

/-- A term with nothing below it is in normal form once it is formatted, if it is so once it is
settled. -/
theorem normal_of_format (ht : t.toComparison.settled.Normal) (hpath : t.path = [])
    (h : f.normalForm.format t = .ok u) : u.toComparison.Normal ∧ u.path = [] := by
  obtain ⟨-, path, hbelow, rfl⟩ := NormalForm.format_eq_ok_iff.1 h
  rw [hpath] at hbelow
  cases hbelow
  obtain ⟨keyCast, valueCast, hsettle⟩ := f.settle_eq t.toComparison
  refine ⟨?_, rfl⟩
  change (f.normalForm.settle t.toComparison).Normal
  rw [hsettle]
  exact ht.of_eq rfl rfl rfl

/-- A look-up of the key of a comparison in normal form is in normal form once it is formatted, and
so is what is below it. -/
theorem normal_of_format_lookUp {c : Comparison} (hjson : t.operator.isJsonPath = true)
    (hvalue : t.value = .string c.key) (htype : t.dataType = none) (hc : c.Normal)
    (hquoted : c.quoted = false) (hisOr : c.isOr = false) (hpath : t.path = [c])
    (h : f.normalForm.format t = .ok u) : u.toComparison.Normal ∧ u.operator.isJsonPath = true ∧
      ∃ d, u.path = [d] ∧ u.toComparison.NormalBelow d := by
  obtain ⟨-, path, hbelow, rfl⟩ := NormalForm.format_eq_ok_iff.1 h
  rw [hpath] at hbelow
  obtain ⟨hcolumn, -, rfl⟩ := NormalForm.formatBelow_singleton_eq_ok_iff.1 hbelow
  obtain ⟨hquantified, hoverlap⟩ := Bool.or_eq_false_iff.1 hcolumn
  obtain ⟨keyCast, valueCast, hsettle⟩ := f.settle_eq t.toComparison
  -- what is below was settled when it was read on its own
  obtain ⟨keyCast', valueCast', hbelow⟩ :=
    f.below_settle_of_normal (f.normalForm.settle t.toComparison).operator hc
  rw [hbelow, hsettle]
  refine ⟨?_, ?_, _, rfl, ?_⟩
  · exact (normal_settled_of_lookUp hjson hvalue htype).of_eq rfl rfl rfl
  · exact (Operator.isJsonPath_settled _ _).trans hjson
  · exact
      { toNormal := hc.of_eq rfl rfl rfl
        key := (Comparison.value_settled_of_isJsonPath hjson).trans hvalue
        quoted := hquoted
        isOr := hisOr
        isQuantified := hquantified
        isOverlap := hoverlap }

end Flavour

/-! ### Parsed terms -/

/-- A pair without a comparison below it becomes a comparison in normal form. -/
theorem normal_of_parseSingle {f : Flavour} {r : ReservedKeys} {key value : String} {t : Term}
    (h : (f.dialect r).parseSingle key value = .ok t) :
    t.toComparison.Normal ∧ t.path = [] := by
  have hsingle := Dialect.parseSingle_eq_ok_iff.1 h
  rw [Flavour.format_dialect] at hsingle
  split at hsingle
  next hjson =>
    exact Flavour.normal_of_format (normal_settled_of_lookUp hjson rfl rfl) rfl hsingle
  next hjson =>
    obtain ⟨u, hcast, hformat⟩ := hsingle
    obtain ⟨rest, hint, v, -, hvalue, rfl⟩ := Dialect.applyCast_eq_ok_iff.1 hcast
    refine Flavour.normal_of_format (normal_settled_of_reading ?_ (reading_of_cast hvalue)) rfl
      hformat
    exact Bool.eq_false_iff.2 hjson

/-- No term that MySQL forms well has an operator that only PostgreSQL has. -/
theorem Term.WellFormed.not_mem_postgresOnly {t : Term} (h : t.WellFormed .mysql) :
    ∀ c ∈ t.toComparison :: t.path, c.operator ∉ Operator.postgresOnly := by
  intro c hc
  have hsupported : c.operator.inMySql = true := by
    rcases List.mem_cons.1 hc with rfl | hc
    · exact h.supported
    · rcases h.path with hpath | ⟨-, d, hpath, hd⟩
      · rw [hpath] at hc
        cases hc
      · rw [hpath] at hc
        cases List.mem_singleton.1 hc
        exact hd.supported
  rw [Operator.mem_postgresOnly_iff, hsupported]
  nofun

/-- **Every parsed term is in normal form.** -/
theorem normal_of_parse {f : Flavour} {r : ReservedKeys} {key value : String} {t : Term}
    (h : (f.dialect r).parse key value = .ok t) : t.Normal f := by
  have hmysql : f = .mysql → ∀ c ∈ t.toComparison :: t.path,
      c.operator ∉ Operator.postgresOnly := by
    rintro rfl
    exact (wellFormed_of_parse h).not_mem_postgresOnly
  rcases Dialect.exists_of_parse h with hsingle | ⟨hjson, _, _, nested, hnested, hformat⟩
  · obtain ⟨hnormal, hpath⟩ := normal_of_parseSingle hsingle
    exact ⟨hnormal, .inl hpath, hmysql⟩
  · obtain ⟨hnormal, hpath⟩ := normal_of_parseSingle hnested
    rw [Flavour.format_dialect] at hformat
    obtain ⟨htop, hop, hbelow⟩ := Flavour.normal_of_format_lookUp
      (c := { nested.toComparison with quoted := false, isOr := false }) hjson rfl rfl
      (hnormal.of_eq rfl rfl rfl) rfl rfl (by rw [Dialect.lookUp, hpath]) hformat
    exact ⟨htop, .inr ⟨hop, hbelow⟩, hmysql⟩

/-- The interval below a look-up is in normal form, and so is the look-up. -/
theorem normal_of_nested_interval : ∃ t,
    (Flavour.dialect (.postgres .dollar) {}).parse "doc[->]" "age[:]=[1|5]::int" = .ok t ∧
      t.Normal (.postgres .dollar) := by
  have hparse : ∃ t,
      (Flavour.dialect (.postgres .dollar) {}).parse "doc[->]" "age[:]=[1|5]::int" = .ok t :=
    ⟨_, rfl⟩
  obtain ⟨t, h⟩ := hparse
  exact ⟨t, h, normal_of_parse h⟩

end WhereClause

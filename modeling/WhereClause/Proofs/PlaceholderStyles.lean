/-
**Placeholders change no value.**

With question marks or with numbers, PostgreSQL takes the same requests and binds the same values.
Two runs of the compiler are followed side by side: they fail alike at every step, or both go on,
with terms that differ in nothing but the cast behind the list of an overlap.  No such term gets
below a look-up, so that nothing else can come to depend on the cast.

Main definitions:

* `WhereClause.Agree` — results that fail alike, or come to related values;
* `WhereClause.Comparison.Twin`, `WhereClause.Term.Twin`, `WhereClause.Params.Twin` — comparisons,
  terms and parameters that differ in the casts of overlaps only.

Main results:

* `WhereClause.PlaceholderStyle.agree_format`, `WhereClause.PlaceholderStyle.agree_parse` — terms
  are formed and pairs are parsed alike;
* `WhereClause.PlaceholderStyle.agree_collect` — requests are collected alike;
* `WhereClause.agree_of_styles` — **a request is refused alike or comes to the same terms, up to the
  casts of overlaps, and its predicates have the same values and the same filter document**.
-/

import Mathlib.Data.List.Forall2
import WhereClause.Proofs.Layout
import WhereClause.Proofs.Requests

set_option relaxedAutoImplicit false
set_option autoImplicit false

namespace WhereClause

/-! ### Results that agree -/

/-- Two results that fail alike, or come to related values. -/
inductive Agree {ε α β : Type} (R : α → β → Prop) : Except ε α → Except ε β → Prop
  | fail (e : ε) : Agree R (.error e) (.error e)
  | done {a : α} {b : β} (h : R a b) : Agree R (.ok a) (.ok b)

namespace Agree

variable {ε α β α' β' : Type} {R : α → β → Prop} {S : α' → β' → Prop}

theorem refl {R : α → α → Prop} (h : ∀ a, R a a) (x : Except ε α) : Agree R x x := by
  cases x with
  | error e => exact fail e
  | ok a => exact done (h a)

/-- Steps that agree make sequences that agree. -/
theorem bind {x : Except ε α} {y : Except ε β} {next : α → Except ε α'} {next' : β → Except ε β'}
    (h : Agree R x y)
    (hnext : ∀ a b, x = .ok a → y = .ok b → R a b → Agree S (next a) (next' b)) :
    Agree S (x >>= next) (y >>= next') := by
  cases h with
  | fail e => exact fail e
  | done hab => exact hnext _ _ rfl rfl hab

theorem failure?_eq {x : Except Failure α} {y : Except Failure β} (h : Agree R x y) :
    failure? x = failure? y := by
  cases h <;> rfl

theorem rel_toOption {x : Except ε α} {y : Except ε β} (h : Agree R x y) :
    Option.Rel R x.toOption y.toOption := by
  cases h with
  | fail e => exact .none
  | done hab => exact .some hab

/-- Results that agree one by one have the same failures among them. -/
theorem filterMap_failure?_eq {xs : List (Except Failure α)} {ys : List (Except Failure β)}
    (h : List.Forall₂ (Agree R) xs ys) : xs.filterMap failure? = ys.filterMap failure? := by
  induction h with
  | nil => rfl
  | cons hxy _ ih => rw [List.filterMap_cons, List.filterMap_cons, hxy.failure?_eq, ih]

/-- And their values are related one by one. -/
theorem forall₂_filterMap_toOption {xs : List (Except ε α)} {ys : List (Except ε β)}
    (h : List.Forall₂ (Agree R) xs ys) :
    List.Forall₂ R (xs.filterMap Except.toOption) (ys.filterMap Except.toOption) :=
  List.rel_filterMap (fun _ _ hxy => hxy.rel_toOption) h

end Agree

/-! ### Twins -/

/-- Two comparisons that are the same field by field, the cast behind the list of an overlap
aside. -/
structure Comparison.Twin (c c' : Comparison) : Prop where
  key : c.key = c'.key
  operator : c.operator = c'.operator
  raw : c.raw = c'.raw
  value : c.value = c'.value
  dataType : c.dataType = c'.dataType
  quoted : c.quoted = c'.quoted
  isOr : c.isOr = c'.isOr
  keyCast : c.keyCast = c'.keyCast
  valueCast : c.operator.isOverlap = false → c.valueCast = c'.valueCast

/-- Two terms that are the same, the cast behind the list of an overlap aside; what is below them is
the same altogether. -/
structure Term.Twin (t t' : Term) : Prop extends t.toComparison.Twin t'.toComparison where
  path : t.path = t'.path

/-- Two sets of parameters with twins under the same keys, in order, and with the same filter
document. -/
structure Params.Twin (p p' : Params) : Prop where
  id : Option.Rel Term.Twin p.id p'.id
  entries : List.Forall₂ (fun entry entry' => entry.1 = entry'.1 ∧ entry.2.Twin entry'.2)
    p.entries p'.entries
  filter : p.filter = p'.filter

namespace Comparison.Twin

variable {c c' : Comparison}

theorem refl (c : Comparison) : c.Twin c :=
  ⟨rfl, rfl, rfl, rfl, rfl, rfl, rfl, rfl, fun _ => rfl⟩

/-- Twins are the same comparison, unless they are overlaps. -/
theorem eq_of_isOverlap (h : c.Twin c') (hover : c.operator.isOverlap = false) : c = c' := by
  obtain ⟨hkey, hoperator, hraw, hvalue, htype, hquoted, hisOr, hkeyCast, hvalueCast⟩ := h
  have hcast := hvalueCast hover
  cases c
  cases c'
  simp_all

/-- Twins are twins below a look-up. -/
theorem unquoted (h : c.Twin c') : Comparison.Twin { c with quoted := false, isOr := false }
    { c' with quoted := false, isOr := false } :=
  { h with quoted := rfl, isOr := rfl }

end Comparison.Twin

theorem Term.Twin.refl (t : Term) : t.Twin t := ⟨Comparison.Twin.refl _, rfl⟩

/-- Copies of twins on the same column are twins. -/
theorem Term.Twin.rebind {t t' : Term} (h : t.Twin t') (key : String) :
    (t.rebind key).Twin (t'.rebind key) :=
  { h with key := rfl, quoted := rfl }

/-! ### Forming terms -/

namespace PlaceholderStyle

/-- Settling treats a comparison that is no overlap the same in either style. -/
theorem settle_eq_of_isOverlap (style style' : PlaceholderStyle) {c : Comparison}
    (hover : c.operator.isOverlap = false) : style.settle c = style'.settle c := by
  simp [settle, Comparison.settled, hover]

/-- Twins are twins once they are settled. -/
theorem twin_settle (style style' : PlaceholderStyle) {c c' : Comparison} (h : c.Twin c') :
    (style.settle c).Twin (style'.settle c') := by
  obtain ⟨hkey, hoperator, hraw, hvalue, htype, hquoted, hisOr, hkeyCast, hvalueCast⟩ := h
  cases c
  cases c'
  cases hkey
  cases hoperator
  cases hraw
  cases hvalue
  cases htype
  cases hquoted
  cases hisOr
  cases hkeyCast
  refine ⟨rfl, rfl, rfl, rfl, rfl, rfl, rfl, rfl, fun hover => ?_⟩
  -- only the cast behind the list of an overlap is put in by the style
  change (Comparison.settled _).operator.isOverlap = false at hover
  rw [Comparison.operator_settled, Operator.isOverlap_settled] at hover
  simpa [settle, hover] using hvalueCast hover

/-- What is below a look-up comes out the same in either style: an overlap is refused there. -/
theorem formatBelow_eq (style style' : PlaceholderStyle) {path path' : List Comparison}
    (h : List.Forall₂ Comparison.Twin path path') :
    ∀ above, style.normalForm.formatBelow above path =
      style'.normalForm.formatBelow above path' := by
  induction h with
  | nil => intro above; rfl
  | @cons c c' path path' hc _ ih =>
      intro above
      unfold NormalForm.formatBelow
      rw [← hc.operator]
      cases hcolumn : c.operator.needsColumn with
      | true => rfl
      | false =>
          obtain ⟨-, hover⟩ := Bool.or_eq_false_iff.1 hcolumn
          have hsettle : style.normalForm.settle c = style'.normalForm.settle c' := by
            rw [← hc.eq_of_isOverlap hover]
            exact settle_eq_of_isOverlap style style' hover
          rw [hsettle, ih]
          rfl

/-- **Twins are formed alike.** -/
theorem agree_format (style style' : PlaceholderStyle) {t t' : Term}
    (h : t.toComparison.Twin t'.toComparison)
    (hpath : List.Forall₂ Comparison.Twin t.path t'.path) :
    Agree Term.Twin (style.normalForm.format t) (style'.normalForm.format t') := by
  have hsettle : (style.normalForm.settle t.toComparison).Twin
      (style'.normalForm.settle t'.toComparison) := twin_settle style style' h
  have hbelow := formatBelow_eq style style' hpath
    (style.normalForm.settle t.toComparison).operator
  rw [hsettle.operator] at hbelow
  have hsupports : ∀ (s : PlaceholderStyle) op, s.normalForm.supports op = true := fun _ _ => rfl
  unfold NormalForm.format
  simp only [hsupports, hsettle.operator, hbelow, Bool.not_true, Bool.false_eq_true, if_false]
  cases style'.normalForm.formatBelow (style'.normalForm.settle t'.toComparison).operator
      t'.path with
  | error failure => exact .fail failure
  | ok path => exact .done ⟨hsettle, rfl⟩

/-! ### Parsing pairs -/

/-- A pair without a comparison below it is parsed alike, and nothing is below it. -/
theorem agree_parseSingle (r : ReservedKeys) (style style' : PlaceholderStyle)
    (key value : String) :
    Agree Term.Twin ((postgres r style).parseSingle key value)
      ((postgres r style').parseSingle key value) := by
  have hread : Key.read (postgres r style') = Key.read (postgres r style) := rfl
  have hcast : (postgres r style').applyCast = (postgres r style).applyCast := rfl
  have hformat : ∀ t : Term,
      Agree Term.Twin ((postgres r style).format t) ((postgres r style').format t) := fun t =>
    agree_format style style' (Comparison.Twin.refl _)
      (List.forall₂_same.2 fun c _ => Comparison.Twin.refl c)
  unfold Dialect.parseSingle
  rw [hread, hcast]
  dsimp only
  split
  · exact hformat _
  · refine Agree.bind (Agree.refl (R := Eq) (fun _ => rfl) _) fun t t' _ _ h => ?_
    rw [h]
    exact hformat t'

/-- **Pairs are parsed alike.** -/
theorem agree_parse (r : ReservedKeys) (style style' : PlaceholderStyle) (key value : String) :
    Agree Term.Twin ((postgres r style).parse key value) ((postgres r style').parse key value) := by
  have hread : Key.read (postgres r style') = Key.read (postgres r style) := rfl
  unfold Dialect.parse
  rw [hread]
  dsimp only
  split
  · exact agree_parseSingle r style style' key value
  · refine Agree.bind (agree_parseSingle r style style' _ _) fun nested nested' _ _ h => ?_
    refine agree_format style style' ?_ (.cons h.unquoted ?_)
    · exact { Comparison.Twin.refl _ with value := congrArg Value.string h.key }
    · rw [h.path]
      exact List.forall₂_same.2 fun c _ => Comparison.Twin.refl c

/-! ### Collecting requests -/

section Collect

variable (r : ReservedKeys) (style style' : PlaceholderStyle) (idField : String)

/-- A pair is read alike. -/
theorem rel_reading? (key value : String) :
    Option.Rel (Agree Term.Twin) (Compiler.reading? ⟨postgres r style, idField⟩ key value)
      (Compiler.reading? ⟨postgres r style', idField⟩ key value) := by
  have hreserved : (postgres r style').reserved = (postgres r style).reserved := rfl
  unfold Compiler.reading?
  dsimp only
  rw [hreserved]
  split
  · exact .none
  · split
    · exact .none
    · split
      · exact .some (.done (Term.Twin.refl _))
      · exact .some (agree_parse r style style' key value)

/-- And so are all pairs. -/
theorem forall₂_readings (pairs : List (String × String)) :
    List.Forall₂ (Agree Term.Twin) (Compiler.readings ⟨postgres r style, idField⟩ pairs)
      (Compiler.readings ⟨postgres r style', idField⟩ pairs) := by
  refine List.rel_filterMap (R := Eq) (fun pair pair' hpair => ?_) (List.forall₂_refl pairs)
  rw [hpair]
  exact rel_reading? r style style' idField _ _

/-- **Requests are collected alike.** -/
theorem agree_collect (pairs : List (String × String)) (id : Option String)
    (body : Option (List UInt8)) :
    Agree Params.Twin (Compiler.collect ⟨postgres r style, idField⟩ pairs id body)
      (Compiler.collect ⟨postgres r style', idField⟩ pairs id body) := by
  have hreadings := forall₂_readings r style style' idField pairs
  have hid : List.Forall₂ (Agree Term.Twin)
      (Compiler.idReading ⟨postgres r style, idField⟩ id).toList
      (Compiler.idReading ⟨postgres r style', idField⟩ id).toList := by
    cases id with
    | none => exact .nil
    | some text => exact .cons (agree_parse r style style' idField text) .nil
  -- the filter document is looked up and read without regard to the style
  have hfailures : Compiler.failures ⟨postgres r style, idField⟩ pairs id body =
      Compiler.failures ⟨postgres r style', idField⟩ pairs id body := by
    unfold Compiler.failures
    rw [Agree.filterMap_failure?_eq hreadings, Agree.filterMap_failure?_eq hid]
    rfl
  rw [Compiler.collect_eq, Compiler.collect_eq, hfailures]
  cases (Compiler.failures ⟨postgres r style', idField⟩ pairs id body).head? with
  | some failure => exact .fail failure
  | none =>
      refine .done ⟨?_, ?_, rfl⟩
      · cases id with
        | none => exact .none
        | some text => exact (agree_parse r style style' idField text).rel_toOption
      · exact List.rel_map (fun _ _ ht => ⟨ht.key, ht⟩) (Agree.forall₂_filterMap_toOption hreadings)

end Collect

end PlaceholderStyle

/-! ### Assembling twins -/

/-- The last items of two lists that are related one by one are related. -/
theorem forall₂_getLast? {α β : Type} {R : α → β → Prop} {xs : List α} {ys : List β}
    (h : List.Forall₂ R xs ys) : List.Forall₂ R xs.getLast?.toList ys.getLast?.toList := by
  have hhead : ∀ {xs : List α} {ys : List β}, List.Forall₂ R xs ys →
      List.Forall₂ R xs.head?.toList ys.head?.toList := by
    intro xs ys h
    cases h with
    | nil => exact .nil
    | cons hxy _ => exact .cons hxy .nil
  rw [← List.head?_reverse, ← List.head?_reverse]
  exact hhead (List.rel_reverse h)

namespace Params.Twin

variable {p p' : Params}

/-- A look-up of a key finds twins. -/
theorem get (h : p.Twin p') (key : String) :
    List.Forall₂ Term.Twin (p.get key) (p'.get key) := by
  rw [get_eq, get_eq]
  exact List.rel_map (fun _ _ hentry => hentry.2)
    (List.rel_filter (fun _ _ hentry => by simp [hentry.1]) h.entries)

theorem contains_eq (h : p.Twin p') (key : String) : p.contains key = p'.contains key := by
  rw [Bool.eq_iff_iff, contains_iff_get_ne_nil, contains_iff_get_ne_nil, ← List.length_pos_iff,
    ← List.length_pos_iff, (h.get key).length_eq]

theorem fields_eq (h : p.Twin p') : p.fields = p'.fields := by
  unfold Params.fields
  rw [h.filter]

/-- **The terms of the predicates of twins are twins.** -/
theorem renderedTerms (h : p.Twin p') (r : ReservedKeys) (style style' : PlaceholderStyle)
    (columns : List String) :
    List.Forall₂ Term.Twin ((postgres r style).renderedTerms p columns)
      ((postgres r style').renderedTerms p' columns) := by
  have htargets : (postgres r style).targets p columns =
      (postgres r style').targets p' columns := by
    simp only [Dialect.targets, h.contains_eq, h.fields_eq]
    rfl
  have hid : ∀ {id id' : Option Term}, Option.Rel Term.Twin id id' →
      List.Forall₂ Term.Twin id.toList id'.toList := by
    intro id id' hid
    cases hid with
    | none => exact .nil
    | some ht => exact .cons ht .nil
  refine List.rel_append ?_ (List.rel_append (hid h.id) ?_)
  · rw [Dialect.groupTerms_eq_flatMap, Dialect.groupTerms_eq_flatMap, htargets]
    refine List.rel_flatMap (forall₂_getLast? (h.get r.wildcard)) fun t t' ht => ?_
    refine List.rel_map (R := Eq) (fun column column' hcolumn => ?_) (List.forall₂_refl _)
    rw [hcolumn]
    exact ht.rebind column'
  · refine List.rel_filter (fun t t' ht => ?_) (List.rel_map (fun _ _ hentry => hentry.2) h.entries)
    dsimp only
    rw [ht.key]
    exact Iff.rfl

end Params.Twin

/-- Twins bind the same values. -/
theorem Term.Twin.binds_eq {t t' : Term} (h : t.Twin t') : t.binds = t'.binds := by
  simp only [Term.binds, Comparison.binds, h.operator, h.value, h.path]

/-- **The predicates of twins have the same values.** -/
theorem values_assemble_eq_of_twin {p p' : Params} (h : p.Twin p') (r : ReservedKeys)
    (style style' : PlaceholderStyle) (hp : p.Forall (Term.WellFormed (.postgres style)))
    (hp' : p'.Forall (Term.WellFormed (.postgres style'))) (columns : List String) :
    ((postgres r style).assemble p columns).values =
      ((postgres r style').assemble p' columns).values := by
  have hvalues := (Flavour.consists_assemble (r := r) hp columns).values
  have hvalues' := (Flavour.consists_assemble (r := r) hp' columns).values
  refine hvalues.trans (Eq.trans ?_ hvalues'.symm)
  rw [← List.forall₂_eq_eq_eq]
  refine List.rel_flatMap (h.renderedTerms r style style' columns) fun t t' ht => ?_
  rw [List.forall₂_eq_eq_eq]
  exact ht.binds_eq

/-- **The style of the placeholders changes no value and no outcome.**  Whatever a request, its
columns and the reserved keys are, it fails alike in either style, or comes to parameters that
are twins; and its predicate fails alike, or has the same values and the same filter document. -/
theorem agree_of_styles (r : ReservedKeys) (style style' : PlaceholderStyle) (idField : String)
    (pairs : List (String × String)) (id : Option String) (body : Option (List UInt8)) :
    Agree Params.Twin (Compiler.collect ⟨postgres r style, idField⟩ pairs id body)
        (Compiler.collect ⟨postgres r style', idField⟩ pairs id body) ∧
      ∀ (source : ColumnSource) (table : String),
        Agree (fun q q' : Predicate => q.values = q'.values ∧ q.filter = q'.filter)
          (Compiler.build ⟨postgres r style, idField⟩ pairs id body source table)
          (Compiler.build ⟨postgres r style', idField⟩ pairs id body source table) := by
  have hcollect := PlaceholderStyle.agree_collect r style style' idField pairs id body
  refine ⟨hcollect, fun source table => Agree.bind hcollect fun p p' hp hp' h => ?_⟩
  have hknown : Compiler.knownColumns ⟨postgres r style, idField⟩ p source table =
      Compiler.knownColumns ⟨postgres r style', idField⟩ p' source table := by
    unfold Compiler.knownColumns Params.needsColumns
    rw [h.contains_eq, h.fields_eq]
    rfl
  rw [Compiler.assemble_eq, Compiler.assemble_eq, hknown]
  refine Agree.bind (Agree.refl (R := Eq) (fun _ => rfl) _) fun columns columns' _ _ hcolumns => ?_
  rw [hcolumns]
  refine .done ⟨?_, h.filter⟩
  exact values_assemble_eq_of_twin h r style style'
    (wellFormed_of_collect (f := .postgres style) hp)
    (wellFormed_of_collect (f := .postgres style') hp') columns'

end WhereClause

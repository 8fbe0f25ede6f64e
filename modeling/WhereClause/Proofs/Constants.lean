/-
**The fixed texts of predicates.**

A dialect writes its predicates with a fixed stock of texts: punctuation, keywords, operators and
casts.  None of them holds a quote, a digit or the beginning of a placeholder, and none that stands
behind a name begins with a dot, so a reader takes each of them for what it is.

Main definitions:

* `WhereClause.Flavour.constants` — the stock of a dialect;
* `WhereClause.Outline.Castable` — an outline without a cast, or with one that the dialect puts in.

Main results:

* `WhereClause.Flavour.mem_constants_of_layout` — **every fixed text of a layout is in the stock**;
* `WhereClause.Flavour.clean_layout`, `WhereClause.Flavour.separated_layout` — a layout can be read.
-/

import WhereClause.Proofs.Layout
import WhereClause.Proofs.Tokens

set_option relaxedAutoImplicit false
set_option autoImplicit false

namespace WhereClause

/-! ### The stock -/

namespace Flavour

/-- The fixed texts that a dialect writes its predicates with. -/
def constants (f : Flavour) : List String :=
  let punctuation := ["", "(", ")", "]", " AND ", " OR "]
  let comparisons := [" IS NULL", " IS NOT NULL", f.membership, f.absence, " BETWEEN "]
  let overlaps := ["NOT ", " && ", " && ARRAY["]
  let lookups :=
    match f with
    | postgres _ => []
    | mysql => ["JSON_UNQUOTE(", "JSON_EXTRACT(", ", CONCAT('$.', ", "))"]
  let casts := "::text" :: f.overlapCasts.map fun cast => cast.getD ""
  let operators := Operator.all.map fun op => " " ++ f.keyword op ++ " "
  let quantifiers := Operator.all.map fun op =>
    (if op.isNegatedQuantifier then " != " else " = ") ++ f.keyword op ++ "("
  punctuation ++ comparisons ++ overlaps ++ lookups ++ casts ++ operators ++ quantifiers

/-- No text of the stock holds a character with a meaning. -/
theorem isMark_of_mem_constants {f : Flavour} {text : String} (h : text ∈ f.constants) :
    ∀ c ∈ text.toList, f.isMark c = false := by
  have hall : (f.constants.all fun text => text.toList.all fun c => !f.isMark c) = true := by
    -- the stock is finite, so its characters can be looked through one by one
    rcases f with (_ | _) | _ <;> decide +kernel
  simpa using List.all_eq_true.1 hall text h

theorem operator_mem_constants (f : Flavour) (op : Operator) :
    " " ++ f.keyword op ++ " " ∈ f.constants := by
  have hop := List.mem_map_of_mem (f := fun op => " " ++ f.keyword op ++ " ") op.mem_all
  simp [constants, hop]

theorem quantifier_mem_constants (f : Flavour) (op : Operator) :
    (if op.isNegatedQuantifier then " != " else " = ") ++ f.keyword op ++ "(" ∈ f.constants := by
  have hop := List.mem_map_of_mem (f := fun op : Operator =>
    (if op.isNegatedQuantifier then " != " else " = ") ++ f.keyword op ++ "(") op.mem_all
  simp [constants, hop]

theorem overlapCast_mem_constants {f : Flavour} {cast : Option String}
    (h : cast ∈ none :: f.overlapCasts) : cast.getD "" ∈ f.constants := by
  rcases List.mem_cons.1 h with rfl | h
  · simp [constants]
  · have hcast := List.mem_map_of_mem (f := fun cast : Option String => cast.getD "") h
    simp [constants, hcast]

theorem keyCast_mem_constants {f : Flavour} {op : Operator} {cast : String}
    (h : f.keyCast op = some cast) : cast ∈ f.constants := by
  unfold keyCast at h
  split at h
  · split at h <;> cases h
    simp [constants]
  · cases h

/-! ### Forms -/

/-- A fixed text of a comparison is in the stock. -/
theorem mem_constants_of_test {f : Flavour} {t : Test} {text : String}
    (h : .fixed text ∈ f.test t) : text ∈ f.constants := by
  unfold test at h
  split at h
  · simp at h
    simp [constants, h]
  · simp at h
    simp [constants, h]
  · simp at h
    rcases h with rfl | rfl <;> simp [constants]
  · simp at h
    rcases h with rfl | rfl <;> simp [constants]
  · simp at h
    rcases h with rfl | rfl <;> simp [constants]
  · simp at h
    rcases h with rfl | rfl
    · exact f.operator_mem_constants _
    · simp [constants]

/-- A fixed text of a look-up is in the stock. -/
theorem mem_constants_of_lookup {f : Flavour} {op : Operator} {text : String}
    (h : .fixed text ∈ f.lookup op) : text ∈ f.constants := by
  unfold lookup at h
  split at h
  · simp at h
    exact h ▸ operator_mem_constants (.postgres _) op
  · simp at h
    rcases h with rfl | rfl | rfl | rfl | rfl <;> simp [constants]
  · simp at h
    rcases h with rfl | rfl | rfl <;> simp [constants]

/-- A fixed text of what a look-up finds is in the stock. -/
theorem mem_constants_of_found {f : Flavour} {above op : Operator} {text : String}
    (h : .fixed text ∈ f.found above op) : text ∈ f.constants := by
  unfold found at h
  split at h
  · exact mem_constants_of_lookup h
  next cast hcast =>
    simp at h
    rcases h with rfl | h | rfl | rfl
    · simp [constants]
    · exact mem_constants_of_lookup h
    · simp [constants]
    · unfold lookupCast at hcast
      split at hcast
      · cases hcast
      · exact keyCast_mem_constants hcast

end Flavour

/-- An outline without a cast, or with one that the dialect puts in. -/
def Outline.Castable (f : Flavour) (o : Outline) : Prop := o.cast ∈ none :: f.overlapCasts

/-- The outlines of well-formed terms are of this kind. -/
theorem Term.WellFormed.castable {f : Flavour} {t : Term} (h : t.WellFormed f) :
    t.outline.Castable f := by
  have hcast := h.valueCast
  unfold Outline.Castable Term.outline
  cases hover : t.operator.isOverlap with
  | false => simp
  | true =>
      rw [hover] at hcast
      exact List.mem_cons_of_mem _ hcast

namespace Flavour

/-- **A fixed text of a form is in the stock.** -/
theorem mem_constants_of_form {f : Flavour} {o : Outline} (ho : o.Castable f) {text : String}
    (h : .fixed text ∈ f.form o) : text ∈ f.constants := by
  unfold form at h
  split at h
  -- look-ups, quantified comparisons, overlaps and plain comparisons, in this order
  · split at h
    · exact mem_constants_of_lookup h
    · rcases List.mem_append.1 h with h | h
      · exact mem_constants_of_found h
      · exact mem_constants_of_test h
  · split at h
    · simp [quantified] at h
      rcases h with rfl | rfl
      · exact f.quantifier_mem_constants _
      · simp [constants]
    · split at h
      · have hcast := overlapCast_mem_constants ho
        unfold overlap at h
        rcases List.mem_append.1 h with h | h
        · split at h <;> simp at h
          simp [constants, h]
        · split at h <;> simp at h
          · rcases h with rfl | rfl
            · simp [constants]
            · exact hcast
          · rcases h with rfl | rfl | rfl
            · simp [constants]
            · simp [constants]
            · exact hcast
      · rcases List.mem_append.1 h with h | h
        · simp [column] at h
          exact keyCast_mem_constants h
        · exact mem_constants_of_test h

/-- **Every fixed text of a layout is in the stock.** -/
theorem mem_constants_of_layout {f : Flavour} {group chain : List (Outline × Bool)}
    (h : ∀ item ∈ group ++ chain, item.1.Castable f) {text : String}
    (htext : .fixed text ∈ f.layout group chain) : text ∈ f.constants := by
  revert text
  refine layout_induction (P := fun form => ∀ {text}, .fixed text ∈ form → text ∈ f.constants)
    ?_ ?_ ?_ ?_
  · intro text htext
    cases htext
  · intro form form' hform hform' text htext
    rcases List.mem_append.1 htext with htext | htext
    · exact hform htext
    · exact hform' htext
  · exact fun item hitem => mem_constants_of_form (h item hitem)
  · intro fixed hfixed text htext
    simp at htext
    subst htext
    simp [rowTexts] at hfixed
    rcases hfixed with rfl | rfl | rfl | rfl <;> simp [constants]

/-- No fixed text of a layout holds a character with a meaning. -/
theorem clean_layout {f : Flavour} {group chain : List (Outline × Bool)}
    (h : ∀ item ∈ group ++ chain, item.1.Castable f) : f.Clean (f.layout group chain) :=
  fun _ htext => isMark_of_mem_constants (mem_constants_of_layout h htext)

/-! ### What stands behind a name -/

/-- Fixed texts and the places of values are separated from anything. -/
theorem separated_of_name_notMem {form : List Fragment} (h : .name ∉ form) :
    separated form = true := by
  induction form with
  | nil => rfl
  | cons fragment form ih =>
      cases fragment with
      | name => simp at h
      | fixed text => exact ih fun hmem => h (List.mem_cons_of_mem _ hmem)
      | place => exact ih fun hmem => h (List.mem_cons_of_mem _ hmem)

/-- A comparison has no name of its own. -/
theorem name_notMem_test (f : Flavour) (t : Test) : .name ∉ f.test t := by
  unfold test
  split <;> simp

/-- A comparison begins with a blank. -/
theorem closesName_test (f : Flavour) (t : Test) : closesName (f.test t) = true := by
  have hmembership : f.membership.toList.head? = some ' ' := by
    rcases f with (_ | _) | _ <;> rfl
  have habsence : f.absence.toList.head? = some ' ' := by
    rcases f with (_ | _) | _ <;> rfl
  unfold test
  split <;> simp [closesName, hmembership, habsence]

theorem separated_test (f : Flavour) (t : Test) : separated (f.test t) = true :=
  separated_of_name_notMem (f.name_notMem_test t)

theorem separated_lookup (f : Flavour) (op : Operator) : separated (f.lookup op) = true := by
  unfold lookup
  split <;> simp [separated, closesName]

theorem separated_found (f : Flavour) (above op : Operator) :
    separated (f.found above op) = true := by
  unfold found
  split
  · exact f.separated_lookup above
  · exact separated_append (f.separated_lookup above) rfl

theorem separated_overlap (f : Flavour) (op : Operator) (cast : Option String) :
    separated (f.overlap op cast) = true := by
  unfold overlap
  refine separated_append ?_ ?_
  · split <;> rfl
  · split <;> simp [separated, closesName]

/-- A column is closed by its cast, or by the comparison behind it. -/
theorem separated_column (f : Flavour) (op : Operator) (t : Test) :
    separated (f.column op ++ f.test t) = true := by
  have htest := f.separated_test t
  unfold column
  cases hcast : f.keyCast op with
  | none => exact Bool.and_eq_true_iff.2 ⟨f.closesName_test t, htest⟩
  | some cast =>
      have hclose : cast.toList.head? = some ':' := by
        unfold keyCast at hcast
        split at hcast
        · split at hcast <;> cases hcast
          rfl
        · cases hcast
      refine Bool.and_eq_true_iff.2 ⟨?_, htest⟩
      simp [closesName, hclose]

/-- Behind every name of a form stands a fixed text that does not begin with a dot. -/
theorem separated_form (f : Flavour) (o : Outline) : separated (f.form o) = true := by
  unfold form
  split
  · split
    · exact f.separated_lookup o.operator
    · exact separated_append (f.separated_found ..) (f.separated_test _)
  · split
    · simp [quantified, separated, closesName]
    · split
      · exact f.separated_overlap o.operator o.cast
      · exact f.separated_column o.operator o.toTest

/-- Behind every name of a layout stands a fixed text that does not begin with a dot. -/
theorem separated_layout (f : Flavour) (group chain : List (Outline × Bool)) :
    separated (f.layout group chain) = true :=
  layout_induction (P := fun form => separated form = true) rfl
    (fun _ _ => separated_append) (fun item _ => f.separated_form item.1) (fun _ _ => rfl)

end Flavour

end WhereClause

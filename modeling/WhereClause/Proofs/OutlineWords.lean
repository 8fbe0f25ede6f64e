/-
**All outlines and their words.**

A dialect knows finitely many outlines.  The word of an outline is its form with a code for every
character of its fixed texts, for the mark of a placeholder and for a name; comparing all of them
shows that no two can be mistaken for each other, whatever may stand behind them in a predicate.

Main definitions:

* `WhereClause.Flavour.tests`, `WhereClause.Flavour.outlines` — the outlines of well-formed
  comparisons below a look-up, and of well-formed terms;
* `WhereClause.Flavour.word` — the word of a form;
* `WhereClause.Flavour.stops` — what may stand behind a term.

Main results:

* `WhereClause.Term.WellFormed.mem_outlines` — the outline of a well-formed term is one of them;
* `WhereClause.Flavour.eq_of_word_append_eq` — **the outline of the first term of a row can be read
  off the word of the whole**;
* `WhereClause.Flavour.word_ne_of_opened` — and whether the row stands in a parenthesis.
-/

import WhereClause.Proofs.Tokens
import WhereClause.Proofs.Words

set_option relaxedAutoImplicit false
set_option autoImplicit false

namespace WhereClause

/-! ### The outlines of a dialect -/

namespace Flavour

/-- The outlines of the comparisons that may stand below a look-up. -/
def tests (f : Flavour) : List Test :=
  (Operator.all.flatMap fun op => [{ operator := op }, { operator := op, isNull := true }]).filter
    fun t => f.normalForm.supports t.operator && !t.operator.needsColumn &&
      (!t.isNull || t.operator.isEquality)

/-- The outlines of terms with a given operator. -/
def outlinesOf (f : Flavour) (op : Operator) : List Outline :=
  if op.isJsonPath then
    (none :: f.tests.map some).map fun below => { operator := op, below := below }
  else if op.isOverlap then f.overlapCasts.map fun cast => { operator := op, cast := cast }
  else if op.isEquality then [{ operator := op }, { operator := op, isNull := true }]
  else [{ operator := op }]

/-- The outlines of terms. -/
def outlines (f : Flavour) : List Outline :=
  (Operator.all.filter f.normalForm.supports).flatMap f.outlinesOf

end Flavour

/-- The outline of a well-formed comparison below a look-up is one of the dialect's. -/
theorem Comparison.WellFormedBelow.mem_tests {f : Flavour} {above : Operator} {c : Comparison}
    (h : c.WellFormedBelow f above) : c.test ∈ f.tests := by
  refine List.mem_filter.2 ⟨?_, ?_⟩
  · refine List.mem_flatMap.2 ⟨c.operator, c.operator.mem_all, ?_⟩
    unfold Comparison.test
    cases c.operator.isEquality && decide (c.shape = .null) <;> simp
  · have hnull : c.test.isNull = true → c.operator.isEquality = true := by
      intro hnull
      exact (Bool.and_eq_true_iff.1 hnull).1
    have hop : c.test.operator = c.operator := rfl
    cases hcase : c.test.isNull <;> simp_all [h.supported, h.needsColumn]

/-- The classes of operators with outlines of their own have no operator in common. -/
theorem Operator.isEquality_of_isJsonPath {op : Operator} (h : op.isJsonPath = true) :
    op.isEquality = false := by
  revert h
  cases op <;> decide

theorem Operator.isEquality_of_isOverlap {op : Operator} (h : op.isOverlap = true) :
    op.isEquality = false := by
  revert h
  cases op <;> decide

/-- **The outline of a well-formed term is one of the dialect's.** -/
theorem Term.WellFormed.mem_outlines {f : Flavour} {t : Term} (h : t.WellFormed f) :
    t.outline ∈ f.outlines := by
  refine List.mem_flatMap.2 ⟨t.operator, List.mem_filter.2 ⟨t.operator.mem_all, h.supported⟩, ?_⟩
  have htest : t.operator.isEquality = false → t.test = { operator := t.operator } := by
    intro heq
    simp [Comparison.test, heq]
  unfold Flavour.outlinesOf Term.outline
  cases hjson : t.operator.isJsonPath with
  | true =>
      have hover := Operator.isOverlap_of_isJsonPath hjson
      have heq := Operator.isEquality_of_isJsonPath hjson
      have hbelow : t.path.head?.map Comparison.test ∈ none :: f.tests.map some := by
        rcases h.path with hpath | ⟨-, c, hpath, hc⟩
        · simp [hpath]
        · simp [hpath, hc.mem_tests]
      simpa [hover, htest heq] using hbelow
  | false =>
      cases hover : t.operator.isOverlap with
      | true =>
          have hcast : t.valueCast ∈ f.overlapCasts := by simpa [hover] using h.valueCast
          simpa [htest (Operator.isEquality_of_isOverlap hover)] using hcast
      | false =>
          cases heq : t.operator.isEquality with
          | false => simp [htest heq]
          | true => cases hnull : decide (t.shape = .null) <;> simp [Comparison.test, heq, hnull]

/-! ### Words -/

namespace Flavour

/-- The code of a character of a fixed text. -/
def charCode (c : Char) : Nat := c.toNat + 2

/-- The code of the end of a predicate. -/
def endCode : Nat := 1

/-- The code of a name. -/
def nameCode : Nat := 0

/-- The codes of a fragment. -/
def codes (f : Flavour) : Fragment → List Nat
  | .fixed text => text.toList.map charCode
  | .place => [charCode f.style.mark]
  | .name => [nameCode]

/-- The word of a form. -/
def word (f : Flavour) (form : List Fragment) : List Nat := form.flatMap f.codes

@[simp] theorem word_append (f : Flavour) (form form' : List Fragment) :
    f.word (form ++ form') = f.word form ++ f.word form' := List.flatMap_append

/-- What may stand between two terms of a chain. -/
def joints (f : Flavour) : List (List Nat) := [f.word [.fixed " AND "], f.word [.fixed " OR "]]

/-- What may stand behind the last term of a chain or of a group. -/
def closers (f : Flavour) : List (List Nat) :=
  [[endCode], f.word [.fixed ")"] ++ [endCode], f.word [.fixed ")", .fixed " AND "]]

/-- What may stand behind a term. -/
def stops (f : Flavour) : List (List Nat) := f.joints ++ f.closers

set_option maxRecDepth 10000 in
/-- Any two outlines of a dialect can be told apart by their words. -/
theorem allTold_outlines (f : Flavour) :
    allTold f.stops (fun o => f.word (f.form o)) f.outlines = true := by
  -- some four thousand pairs of words for PostgreSQL, most of which differ early
  rcases f with (_ | _) | _ <;> decide +kernel

/-- **The outline of the first term of a row can be read off the word of the whole.** -/
theorem eq_of_word_append_eq {f : Flavour} {o o' : Outline} (ho : o ∈ f.outlines)
    (ho' : o' ∈ f.outlines) {r s : List Nat} (hr : Stopped f.stops r) (hs : Stopped f.stops s)
    (h : f.word (f.form o) ++ r = f.word (f.form o') ++ s) : o = o' ∧ r = s :=
  eq_of_append_eq f.allTold_outlines ho ho' hr hs h

/-- **A row in a parenthesis is none without**, although some terms begin with a parenthesis. -/
theorem word_ne_of_opened {f : Flavour} {o o' : Outline} (ho : o ∈ f.outlines)
    (ho' : o' ∈ f.outlines) {r s : List Nat} (hr : Stopped f.stops r) (hs : Stopped f.stops s) :
    f.word (.fixed "(" :: f.form o) ++ r ≠ f.word (f.form o') ++ s := by
  have hall : (f.outlines.all fun o => f.outlines.all fun o' =>
      told f.stops (f.word (.fixed "(" :: f.form o)) (f.word (f.form o'))) = true := by
    rcases f with (_ | _) | _ <;> decide +kernel
  exact append_ne_of_told (List.all_eq_true.1 (List.all_eq_true.1 hall o ho) o' ho') hr hs

/-- No term is empty. -/
theorem word_ne_of_nil {f : Flavour} {o : Outline} (ho : o ∈ f.outlines) (r : List Nat) :
    f.word (f.form o) ++ r ≠ [endCode] := by
  have hall : (f.outlines.all fun o => apart (f.word (f.form o)) [endCode]) = true := by
    rcases f with (_ | _) | _ <;> decide +kernel
  simpa using append_ne_of_apart (List.all_eq_true.1 hall o ho) r []

end Flavour

end WhereClause

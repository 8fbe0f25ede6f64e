/-
**Rendered terms are never empty.**

Every rendering of a term holds a fixed text that is not empty, whatever the term is.  So a chain of
terms has an empty text exactly if there are no terms in it, and whether a word is needed before the
next term can be told from the text written so far.

Main definitions:

* `WhereClause.Sql.Shown` — a predicate that holds a fixed text.

Main results:

* `WhereClause.Flavour.textFrom_render_ne_empty` — **the text of a term is never empty**.
-/

import WhereClause.Proofs.Outline

set_option relaxedAutoImplicit false
set_option autoImplicit false

namespace WhereClause

namespace Sql

/-- A predicate that holds a fixed text other than the empty one. -/
def Shown (p : Sql) : Prop := ∃ text, .code text ∈ p ∧ text ≠ ""

theorem shown_append_left {p : Sql} (h : p.Shown) (q : Sql) : (p ++ q).Shown := by
  obtain ⟨text, hmem, hne⟩ := h
  exact ⟨text, List.mem_append_left q hmem, hne⟩

theorem shown_append_right (p : Sql) {q : Sql} (h : q.Shown) : (p ++ q).Shown := by
  obtain ⟨text, hmem, hne⟩ := h
  exact ⟨text, List.mem_append_right p hmem, hne⟩

theorem shown_cons {text : String} (h : text ≠ "") (p : Sql) : Shown (.code text :: p) :=
  ⟨text, List.mem_cons_self .., h⟩

/-- What holds a fixed text has a text of its own. -/
theorem Shown.textFrom_ne_empty {p : Sql} (h : p.Shown) (quote : String → String)
    (placeholder : Nat → String) (bound : Nat) : textFrom quote placeholder bound p ≠ "" := by
  obtain ⟨text, hmem, hne⟩ := h
  obtain ⟨lead, rest, rfl⟩ := List.append_of_mem hmem
  rw [textFrom_append, textFrom]
  intro hempty
  have := (String.append_eq_empty_iff.1 (String.append_eq_empty_iff.1 hempty).2).1
  exact hne this

end Sql

namespace Flavour

variable (f : Flavour) (r : ReservedKeys)

/-- A text in blanks is not empty. -/
theorem blank_append_ne_empty (text : String) : " " ++ text ++ " " ≠ "" := by
  simp [String.append_eq_empty_iff]

theorem membership_ne_empty : f.membership ≠ "" := by
  rcases f with (_ | _) | _ <;> decide

theorem absence_ne_empty : f.absence ≠ "" := by
  rcases f with (_ | _) | _ <;> decide

/-- A comparison shows its operator, whatever its left side is. -/
theorem shown_renderComparison (lhs : Sql) (c : Comparison) :
    ((f.dialect r).renderComparison lhs c).Shown := by
  unfold Dialect.renderComparison
  split
  · exact Sql.shown_append_right lhs (Sql.shown_cons (by decide) _)
  · exact Sql.shown_append_right lhs (Sql.shown_cons (by decide) _)
  · rw [inArray_dialect]
    exact Sql.shown_append_right lhs (Sql.shown_cons f.membership_ne_empty _)
  · rw [notInArray_dialect]
    exact Sql.shown_append_right lhs (Sql.shown_cons f.absence_ne_empty _)
  · exact Sql.shown_append_right lhs (Sql.shown_cons (by decide) _)
  · exact Sql.shown_append_right lhs (Sql.shown_cons (blank_append_ne_empty _) _)

/-- A look-up shows its operator or its function. -/
theorem shown_jsonPath (column key : Sql) (op : Operator) :
    ((f.dialect r).jsonPath column op key).Shown := by
  cases f with
  | postgres style =>
      exact Sql.shown_append_right column (Sql.shown_cons (blank_append_ne_empty _) _)
  | mysql =>
      cases op <;> exact Sql.shown_cons (by decide) _

/-- An overlap shows its operator. -/
theorem shown_arrayOverlap (column value : Sql) (cast : Option String) :
    ((f.dialect r).arrayOverlap column value cast).Shown := by
  have hshown : ∀ text : String, text ≠ "" → ∀ rest : Sql,
      (column ++ .code text :: value ++ rest).Shown := fun text h rest =>
    Sql.shown_append_left (Sql.shown_append_right column (Sql.shown_cons h value)) rest
  rcases f with (_ | _) | _
  · exact hshown " && ARRAY[" (by decide) _
  · exact hshown " && " (by decide) _
  · exact hshown " && ARRAY[" (by decide) _

/-- Every term shows some fixed text. -/
theorem shown_render (t : Term) : ((f.dialect r).render t).Shown := by
  unfold Dialect.render
  dsimp only
  split
  · split
    · exact f.shown_jsonPath r _ _ _
    · exact f.shown_renderComparison r _ _
  · split
    · exact Sql.shown_append_right [.bind t.value, _]
        (Sql.shown_append_right _ (Sql.shown_cons (by decide) []))
    · split
      · split
        · exact Sql.shown_cons (by decide) _
        · exact f.shown_arrayOverlap r _ _ _
      · split
        · exact f.shown_renderComparison r _ _
        · exact f.shown_renderComparison r _ _

/-- **The text of a term is never empty.** -/
theorem textFrom_render_ne_empty (bound : Nat) (t : Term) :
    Sql.textFrom (f.dialect r).quote (f.dialect r).placeholder bound ((f.dialect r).render t) ≠
      "" :=
  (f.shown_render r t).textFrom_ne_empty _ _ bound

end Flavour

end WhereClause

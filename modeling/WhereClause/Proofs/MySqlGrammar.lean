/-
**The predicates of MySQL.**

MySQL is asked with few words: comparisons of columns and of what a look-up finds, joined by AND and
OR, with the alternatives for every column in parentheses.  A look-up is a call of a function there.
As MySQL has finitely many outlines, each of them can be compared with the conditions of this
grammar.

There is one exception.  A look-up below a look-up is accepted as well, but where it stands the
comparison is written with its keyword, and the keyword of a look-up is an arrow of PostgreSQL.

Main definitions:

* `WhereClause.signs` — a text as a reader finds it outside of identifiers;
* `WhereClause.MySql.conditions`, `WhereClause.MySql.Row`, `WhereClause.MySql.Grammatical` — the
  conditions on a column, rows of them, and whole predicates.

Main results:

* `WhereClause.MySql.mem_conditions_of_render` — a rendered term is a condition;
* `WhereClause.MySql.grammatical_arrows` — **a predicate is grammatical, with arrows behind
  look-ups**;
* `WhereClause.MySql.grammatical_nil`, `WhereClause.MySql.arrow_isInfix` — without a look-up below a
  look-up it is so without arrows, and with one there is an arrow in it.
-/

import WhereClause.Proofs.Containment
import WhereClause.Proofs.OutlineWords

set_option relaxedAutoImplicit false
set_option autoImplicit false

namespace WhereClause

open Text

/-! ### Pieces as a reader finds them -/

/-- A text as a reader finds it outside of identifiers. -/
def signs (text : String) : List Lexeme := text.toList.map .sign

/-- A piece as a reader finds it where every placeholder is a question mark. -/
def Piece.lexemes : Piece → List Lexeme
  | .code text => signs text
  | .column name => [.name (splitOn '.' name.toList)]
  | .bind _ => [.sign '?']

/-- A fragment as a reader finds it, with a column in the place of a name. -/
def Fragment.lexemes (column : Lexeme) : Fragment → List Lexeme
  | .fixed text => signs text
  | .place => [.sign '?']
  | .name => [column]

namespace Sql

/-- A reader finds the pieces of a predicate one behind the other. -/
theorem lexemes_question (bound : Nat) (p : Sql) :
    p.lexemes PlaceholderStyle.question.placeholder bound = p.flatMap Piece.lexemes := by
  induction p generalizing bound with
  | nil => rfl
  | cons piece p ih =>
      cases piece <;>
        simp [Sql.lexemes, Piece.lexemes, PlaceholderStyle.placeholder, signs, ih]

/-- A predicate on one column is found as its form with this column. -/
theorem flatMap_lexemes {p : Sql} {column : String} (h : ∀ name ∈ p.columns, name = column) :
    p.flatMap Piece.lexemes =
      p.fragments.flatMap (Fragment.lexemes (.name (splitOn '.' column.toList))) := by
  induction p with
  | nil => rfl
  | cons piece p ih =>
      cases piece with
      | code text => simp [Piece.lexemes, Fragment.lexemes, ih h]
      | bind value => simp [Piece.lexemes, Fragment.lexemes, ih h]
      | column name =>
          obtain ⟨rfl, hrest⟩ := List.forall_mem_cons.1 h
          simp [Piece.lexemes, Fragment.lexemes, ih hrest]

end Sql

/-- A column put into the place of every name. -/
def Lexeme.onto (column : Lexeme) : Lexeme → Lexeme
  | .name _ => column
  | .sign c => .sign c

@[simp] theorem map_onto_signs (column : Lexeme) (text : String) :
    (signs text).map column.onto = signs text := by
  simp [signs, Lexeme.onto]

/-- A form with a column is the form with any other one, with the column put into its place. -/
theorem Fragment.map_onto_lexemes (column : Lexeme) (parts : List (List Char))
    (form : List Fragment) :
    (form.flatMap (Fragment.lexemes (.name parts))).map column.onto =
      form.flatMap (Fragment.lexemes column) := by
  induction form with
  | nil => rfl
  | cons fragment form ih => cases fragment <;> simp [Fragment.lexemes, Lexeme.onto, ih]

/-! ### Grammatical predicates -/

namespace MySql

/-- The look-ups in a column: what is found as it is, and without its quotes. -/
def lookUps (column : Lexeme) : List (List Lexeme) :=
  let extract := signs "JSON_EXTRACT(" ++ column :: signs ", CONCAT('$.', ?))"
  [extract, signs "JSON_UNQUOTE(" ++ extract ++ signs ")"]

/-- What stands behind the left side of a comparison. -/
def tests : List String :=
  [" = ?", " != ?", " > ?", " < ?", " >= ?", " <= ?", " LIKE ?", " NOT LIKE ?", " REGEXP ?",
    " NOT REGEXP ?", " BETWEEN ? AND ?", " IN (?)", " NOT IN (?)", " IS NULL", " IS NOT NULL"]

/-- What stands behind a look-up that another one is below; MySQL does not know it. -/
def arrows : List String := [" -> ?", " ->> ?"]

/-- The conditions on a column: a comparison of it, what a look-up finds, or a comparison of this,
for which there may be more tests than for columns. -/
def conditions (more : List String) (column : Lexeme) : List (List Lexeme) :=
  (tests.map fun test => column :: signs test) ++ lookUps column ++
    (lookUps column).flatMap fun side => (tests ++ more).map fun test => side ++ signs test

/-- Conditions with joints between them. -/
inductive Row (more joints : List String) : List Lexeme → Prop
  | last {parts : List (List Char)} {s : List Lexeme} :
      s ∈ conditions more (.name parts) → Row more joints s
  | cons {parts : List (List Char)} {s rest : List Lexeme} {joint : String} :
      s ∈ conditions more (.name parts) → joint ∈ joints → Row more joints rest →
      Row more joints (s ++ (signs joint ++ rest))

/-- The predicates of MySQL: a chain, alternatives in parentheses, both, or nothing.  With more
tests for what a look-up finds they are predicates of a larger language. -/
inductive Grammatical (more : List String) : List Lexeme → Prop
  | nothing : Grammatical more []
  | chain {s : List Lexeme} : Row more [" AND ", " OR "] s → Grammatical more s
  | group {s : List Lexeme} : Row more [" OR "] s →
      Grammatical more (signs "(" ++ s ++ signs ")")
  | both {s rest : List Lexeme} : Row more [" OR "] s → Row more [" AND ", " OR "] rest →
      Grammatical more (signs "(" ++ s ++ signs ")" ++ (signs " AND " ++ rest))

/-- The conditions on a column are those on any other one, with the column put into its place. -/
theorem map_onto_conditions (more : List String) (column : Lexeme) (parts : List (List Char)) :
    (conditions more (.name parts)).map (List.map column.onto) = conditions more column := by
  simp [conditions, lookUps, tests, Lexeme.onto, Function.comp_def]

/-! ### Terms -/

/-- An outline with a look-up below a look-up. -/
def nests (o : Outline) : Bool := o.below.any fun t => t.operator.isJsonPath

/-- **The form of an outline is a condition, with an arrow in it if a look-up is below a look-up,
and without otherwise.** -/
theorem mem_conditions_of_form {o : Outline} (ho : o ∈ Flavour.mysql.outlines) (column : Lexeme) :
    let s := (Flavour.mysql.form o).flatMap (Fragment.lexemes column)
    s ∈ conditions arrows column ∧
      if nests o then signs "->" <:+: s else s ∈ conditions [] column := by
  have hall : ∀ o ∈ Flavour.mysql.outlines,
      let s := (Flavour.mysql.form o).flatMap (Fragment.lexemes (.name []))
      s ∈ conditions arrows (.name []) ∧
        if nests o then signs "->" <:+: s else s ∈ conditions [] (.name []) := by
    -- some fifty outlines, each looked up among some fifty conditions
    decide +kernel
  obtain ⟨hmem, hform⟩ := hall o ho
  dsimp only
  rw [← Fragment.map_onto_lexemes column [], ← map_onto_conditions _ column [],
    ← map_onto_conditions _ column []]
  refine ⟨List.mem_map_of_mem hmem, ?_⟩
  cases hnests : nests o with
  | true =>
      rw [hnests, if_pos rfl] at hform
      rw [if_pos rfl, ← map_onto_signs column "->"]
      exact hform.map column.onto
  | false =>
      rw [hnests, if_neg Bool.false_ne_true] at hform
      rw [if_neg Bool.false_ne_true]
      exact List.mem_map_of_mem hform

/-- The outline of a term shows whether a look-up stands below its own. -/
theorem nests_outline {t : Term} (h : t.WellFormed .mysql) :
    nests t.outline = t.path.any fun c => c.operator.isJsonPath := by
  unfold nests Term.outline
  rcases h.path with hpath | ⟨hjson, c, hpath, -⟩
  · simp [hpath]
  · simp [hpath, hjson, Comparison.test]

variable {r : ReservedKeys}

/-- **A rendered term is a condition on its column, with an arrow in it if a look-up is below a
look-up, and without otherwise.** -/
theorem mem_conditions_of_render {t : Term} (h : t.WellFormed .mysql) :
    let s := ((Flavour.mysql.dialect r).render t).flatMap Piece.lexemes
    s ∈ conditions arrows (.name (splitOn '.' t.key.toList)) ∧
      if t.path.any fun c => c.operator.isJsonPath then signs "->" <:+: s
      else s ∈ conditions [] (.name (splitOn '.' t.key.toList)) := by
  have hconsists := Flavour.consists_render (r := r) h
  have hcolumns : ∀ name ∈ Sql.columns ((Flavour.mysql.dialect r).render t), name = t.key := by
    rw [hconsists.columns]
    exact fun name hname => List.mem_singleton.1 hname
  dsimp only
  rw [Sql.flatMap_lexemes hcolumns, hconsists.fragments, ← nests_outline h]
  exact mem_conditions_of_form h.mem_outlines _

/-! ### Rows and predicates -/

/-- Terms that are conditions, with joints between them, are a row. -/
theorem row_of_terms {d : Dialect} {more joints : List String} (joint : Term → String)
    (hjoint : ∀ t, joint t ∈ joints) (t : Term) (ts : List Term)
    (h : ∀ u ∈ t :: ts, ∃ parts,
      (d.render u).flatMap Piece.lexemes ∈ conditions more (.name parts)) :
    Row more joints
      ((d.render t ++ ts.flatMap fun u => .code (joint u) :: d.render u).flatMap
        Piece.lexemes) := by
  induction ts generalizing t with
  | nil =>
      obtain ⟨parts, ht⟩ := h t List.mem_cons_self
      simpa using Row.last ht
  | cons u ts ih =>
      obtain ⟨⟨parts, ht⟩, hrest⟩ := List.forall_mem_cons.1 h
      simpa [Piece.lexemes] using Row.cons ht (hjoint u) (ih u hrest)

/-- **A predicate of conditions is grammatical.** -/
theorem grammatical_assemble {d : Dialect} {more : List String} {p : Params}
    {columns : List String} (h : ∀ t ∈ d.renderedTerms p columns, ∃ parts,
      (d.render t).flatMap Piece.lexemes ∈ conditions more (.name parts)) :
    Grammatical more ((d.assemble p columns).flatMap Piece.lexemes) := by
  have hchain : ∀ t, Dialect.joint t ∈ [" AND ", " OR "] := by
    intro t
    unfold Dialect.joint
    cases t.isOr <;> simp
  unfold Dialect.renderedTerms at h
  rw [Dialect.assemble, Dialect.group_eq_map]
  generalize d.groupTerms p columns = group at h
  generalize d.chainTerms p = chain at h
  cases group with
  | nil =>
      cases chain with
      | nil => exact .nothing
      | cons t ts => exact .chain (row_of_terms Dialect.joint hchain t ts h)
  | cons g gs =>
      have hgroup : Row more [" OR "] ((Sql.joined " OR " ((g :: gs).map d.render)).flatMap
          Piece.lexemes) := by
        rw [List.map_cons, Dialect.joined_cons, List.flatMap_map]
        exact row_of_terms (fun _ => " OR ") (by simp) g gs
          fun u hu => h u (List.mem_append_left _ hu)
      cases chain with
      | nil => simpa [Sql.parenthesized, Piece.lexemes] using Grammatical.group hgroup
      | cons t ts =>
          have hrest := row_of_terms Dialect.joint hchain t ts
            fun u hu => h u (List.mem_append_right _ hu)
          simpa [Sql.parenthesized, Piece.lexemes, Dialect.chain] using
            Grammatical.both hgroup hrest

variable {p : Params} {columns : List String}

/-- A predicate is grammatical, with arrows behind look-ups. -/
theorem grammatical_arrows (h : p.Forall (Term.WellFormed .mysql)) :
    Grammatical arrows (((Flavour.mysql.dialect r).assemble p columns).flatMap Piece.lexemes) := by
  refine grammatical_assemble fun t ht => ⟨splitOn '.' t.key.toList, ?_⟩
  have hwf := Flavour.wellFormed_of_mem_renderedTerms h columns t ht
  exact (mem_conditions_of_render hwf).1

/-- Without a look-up below a look-up, a predicate is grammatical without arrows. -/
theorem grammatical_nil (h : p.Forall (Term.WellFormed .mysql))
    (hplain : ∀ t ∈ (Flavour.mysql.dialect r).renderedTerms p columns,
      ∀ c ∈ t.path, c.operator.isJsonPath = false) :
    Grammatical [] (((Flavour.mysql.dialect r).assemble p columns).flatMap Piece.lexemes) := by
  refine grammatical_assemble fun t ht => ⟨splitOn '.' t.key.toList, ?_⟩
  have hwf := Flavour.wellFormed_of_mem_renderedTerms h columns t ht
  have hcondition := (mem_conditions_of_render (r := r) hwf).2
  rwa [if_neg (by simpa using hplain t ht)] at hcondition

/-- With a look-up below a look-up, a predicate has an arrow in it. -/
theorem arrow_isInfix (h : p.Forall (Term.WellFormed .mysql)) {t : Term}
    (ht : t ∈ (Flavour.mysql.dialect r).renderedTerms p columns) {c : Comparison}
    (hc : c ∈ t.path) (hjson : c.operator.isJsonPath = true) :
    signs "->" <:+: ((Flavour.mysql.dialect r).assemble p columns).flatMap Piece.lexemes := by
  have hwf := Flavour.wellFormed_of_mem_renderedTerms h columns t ht
  have harrow := (mem_conditions_of_render (r := r) hwf).2
  rw [if_pos (List.any_eq_true.2 ⟨c, hc, hjson⟩)] at harrow
  obtain ⟨before, after, hsplit⟩ := List.append_of_mem ht
  obtain ⟨lead, rest, hassemble, -⟩ := Dialect.exists_assemble_eq_append _ hsplit
  rw [hassemble, List.flatMap_append, List.flatMap_append]
  exact harrow.trans ⟨_, _, List.append_assoc ..⟩

/-- A reader finds the pieces of a predicate one behind the other. -/
theorem joinNames_assemble (h : p.Forall (Term.WellFormed .mysql)) :
    joinNames (((Flavour.mysql.dialect r).assemble p columns).tokens
        Flavour.mysql.style.placeholder 0) =
      ((Flavour.mysql.dialect r).assemble p columns).flatMap Piece.lexemes := by
  rw [joinNames_tokens _ (Flavour.separated_assemble h columns)]
  exact Sql.lexemes_question 0 _

end MySql

end WhereClause

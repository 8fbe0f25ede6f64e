/-
**A predicate in one pass.**

A predicate can be written without any pieces in between.  Its text is put together term by term,
and every value is put behind those that are bound already; its placeholder is numbered by how many
there are then, wherever in the text it goes.  That can only be right if values are bound in the
order of their places, and it is: one pass gives the text and the values of the pieces, for all
parameters and columns.

Main definitions:

* `WhereClause.Phrasing`, `WhereClause.Flavour.phrasing` — how a dialect puts texts around texts;
* `WhereClause.Dialect.push` — one more bound value, and its placeholder;
* `WhereClause.Dialect.writeComparison`, `WhereClause.Dialect.write` — a comparison and a term;
* `WhereClause.Dialect.writeGroup`, `WhereClause.Dialect.writeChain` — the alternatives, and the
  chain, joined by what is written already;
* `WhereClause.Dialect.onePass` — the text and the values of parameters.

Main results:

* `WhereClause.Flavour.run_write` — a term is written as its pieces, behind any bound values;
* `WhereClause.Flavour.run_writeChain` — so is a chain of terms;
* `WhereClause.Flavour.onePass_eq_assemble` — **one pass gives the text and the values of the
  pieces**.
-/

import WhereClause.Proofs.Reference

set_option relaxedAutoImplicit false
set_option autoImplicit false

namespace WhereClause

/-! ### Phrasing -/

/-- How a dialect puts texts around the texts of a left side and of a bound value. -/
structure Phrasing where
  /-- Membership of the left side in a bound list. -/
  inArray : String → String → String := fun lhs value => lhs ++ " IN (" ++ value ++ ")"
  /-- Absence of the left side from a bound list. -/
  notInArray : String → String → String := fun lhs value => lhs ++ " NOT IN (" ++ value ++ ")"
  /-- A common element of a list column and a bound list, with a cast behind the list. -/
  arrayOverlap : String → String → Option String → String := fun column value cast =>
    column ++ " && ARRAY[" ++ value ++ "]" ++ cast.getD ""
  /-- The look-up of a bound name in a document column. -/
  jsonPath : String → Operator → String → String := fun column op key =>
    column ++ " " ++ op.sql ++ " " ++ key

/-- A bound list is spread over a question mark, or bound as one array. -/
def PlaceholderStyle.phrasing (style : PlaceholderStyle) : Phrasing where
  inArray := fun lhs value =>
    match style with
    | .question => lhs ++ " IN (" ++ value ++ ")"
    | .dollar => lhs ++ " = ANY(" ++ value ++ ")"
  notInArray := fun lhs value =>
    match style with
    | .question => lhs ++ " NOT IN (" ++ value ++ ")"
    | .dollar => lhs ++ " != ALL(" ++ value ++ ")"
  arrayOverlap := fun column value cast =>
    match style with
    | .question => column ++ " && ARRAY[" ++ value ++ "]" ++ cast.getD ""
    | .dollar => column ++ " && " ++ value ++ cast.getD ""

/-- A look-up is a call, and a second one around it for what is found as text. -/
def mysqlPhrasing : Phrasing where
  jsonPath := fun column op key =>
    let extract := "JSON_EXTRACT(" ++ column ++ ", CONCAT('$.', " ++ key ++ "))"
    match op with
    | .jsonPathText => "JSON_UNQUOTE(" ++ extract ++ ")"
    | _ => extract

/-- The phrasing of a dialect. -/
def Flavour.phrasing : Flavour → Phrasing
  | postgres style => style.phrasing
  | mysql => mysqlPhrasing

/-! ### Writing -/

namespace Dialect

/-- Put a value behind those that are bound, and give its placeholder. -/
def push (d : Dialect) (value : Value) : StateM (List Value) String := do
  modify (· ++ [value])
  let bound ← get
  pure (d.placeholder bound.length)

/-- Write a comparison of a left side with a value. -/
def writeComparison (d : Dialect) (w : Phrasing) (lhs : String) (c : Comparison) :
    StateM (List Value) String :=
  match c.operator, c.value with
  | .eq, .null => pure (lhs ++ " IS NULL")
  | .neq, .null => pure (lhs ++ " IS NOT NULL")
  | .oneOf, value => do
      let value ← d.push value
      pure (w.inArray lhs value)
  | .noneOf, value => do
      let value ← d.push value
      pure (w.notInArray lhs value)
  | .between, .range lower upper => do
      let lower ← d.push lower
      let upper ← d.push upper
      pure (lhs ++ " BETWEEN " ++ lower ++ " AND " ++ upper)
  | op, value => do
      let value ← d.push value
      pure (lhs ++ " " ++ d.operatorSql op ++ " " ++ value ++ c.valueCast.getD "")

/-- Write a term. -/
def write (d : Dialect) (w : Phrasing) (t : Term) : StateM (List Value) String :=
  let column := if t.quoted then d.quote t.key else t.key
  if t.operator.isJsonPath then do
    let key ← d.push t.value
    let lhs := w.jsonPath column t.operator key
    match t.path with
    | [] => pure lhs
    | c :: _ =>
        let lhs := match c.keyCast with
          | some cast => "(" ++ lhs ++ ")" ++ cast
          | none => lhs
        d.writeComparison w lhs c
  else if t.operator.isQuantified then do
    let value ← d.push t.value
    let equality := if t.operator.isNegatedQuantifier then "!=" else "="
    pure (value ++ " " ++ equality ++ " " ++ d.operatorSql t.operator ++ "(" ++ column ++ ")")
  else if t.operator.isOverlap then do
    let value ← d.push t.value
    let sql := w.arrayOverlap column value t.valueCast
    pure (if t.operator = .notOverlaps then "NOT " ++ sql else sql)
  else
    let lhs := match t.keyCast with
      | some cast => column ++ cast
      | none => column
    d.writeComparison w lhs t.toComparison

/-- The text of some alternatives, if there are any. -/
def groupText (parts : List String) : Option String :=
  if parts.isEmpty then none else some ("(" ++ " OR ".intercalate parts ++ ")")

/-- Write the alternatives of the last term for every column. -/
def writeGroup (d : Dialect) (w : Phrasing) (p : Params) (columns : List String) :
    StateM (List Value) (Option String) :=
  match (p.get d.reserved.wildcard).getLast? with
  | none => pure none
  | some wildcard => do
      let parts ← (d.targets p columns).mapM fun column => d.write w (wildcard.rebind column)
      pure (groupText parts)

/-- Write one more term behind a chain.  It is joined to what is written already, if that is not
empty. -/
def writeNext (d : Dialect) (w : Phrasing) (chain : String) (t : Term) :
    StateM (List Value) String := do
  let sql ← d.write w t
  pure ((if chain.isEmpty then chain else chain ++ joint t) ++ sql)

/-- Write a chain, term after term. -/
def writeChain (d : Dialect) (w : Phrasing) (terms : List Term) : StateM (List Value) String :=
  terms.foldlM (d.writeNext w) ""

/-- A group and a chain as one text. -/
def withGroup (group : Option String) (chain : String) : String :=
  match group, chain.isEmpty with
  | some group, false => group ++ " AND " ++ chain
  | some group, true => group
  | none, _ => chain

/-- **The text and the values of parameters, in one pass.** -/
def onePass (d : Dialect) (w : Phrasing) (p : Params) (columns : List String) :
    String × List Value :=
  if p.isEmpty then ("", [])
  else
    let written : StateM (List Value) String := do
      let group ← d.writeGroup w p columns
      let chain ← d.writeChain w (d.chainTerms p)
      pure (withGroup group chain)
    written.run []

/-! ### Runs -/

section Runs

variable (d : Dialect) (bound : List Value)

theorem run_pure {α : Type} (a : α) : (pure a : StateM (List Value) α).run bound = (a, bound) := rfl

/-- A run goes on with what is bound then. -/
theorem run_bind {α β : Type} (m : StateM (List Value) α) (next : α → StateM (List Value) β) :
    (m >>= next).run bound = (next (m.run bound).1).run (m.run bound).2 := rfl

/-- A value gets the placeholder behind those of the values before it. -/
theorem run_push (value : Value) :
    (d.push value).run bound = (d.placeholder (bound.length + 1), bound ++ [value]) := by
  have hrun : (d.push value).run bound =
      (d.placeholder (bound ++ [value]).length, bound ++ [value]) := rfl
  rw [hrun, List.length_append, List.length_singleton]

end Runs

/-! ### What is written of pieces -/

section Written

variable (d : Dialect) (bound : List Value)

/-- What is written of some pieces behind `bound` values, and the values that are bound then. -/
def written (p : Sql) : String × List Value :=
  (p.textFrom d.quote d.placeholder bound.length, bound ++ p.values)

theorem written_nil : d.written bound [] = ("", bound) := by
  rw [written, Sql.values_nil, List.append_nil]
  rfl

theorem written_code (text : String) (rest : Sql) :
    d.written bound (.code text :: rest) =
      (text ++ (d.written bound rest).1, (d.written bound rest).2) := rfl

theorem written_column (name : String) (rest : Sql) :
    d.written bound (.column name :: rest) =
      (d.quote name ++ (d.written bound rest).1, (d.written bound rest).2) := rfl

theorem written_bind (value : Value) (rest : Sql) :
    d.written bound (.bind value :: rest) =
      (d.placeholder (bound.length + 1) ++ (d.written (bound ++ [value]) rest).1,
        (d.written (bound ++ [value]) rest).2) := by
  simp only [written, Sql.textFrom, Sql.values_bind, List.length_append, List.length_singleton,
    List.append_assoc, List.singleton_append]

/-- What follows is written behind the values of what goes before. -/
theorem written_append (p q : Sql) :
    d.written bound (p ++ q) =
      ((d.written bound p).1 ++ (d.written (d.written bound p).2 q).1,
        (d.written (d.written bound p).2 q).2) := by
  simp only [written, Sql.textFrom_append, Sql.values_append, List.length_append, List.append_assoc]

end Written

end Dialect

/-! ### Terms -/

namespace Flavour

open Dialect

variable (f : Flavour) (r : ReservedKeys) (bound : List Value)

theorem inArray_phrasing (lhs value : String) :
    f.phrasing.inArray lhs value = lhs ++ f.membership ++ value ++ ")" := by
  rcases f with (_ | _) | _ <;> rfl

theorem notInArray_phrasing (lhs value : String) :
    f.phrasing.notInArray lhs value = lhs ++ f.absence ++ value ++ ")" := by
  rcases f with (_ | _) | _ <;> rfl

/-- A comparison is written as its pieces, behind those of its left side. -/
theorem run_writeComparison (lhs : Sql) (c : Comparison) :
    ((f.dialect r).writeComparison f.phrasing ((f.dialect r).written bound lhs).1 c).run
        ((f.dialect r).written bound lhs).2 =
      (f.dialect r).written bound ((f.dialect r).renderComparison lhs c) := by
  obtain ⟨key, op, raw, value, type, quoted, isOr, keyCast, valueCast⟩ := c
  -- only for these operators does the kind of the value matter
  cases op with
  | eq | neq | between =>
      cases value <;>
        simp only [writeComparison, renderComparison, run_bind, run_push, run_pure, written_append,
          written_code, written_bind, written_nil, String.append_assoc, String.append_empty]
  | _ =>
      simp only [writeComparison, renderComparison, run_bind, run_push, run_pure, inArray_phrasing,
        inArray_dialect, notInArray_phrasing, notInArray_dialect, written_append, written_code,
        written_bind, written_nil, String.append_assoc, String.append_empty]

/-- The column of a term is written without binding a value. -/
theorem written_columnOf (c : Comparison) :
    (f.dialect r).written bound (columnOf c) =
      (if c.quoted then (f.dialect r).quote c.key else c.key, bound) := by
  rw [columnOf]
  split
  next => rw [written_column, written_nil, String.append_empty]
  next => rw [written_code, written_nil, String.append_empty]

/-- So is a column with a cast behind it. -/
theorem written_castColumn (c : Comparison) :
    (f.dialect r).written bound (columnOf c ++ c.keyCast.toList.map .code) =
      (match c.keyCast with
        | some cast => (if c.quoted then (f.dialect r).quote c.key else c.key) ++ cast
        | none => if c.quoted then (f.dialect r).quote c.key else c.key, bound) := by
  rw [written_append, written_columnOf]
  cases c.keyCast with
  | some cast =>
      simp only [Option.toList_some, List.map_cons, List.map_nil, written_code, written_nil,
        String.append_empty]
  | none => simp only [Option.toList_none, List.map_nil, written_nil, String.append_empty]

/-- A look-up is written with the name in the place of its value. -/
theorem written_jsonPath (column : Sql) (op : Operator) (value : Value) :
    (f.dialect r).written bound ((f.dialect r).jsonPath column op [.bind value]) =
      (f.phrasing.jsonPath ((f.dialect r).written bound column).1 op
        ((f.dialect r).placeholder (((f.dialect r).written bound column).2.length + 1)),
        ((f.dialect r).written bound column).2 ++ [value]) := by
  cases f with
  | postgres style =>
      simp only [phrasing, PlaceholderStyle.phrasing, dialect, WhereClause.postgres, written_append,
        written_code, written_bind, written_nil, String.append_assoc, String.append_empty]
  | mysql =>
      cases op <;>
        simp only [phrasing, mysqlPhrasing, dialect, WhereClause.mysql, written_append,
          written_code, written_bind, written_nil, List.cons_append, String.append_assoc,
          String.append_empty]

/-- An overlap is written with the list in the place of its value. -/
theorem written_arrayOverlap (column : Sql) (value : Value) (cast : Option String) :
    (f.dialect r).written bound ((f.dialect r).arrayOverlap column [.bind value] cast) =
      (f.phrasing.arrayOverlap ((f.dialect r).written bound column).1
        ((f.dialect r).placeholder (((f.dialect r).written bound column).2.length + 1)) cast,
        ((f.dialect r).written bound column).2 ++ [value]) := by
  rcases f with (_ | _) | _ <;>
    simp only [phrasing, PlaceholderStyle.phrasing, mysqlPhrasing, dialect, WhereClause.postgres,
      WhereClause.mysql, written_append, written_code, written_bind, written_nil, List.cons_append,
      String.append_assoc, String.append_empty]

/-- What is found is written in parentheses if a cast stands behind it. -/
theorem written_castLookup (lhs : Sql) (cast : Option String) :
    (f.dialect r).written bound (castLookup lhs cast) =
      (match cast with
        | some cast => "(" ++ ((f.dialect r).written bound lhs).1 ++ ")" ++ cast
        | none => ((f.dialect r).written bound lhs).1, ((f.dialect r).written bound lhs).2) := by
  cases cast <;>
    simp only [castLookup, Sql.parenthesized, written_append, written_code, written_nil,
      List.cons_append, List.append_assoc, String.append_assoc, String.append_empty,
      String.empty_append]

/-- **A term is written as its pieces, behind any bound values.** -/
theorem run_write (t : Term) :
    ((f.dialect r).write f.phrasing t).run bound =
      (f.dialect r).written bound ((f.dialect r).render t) := by
  have hcolumn := f.written_columnOf r bound t.toComparison
  cases hjson : t.operator.isJsonPath with
  | true =>
      have hlookup := f.written_jsonPath r bound (columnOf t.toComparison) t.operator t.value
      rw [hcolumn] at hlookup
      rw [render_lookup _ hjson, write]
      simp only [hjson, if_true, run_bind, run_push]
      cases t.path with
      | nil => exact hlookup.symm
      | cons c rest =>
          have hfound := f.written_castLookup r bound
            ((f.dialect r).jsonPath (columnOf t.toComparison) t.operator [.bind t.value]) c.keyCast
          rw [hlookup] at hfound
          simp only
          rw [← run_writeComparison, hfound]
  | false =>
      cases hquant : t.operator.isQuantified with
      | true =>
          have hequality : (if t.operator.isNegatedQuantifier then " != " else " = ") =
              " " ++ (if t.operator.isNegatedQuantifier then "!=" else "=") ++ " " := by
            cases t.operator.isNegatedQuantifier <;> rfl
          rw [render_quantified _ hjson hquant, write, hequality]
          simp only [hjson, hquant, Bool.false_eq_true, if_false, if_true, run_bind, run_push,
            run_pure, written_bind, written_code, written_append, written_columnOf, written_nil,
            String.append_assoc, String.append_empty]
      | false =>
          cases hover : t.operator.isOverlap with
          | true =>
              rw [render_overlap _ hover, write]
              simp only [hjson, hquant, hover, Bool.false_eq_true, if_false, if_true, run_bind,
                run_push, run_pure]
              split
              next =>
                rw [List.singleton_append, written_code, written_arrayOverlap, hcolumn]
              next =>
                rw [List.nil_append, written_arrayOverlap, hcolumn]
          | false =>
              rw [render_comparison _ hjson hquant hover, write, ← run_writeComparison,
                written_castColumn]
              simp only [hjson, hquant, hover, Bool.false_eq_true, if_false]

/-! ### Groups and chains -/

/-- Terms are written one after another, each behind the values of those before it. -/
theorem run_mapM_write (terms : List Term) :
    (terms.mapM ((f.dialect r).write f.phrasing)).run bound =
      (History.renderings (f.dialect r) bound.length terms,
        bound ++ History.boundValues (f.dialect r) terms) := by
  induction terms generalizing bound with
  | nil =>
      rw [List.mapM_nil, run_pure, History.boundValues, List.flatMap_nil, List.append_nil,
        History.renderings]
  | cons t terms ih =>
      rw [List.mapM_cons]
      simp only [run_bind, run_write, ih, run_pure, written, History.renderings,
        History.boundValues, List.flatMap_cons, List.length_append, List.append_assoc]

/-- A group is written as the texts of its terms. -/
theorem run_writeGroup (p : Params) (columns : List String) :
    ((f.dialect r).writeGroup f.phrasing p columns).run bound =
      (groupText
          (History.renderings (f.dialect r) bound.length ((f.dialect r).groupTerms p columns)),
        bound ++ History.boundValues (f.dialect r) ((f.dialect r).groupTerms p columns)) := by
  unfold writeGroup groupTerms
  cases (p.get (f.dialect r).reserved.wildcard).getLast? with
  | none =>
      simp only [run_pure, History.renderings, History.boundValues, List.flatMap_nil,
        List.append_nil]
      rfl
  | some wildcard =>
      have hcopies : ((f.dialect r).targets p columns).mapM
            (fun column => (f.dialect r).write f.phrasing (wildcard.rebind column)) =
          (((f.dialect r).targets p columns).map wildcard.rebind).mapM
            ((f.dialect r).write f.phrasing) := by
        rw [List.mapM_map]
        rfl
      simp only [hcopies, run_bind, run_mapM_write, run_pure]

/-- One more term is written behind a chain, with its word if there is something before it. -/
theorem run_writeNext (chain : String) (t : Term) :
    ((f.dialect r).writeNext f.phrasing chain t).run bound =
      ((if chain = "" then chain else chain ++ Dialect.joint t) ++
          ((f.dialect r).written bound ((f.dialect r).render t)).1,
        ((f.dialect r).written bound ((f.dialect r).render t)).2) := by
  simp only [writeNext, run_bind, run_write, run_pure, String.isEmpty_iff]

/-- Some terms are written behind a chain, each with its word. -/
theorem run_foldlM_writeNext (terms : List Term) {chain : String} (h : chain ≠ "") :
    (terms.foldlM ((f.dialect r).writeNext f.phrasing) chain).run bound =
      (chain ++ String.join (List.zipWith
          (fun t text => (if t.isOr then " OR " else " AND ") ++ text) terms
          (History.renderings (f.dialect r) bound.length terms)),
        bound ++ History.boundValues (f.dialect r) terms) := by
  induction terms generalizing chain bound with
  | nil =>
      rw [List.foldlM_nil, run_pure, History.boundValues, List.flatMap_nil, List.append_nil,
        List.zipWith_nil_left, String.join_nil, String.append_empty]
  | cons t terms ih =>
      have hnext : chain ++ Dialect.joint t ++
          ((f.dialect r).written bound ((f.dialect r).render t)).1 ≠ "" := by
        simp only [ne_eq, String.append_eq_empty_iff, h, false_and, not_false_eq_true]
      rw [List.foldlM_cons, run_bind, run_writeNext, if_neg h, ih _ hnext]
      simp only [written, History.renderings, History.boundValues, List.flatMap_cons,
        List.length_append, List.append_assoc, List.zipWith_cons_cons, String.join_cons,
        String.append_assoc, Dialect.joint]

/-- **A chain is written as its pieces.** -/
theorem run_writeChain (terms : List Term) :
    ((f.dialect r).writeChain f.phrasing terms).run bound =
      (History.linked terms (History.renderings (f.dialect r) bound.length terms),
        bound ++ History.boundValues (f.dialect r) terms) := by
  rw [writeChain]
  cases terms with
  | nil =>
      rw [List.foldlM_nil, run_pure, History.boundValues, List.flatMap_nil, List.append_nil]
      rfl
  | cons t terms =>
      -- the first term has a text, so the next one does not take the place of the first
      have hfirst : ((f.dialect r).written bound ((f.dialect r).render t)).1 ≠ "" :=
        f.textFrom_render_ne_empty r bound.length t
      rw [List.foldlM_cons, run_bind, run_writeNext, if_pos rfl, String.empty_append,
        run_foldlM_writeNext _ _ _ _ hfirst]
      simp only [written, History.linked, History.renderings, History.boundValues,
        List.flatMap_cons, List.length_append, List.append_assoc]

/-! ### Predicates -/

/-- A group is put in front of a chain, where there are both. -/
theorem withGroup_groupText (parts : List String) (chain : String) :
    withGroup (groupText parts) chain = History.combined parts chain := by
  cases parts with
  | nil => rfl
  | cons part parts =>
      rw [History.combined, if_neg (List.cons_ne_nil part parts)]
      by_cases hchain : chain = ""
      · subst hchain
        rfl
      · have hempty : chain.isEmpty = false := by simpa using hchain
        rw [if_neg hchain, withGroup.eq_def, hempty]
        rfl

/-- Where there is no term at all, none is rendered. -/
theorem renderedTerms_of_isEmpty {p : Params} (h : p.isEmpty = true) (columns : List String) :
    (f.dialect r).groupTerms p columns = [] ∧ (f.dialect r).chainTerms p = [] := by
  obtain ⟨hid, hentries⟩ := Bool.and_eq_true_iff.1 h
  rw [Option.isNone_iff_eq_none] at hid
  rw [List.isEmpty_iff] at hentries
  constructor
  · rw [groupTerms, Params.get_eq, hentries]
    rfl
  · rw [chainTerms, hid, Params.terms, hentries]
    rfl

/-- **One pass gives the text and the values of the pieces**, for all parameters and columns. -/
theorem onePass_eq_assemble (p : Params) (columns : List String) :
    (f.dialect r).onePass f.phrasing p columns =
      ((f.dialect r).text ((f.dialect r).assemble p columns),
        ((f.dialect r).assemble p columns).values) := by
  rw [History.text_assemble, History.values_assemble, renderedTerms, History.boundValues_append,
    onePass]
  split
  next hempty =>
    obtain ⟨hgroup, hchain⟩ := f.renderedTerms_of_isEmpty r hempty columns
    rw [hgroup, hchain]
    rfl
  next =>
    simp only [run_bind, run_pure, run_writeGroup, run_writeChain, withGroup_groupText,
      List.length_nil, List.nil_append]

end Flavour

end WhereClause

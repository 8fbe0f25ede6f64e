/-
**The outline of a predicate.**

What the text of a term shows besides the name of its column is little: its operator, whether it
compares with nothing, the cast behind the list of an overlap, and the operator and nullness of the
comparison below a look-up.  This outline of a term is all that its form depends on, and its form is
a short list of fixed texts, places of values, and the one place of the name.

Main definitions:

* `WhereClause.Fragment` — a fixed text, the place of a value or the place of a name;
* `WhereClause.Test`, `WhereClause.Outline` — outlines of comparisons and of terms;
* `WhereClause.Flavour.form` — the form that an outline has in a dialect;
* `WhereClause.Comparison.binds`, `WhereClause.Term.binds` — the values that a term binds;
* `WhereClause.Sql.fill` — a form with names and placeholders put into it.

Main results:

* `WhereClause.Sql.textFrom_eq_fill` — the text of a predicate is its form, filled;
* `WhereClause.Flavour.consists_render` — **a rendered term consists of the form of its outline,
  its key and the values that it binds**.
-/

import WhereClause.Assembly
import WhereClause.Proofs.WellFormed

set_option relaxedAutoImplicit false
set_option autoImplicit false

namespace WhereClause

/-! ### Fragments -/

/-- A piece of a predicate without its contents. -/
inductive Fragment where
  /-- A fixed text. -/
  | fixed (text : String)
  /-- The place of a value. -/
  | place
  /-- The place of a name. -/
  | name
deriving DecidableEq, Repr

/-- A piece without its contents. -/
def Piece.fragment : Piece → Fragment
  | .code text => .fixed text
  | .column _ => .name
  | .bind _ => .place

namespace Sql

/-- The pieces of a predicate without their contents. -/
def fragments (p : Sql) : List Fragment := p.map Piece.fragment

/-- The names in a predicate, in order. -/
def columns : Sql → List String
  | [] => []
  | .column name :: rest => name :: columns rest
  | _ :: rest => columns rest

@[simp] theorem fragments_nil : fragments [] = [] := rfl

@[simp] theorem fragments_cons (piece : Piece) (p : Sql) :
    fragments (piece :: p) = piece.fragment :: fragments p := rfl

@[simp] theorem fragments_append (p q : Sql) :
    fragments (p ++ q) = fragments p ++ fragments q := List.map_append

@[simp] theorem fragment_code (text : String) : Piece.fragment (.code text) = .fixed text := rfl

@[simp] theorem fragment_column (name : String) : Piece.fragment (.column name) = .name := rfl

@[simp] theorem fragment_bind (value : Value) : Piece.fragment (.bind value) = .place := rfl

@[simp] theorem columns_nil : columns [] = [] := rfl

@[simp] theorem columns_code (text : String) (p : Sql) :
    columns (.code text :: p) = columns p := rfl

@[simp] theorem columns_column (name : String) (p : Sql) :
    columns (.column name :: p) = name :: columns p := rfl

@[simp] theorem columns_bind (value : Value) (p : Sql) :
    columns (.bind value :: p) = columns p := rfl

@[simp] theorem columns_append (p q : Sql) : columns (p ++ q) = columns p ++ columns q := by
  induction p with
  | nil => rfl
  | cons piece p ih => cases piece <;> simp [ih]

/-- A predicate consists of a form, and of the names and the values in it. -/
structure Consists (p : Sql) (form : List Fragment) (names : List String) (bound : List Value) :
    Prop where
  fragments : p.fragments = form
  columns : p.columns = names
  values : p.values = bound

/-- What two predicates consist of, their concatenation consists of. -/
theorem Consists.append {p q : Sql} {form form' : List Fragment} {names names' : List String}
    {bound bound' : List Value} (hp : p.Consists form names bound)
    (hq : q.Consists form' names' bound') :
    (p ++ q).Consists (form ++ form') (names ++ names') (bound ++ bound') where
  fragments := by rw [fragments_append, hp.fragments, hq.fragments]
  columns := by rw [columns_append, hp.columns, hq.columns]
  values := by rw [values_append, hp.values, hq.values]

/-- Fixed code consists of itself. -/
theorem consists_code (texts : List String) :
    Consists (texts.map .code) (texts.map .fixed) [] [] := by
  induction texts with
  | nil => exact ⟨rfl, rfl, rfl⟩
  | cons text texts ih =>
      have hhead : Consists [.code text] [.fixed text] [] [] := ⟨rfl, rfl, rfl⟩
      exact hhead.append ih

/-- A form with names put into the places of names, and placeholders behind `bound` others into the
places of values. -/
def fill (placeholder : Nat → String) : List String → Nat → List Fragment → String
  | _, _, [] => ""
  | names, bound, .fixed text :: rest => text ++ fill placeholder names bound rest
  | names, bound, .place :: rest =>
      placeholder (bound + 1) ++ fill placeholder names (bound + 1) rest
  | [], bound, .name :: rest => fill placeholder [] bound rest
  | name :: names, bound, .name :: rest => name ++ fill placeholder names bound rest

/-- **The text of a predicate is its form, filled with its quoted names.** -/
theorem textFrom_eq_fill (quote : String → String) (placeholder : Nat → String) (bound : Nat)
    (p : Sql) :
    textFrom quote placeholder bound p =
      fill placeholder (p.columns.map quote) bound p.fragments := by
  induction p generalizing bound with
  | nil => rfl
  | cons piece p ih => cases piece <;> simp [textFrom, fill, ih]

end Sql

/-! ### Outlines -/

/-- What the text of a comparison shows: its operator, and whether an equality compares with
nothing. -/
structure Test where
  operator : Operator
  isNull : Bool := false
deriving DecidableEq, Repr

/-- What the text of a term shows besides its name. -/
structure Outline extends Test where
  /-- The cast behind the list of an overlap. -/
  cast : Option String := none
  /-- The comparison below a look-up. -/
  below : Option Test := none
deriving DecidableEq, Repr

/-- The operators for which a missing value is a form of its own. -/
def Operator.isEquality : Operator → Bool
  | .eq => true
  | .neq => true
  | _ => false

/-- The outline of a comparison. -/
def Comparison.test (c : Comparison) : Test :=
  { operator := c.operator, isNull := c.operator.isEquality && decide (c.shape = .null) }

/-- The outline of a term. -/
def Term.outline (t : Term) : Outline where
  toTest := t.test
  cast := if t.operator.isOverlap then t.valueCast else none
  below := if t.operator.isJsonPath then t.path.head?.map Comparison.test else none

/-! ### Forms -/

namespace Flavour

/-- The keyword of an operator. -/
def keyword : Flavour → Operator → String
  | mysql, .regex => "REGEXP"
  | mysql, .notRegex => "NOT REGEXP"
  | _, op => op.sql

/-- What stands between a left side and the list that it is a member of. -/
def membership : Flavour → String
  | postgres .dollar => " = ANY("
  | _ => " IN ("

/-- What stands between a left side and the list that it is absent from. -/
def absence : Flavour → String
  | postgres .dollar => " != ALL("
  | _ => " NOT IN ("

/-- The form of a comparison, behind its left side. -/
def test (f : Flavour) (t : Test) : List Fragment :=
  match t.operator, t.isNull with
  | .eq, true => [.fixed " IS NULL"]
  | .neq, true => [.fixed " IS NOT NULL"]
  | .oneOf, _ => [.fixed f.membership, .place, .fixed ")"]
  | .noneOf, _ => [.fixed f.absence, .place, .fixed ")"]
  | .between, _ => [.fixed " BETWEEN ", .place, .fixed " AND ", .place]
  | op, _ => [.fixed (" " ++ f.keyword op ++ " "), .place, .fixed ""]

/-- The form of a column, with the cast that its operator asks for. -/
def column (f : Flavour) (op : Operator) : List Fragment :=
  .name :: (f.keyCast op).toList.map .fixed

/-- The form of a look-up. -/
def lookup : Flavour → Operator → List Fragment
  | postgres _, op => [.name, .fixed (" " ++ op.sql ++ " "), .place]
  | mysql, .jsonPathText =>
      [.fixed "JSON_UNQUOTE(", .fixed "JSON_EXTRACT(", .name, .fixed ", CONCAT('$.', ", .place,
        .fixed "))", .fixed ")"]
  | mysql, _ => [.fixed "JSON_EXTRACT(", .name, .fixed ", CONCAT('$.', ", .place, .fixed "))"]

/-- The form of what a look-up with operator `above` finds, with the cast that the operator below it
asks for. -/
def found (f : Flavour) (above op : Operator) : List Fragment :=
  match f.lookupCast above op with
  | none => f.lookup above
  | some cast => .fixed "(" :: f.lookup above ++ [.fixed ")", .fixed cast]

/-- The form of a quantified comparison. -/
def quantified (f : Flavour) (op : Operator) : List Fragment :=
  let equality := if op.isNegatedQuantifier then " != " else " = "
  [.place, .fixed (equality ++ f.keyword op ++ "("), .name, .fixed ")"]

/-- The form of an overlap, with the cast behind its list. -/
def overlap (f : Flavour) (op : Operator) (cast : Option String) : List Fragment :=
  let negation : List Fragment := if op = .notOverlaps then [.fixed "NOT "] else []
  negation ++
    match f with
    | postgres .dollar => [.name, .fixed " && ", .place, .fixed (cast.getD "")]
    | _ => [.name, .fixed " && ARRAY[", .place, .fixed "]", .fixed (cast.getD "")]

/-- **The form of an outline.** -/
def form (f : Flavour) (o : Outline) : List Fragment :=
  if o.operator.isJsonPath then
    match o.below with
    | none => f.lookup o.operator
    | some t => f.found o.operator t.operator ++ f.test t
  else if o.operator.isQuantified then f.quantified o.operator
  else if o.operator.isOverlap then f.overlap o.operator o.cast
  else f.column o.operator ++ f.test o.toTest

end Flavour

/-! ### Bound values -/

/-- The values that a comparison binds: none where it compares with nothing, both bounds of an
interval, one value otherwise. -/
def Comparison.binds (c : Comparison) : List Value :=
  match c.operator, c.value with
  | .eq, .null => []
  | .neq, .null => []
  | .between, .range lower upper => [lower, upper]
  | _, value => [value]

/-- The values that a term binds: those of its comparison, or the name that is looked up and then
those of the comparison below it. -/
def Term.binds (t : Term) : List Value :=
  if t.operator.isJsonPath then
    t.value ::
      match t.path with
      | [] => []
      | c :: _ => c.binds
  else t.toComparison.binds

/-! ### Rendered terms -/

namespace Flavour

variable {f : Flavour} {r : ReservedKeys} {lhs : Sql} {c : Comparison}

theorem operatorSql_dialect (f : Flavour) (r : ReservedKeys) (op : Operator) :
    (f.dialect r).operatorSql op = f.keyword op := by
  cases f with
  | postgres style => cases op <;> rfl
  | mysql => cases op <;> rfl

theorem inArray_dialect (f : Flavour) (r : ReservedKeys) (lhs : Sql) (value : Value) :
    (f.dialect r).inArray lhs [.bind value] =
      lhs ++ [.code f.membership, .bind value, .code ")"] := by
  rcases f with (_ | _) | _ <;>
    simp [dialect, WhereClause.postgres, WhereClause.mysql, membership]

theorem notInArray_dialect (f : Flavour) (r : ReservedKeys) (lhs : Sql) (value : Value) :
    (f.dialect r).notInArray lhs [.bind value] =
      lhs ++ [.code f.absence, .bind value, .code ")"] := by
  rcases f with (_ | _) | _ <;>
    simp [dialect, WhereClause.postgres, WhereClause.mysql, absence]

/-- **A rendered comparison consists of its left side and its test.** -/
theorem consists_renderComparison (h : c.WellFormed f) (hcast : c.valueCast = none)
    {form : List Fragment} {names : List String} {bound : List Value}
    (hlhs : lhs.Consists form names bound) :
    ((f.dialect r).renderComparison lhs c).Consists (form ++ f.test c.test) names
      (bound ++ c.binds) := by
  -- whatever the operator is, the comparison is written behind its left side
  have hbehind : ∀ tail : Sql, (f.dialect r).renderComparison lhs c = lhs ++ tail →
      tail.Consists (f.test c.test) [] c.binds →
      ((f.dialect r).renderComparison lhs c).Consists (form ++ f.test c.test) names
        (bound ++ c.binds) := by
    intro tail htail hconsists
    rw [htail]
    simpa using hlhs.append hconsists
  obtain ⟨key, op, raw, value, type, quoted, isOr, keyCast, valueCast⟩ := c
  cases hcast
  cases op with
  | oneOf => exact hbehind _ (inArray_dialect f r lhs value) ⟨rfl, rfl, rfl⟩
  | noneOf => exact hbehind _ (notInArray_dialect f r lhs value) ⟨rfl, rfl, rfl⟩
  | between =>
      obtain ⟨lower, upper, hvalue⟩ := h.bounds rfl
      cases hvalue
      exact hbehind _ rfl ⟨rfl, rfl, rfl⟩
  | eq => cases value <;> exact hbehind _ rfl ⟨by simp [operatorSql_dialect]; rfl, rfl, rfl⟩
  | neq => cases value <;> exact hbehind _ rfl ⟨by simp [operatorSql_dialect]; rfl, rfl, rfl⟩
  | _ => exact hbehind _ rfl ⟨by simp [operatorSql_dialect]; rfl, rfl, rfl⟩

/-- A rendered look-up consists of its form, and binds the name that is looked up. -/
theorem consists_jsonPath (f : Flavour) (r : ReservedKeys) {op : Operator}
    (hjson : op.isJsonPath = true) (key : String) (value : Value) :
    ((f.dialect r).jsonPath [.column key] op [.bind value]).Consists (f.lookup op) [key]
      [value] := by
  cases op with
  | jsonPath => rcases f with _ | _ <;> exact ⟨rfl, rfl, rfl⟩
  | jsonPathText => rcases f with _ | _ <;> exact ⟨rfl, rfl, rfl⟩
  | _ => cases hjson

/-- What a look-up finds consists of the look-up, in parentheses where a cast follows. -/
theorem consists_castLookup {above op : Operator} {names : List String} {bound : List Value}
    (hlhs : lhs.Consists (f.lookup above) names bound) :
    (Dialect.castLookup lhs (f.lookupCast above op)).Consists (f.found above op) names bound := by
  unfold Dialect.castLookup found
  cases f.lookupCast above op with
  | none => exact hlhs
  | some cast =>
      have hopen : Sql.Consists [.code "("] [.fixed "("] [] [] := ⟨rfl, rfl, rfl⟩
      have hclose : Sql.Consists [.code ")", .code cast] [.fixed ")", .fixed cast] [] [] :=
        ⟨rfl, rfl, rfl⟩
      simpa [Sql.parenthesized] using (hopen.append hlhs).append hclose

/-- A rendered overlap consists of its form, and binds its list. -/
theorem consists_arrayOverlap (f : Flavour) (r : ReservedKeys) (key : String) (value : Value)
    (cast : Option String) :
    ((f.dialect r).arrayOverlap [.column key] [.bind value] cast).Consists
      (f.overlap .overlaps cast) [key] [value] := by
  rcases f with (_ | _) | _ <;> exact ⟨rfl, rfl, rfl⟩

/-- A rendered column consists of the name, with the cast that the operator asks for. -/
theorem consists_column (f : Flavour) (op : Operator) (key : String) :
    Sql.Consists (.column key :: (f.keyCast op).toList.map .code) (f.column op) [key] [] := by
  unfold column
  cases f.keyCast op <;> exact ⟨rfl, rfl, rfl⟩

/-! The four kinds of terms: look-ups, quantified comparisons, overlaps and plain comparisons. -/

section Render

variable {t : Term}

theorem consists_render_lookup (h : t.WellFormed f) (hjson : t.operator.isJsonPath = true) :
    ((f.dialect r).render t).Consists (f.form t.outline) [t.key] t.binds := by
  have hlookup := consists_jsonPath f r hjson t.key t.value
  rcases h.path with hpath | ⟨-, c, hpath, hc⟩
  · simpa [Dialect.render_lookup _ hjson, Dialect.columnOf, form, Term.binds, Term.outline,
      Comparison.test, h.quoted, hjson, hpath] using hlookup
  · have hcast : c.valueCast = none := by
      have hover : c.operator.isOverlap = false := (Bool.or_eq_false_iff.1 hc.needsColumn).2
      simpa [hover] using hc.valueCast
    have hfound : Sql.Consists _ (f.found t.operator c.operator) [t.key] [t.value] :=
      consists_castLookup hlookup
    have hbelow := consists_renderComparison (r := r) hc.toWellFormed hcast hfound
    simpa [Dialect.render_lookup _ hjson, Dialect.columnOf, form, Term.binds, Term.outline,
      Comparison.test, h.quoted, hjson, hpath, hc.keyCast] using hbelow

theorem consists_render_quantified (h : t.WellFormed f) (hjson : t.operator.isJsonPath = false)
    (hquant : t.operator.isQuantified = true) :
    ((f.dialect r).render t).Consists (f.form t.outline) [t.key] t.binds := by
  have hbinds : t.binds = [t.value] := by
    unfold Term.binds Comparison.binds
    cases hop : t.operator <;> simp_all [Operator.isQuantified]
  have hform : f.form t.outline = f.quantified t.operator := by
    simp [form, Term.outline, Comparison.test, hjson, hquant]
  have hrender : (f.dialect r).render t =
      [.bind t.value, .code ((if t.operator.isNegatedQuantifier then " != " else " = ") ++
        f.keyword t.operator ++ "("), .column t.key, .code ")"] := by
    rw [Dialect.render_quantified _ hjson hquant, Dialect.columnOf, h.quoted, operatorSql_dialect]
    rfl
  rw [hbinds, hform, hrender]
  exact ⟨rfl, rfl, rfl⟩

theorem consists_render_overlap (h : t.WellFormed f) (hover : t.operator.isOverlap = true) :
    ((f.dialect r).render t).Consists (f.form t.outline) [t.key] t.binds := by
  have hoverlap := consists_arrayOverlap f r t.key t.value t.valueCast
  have hnot : Sql.Consists [.code "NOT "] [.fixed "NOT "] [] [] := ⟨rfl, rfl, rfl⟩
  rw [Dialect.render_overlap _ hover, Dialect.columnOf, h.quoted]
  cases hop : t.operator with
  | overlaps =>
      simpa [form, Term.outline, Comparison.test, Term.binds, Comparison.binds, hop,
        Operator.isJsonPath, Operator.isQuantified, Operator.isOverlap] using hoverlap
  | notOverlaps =>
      simpa [form, Term.outline, Comparison.test, Term.binds, Comparison.binds, hop,
        Operator.isJsonPath, Operator.isQuantified, Operator.isOverlap, overlap]
        using hnot.append hoverlap
  | _ => simp [hop, Operator.isOverlap] at hover

theorem consists_render_comparison (h : t.WellFormed f) (hjson : t.operator.isJsonPath = false)
    (hquant : t.operator.isQuantified = false) (hover : t.operator.isOverlap = false) :
    ((f.dialect r).render t).Consists (f.form t.outline) [t.key] t.binds := by
  have hcast : t.valueCast = none := by simpa [hover] using h.valueCast
  have hcomparison := consists_renderComparison (r := r) h.toWellFormed hcast
    (consists_column f t.operator t.key)
  have hrender : (f.dialect r).render t = (f.dialect r).renderComparison
      (.column t.key :: (f.keyCast t.operator).toList.map .code) t.toComparison := by
    rw [Dialect.render_comparison _ hjson hquant hover, Dialect.columnOf, h.quoted, h.keyCast]
    rfl
  rw [hrender]
  simpa [form, Term.outline, Comparison.test, Term.binds, hjson, hquant, hover] using hcomparison

end Render

/-- **A rendered term consists of the form of its outline, its key and the values that it
binds.** -/
theorem consists_render {t : Term} (h : t.WellFormed f) :
    ((f.dialect r).render t).Consists (f.form t.outline) [t.key] t.binds := by
  cases hjson : t.operator.isJsonPath with
  | true => exact consists_render_lookup h hjson
  | false =>
      cases hquant : t.operator.isQuantified with
      | true => exact consists_render_quantified h hjson hquant
      | false =>
          cases hover : t.operator.isOverlap with
          | true => exact consists_render_overlap h hover
          | false => exact consists_render_comparison h hjson hquant hover

end Flavour

end WhereClause

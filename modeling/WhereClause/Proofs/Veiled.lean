/-
**Values show nothing but their shapes.**

A predicate depends on a value only so far as it is missing, a pair of bounds, or neither.  To veil
a term is to put a fixed value of the same kind into its place, and to forget the text that it was
read from, its declared type and the name that is looked up.  Rendering sees no difference between a
term and its veiled twin but in the values that are bound, and all values are veiled alike there.

Main definitions:

* `WhereClause.Value.Alike`, `WhereClause.Comparison.Alike`, `WhereClause.Term.Alike`,
  `WhereClause.Params.Alike` — values of the same kind, and terms and parameters that differ in
  values of the same kind only;
* `WhereClause.Sql.veil`, `WhereClause.Term.veil`, `WhereClause.Params.veil` — predicates, terms and
  parameters with every value veiled.

Main results:

* `WhereClause.Params.veil_eq_of_alike` — parameters that are alike have the same veiled twin;
* `WhereClause.Flavour.veil_render` — a veiled term is rendered like the term itself;
* `WhereClause.text_assemble_eq_of_alike` — **parameters that are alike have predicates of the same
  text, with equally many values**.
-/

import Mathlib.Data.List.Forall2
import WhereClause.Proofs.Layout

set_option relaxedAutoImplicit false
set_option autoImplicit false

namespace WhereClause

/-! ### Alike -/

/-- Two values of the same kind: both are missing, both are pairs of bounds, or both are neither. -/
def Value.Alike (v w : Value) : Prop :=
  (v.shape = .null ↔ w.shape = .null) ∧ (v.shape = .range ↔ w.shape = .range)

/-- Two comparisons that differ in their keys, in the texts and the types that they were read with,
and in values of the same kind only. -/
structure Comparison.Alike (c c' : Comparison) : Prop where
  operator : c.operator = c'.operator
  value : c.value.Alike c'.value
  quoted : c.quoted = c'.quoted
  isOr : c.isOr = c'.isOr
  keyCast : c.keyCast = c'.keyCast
  valueCast : c.valueCast = c'.valueCast

/-- Two terms on the same column that are alike, and so are the comparisons below them.  The names
that are looked up may differ. -/
structure Term.Alike (t t' : Term) : Prop extends t.toComparison.Alike t'.toComparison where
  key : t.key = t'.key
  path : List.Forall₂ Comparison.Alike t.path t'.path

/-- Two sets of parameters with terms that are alike, one by one and under the same keys, and with
the same columns named in their filter documents. -/
structure Params.Alike (p p' : Params) : Prop where
  id : Option.Rel Term.Alike p.id p'.id
  entries : List.Forall₂ (fun entry entry' => entry.1 = entry'.1 ∧ entry.2.Alike entry'.2)
    p.entries p'.entries
  fields : p.fields = p'.fields

/-! ### Veils -/

/-- A fixed value of the same kind. -/
def Value.veil (v : Value) : Value :=
  match v.shape with
  | .null => .null
  | .range => .range .null .null
  | _ => .string ""

/-- A comparison with a fixed value of the same kind, and without what it was read from. -/
def Comparison.veil (c : Comparison) : Comparison :=
  { c with raw := "", value := c.value.veil, dataType := none }

/-- A term with every value veiled, and without the names that are looked up. -/
def Term.veil (t : Term) : Term :=
  { t with raw := "", value := t.value.veil, dataType := none,
           path := t.path.map fun c => { c.veil with key := "" } }

/-- Parameters with every term veiled; of the filter document only the columns are kept. -/
def Params.veil (p : Params) : Params where
  id := p.id.map Term.veil
  entries := p.entries.map fun entry => (entry.1, entry.2.veil)
  filter := some { fields := p.fields }

/-- A piece with no value in it. -/
def Piece.veil : Piece → Piece
  | .bind _ => .bind .null
  | piece => piece

/-- A predicate with no value in it. -/
def Sql.veil (p : Sql) : Sql := p.map Piece.veil

/-! Values of the same kind have the same veil, and so has everything made of them. -/

theorem Value.veil_eq_of_alike {v w : Value} (h : v.Alike w) : v.veil = w.veil := by
  obtain ⟨hnull, hrange⟩ := h
  unfold veil
  cases hv : v.shape <;> cases hw : w.shape <;> simp_all

theorem Comparison.veil_eq_of_alike {c c' : Comparison} (h : c.Alike c') :
    { c.veil with key := "" } = { c'.veil with key := "" } := by
  simp only [veil, h.operator, Value.veil_eq_of_alike h.value, h.quoted, h.isOr, h.keyCast,
    h.valueCast]

theorem Term.veil_eq_of_alike {t t' : Term} (h : t.Alike t') : t.veil = t'.veil := by
  have hpath : ∀ {path path' : List Comparison}, List.Forall₂ Comparison.Alike path path' →
      path.map (fun c => { c.veil with key := "" }) =
        path'.map fun c => { c.veil with key := "" } := by
    intro path path' h
    induction h with
    | nil => rfl
    | cons hc _ ih => rw [List.map_cons, List.map_cons, Comparison.veil_eq_of_alike hc, ih]
  simp only [veil, h.key, h.operator, Value.veil_eq_of_alike h.value, h.quoted, h.isOr, h.keyCast,
    h.valueCast, hpath h.path]

/-- **Parameters that are alike have the same veiled twin.** -/
theorem Params.veil_eq_of_alike {p p' : Params} (h : p.Alike p') : p.veil = p'.veil := by
  have hid : ∀ {id id' : Option Term}, Option.Rel Term.Alike id id' →
      id.map Term.veil = id'.map Term.veil := by
    intro id id' h
    cases h with
    | none => rfl
    | some ht => exact congrArg some (Term.veil_eq_of_alike ht)
  have hentries : ∀ {entries entries' : List (String × Term)},
      List.Forall₂ (fun entry entry' => entry.1 = entry'.1 ∧ entry.2.Alike entry'.2)
        entries entries' →
      entries.map (fun entry => (entry.1, entry.2.veil)) =
        entries'.map fun entry => (entry.1, entry.2.veil) := by
    intro entries entries' h
    induction h with
    | nil => rfl
    | cons hentry _ ih =>
        rw [List.map_cons, List.map_cons, ih, hentry.1, Term.veil_eq_of_alike hentry.2]
  have hfilter : p.veil.filter = p'.veil.filter := by simp only [veil, h.fields]
  exact ext (hid h.id) (hentries h.entries) hfilter

/-! ### What a veil keeps -/

namespace Sql

@[simp] theorem veil_nil : veil [] = [] := rfl

@[simp] theorem veil_code (text : String) (p : Sql) :
    veil (.code text :: p) = .code text :: veil p := rfl

@[simp] theorem veil_column (name : String) (p : Sql) :
    veil (.column name :: p) = .column name :: veil p := rfl

@[simp] theorem veil_bind (value : Value) (p : Sql) :
    veil (.bind value :: p) = .bind .null :: veil p := rfl

@[simp] theorem veil_append (p q : Sql) : veil (p ++ q) = veil p ++ veil q := List.map_append

@[simp] theorem veil_map_code (texts : List String) :
    veil (texts.map .code) = texts.map .code := by
  induction texts with
  | nil => rfl
  | cons text texts ih => rw [List.map_cons, veil_code, ih]

/-- The text of a predicate is that of the predicate without its values. -/
@[simp] theorem textFrom_veil (quote : String → String) (placeholder : Nat → String) (bound : Nat)
    (p : Sql) : textFrom quote placeholder bound p.veil = textFrom quote placeholder bound p := by
  induction p generalizing bound with
  | nil => rfl
  | cons piece p ih => cases piece <;> simp [textFrom, ih]

/-- A predicate has as many values as without them in their places. -/
@[simp] theorem length_values_veil (p : Sql) : p.veil.values.length = p.values.length := by
  induction p with
  | nil => rfl
  | cons piece p ih => cases piece <;> simp [ih]

end Sql

/-! ### Rendering veiled terms -/

namespace Flavour

variable (f : Flavour) (r : ReservedKeys)

/-- A comparison is written like its veiled twin, behind left sides that are alike; its key is not
written at all. -/
theorem veil_renderComparison {lhs lhs' : Sql} (hlhs : lhs.veil = lhs'.veil) (c : Comparison)
    (key : String) :
    Sql.veil ((f.dialect r).renderComparison lhs { c.veil with key := key }) =
      Sql.veil ((f.dialect r).renderComparison lhs' c) := by
  obtain ⟨key', op, raw, value, type, quoted, isOr, keyCast, valueCast⟩ := c
  -- only for these operators does the kind of the value matter
  cases op with
  | eq =>
      cases value <;>
        simp [Dialect.renderComparison, Comparison.veil, Value.veil, Value.shape, hlhs]
  | neq =>
      cases value <;>
        simp [Dialect.renderComparison, Comparison.veil, Value.veil, Value.shape, hlhs]
  | between =>
      cases value <;>
        simp [Dialect.renderComparison, Comparison.veil, Value.veil, Value.shape, hlhs]
  | oneOf => simp [Dialect.renderComparison, Comparison.veil, inArray_dialect, hlhs]
  | noneOf => simp [Dialect.renderComparison, Comparison.veil, notInArray_dialect, hlhs]
  | _ => simp [Dialect.renderComparison, Comparison.veil, hlhs]

/-- A look-up is written like one of another name. -/
theorem veil_jsonPath (column : Sql) (op : Operator) (value value' : Value) :
    Sql.veil ((f.dialect r).jsonPath column op [.bind value]) =
      Sql.veil ((f.dialect r).jsonPath column op [.bind value']) := by
  cases f with
  | postgres style => simp [dialect, WhereClause.postgres]
  | mysql => cases op <;> simp [dialect, WhereClause.mysql]

/-- An overlap is written like one with another list. -/
theorem veil_arrayOverlap (column : Sql) (value value' : Value) (cast : Option String) :
    Sql.veil ((f.dialect r).arrayOverlap column [.bind value] cast) =
      Sql.veil ((f.dialect r).arrayOverlap column [.bind value'] cast) := by
  rcases f with (_ | _) | _ <;> simp [dialect, WhereClause.postgres, WhereClause.mysql]

/-- What is found is written alike, with the same cast behind it. -/
theorem veil_castLookup {lhs lhs' : Sql} (h : lhs.veil = lhs'.veil) (cast : Option String) :
    Sql.veil (Dialect.castLookup lhs cast) = Sql.veil (Dialect.castLookup lhs' cast) := by
  cases cast <;> simp [Dialect.castLookup, Sql.parenthesized, h]

/-- **A veiled term is rendered like the term itself**, the values aside. -/
theorem veil_render (t : Term) :
    Sql.veil ((f.dialect r).render t.veil) = Sql.veil ((f.dialect r).render t) := by
  have hcolumn : Dialect.columnOf t.veil.toComparison = Dialect.columnOf t.toComparison := rfl
  have hop : t.veil.operator = t.operator := rfl
  have hvalueCast : t.veil.valueCast = t.valueCast := rfl
  have hkeyCast : t.veil.keyCast = t.keyCast := rfl
  cases hjson : t.operator.isJsonPath with
  | true =>
      have hlookup := f.veil_jsonPath r (Dialect.columnOf t.toComparison) t.operator t.veil.value
        t.value
      rw [Dialect.render_lookup _ hjson, Dialect.render_lookup _ (hop ▸ hjson), hcolumn, hop,
        show t.veil.path = t.path.map fun c => { c.veil with key := "" } from rfl]
      cases t.path with
      | nil => exact hlookup
      | cons c rest => exact f.veil_renderComparison r (veil_castLookup hlookup c.keyCast) c ""
  | false =>
      cases hquant : t.operator.isQuantified with
      | true =>
          rw [Dialect.render_quantified _ hjson hquant,
            Dialect.render_quantified _ (hop ▸ hjson) (hop ▸ hquant), hcolumn]
          rfl
      | false =>
          cases hover : t.operator.isOverlap with
          | true =>
              rw [Dialect.render_overlap _ hover, Dialect.render_overlap _ (hop ▸ hover), hcolumn,
                hvalueCast, Sql.veil_append, Sql.veil_append,
                f.veil_arrayOverlap r _ t.veil.value t.value]
              rfl
          | false =>
              rw [Dialect.render_comparison _ hjson hquant hover,
                Dialect.render_comparison _ (hop ▸ hjson) (hop ▸ hquant) (hop ▸ hover), hcolumn,
                hkeyCast]
              exact f.veil_renderComparison r rfl t.toComparison t.key

end Flavour

/-! ### Assembling veiled parameters -/

namespace Dialect

variable (d : Dialect) (p : Params) (columns : List String)

theorem targets_veil : d.targets p.veil columns = d.targets p columns := by
  have hcontains : ∀ key, p.veil.contains key = p.contains key := by
    intro key
    simp [Params.veil, Params.contains_eq, List.any_map, Function.comp_def]
  simp only [targets, hcontains]
  rfl

/-- The copies of a veiled term are the veiled copies. -/
theorem groupTerms_veil : d.groupTerms p.veil columns = (d.groupTerms p columns).map Term.veil := by
  have hget : p.veil.get d.reserved.wildcard = (p.get d.reserved.wildcard).map Term.veil := by
    simp [Params.veil, Params.get_eq, List.filter_map, Function.comp_def]
  rw [groupTerms, groupTerms, hget, targets_veil, List.getLast?_map]
  cases (p.get d.reserved.wildcard).getLast? with
  | none => rfl
  | some wildcard =>
      change (d.targets p columns).map wildcard.veil.rebind =
        ((d.targets p columns).map wildcard.rebind).map Term.veil
      rw [List.map_map]
      rfl

theorem chainTerms_veil : d.chainTerms p.veil = (d.chainTerms p).map Term.veil := by
  have hid : p.veil.id.toList = p.id.toList.map Term.veil := by
    unfold Params.veil
    cases p.id <;> rfl
  have hterms : p.veil.terms = p.terms.map Term.veil := by
    simp [Params.veil, Params.terms]
  rw [chainTerms, chainTerms, hid, hterms, List.map_append, List.filter_map]
  rfl

end Dialect

/-- **The predicate of veiled parameters is that of the parameters themselves**, the values
aside. -/
theorem Flavour.veil_assemble (f : Flavour) (r : ReservedKeys) (p : Params)
    (columns : List String) :
    Sql.veil ((f.dialect r).assemble p.veil columns) =
      Sql.veil ((f.dialect r).assemble p columns) := by
  have hjoint : Dialect.joint ∘ Term.veil = Dialect.joint := rfl
  rw [Dialect.assemble_eq_weave, Dialect.assemble_eq_weave, Dialect.groupTerms_veil,
    Dialect.chainTerms_veil, weave_map, ending_map, hjoint, Sql.veil_append, Sql.veil_append]
  congr 1
  generalize weave Dialect.joint _ _ = items
  induction items with
  | nil => rfl
  | cons item items ih => simp [ih, f.veil_render r]

/-- **Values show nothing but their shapes.**  If two sets of parameters have the same keys in the
same places and the same columns named in their filter documents, and their terms differ in nothing
but the texts and types that they were read with, in values of the same kind and in the names that
are looked up, then their predicates have the same text, and equally many values to bind. -/
theorem text_assemble_eq_of_alike {p p' : Params} (h : p.Alike p') (f : Flavour) (r : ReservedKeys)
    (columns : List String) :
    (f.dialect r).text ((f.dialect r).assemble p columns) =
        (f.dialect r).text ((f.dialect r).assemble p' columns) ∧
      ((f.dialect r).assemble p columns).values.length =
        ((f.dialect r).assemble p' columns).values.length := by
  have hveil : Sql.veil ((f.dialect r).assemble p columns) =
      Sql.veil ((f.dialect r).assemble p' columns) := by
    rw [← f.veil_assemble, Params.veil_eq_of_alike h, f.veil_assemble]
  constructor
  · have htext := congrArg (f.dialect r).text hveil
    simpa only [Dialect.text, Sql.textFrom_veil] using htext
  · have hlength := congrArg (fun q => (Sql.values q).length) hveil
    simpa only [Sql.length_values_veil] using hlength

/-- An interval below a look-up and a missing value, with other bounds, another name and another
type: the text is the same. -/
theorem text_assemble_eq_of_other_bounds :
    ∃ p p' : Params,
      p.terms.map Term.display =
        ["* like '%x'", "doc jsonpathtext 'kind' (kind between 1 .. 5)", "b eq NULL"] ∧
      p'.terms.map Term.display =
        ["* like '\" OR $9'", "doc jsonpathtext 'size' (size between 'a' .. 'b')",
          "b eq NULL::date"] ∧
      p.Alike p' ∧
      ((Flavour.postgres .dollar).dialect {}).text
          (((Flavour.postgres .dollar).dialect {}).assemble p ["c", "d"]) =
        ((Flavour.postgres .dollar).dialect {}).text
          (((Flavour.postgres .dollar).dialect {}).assemble p' ["c", "d"]) := by
  have hvalue : ∀ {v w : Value}, v.shape = w.shape → v.Alike w := fun h => ⟨by rw [h], by rw [h]⟩
  have halike : Params.Alike
      { entries :=
          [("*", { key := "*", operator := .like, value := .string "%x" }),
            ("doc", { key := "doc", operator := .jsonPathText, value := .string "kind",
                      path := [{ key := "kind", operator := .between,
                                 value := .range (.int 1) (.int 5), quoted := false }] }),
            ("b", { key := "b", operator := .eq, isOr := true })] }
      { entries :=
          [("*", { key := "*", operator := .like, raw := "\" OR $9", value := .string "\" OR $9" }),
            ("doc", { key := "doc", operator := .jsonPathText, value := .string "size",
                      path := [{ key := "size", operator := .between,
                                 value := .range (.string "a") (.string "b"), quoted := false }] }),
            ("b", { key := "b", operator := .eq, raw := "null::date", dataType := some .date,
                    isOr := true })] } := by
    refine ⟨.none, .cons ⟨rfl, ?_⟩ (.cons ⟨rfl, ?_⟩ (.cons ⟨rfl, ?_⟩ .nil)), rfl⟩
    · exact ⟨⟨rfl, hvalue rfl, rfl, rfl, rfl, rfl⟩, rfl, .nil⟩
    · exact ⟨⟨rfl, hvalue rfl, rfl, rfl, rfl, rfl⟩, rfl,
        .cons ⟨rfl, hvalue rfl, rfl, rfl, rfl, rfl⟩ .nil⟩
    · exact ⟨⟨rfl, hvalue rfl, rfl, rfl, rfl, rfl⟩, rfl, .nil⟩
  exact ⟨_, _, rfl, rfl, halike, (text_assemble_eq_of_alike halike _ _ _).1⟩

end WhereClause

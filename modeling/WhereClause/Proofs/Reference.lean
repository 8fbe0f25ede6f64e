/-
**What a history of edits is assembled to.**

Parameters come about by putting in terms, an identifier and a filter document, one after another.
What they are assembled to can be said in terms of that history alone: which term counts for every
column and for which columns, which terms make the chain and in which order, and how their texts
are put together.

Main definitions:

* `WhereClause.Params.Edit`, `WhereClause.Params.replay` — one step, and the parameters after some
  steps;
* `WhereClause.History.stored`, `WhereClause.History.ids`, `WhereClause.History.filters` — what was
  put in;
* `WhereClause.History.groupTerms`, `WhereClause.History.chainTerms` — the terms that are rendered;
* `WhereClause.History.renderings`, `WhereClause.History.linked`, `WhereClause.History.combined` —
  how their texts are put together;
* `WhereClause.History.reference` — the text and the values.

Main results:

* `WhereClause.Params.replay_eq` — parameters hold what counts of their history, and nothing else;
* `WhereClause.query_replay_eq_reference` — **assembling gives the text and the values of the
  reference**.
-/

import WhereClause.Proofs.Layout
import WhereClause.Proofs.Shown

set_option relaxedAutoImplicit false
set_option autoImplicit false

namespace WhereClause

/-! ### Histories -/

/-- One step in which parameters come about. -/
inductive Params.Edit where
  | set (key : String) (t : Term)
  | setId (t : Term)
  | setFilter (spec : FilterSpec)

/-- The parameters after one more step. -/
def Params.apply (p : Params) : Params.Edit → Params
  | .set key t => p.set key t
  | .setId t => p.setId t
  | .setFilter spec => p.setFilter spec

/-- The parameters after some steps, from empty ones on. -/
def Params.replay (edits : List Params.Edit) : Params := edits.foldl Params.apply .empty

namespace History

/-- The terms that were put in, each with its key, in order. -/
def stored (edits : List Params.Edit) : List (String × Term) :=
  edits.filterMap fun
    | .set key t => some (key, t)
    | _ => none

/-- The identifiers that were put in. -/
def ids (edits : List Params.Edit) : List Term :=
  edits.filterMap fun
    | .setId t => some t
    | _ => none

/-- The filter documents that were put in. -/
def filters (edits : List Params.Edit) : List FilterSpec :=
  edits.filterMap fun
    | .setFilter spec => some spec
    | _ => none

end History

namespace Params

open History

/-- **Parameters hold the terms of their history, in order, and the last identifier and filter
document of it.** -/
theorem replay_eq (edits : List Edit) :
    replay edits =
      { id := (ids edits).getLast?, entries := stored edits,
        filter := (filters edits).getLast? } := by
  -- from any parameters on: what they hold already stays where nothing new is put in
  have hfrom : ∀ p : Params, edits.foldl apply p =
      { id := (ids edits).getLast?.or p.id, entries := p.entries ++ stored edits,
        filter := (filters edits).getLast?.or p.filter } := by
    induction edits with
    | nil => intro p; ext1 <;> simp [ids, stored, filters]
    | cons edit edits ih =>
        intro p
        rw [List.foldl_cons, ih]
        cases edit with
        | set key t => simp [apply, set, ids, stored, filters]
        | setId t =>
            simp [apply, setId, ids, stored, filters, List.getLast?_cons]
        | setFilter spec =>
            simp [apply, setFilter, ids, stored, filters, List.getLast?_cons]
  rw [replay, hfrom]
  simp [empty]

end Params

/-! ### The reference -/

namespace History

/-- The columns that the term for every column may hold for: those that the filter document names,
or else those of the table. -/
def candidates (edits : List Params.Edit) (columns : List String) : List String :=
  match (filters edits).getLast? with
  | none => columns
  | some spec => if spec.fields = [] then columns else spec.fields

/-- The copies of the last term for every column, one for each candidate that no term was put in
for and that is no reserved key. -/
def groupTerms (r : ReservedKeys) (edits : List Params.Edit) (columns : List String) : List Term :=
  match ((stored edits).filter fun entry => entry.1 = r.wildcard).getLast? with
  | none => []
  | some (_, wildcard) =>
      ((candidates edits columns).filter fun column =>
        column ∉ (stored edits).map Prod.fst ∧ column ≠ r.wildcard ∧ column ≠ r.extra).map
          wildcard.rebind

/-- The identifier, and the terms that were put in for columns, in order. -/
def chainTerms (r : ReservedKeys) (edits : List Params.Edit) : List Term :=
  (ids edits).getLast?.toList ++
    ((stored edits).map Prod.snd).filter fun t => t.key ≠ r.wildcard ∧ t.key ≠ r.extra

/-- The texts of some terms, each numbered behind `bound` values and those of the terms before
it. -/
def renderings (d : Dialect) : Nat → List Term → List String
  | _, [] => []
  | bound, t :: rest =>
      Sql.textFrom d.quote d.placeholder bound (d.render t) ::
        renderings d (bound + (Sql.values (d.render t)).length) rest

/-- The texts of some terms, every one but the first behind the word that its term asks for. -/
def linked : List Term → List String → String
  | _ :: terms, text :: texts =>
      text ++ String.join
        (List.zipWith (fun t text => (if t.isOr then " OR " else " AND ") ++ text) terms texts)
  | _, _ => ""

/-- The texts of a group in parentheses and the text of a chain, where there are any. -/
def combined (group : List String) (chain : String) : String :=
  if group = [] then chain
  else if chain = "" then "(" ++ " OR ".intercalate group ++ ")"
  else "(" ++ " OR ".intercalate group ++ ")" ++ " AND " ++ chain

/-- The values that some terms bind in their texts. -/
def boundValues (d : Dialect) (terms : List Term) : List Value :=
  terms.flatMap fun t => Sql.values (d.render t)

/-- **The text and the values of a history.** -/
def reference (d : Dialect) (edits : List Params.Edit) (columns : List String) :
    String × List Value :=
  let group := groupTerms d.reserved edits columns
  let chain := chainTerms d.reserved edits
  let behind := (boundValues d group).length
  (combined (renderings d 0 group) (linked chain (renderings d behind chain)),
    boundValues d group ++ boundValues d chain)

theorem boundValues_append (d : Dialect) (terms terms' : List Term) :
    boundValues d (terms ++ terms') = boundValues d terms ++ boundValues d terms' :=
  List.flatMap_append

/-! ### Terms -/

/-- The parameters of a history hold terms for just the keys that terms were put in for. -/
theorem contains_replay (edits : List Params.Edit) (key : String) :
    (Params.replay edits).contains key = decide (key ∈ (stored edits).map Prod.fst) := by
  rw [Params.replay_eq, Params.contains_eq, Bool.eq_iff_iff]
  simp [List.any_eq_true]

theorem targets_replay (d : Dialect) (edits : List Params.Edit) (columns : List String) :
    d.targets (Params.replay edits) columns = (candidates edits columns).filter fun column =>
      column ∉ (stored edits).map Prod.fst ∧ column ≠ d.reserved.wildcard ∧
        column ≠ d.reserved.extra := by
  have hcandidates : (if (Params.replay edits).fields.isEmpty then columns
      else (Params.replay edits).fields) = candidates edits columns := by
    rw [Params.replay_eq, Params.fields, candidates]
    cases (filters edits).getLast? with
    | none => rfl
    | some spec => simp
  rw [Dialect.targets, hcandidates]
  refine List.filter_congr fun column _ => ?_
  rw [contains_replay, Bool.eq_iff_iff]
  simp [ReservedKeys.isExcluded]

/-- The terms of a group and a chain are those that count of the history. -/
theorem groupTerms_replay (d : Dialect) (edits : List Params.Edit) (columns : List String) :
    d.groupTerms (Params.replay edits) columns = groupTerms d.reserved edits columns := by
  have hlast : (Params.get (Params.replay edits) d.reserved.wildcard).getLast? =
      (((stored edits).filter fun entry => entry.1 = d.reserved.wildcard).getLast?).map
        Prod.snd := by
    rw [Params.replay_eq, Params.get_eq, List.getLast?_map]
    congr 3
  rw [Dialect.groupTerms, groupTerms, hlast, targets_replay]
  cases ((stored edits).filter fun entry => entry.1 = d.reserved.wildcard).getLast? <;> rfl

theorem chainTerms_replay (d : Dialect) (edits : List Params.Edit) :
    d.chainTerms (Params.replay edits) = chainTerms d.reserved edits := by
  rw [Dialect.chainTerms, chainTerms, Params.replay_eq, Params.terms]
  congr 2
  funext t
  rw [Bool.eq_iff_iff]
  simp [ReservedKeys.isExcluded]

/-! ### Texts -/

variable {d : Dialect}

/-- A chain is written term after term, every one but the first behind its word. -/
theorem textFrom_chain (bound : Nat) (terms : List Term) :
    Sql.textFrom d.quote d.placeholder bound (d.chain terms) =
      linked terms (renderings d bound terms) := by
  have hrest : ∀ (terms : List Term) (bound : Nat),
      Sql.textFrom d.quote d.placeholder bound
          (terms.flatMap fun u => .code (Dialect.joint u) :: d.render u) =
        String.join (List.zipWith (fun t text => (if t.isOr then " OR " else " AND ") ++ text)
          terms (renderings d bound terms)) := by
    intro terms
    induction terms with
    | nil => intro bound; rfl
    | cons t terms ih =>
        intro bound
        rw [List.flatMap_cons, Sql.textFrom_append, Sql.values_code, ih, renderings,
          List.zipWith_cons_cons, String.join_cons]
        rfl
  cases terms with
  | nil => rfl
  | cons t rest => rw [Dialect.chain, Sql.textFrom_append, hrest]; rfl

/-- A group is written with the word for alternatives between its terms. -/
theorem textFrom_joined (bound : Nat) (terms : List Term) :
    Sql.textFrom d.quote d.placeholder bound (Sql.joined " OR " (terms.map d.render)) =
      " OR ".intercalate (renderings d bound terms) := by
  induction terms generalizing bound with
  | nil => rfl
  | cons t terms ih =>
      cases terms with
      | nil => simp [renderings]
      | cons u terms =>
          have hrest := ih (bound + (Sql.values (d.render t)).length)
          rw [List.map_cons] at hrest
          have hcons : renderings d bound (t :: u :: terms) =
              Sql.textFrom d.quote d.placeholder bound (d.render t) ::
                renderings d (bound + (Sql.values (d.render t)).length) (u :: terms) := rfl
          rw [List.map_cons, List.map_cons, Sql.joined, Sql.textFrom_append, Sql.textFrom, hrest,
            hcons, String.intercalate_cons_of_ne_nil (by simp [renderings]), String.append_assoc]

theorem textFrom_parenthesized (quote : String → String) (placeholder : Nat → String) (bound : Nat)
    (p : Sql) :
    Sql.textFrom quote placeholder bound p.parenthesized =
      "(" ++ Sql.textFrom quote placeholder bound p ++ ")" := by
  rw [Sql.parenthesized, Sql.textFrom, Sql.textFrom_append, String.append_assoc]
  rfl

theorem values_parenthesized (p : Sql) : p.parenthesized.values = p.values := by
  rw [Sql.parenthesized, Sql.values_code, Sql.values_append, Sql.values_code, Sql.values_nil,
    List.append_nil]

/-- The values of the predicate of some parameters are those of its terms, in order. -/
theorem values_assemble (d : Dialect) (p : Params) (columns : List String) :
    (d.assemble p columns).values = boundValues d (d.renderedTerms p columns) := by
  rw [Dialect.assemble_eq_weave, Sql.values_append, Dialect.values_flatMap_render,
    Dialect.values_map_code, map_snd_weave, List.append_nil]
  rfl

theorem values_joined (separator : String) (terms : List Term) :
    Sql.values (Sql.joined separator (terms.map d.render)) = boundValues d terms := by
  cases terms with
  | nil => rfl
  | cons t terms =>
      rw [List.map_cons, Dialect.joined_cons, Sql.values_append, boundValues, List.flatMap_cons]
      congr 1
      induction terms with
      | nil => rfl
      | cons u terms ih => simp [ih]

theorem renderings_eq_nil_iff {bound : Nat} {terms : List Term} :
    renderings d bound terms = [] ↔ terms = [] := by
  cases terms <;> simp [renderings]

/-- The text of a chain is empty only if there is no term in it. -/
theorem linked_eq_empty_iff {f : Flavour} {r : ReservedKeys} {bound : Nat} {terms : List Term} :
    linked terms (renderings (f.dialect r) bound terms) = "" ↔ terms = [] := by
  cases terms with
  | nil => simp [linked]
  | cons t terms =>
      simp only [linked, renderings, String.append_eq_empty_iff, reduceCtorEq, iff_false]
      exact fun hempty => f.textFrom_render_ne_empty r bound t hempty.1

/-- The text of the predicate of some parameters is that of its group and of its chain, combined. -/
theorem text_assemble (f : Flavour) (r : ReservedKeys) (p : Params) (columns : List String) :
    (f.dialect r).text ((f.dialect r).assemble p columns) =
      combined (renderings (f.dialect r) 0 ((f.dialect r).groupTerms p columns))
        (linked ((f.dialect r).chainTerms p)
          (renderings (f.dialect r)
            (boundValues (f.dialect r) ((f.dialect r).groupTerms p columns)).length
            ((f.dialect r).chainTerms p))) := by
  rw [Dialect.text, Dialect.assemble, Dialect.group_eq_map, combined]
  simp only [renderings_eq_nil_iff, linked_eq_empty_iff]
  generalize (f.dialect r).groupTerms p columns = group
  generalize (f.dialect r).chainTerms p = chain
  -- the emptiness of the texts was that of the lists, so there is one case for each pair of lists
  cases group with
  | nil => exact textFrom_chain 0 chain
  | cons t group =>
      have hgroup := textFrom_joined (d := f.dialect r) 0 (t :: group)
      have hvalues := values_joined (d := f.dialect r) " OR " (t :: group)
      cases chain with
      | nil =>
          simp only [reduceCtorEq, if_false, if_true, List.map_cons] at hgroup ⊢
          rw [textFrom_parenthesized, hgroup]
      | cons u chain =>
          have hchain := textFrom_chain (d := f.dialect r)
            (boundValues (f.dialect r) (t :: group)).length (u :: chain)
          simp only [reduceCtorEq, if_false, List.map_cons] at hgroup hvalues ⊢
          rw [Sql.textFrom_append, textFrom_parenthesized, values_parenthesized, hgroup, hvalues,
            Sql.textFrom, Nat.zero_add, hchain]
          simp only [String.append_assoc]

end History

/-- **Assembling gives the text and the values of the reference**, whatever the parameters were made
of and whatever the columns are. -/
theorem query_replay_eq_reference (f : Flavour) (r : ReservedKeys) (edits : List Params.Edit)
    (columns : List String) :
    ((f.dialect r).text ((f.dialect r).assemble (Params.replay edits) columns),
        ((f.dialect r).assemble (Params.replay edits) columns).values) =
      History.reference (f.dialect r) edits columns := by
  rw [History.text_assemble, History.values_assemble, Dialect.renderedTerms,
    History.groupTerms_replay, History.chainTerms_replay, History.boundValues_append,
    History.reference, Flavour.reserved_dialect]

end WhereClause

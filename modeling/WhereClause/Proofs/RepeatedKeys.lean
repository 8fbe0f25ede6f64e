/-
**Repeated keys.**

A request may give a key more than once, and every pair is a condition of its own.  Conditions on
columns are all rendered, each once and in the order in which they were given.  Of the conditions on
every column only the last is: it is copied for every open column, and the ones before it are not
rendered at all.  So nothing of a request is lost exactly if there is at most one condition on every
column, or no column that is open.

Main definitions:

* `WhereClause.Compiler.ordinary`, `WhereClause.Compiler.wildcards` — the conditions of a request on
  columns, and those on every column;
* `WhereClause.Compiler.openColumns` — the columns without a condition of their own;
* `WhereClause.copies` — some conditions, each copied for some columns;
* `WhereClause.History.written` — the text and the values of a group and a chain.

Main results:

* `WhereClause.Compiler.chainTerms_of_collect`, `WhereClause.Compiler.groupTerms_of_collect` — what
  is rendered of a request;
* `WhereClause.perm_copies_getLast?_iff` — when the copies of the last condition are all of them;
* `WhereClause.complete_iff_of_collect` — **what is rendered are all conditions of a request exactly
  if no condition on every column is repeated, or no column is open**.
-/

import WhereClause.Proofs.Reference
import WhereClause.Proofs.Requests

set_option relaxedAutoImplicit false
set_option autoImplicit false

namespace WhereClause

open Text

/-! ### Conditions of a request -/

namespace Compiler

/-- The conditions of a request on columns, in order. -/
def ordinary (c : Compiler) (pairs : List (String × String)) : List Term :=
  (c.stored pairs).filter fun t =>
    t.key ≠ c.dialect.reserved.wildcard ∧ t.key ≠ c.dialect.reserved.extra

/-- The conditions of a request on every column, in order. -/
def wildcards (c : Compiler) (pairs : List (String × String)) : List Term :=
  (c.stored pairs).filter fun t => t.key = c.dialect.reserved.wildcard

/-- The columns among some candidates without a condition of their own; a reserved key is none. -/
def openColumns (c : Compiler) (pairs : List (String × String)) (candidates : List String) :
    List String :=
  candidates.filter fun column =>
    (∀ t ∈ c.stored pairs, t.key ≠ column) ∧ column ≠ c.dialect.reserved.wildcard ∧
      column ≠ c.dialect.reserved.extra

end Compiler

/-- The columns that a condition on every column may hold for: those that the filter document names,
or else those of the table. -/
def Params.candidates (p : Params) (columns : List String) : List String :=
  if p.fields = [] then columns else p.fields

/-- Some conditions, each copied for some columns. -/
def copies (columns : List String) (terms : List Term) : List Term :=
  terms.flatMap fun t => columns.map t.rebind

/-- Without columns there are no copies. -/
@[simp] theorem copies_nil (terms : List Term) : copies [] terms = [] :=
  List.flatMap_eq_nil_iff.2 fun _ _ => rfl

/-- There are as many copies as there are conditions and columns for each. -/
theorem length_copies (columns : List String) (terms : List Term) :
    (copies columns terms).length = terms.length * columns.length := by
  simp [copies, List.length_flatMap]

/-- **The copies of the last condition are all of them exactly if it is the only one, or if there is
no column.** -/
theorem perm_copies_getLast?_iff {columns : List String} {terms : List Term} :
    (copies columns terms.getLast?.toList).Perm (copies columns terms) ↔
      terms.length ≤ 1 ∨ columns = [] := by
  constructor
  · intro hperm
    -- the copies of one condition are counted against those of all
    have hlength := hperm.length_eq
    rw [length_copies, length_copies] at hlength
    have hlast : terms.getLast?.toList.length ≤ 1 := by
      cases terms.getLast? <;> simp
    cases columns with
    | nil => exact .inr rfl
    | cons column columns =>
        have hterms := Nat.eq_of_mul_eq_mul_right (by simp) hlength
        exact .inl (hterms ▸ hlast)
  · rintro (hone | rfl)
    · rcases terms with _ | ⟨t, _ | ⟨u, terms⟩⟩
      · simp
      · simp
      · simp at hone
    · rw [copies_nil, copies_nil]

/-! ### Terms that are rendered -/

namespace Compiler

variable {c : Compiler} {pairs : List (String × String)} {id : Option String}
  {body : Option (List UInt8)} {p : Params}

/-- Of the conditions on columns, the chain renders every one in its place, behind the
identifier. -/
theorem chainTerms_of_collect (h : c.collect pairs id body = .ok p) :
    c.dialect.chainTerms p = p.id.toList ++ c.ordinary pairs := by
  rw [Dialect.chainTerms, ordinary, stored_of_collect h]
  congr 2
  funext t
  rw [Bool.eq_iff_iff]
  simp [ReservedKeys.isExcluded]

/-- The targets of a predicate are its open columns. -/
theorem targets_of_collect (h : c.collect pairs id body = .ok p) (columns : List String) :
    c.dialect.targets p columns = c.openColumns pairs (p.candidates columns) := by
  have hcandidates : (if p.fields.isEmpty then columns else p.fields) = p.candidates columns := by
    simp [Params.candidates]
  rw [Dialect.targets, hcandidates, openColumns, stored_of_collect h]
  refine List.filter_congr fun column _ => ?_
  -- a term is found under a key exactly if it has that key
  have hcontains := (ownKeys_of_collect h).contains_iff column
  rw [Bool.eq_iff_iff]
  simp [ReservedKeys.isExcluded, ← Bool.not_eq_true, hcontains]

/-- Of the conditions on every column, the group renders the last one, for every open column. -/
theorem groupTerms_of_collect (h : c.collect pairs id body = .ok p) (columns : List String) :
    c.dialect.groupTerms p columns =
      copies (c.openColumns pairs (p.candidates columns)) (c.wildcards pairs).getLast?.toList := by
  rw [Dialect.groupTerms_eq_flatMap, targets_of_collect h, (ownKeys_of_collect h).get_eq,
    wildcards, stored_of_collect h]
  rfl

end Compiler

/-! ### Predicates -/

/-- The text and the values of a group and a chain. -/
def History.written (d : Dialect) (group chain : List Term) : String × List Value :=
  (combined (renderings d 0 group) (linked chain (renderings d (boundValues d group).length chain)),
    boundValues d group ++ boundValues d chain)

/-- A predicate is what its group and its chain are written as. -/
theorem History.assemble_eq_written (f : Flavour) (r : ReservedKeys) (p : Params)
    (columns : List String) :
    ((f.dialect r).text ((f.dialect r).assemble p columns),
        ((f.dialect r).assemble p columns).values) =
      written (f.dialect r) ((f.dialect r).groupTerms p columns) ((f.dialect r).chainTerms p) := by
  rw [text_assemble, values_assemble, Dialect.renderedTerms, boundValues_append, written]

/-- **What is rendered are all conditions of a request exactly if no condition on every column is
repeated, or no column is open.**  The predicate is written from the copies of the last condition on
every column, and from the identifier and all conditions on columns, each once and in order. -/
theorem complete_iff_of_collect {f : Flavour} {r : ReservedKeys} {idField : String}
    {pairs : List (String × String)} {id : Option String} {body : Option (List UInt8)} {p : Params}
    (h : Compiler.collect ⟨f.dialect r, idField⟩ pairs id body = .ok p) (columns : List String) :
    let c : Compiler := ⟨f.dialect r, idField⟩
    let openColumns := c.openColumns pairs (p.candidates columns)
    let chain := p.id.toList ++ c.ordinary pairs
    ((f.dialect r).text ((f.dialect r).assemble p columns),
        ((f.dialect r).assemble p columns).values) =
      History.written (f.dialect r) (copies openColumns (c.wildcards pairs).getLast?.toList) chain ∧
    (((f.dialect r).renderedTerms p columns).Perm
        (copies openColumns (c.wildcards pairs) ++ chain) ↔
      (c.wildcards pairs).length ≤ 1 ∨ openColumns = []) := by
  intro c openColumns chain
  have hgroup : (f.dialect r).groupTerms p columns =
      copies openColumns (c.wildcards pairs).getLast?.toList :=
    Compiler.groupTerms_of_collect h columns
  have hchain : (f.dialect r).chainTerms p = chain := Compiler.chainTerms_of_collect h
  constructor
  · rw [History.assemble_eq_written, hgroup, hchain]
  · rw [Dialect.renderedTerms, hgroup, hchain, List.perm_append_right_iff]
    exact perm_copies_getLast?_iff

/-- Two conditions on one column are both rendered, and the one on every column is rendered for the
two columns that are open. -/
theorem complete_of_repeated_column :
    let c : Compiler := ⟨(Flavour.postgres .dollar).dialect {}, "id"⟩
    let pairs := [("a[>]", "1::int"), ("*[%]", "x"), ("a[<]", "9::int"), ("+", "m")]
    (c.wildcards pairs).length = 1 ∧ (c.ordinary pairs).length = 2 ∧
      ∃ p, c.collect pairs none none = .ok p ∧
        (c.dialect.renderedTerms p ["a", "b", "c"]).Perm
          (copies ["b", "c"] (c.wildcards pairs) ++ c.ordinary pairs) := by
  intro c pairs
  have hone : (c.wildcards pairs).length = 1 := by decide +kernel
  have hcollect : c.collect pairs none none = .ok (c.collected pairs none none) :=
    Compiler.collect_eq_ok_iff.2 ⟨by decide +kernel, rfl⟩
  have hopen : c.openColumns pairs ((c.collected pairs none none).candidates ["a", "b", "c"]) =
      ["b", "c"] := by decide +kernel
  obtain ⟨-, hcomplete⟩ := complete_iff_of_collect hcollect ["a", "b", "c"]
  have hperm := hcomplete.2 (.inl hone.le)
  rw [hopen] at hperm
  exact ⟨hone, by decide +kernel, _, hcollect, hperm⟩

/-- Of two conditions on every column the first is stored, but neither its text nor its value is
part of the predicate. -/
theorem incomplete_of_repeated_wildcard : ∃ p,
    Compiler.collect ⟨(Flavour.postgres .question).dialect {}, "id"⟩ [("*", "a"), ("*", "b")]
        none none = .ok p ∧
      p.terms.map (fun t => t.value) = [.string "a", .string "b"] ∧
      ((Flavour.postgres .question).dialect {}).text
          (((Flavour.postgres .question).dialect {}).assemble p ["c"]) = "(\"c\" = ?)" ∧
      (((Flavour.postgres .question).dialect {}).assemble p ["c"]).values = [.string "b"] :=
  ⟨_, rfl, rfl, by decide +kernel, rfl⟩

end WhereClause

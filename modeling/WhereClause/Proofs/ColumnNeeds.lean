/-
**When the columns of a table matter.**

Before a predicate is made it is decided from the parameters alone whether the columns of the table
are asked for, and only then they are used.  The decision is exact.  Where the columns are not asked
for, the predicate is the same for all of them; where they are, a column that has no term yet and is
no reserved key changes it, for its alternative is either bound a value or written in front of the
same text.

Main definitions:

* `WhereClause.Dialect.query` — the text and the values of a predicate.

Main results:

* `WhereClause.Dialect.assemble_eq_of_not_needsColumns` — where the columns are not asked for, the
  predicate does not depend on them;
* `WhereClause.Flavour.query_ne_of_open` — where they are, one open column changes it;
* `WhereClause.needsColumns_iff_exists_query_ne` — **the columns are asked for exactly if the
  predicate depends on them, and only then can a request fail for them**.
-/

import Mathlib.Data.Fintype.EquivFin
import WhereClause.Proofs.RepeatedKeys

set_option relaxedAutoImplicit false
set_option autoImplicit false

namespace WhereClause

/-- The text and the values of a predicate. -/
def Dialect.query (d : Dialect) (p : Params) (columns : List String) : String × List Value :=
  (d.text (d.assemble p columns), (d.assemble p columns).values)

/-! ### Columns that are not asked for -/

namespace Dialect

variable (d : Dialect) {p : Params}

/-- The targets are the same for all columns if the filter document names some. -/
theorem targets_eq_of_fields (h : p.fields.isEmpty = false) (columns columns' : List String) :
    d.targets p columns = d.targets p columns' := by
  simp only [targets, h, Bool.false_eq_true, if_false]

/-- Without a term for every column there is no group. -/
theorem group_eq_nil (h : p.contains d.reserved.wildcard = false) (columns : List String) :
    d.group p columns = [] := by
  have hget : p.get d.reserved.wildcard = [] := by
    by_contra hne
    rw [(p.contains_iff_get_ne_nil _).2 hne] at h
    cases h
  rw [group, hget]
  rfl

/-- **Where the columns are not asked for, the predicate does not depend on them.** -/
theorem assemble_eq_of_not_needsColumns (h : p.needsColumns d.reserved = false)
    (columns columns' : List String) : d.assemble p columns = d.assemble p columns' := by
  have hgroup : d.group p columns = d.group p columns' := by
    rcases Bool.and_eq_false_iff.1 h with hcontains | hfields
    · rw [d.group_eq_nil hcontains, d.group_eq_nil hcontains]
    · unfold group
      rw [d.targets_eq_of_fields hfields columns columns']
  rw [assemble, assemble, hgroup]

end Dialect

/-! ### Columns that are asked for -/

/-- A group is written in front of its chain, so the text is longer than that of the chain. -/
theorem History.combined_ne {group : List String} (h : group ≠ []) (chain : String) :
    combined group chain ≠ chain := by
  intro heq
  have hlength := congrArg String.length heq
  rw [combined, if_neg h] at hlength
  by_cases hchain : chain = ""
  · rw [if_pos hchain, hchain] at hlength
    simp [String.length_append] at hlength
  · rw [if_neg hchain] at hlength
    simp only [String.length_append, show "(".length = 1 by decide] at hlength
    omega

namespace Flavour

variable (f : Flavour) (r : ReservedKeys) {p : Params}

/-- A term for every column is copied for a column exactly as it stands if that column is open. -/
theorem groupTerms_of_open (hneeds : p.needsColumns r = true) {column : String}
    (hcontains : p.contains column = false) (hexcluded : r.isExcluded column = false) :
    ∃ wildcard, (f.dialect r).groupTerms p [] = [] ∧
      (f.dialect r).groupTerms p [column] = [Term.rebind wildcard column] := by
  obtain ⟨hwildcard, hfields⟩ := Bool.and_eq_true_iff.1 hneeds
  obtain ⟨wildcard, hlast⟩ : ∃ wildcard, (p.get r.wildcard).getLast? = some wildcard :=
    ⟨_, List.getLast?_eq_some_getLast ((p.contains_iff_get_ne_nil _).1 hwildcard)⟩
  refine ⟨wildcard, ?_, ?_⟩
  · simp [Dialect.groupTerms, hlast, Dialect.targets, hfields]
  · simp [Dialect.groupTerms, hlast, Dialect.targets, hfields, hcontains, hexcluded]

/-- **Where the columns are asked for, one open column changes the predicate**: its alternative
binds a value more, or else the same text as without it stands behind it. -/
theorem query_ne_of_open (hneeds : p.needsColumns r = true) {column : String}
    (hcontains : p.contains column = false) (hexcluded : r.isExcluded column = false) :
    (f.dialect r).query p [] ≠ (f.dialect r).query p [column] := by
  obtain ⟨wildcard, hnone, hone⟩ := f.groupTerms_of_open r hneeds hcontains hexcluded
  intro heq
  unfold Dialect.query at heq
  rw [History.assemble_eq_written, History.assemble_eq_written, hnone, hone] at heq
  obtain ⟨htext, hvalues⟩ := Prod.mk.inj heq
  have hbound : History.boundValues (f.dialect r) [wildcard.rebind column] = [] := by
    have hlength := congrArg List.length hvalues
    rw [List.length_append, List.length_append] at hlength
    have hnil : (History.boundValues (f.dialect r) []).length = 0 := rfl
    exact List.eq_nil_of_length_eq_zero (by omega)
  rw [hbound] at htext
  exact History.combined_ne (by simp [History.renderings]) _ htext.symm

end Flavour

/-! ### The decision -/

/-- **The columns are asked for exactly if the predicate depends on them.**  So making a predicate
fails exactly if the columns are asked for and their source fails, with the failure of the source;
and where they are not asked for there is one predicate for every source, a failing one
included. -/
theorem needsColumns_iff_exists_query_ne (f : Flavour) (r : ReservedKeys) (idField : String)
    (p : Params) :
    (p.needsColumns r = true ↔
        ∃ columns columns', (f.dialect r).query p columns ≠ (f.dialect r).query p columns') ∧
      (∀ (source : ColumnSource) (table : String) (failure : Failure),
        Compiler.assemble ⟨f.dialect r, idField⟩ p source table = .error failure ↔
          p.needsColumns r = true ∧ source table = .error failure) ∧
      (p.needsColumns r = false → ∃ predicate, ∀ (source : ColumnSource) (table : String),
        Compiler.assemble ⟨f.dialect r, idField⟩ p source table = .ok predicate) := by
  refine ⟨⟨fun hneeds => ?_, ?_⟩, fun source table failure => ?_, fun hneeds => ?_⟩
  · -- a column that has no term and is no reserved key
    obtain ⟨column, hcolumn⟩ := Infinite.exists_notMem_finset
      (r.wildcard :: r.extra :: p.entries.map Prod.fst).toFinset
    simp only [List.mem_toFinset, List.mem_cons, not_or] at hcolumn
    obtain ⟨hwildcard, hextra, hentries⟩ := hcolumn
    have hcontains : p.contains column = false := by
      rw [p.contains_eq, List.any_eq_false]
      intro entry hentry hkey
      exact hentries (List.mem_map.2 ⟨entry, hentry, beq_iff_eq.1 hkey⟩)
    have hexcluded : r.isExcluded column = false := by
      simp [ReservedKeys.isExcluded, hwildcard, hextra]
    exact ⟨[], [column], f.query_ne_of_open r hneeds hcontains hexcluded⟩
  · rintro ⟨columns, columns', hne⟩
    by_contra hneeds
    have hfalse : p.needsColumns (f.dialect r).reserved = false := by
      rw [Flavour.reserved_dialect]
      exact Bool.eq_false_iff.2 hneeds
    refine hne ?_
    unfold Dialect.query
    rw [(f.dialect r).assemble_eq_of_not_needsColumns hfalse columns columns']
  · rw [Compiler.assemble_eq, Compiler.knownColumns, Flavour.reserved_dialect]
    cases p.needsColumns r with
    | false => simp [bind, Except.bind]
    | true => cases source table <;> simp [bind, Except.bind]
  · refine ⟨⟨((f.dialect r).query p []).1, ((f.dialect r).query p []).2, p.filter⟩,
      fun source table => ?_⟩
    rw [Compiler.assemble_eq, Compiler.knownColumns, Flavour.reserved_dialect, hneeds]
    rfl

end WhereClause

/-
**What reserved keys are for.**

A configuration may choose its own reserved keys, and `ReservedKeys.validate` accepts them if none
is blank and no two are the same.  That is not enough for each of them to be recognised.  The key of
a pair is trimmed before it is compared with the reserved ones, and a key that is parsed loses its
mark for OR and its operator token first, so a reserved key with blanks around it, or one in which
there is something to be cut off, is never met.  For accepted keys these are the only obstacles.

Main definitions:

* `WhereClause.Compiler.ExpandsWildcard`, `WhereClause.Compiler.KeepsMetadata`,
  `WhereClause.Compiler.TakesDocument`, `WhereClause.Compiler.JoinsWithOr` — what the four reserved
  keys are for;
* `WhereClause.Term.withOr` — the same condition, joined with OR or not.

Main results:

* `WhereClause.ReservedKeys.validate_eq_ok_iff` — which reserved keys are accepted;
* `WhereClause.Flavour.parse_withOr` — of a key, the mark for OR only tells how its term is joined;
* `WhereClause.serves_iff_of_validate` — **what accepted reserved keys have to be to serve their
  purpose**, each of the four on its own.
-/

import WhereClause.Proofs.BlankColumns
import WhereClause.Proofs.ColumnNeeds

set_option relaxedAutoImplicit false
set_option autoImplicit false

namespace WhereClause

open Text

/-! ### Accepted reserved keys -/

namespace ReservedKeys

/-- No key comes again exactly if all are different. -/
theorem firstRepeated?_eq_none_iff {keys : List String} :
    firstRepeated? keys = none ↔ keys.Nodup := by
  induction keys with
  | nil => simp [firstRepeated?]
  | cons key rest ih =>
      rw [firstRepeated?, List.nodup_cons, ← ih]
      by_cases h : key ∈ rest <;> simp [h]

/-- **Reserved keys are accepted exactly if none is blank and all are different.** -/
theorem validate_eq_ok_iff {r : ReservedKeys} :
    r.validate = .ok () ↔ (∀ key ∈ r.toList, allBlank key = false) ∧ r.toList.Nodup := by
  have hblank : r.toList.any allBlank = false ↔ ∀ key ∈ r.toList, allBlank key = false := by
    simp [List.any_eq_false]
  rw [← hblank, ← firstRepeated?_eq_none_iff, validate]
  cases r.toList.any allBlank with
  | true => simp
  | false => cases firstRepeated? r.toList <;> simp

/-- What is accepted, key by key. -/
structure Accepted (r : ReservedKeys) : Prop where
  notBlank : ∀ key ∈ r.toList, allBlank key = false
  wildcard_ne_extra : r.wildcard ≠ r.extra
  wildcard_ne_filter : r.wildcard ≠ r.filter
  extra_ne_filter : r.extra ≠ r.filter

theorem accepted_of_validate {r : ReservedKeys} (h : r.validate = .ok ()) : r.Accepted := by
  obtain ⟨hblank, hnodup⟩ := validate_eq_ok_iff.1 h
  simp only [toList, List.nodup_cons, List.mem_cons, not_or] at hnodup
  obtain ⟨-, ⟨hwildcard_ne_extra, hwildcard_ne_filter, -⟩, ⟨hextra_ne_filter, -⟩, -⟩ := hnodup
  exact
    { notBlank := hblank
      wildcard_ne_extra := hwildcard_ne_extra
      wildcard_ne_filter := hwildcard_ne_filter
      extra_ne_filter := hextra_ne_filter }

section Accepted

variable {r : ReservedKeys} (h : r.Accepted)
include h

theorem Accepted.orMarker : allBlank r.orMarker = false := h.notBlank _ (by simp [toList])

theorem Accepted.wildcard : allBlank r.wildcard = false := h.notBlank _ (by simp [toList])

theorem Accepted.extra : allBlank r.extra = false := h.notBlank _ (by simp [toList])

theorem Accepted.filter : allBlank r.filter = false := h.notBlank _ (by simp [toList])

end Accepted

end ReservedKeys

/-! ### The mark for OR -/

/-- The same condition, joined with OR or not. -/
def Term.withOr (t : Term) (isOr : Bool) : Term := { t with isOr := isOr }

@[simp] theorem Term.operator_withOr (t : Term) (isOr : Bool) :
    (t.withOr isOr).operator = t.operator := rfl

@[simp] theorem Term.path_withOr (t : Term) (isOr : Bool) : (t.withOr isOr).path = t.path := rfl

/-- A change to what a first step gives is one to the end, if the second step only carries it on. -/
theorem map_bind_eq {ε α β : Type} {change : α → α} {change' : β → β} {next : α → Except ε β}
    (h : ∀ a, next (change a) = (next a).map change') (x : Except ε α) :
    x.map change >>= next = (x >>= next).map change' := by
  cases x with
  | error failure => rfl
  | ok a => exact h a

/-- Casting does not look at how a term is joined. -/
theorem Dialect.applyCast_withOr (d : Dialect) (token : String) (t : Term) (isOr : Bool) :
    d.applyCast token (t.withOr isOr) = (d.applyCast token t).map fun u => u.withOr isOr := by
  unfold Dialect.applyCast
  dsimp only [Term.withOr]
  cases splitTypeHint token.toList with
  | error failure => rfl
  | ok split =>
      obtain ⟨rest, hint⟩ := split
      simp only [bind, Except.bind]
      split <;> rfl

namespace Flavour

variable (f : Flavour) {r : ReservedKeys}

/-- Neither does bringing it into its form. -/
theorem format_withOr (t : Term) (isOr : Bool) :
    (f.dialect r).format (t.withOr isOr) =
      ((f.dialect r).format t).map fun u => u.withOr isOr := by
  have hsettle : f.normalForm.settle (t.withOr isOr).toComparison =
      { f.normalForm.settle t.toComparison with isOr := isOr } := by
    cases f <;> rfl
  rw [format_dialect]
  unfold NormalForm.format
  rw [hsettle, Term.operator_withOr, Term.path_withOr]
  by_cases hsupports : (!f.normalForm.supports t.operator) = true
  · rw [if_pos hsupports, if_pos hsupports]
    rfl
  · rw [if_neg hsupports, if_neg hsupports]
    dsimp only
    cases f.normalForm.formatBelow (f.normalForm.settle t.toComparison).operator t.path <;> rfl

section Joined

variable {key key' : String} {isOr : Bool}
  (hread : Key.read (f.dialect r) key'.toList =
    { Key.read (f.dialect r) key.toList with isOr := isOr }) (value : String)
include hread

theorem startTerm_withOr :
    Dialect.startTerm (Key.read (f.dialect r) key'.toList) value =
      (Dialect.startTerm (Key.read (f.dialect r) key.toList) value).withOr isOr := by
  rw [hread]
  rfl

theorem parseSingle_withOr :
    (f.dialect r).parseSingle key' value =
      ((f.dialect r).parseSingle key value).map fun t => t.withOr isOr := by
  have hoperator : (Key.read (f.dialect r) key'.toList).operator =
      (Key.read (f.dialect r) key.toList).operator := by rw [hread]
  unfold Dialect.parseSingle
  dsimp only
  rw [f.startTerm_withOr hread, hoperator, Dialect.applyCast_withOr]
  split
  · exact f.format_withOr { Dialect.startTerm _ value with value := .string value } isOr
  · exact map_bind_eq (fun t => f.format_withOr t isOr) _

/-- **Of two keys that differ only in how they are joined, the terms differ only in that.** -/
theorem parse_withOr :
    (f.dialect r).parse key' value =
      ((f.dialect r).parse key value).map fun t => t.withOr isOr := by
  have hoperator : (Key.read (f.dialect r) key'.toList).operator =
      (Key.read (f.dialect r) key.toList).operator := by rw [hread]
  unfold Dialect.parse
  dsimp only
  rw [f.startTerm_withOr hread, hoperator, f.parseSingle_withOr hread]
  split
  next => rfl
  next subkey subvalue _ =>
    -- what is compared below the look-up does not depend on how the look-up is joined
    cases (f.dialect r).parseSingle (String.ofList subkey) (String.ofList subvalue) with
    | error failure => rfl
    | ok nested => exact f.format_withOr (Dialect.lookUp (Dialect.startTerm _ value) nested) isOr

end Joined

/-- A parsed term is joined as its key says. -/
theorem isOr_of_parse {key value : String} {t : Term}
    (h : (f.dialect r).parse key value = .ok t) :
    t.isOr = (Key.read (f.dialect r) key.toList).isOr := by
  have hread : Key.read (f.dialect r) key.toList = { Key.read (f.dialect r) key.toList with
      isOr := (Key.read (f.dialect r) key.toList).isOr } := rfl
  have hsame := f.parse_withOr hread value
  rw [h] at hsame
  exact congrArg Comparison.isOr (congrArg Term.toComparison (Except.ok.inj hsame))

end Flavour

/-! ### What reserved keys are for -/

/-- A value that can be cast under the operator that a key chooses. -/
def Dialect.Casts (d : Dialect) (key value : String) : Prop :=
  ∃ t, d.applyCast value (startTerm (Key.read d key.toList) value) = .ok t

namespace Compiler

variable (c : Compiler)

/-- The key of every column is recognised: a pair with it, and with any value that can be cast, is
stored as one term under this key, for which the columns are asked for, and which is copied for all
of them but the reserved ones. -/
def ExpandsWildcard : Prop :=
  let r := c.dialect.reserved
  ∀ value, c.dialect.Casts r.wildcard value → ∃ p t,
    c.dialect.parse r.wildcard value = .ok t ∧
    c.collect [(r.wildcard, value)] none none = .ok p ∧
    p.entries = [(r.wildcard, t)] ∧
    p.needsColumns r = true ∧
    ∀ columns, c.dialect.query p columns =
      History.written c.dialect (copies (columns.filter fun column => !r.isExcluded column) [t]) []

/-- The key of metadata is recognised: the value of a pair with it is stored as a string, neither
cast nor formatted, and nothing of it gets into a predicate. -/
def KeepsMetadata : Prop :=
  let r := c.dialect.reserved
  ∀ value, ∃ p,
    c.collect [(r.extra, value)] none none = .ok p ∧
    p.entries = [(r.extra, { key := r.extra, operator := .eq, raw := value,
                             value := .string value })] ∧
    ∀ columns, c.dialect.query p columns = ("", [])

/-- The key of the filter document is recognised: a pair with it stores no term, and the document in
it is the one of the request. -/
def TakesDocument : Prop :=
  let r := c.dialect.reserved
  ∀ document spec, FilterSpec.decode (Utf8.encode document.toList) = .ok spec → ∃ p,
    c.collect [(r.filter, document)] none none = .ok p ∧
    p.entries = [] ∧
    p.filter = some spec

/-- The mark for OR is recognised: before a key that has no blanks around it, is not empty and
begins with no reserved key, it changes how the term is joined and nothing else. -/
def JoinsWithOr : Prop :=
  let r := c.dialect.reserved
  ∀ key value, trimmed key = key → key ≠ "" →
    (∀ text ∈ r.toList, ¬ text.toList <+: key.toList) →
    c.dialect.parse (r.orMarker ++ key) value =
      (c.dialect.parse key value).map fun t => t.withOr true

end Compiler

/-! ### Keys that are met -/

namespace Flavour

variable (f : Flavour) {r : ReservedKeys}

/-- A key is its own column exactly if it has no blanks around it and is plain. -/
theorem column_eq_self_iff (hr : r.Accepted) {key : String} (hkey : allBlank key = false) :
    (Key.read (f.dialect r) key.toList).column = key.toList ↔
      trimmed key = key ∧ (f.dialect r).PlainKey key := by
  have hmarker : (f.dialect r).reserved.orMarker.toList ≠ [] := by
    rw [reserved_dialect]
    exact toList_ne_nil hr.orMarker
  have htokens : ∀ token ∈ (f.dialect r).tokens, (Operator.ofToken? token).isSome = true := by
    intro token htoken
    rw [tokens_dialect] at htoken
    exact (mem_suffixTokens_iff token).1 htoken
  rw [Key.column_eq_self_iff hmarker htokens, trimmed_eq_self_iff]
  exact and_congr_right fun _ =>
    ⟨fun h => ⟨trim_ne_nil hkey, h.1, h.2⟩, fun h => ⟨h.unmarked, h.bare⟩⟩

/-- So a key whose term is under this very key has no blanks around it and is plain. -/
theorem plain_of_parse (hr : r.Accepted) {key value : String} {t : Term}
    (hkey : allBlank key = false) (h : (f.dialect r).parse key value = .ok t) (ht : t.key = key) :
    trimmed key = key ∧ (f.dialect r).PlainKey key := by
  have hcolumn : key = String.ofList (Key.read (f.dialect r) key.toList).column := by
    rw [← Term.key_eq_of_keys (keys_of_parse h), ht]
  refine (f.column_eq_self_iff hr hkey).1 ?_
  rw [← String.toList_ofList (l := (Key.read (f.dialect r) key.toList).column), ← hcolumn]

/-- A plain key with a value that can be cast becomes a term. -/
theorem exists_parse_of_plain {key value : String} (hkey : (f.dialect r).PlainKey key)
    (hcasts : (f.dialect r).Casts key value) : ∃ t, (f.dialect r).parse key value = .ok t := by
  obtain ⟨u, hcast⟩ := hcasts
  have hread := Key.read_of_plain hkey.unmarked hkey.bare
  have hjson : (Key.read (f.dialect r) key.toList).operator.isJsonPath = false := by
    rw [hread]
    rfl
  obtain ⟨-, _, _, -, -, hu⟩ := Dialect.applyCast_eq_ok_iff.1 hcast
  -- the term is an equality with nothing below it, which every dialect can render
  have hoperator : u.operator = .eq := by rw [hu, hread]; rfl
  have hpath : u.path = [] := by rw [hu]; rfl
  have hsupports : f.normalForm.supports u.operator = true := by
    rw [hoperator]
    cases f <;> rfl
  obtain ⟨t, hformat⟩ : ∃ t, (f.dialect r).format u = .ok t := by
    rw [format_dialect]
    exact ⟨_, NormalForm.format_eq_ok_iff.2 ⟨hsupports, [], by rw [hpath]; rfl, rfl⟩⟩
  rw [Dialect.parse_eq_parseSingle hjson]
  refine ⟨t, Dialect.parseSingle_eq_ok_iff.2 ?_⟩
  rw [hjson]
  exact ⟨u, hcast, hformat⟩

end Flavour

/-! ### Requests of one pair -/

namespace Compiler

variable {c : Compiler} {key value : String} {t : Term}

/-- A pair that puts in a term holds no filter document. -/
theorem document?_eq_none_of_reading {result : Except Failure Term}
    (h : c.reading? key value = some result) : c.document? key value = none := by
  unfold reading? at h
  unfold document?
  split_ifs at h ⊢ <;> rfl

/-- A request of one pair that puts in a term comes to this term. -/
theorem exists_collect_of_reading (h : c.reading? key value = some (.ok t)) :
    ∃ p, c.collect [(key, value)] none none = .ok p ∧ p.id = none ∧ p.entries = [(t.key, t)] ∧
      p.filter = none := by
  have hreadings : c.readings [(key, value)] = [t].map .ok := by
    simp [readings, h]
  have hdocument : c.document [(key, value)] = none := by
    simp [document, document?_eq_none_of_reading h]
  have hspec : c.filterReading [(key, value)] none = (none : Option FilterSpec).map .ok := by
    rw [filterReading, hdocument]
    rfl
  exact exists_collect_of_readings hreadings hspec

/-- A request of one pair that holds a filter document comes to this document. -/
theorem exists_collect_of_document (hkey : trimmed key ≠ "")
    (hfilter : trimmed key = c.dialect.reserved.filter) {spec : FilterSpec}
    (h : FilterSpec.decode (Utf8.encode value.toList) = .ok spec) :
    ∃ p, c.collect [(key, value)] none none = .ok p ∧ p.id = none ∧ p.entries = [] ∧
      p.filter = some spec := by
  have hreading : c.reading? key value = none := by
    rw [reading?, if_neg hkey, if_pos hfilter]
  have hdocument? : c.document? key value = some value := by
    rw [document?, if_neg hkey, if_pos hfilter]
  have hreadings : c.readings [(key, value)] = ([] : List Term).map .ok := by
    simp [readings, hreading]
  have hdocument : c.document [(key, value)] = some value := by
    simp [document, hdocument?]
  have hspec : c.filterReading [(key, value)] none = (some spec).map .ok := by
    rw [filterReading, hdocument]
    simp only [Option.map_some, Option.some_or, h]
    rfl
  exact exists_collect_of_readings hreadings hspec

end Compiler

/-! ### Predicates of one pair -/

section Predicates

variable (f : Flavour) {r : ReservedKeys} {p : Params} {t : Term}

/-- A term under a reserved key is in no chain. -/
theorem Flavour.chainTerms_of_excluded (hid : p.id = none) (hentries : p.entries = [(t.key, t)])
    (ht : r.isExcluded t.key = true) : (f.dialect r).chainTerms p = [] := by
  have hterms : p.terms = [t] := by rw [Params.terms, hentries]; rfl
  simp [Dialect.chainTerms, hid, hterms, ht]

/-- The term for every column is copied for every column but the reserved keys. -/
theorem Flavour.query_of_wildcard (hid : p.id = none) (hentries : p.entries = [(t.key, t)])
    (ht : t.key = r.wildcard) (hfilter : p.filter = none) :
    p.needsColumns r = true ∧ ∀ columns, (f.dialect r).query p columns =
      History.written (f.dialect r) (copies (columns.filter fun column => !r.isExcluded column) [t])
        [] := by
  have hfields : p.fields = [] := by rw [Params.fields, hfilter]
  have hcontains (column : String) : p.contains column = (r.wildcard == column) := by
    simp [p.contains_eq, hentries, ht]
  have hget : p.get r.wildcard = [t] := by simp [p.get_eq, hentries, ht]
  constructor
  · simp [Params.needsColumns, hcontains, hfields]
  · intro columns
    have htargets : (f.dialect r).targets p columns =
        columns.filter fun column => !r.isExcluded column := by
      unfold Dialect.targets
      rw [hfields, reserved_dialect]
      refine List.filter_congr fun column _ => ?_
      -- the only key with a term is a reserved one
      rw [hcontains, ReservedKeys.isExcluded, Bool.beq_comm]
      cases column == r.wildcard <;> rfl
    have hgroup : (f.dialect r).groupTerms p columns =
        copies (columns.filter fun column => !r.isExcluded column) [t] := by
      rw [Dialect.groupTerms_eq_flatMap, htargets, reserved_dialect, hget]
      rfl
    have hchain : (f.dialect r).chainTerms p = [] :=
      f.chainTerms_of_excluded hid hentries (by simp [ReservedKeys.isExcluded, ht])
    rw [Dialect.query, History.assemble_eq_written, hgroup, hchain]

/-- The predicate of metadata alone says nothing. -/
theorem Flavour.query_of_extra (hid : p.id = none) (hentries : p.entries = [(t.key, t)])
    (ht : t.key = r.extra) (hne : r.wildcard ≠ r.extra) (columns : List String) :
    (f.dialect r).query p columns = ("", []) := by
  have hget : p.get r.wildcard = [] := by simp [p.get_eq, hentries, ht, hne.symm]
  have hgroup : (f.dialect r).groupTerms p columns = [] := by
    rw [Dialect.groupTerms_eq_flatMap, reserved_dialect, hget]
    rfl
  have hchain : (f.dialect r).chainTerms p = [] :=
    f.chainTerms_of_excluded hid hentries (by simp [ReservedKeys.isExcluded, ht])
  rw [Dialect.query, History.assemble_eq_written, hgroup, hchain]
  rfl

end Predicates

/-! ### Reserved keys that serve -/

namespace Flavour

variable (f : Flavour) {r : ReservedKeys}

/-- **The key of every column is recognised exactly if it has no blanks around it and is plain.** -/
theorem expandsWildcard_iff (hr : r.Accepted) (idField : String) :
    Compiler.ExpandsWildcard ⟨f.dialect r, idField⟩ ↔
      trimmed r.wildcard = r.wildcard ∧ (f.dialect r).PlainKey r.wildcard := by
  simp only [Compiler.ExpandsWildcard, reserved_dialect]
  constructor
  · intro h
    have hcasts : (f.dialect r).Casts r.wildcard "x" := by
      cases f <;> exact ⟨_, rfl⟩
    obtain ⟨p, t, hparse, hcollect, hentries, -⟩ := h "x" hcasts
    have hown := Compiler.ownKeys_of_collect hcollect
    rw [Params.OwnKeys, Params.terms, hentries] at hown
    have hkey : t.key = r.wildcard :=
      (congrArg Prod.fst (List.singleton_inj.1 hown)).symm
    exact f.plain_of_parse hr hr.wildcard hparse hkey
  · rintro ⟨htrim, hplain⟩ value hcasts
    obtain ⟨t, hparse⟩ := f.exists_parse_of_plain hplain hcasts
    have hkey : t.key = r.wildcard := by
      have hkeys := keys_of_parse hparse
      rw [hplain.namesIn_eq] at hkeys
      rw [Term.key_eq_of_keys hkeys]
      exact htrim
    have hne : r.wildcard ≠ "" := by
      rw [← htrim]
      exact trimmed_ne_empty hr.wildcard
    have hreading : Compiler.reading? ⟨f.dialect r, idField⟩ r.wildcard value = some (.ok t) := by
      simp only [Compiler.reading?, reserved_dialect, htrim, if_neg hne,
        if_neg hr.wildcard_ne_filter, if_neg hr.wildcard_ne_extra, hparse]
    obtain ⟨p, hcollect, hid, hentries, hfilter⟩ := Compiler.exists_collect_of_reading hreading
    obtain ⟨hneeds, hquery⟩ := f.query_of_wildcard hid hentries hkey hfilter
    rw [hkey] at hentries
    exact ⟨p, t, hparse, hcollect, hentries, hneeds, hquery⟩

/-- **The key of metadata is recognised exactly if it has no blanks around it.** -/
theorem keepsMetadata_iff (hr : r.Accepted) (idField : String) :
    Compiler.KeepsMetadata ⟨f.dialect r, idField⟩ ↔ trimmed r.extra = r.extra := by
  simp only [Compiler.KeepsMetadata, reserved_dialect]
  have hne : trimmed r.extra ≠ "" := trimmed_ne_empty hr.extra
  constructor
  · intro h
    obtain ⟨p, hcollect, hentries, -⟩ := h ""
    have hmem : { key := r.extra, operator := .eq, raw := "", value := .string "" } ∈ p.terms := by
      rw [Params.terms, hentries]
      exact List.mem_singleton_self _
    obtain ⟨pair, hpair, hreading⟩ := (Compiler.mem_terms_iff_of_collect hcollect).1 hmem
    rw [List.mem_singleton.1 hpair] at hreading
    simp only [Compiler.reading?, reserved_dialect, if_neg hne] at hreading
    split_ifs at hreading with hfilter hextra
    · exact hextra
    · -- a key with blanks around it is parsed, and never comes to its own name
      exact (f.plain_of_parse hr hr.extra (Option.some.inj hreading) rfl).1
  · intro htrim value
    have hreading : Compiler.reading? ⟨f.dialect r, idField⟩ r.extra value =
        some (.ok { key := r.extra, operator := .eq, raw := value, value := .string value }) := by
      rw [htrim] at hne
      simp only [Compiler.reading?, reserved_dialect, htrim, if_neg hne,
        if_neg hr.extra_ne_filter, if_true]
    obtain ⟨p, hcollect, hid, hentries, -⟩ := Compiler.exists_collect_of_reading hreading
    exact ⟨p, hcollect, hentries, f.query_of_extra hid hentries rfl hr.wildcard_ne_extra⟩

/-- **The key of the filter document is recognised exactly if it has no blanks around it.** -/
theorem takesDocument_iff (hr : r.Accepted) (idField : String) :
    Compiler.TakesDocument ⟨f.dialect r, idField⟩ ↔ trimmed r.filter = r.filter := by
  simp only [Compiler.TakesDocument, reserved_dialect]
  have hne : trimmed r.filter ≠ "" := trimmed_ne_empty hr.filter
  constructor
  · intro h
    obtain ⟨p, hcollect, -, hspec⟩ := h "" {} rfl
    have hreading := Compiler.filterReading_of_collect hcollect
    by_contra hfilter
    have hdocument : Compiler.document ⟨f.dialect r, idField⟩ [(r.filter, "")] = none := by
      simp [Compiler.document, Compiler.document?, hne, hfilter]
    rw [Compiler.filterReading, hdocument, hspec] at hreading
    cases hreading
  · intro htrim document spec hdecode
    obtain ⟨p, hcollect, -, hentries, hspec⟩ :=
      Compiler.exists_collect_of_document (c := ⟨f.dialect r, idField⟩) hne
        (by rw [htrim, reserved_dialect]) hdecode
    exact ⟨p, hcollect, hentries, hspec⟩

/-- Some key without blanks around it, with neither a mark nor a token, begins with no reserved
key. -/
theorem exists_plain_of_accepted (hr : r.Accepted) :
    ∃ key, trimmed key = key ∧ key ≠ "" ∧ (f.dialect r).PlainKey key ∧
      ∀ text ∈ r.toList, ¬ text.toList <+: key.toList := by
  -- there are more letters than reserved keys
  obtain ⟨key, hletter, hfree⟩ : ∃ key ∈ ["a", "b", "c", "d", "e"], key ∉ r.toList := by
    by_contra hall
    push Not at hall
    have hsub : ["a", "b", "c", "d", "e"].Subperm r.toList :=
      List.subperm_of_subset (by decide) fun key hkey => hall key hkey
    have hlength : 5 ≤ 4 := hsub.length_le
    omega
  obtain ⟨htrim, hone⟩ : trim key.toList = key.toList ∧ key.toList.length = 1 := by
    have hletters : ∀ key ∈ ["a", "b", "c", "d", "e"],
        trim key.toList = key.toList ∧ key.toList.length = 1 := by decide
    exact hletters key hletter
  have hbegins : ∀ text ∈ r.toList, ¬ text.toList <+: key.toList := by
    intro text htext hlead
    have hpos : 0 < text.toList.length :=
      List.length_pos_iff.2 (toList_ne_nil (hr.notBlank text htext))
    have heq : text.toList = key.toList := hlead.eq_of_length (by have := hlead.length_le; omega)
    rw [String.toList_inj.1 heq] at htext
    exact hfree htext
  refine ⟨key, trimmed_eq_self_iff.2 htrim, ?_, ⟨?_, ?_, ?_⟩, hbegins⟩
  · rintro rfl
    cases hone
  · rw [htrim, ← List.length_pos_iff]
    omega
  · rw [reserved_dialect, htrim]
    exact hbegins _ (by simp [ReservedKeys.toList])
  · intro token _ hsuffix
    have hlength := hsuffix.length_le
    rw [htrim, List.length_cons, List.length_append, List.length_singleton] at hlength
    omega

/-- **The mark for OR is recognised exactly if it does not begin with a blank.** -/
theorem joinsWithOr_iff (hr : r.Accepted) (idField : String) :
    Compiler.JoinsWithOr ⟨f.dialect r, idField⟩ ↔
      trimStart r.orMarker.toList = r.orMarker.toList := by
  simp only [Compiler.JoinsWithOr, reserved_dialect]
  have hmarker : r.orMarker.toList ≠ [] := toList_ne_nil hr.orMarker
  have hmem : r.orMarker ∈ r.toList := by simp [ReservedKeys.toList]
  constructor
  · intro h
    obtain ⟨key, htrim, hne, hplain, hbegins⟩ := f.exists_plain_of_accepted hr
    have hcasts : (f.dialect r).Casts key "x" := by
      cases f <;> exact ⟨_, rfl⟩
    obtain ⟨t, hparse⟩ := f.exists_parse_of_plain hplain hcasts
    have hmarked := h key "x" htrim hne hbegins
    rw [hparse] at hmarked
    -- the term is joined with OR, so the mark stands at the beginning of what was trimmed
    have hor : (Key.read (f.dialect r) (r.orMarker ++ key).toList).isOr = true :=
      (f.isOr_of_parse hmarked).symm
    rw [Key.isOr_read_iff, reserved_dialect] at hor
    obtain ⟨rest, hrest⟩ := hor
    rw [← trimStart_append_eq_self_iff hmarker rest, hrest, trimStart_trim]
  · intro hstart key value htrim hne hbegins
    refine f.parse_withOr ?_ value
    rw [String.toList_append]
    exact Key.read_append_of_unmarked (by rw [reserved_dialect]) hmarker hstart
      (fun hnil => hne (String.toList_eq_nil_iff.1 hnil)) (trimmed_eq_self_iff.1 htrim)
      (hbegins _ hmem)

end Flavour

/-- **What accepted reserved keys have to be to serve their purpose.**  The key of every column has
to be without blanks around it, and without a mark for OR and an operator token in it; the keys of
metadata and of the filter document have to be without blanks around them; and the mark for OR must
not begin with a blank.  Nothing else is needed: one reserved key may well begin another. -/
theorem serves_iff_of_validate (f : Flavour) {r : ReservedKeys} (idField : String)
    (h : r.validate = .ok ()) :
    let c : Compiler := ⟨f.dialect r, idField⟩
    (c.ExpandsWildcard ↔ trimmed r.wildcard = r.wildcard ∧ (f.dialect r).PlainKey r.wildcard) ∧
      (c.KeepsMetadata ↔ trimmed r.extra = r.extra) ∧
      (c.TakesDocument ↔ trimmed r.filter = r.filter) ∧
      (c.JoinsWithOr ↔ trimStart r.orMarker.toList = r.orMarker.toList) := by
  have hr := ReservedKeys.accepted_of_validate h
  exact ⟨f.expandsWildcard_iff hr idField, f.keepsMetadata_iff hr idField,
    f.takesDocument_iff hr idField, f.joinsWithOr_iff hr idField⟩

/-- Keys of one's own serve their purpose, also where one of them begins another. -/
theorem serves_of_own_keys :
    let r : ReservedKeys := { orMarker := "or:", wildcard := "_any", extra := "_" }
    let c : Compiler := ⟨(Flavour.postgres .dollar).dialect r, "id"⟩
    r.validate = .ok () ∧
      c.ExpandsWildcard ∧ c.KeepsMetadata ∧ c.TakesDocument ∧ c.JoinsWithOr := by
  intro r c
  have hvalid : r.validate = .ok () := by decide
  obtain ⟨hwildcard, hextra, hfilter, hmarker⟩ :=
    serves_iff_of_validate (.postgres .dollar) "id" hvalid
  have hplain : ((Flavour.postgres .dollar).dialect r).PlainKey "_any" :=
    ⟨by decide, by decide, by decide⟩
  exact ⟨hvalid, hwildcard.2 ⟨by decide, hplain⟩, hextra.2 (by decide), hfilter.2 (by decide),
    hmarker.2 (by decide)⟩

/-- A key of metadata with a blank behind it is accepted, but its value becomes a condition. -/
theorem condition_of_padded_extra :
    ReservedKeys.validate { extra := "+ " } = .ok () ∧
      ¬ Compiler.KeepsMetadata ⟨(Flavour.postgres .question).dialect { extra := "+ " }, "id"⟩ ∧
      ∃ p, Compiler.collect ⟨(Flavour.postgres .question).dialect { extra := "+ " }, "id"⟩
          [("+ ", "m")] none none = .ok p ∧
        ((Flavour.postgres .question).dialect { extra := "+ " }).query p [] =
          ("\"+\" = ?", [.string "m"]) := by
  have htext : ∃ p, Compiler.collect ⟨(Flavour.postgres .question).dialect { extra := "+ " }, "id"⟩
        [("+ ", "m")] none none = .ok p ∧
      (((Flavour.postgres .question).dialect { extra := "+ " }).query p []).1 = "\"+\" = ?" ∧
      (((Flavour.postgres .question).dialect { extra := "+ " }).query p []).2 = [.string "m"] :=
    ⟨_, rfl, by decide +kernel, rfl⟩
  obtain ⟨p, hcollect, htext, hvalues⟩ := htext
  refine ⟨by decide, fun hkeeps => ?_, p, hcollect, Prod.ext htext hvalues⟩
  obtain ⟨p', hcollect', -, hempty⟩ := hkeeps "m"
  have hsame : p = p' := Except.ok.inj (hcollect.symm.trans hcollect')
  rw [hsame, hempty []] at htext
  exact absurd htext (by decide)

end WhereClause

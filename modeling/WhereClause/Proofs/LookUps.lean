/-
**Comparisons below look-ups.**

The value of a look-up may be a pair of its own: a name that is not blank and a value, around its
only equals sign.  What is found is then compared as this pair says, and the look-up is parsed just
like the pair on its own, up to what only a column has.  Any other value is looked up as it is.  A
value without an equals sign holds no pair, so there is never a comparison below the one below a
look-up, and a parser that would look for it finds the same terms.

Main definitions:

* `WhereClause.SolePair` — a text that is a name and a value around its only equals sign;
* `WhereClause.Flavour.putBelow`, `WhereClause.Flavour.lookUp` — a comparison of its own as one of what
  is found, and a look-up with it;
* `WhereClause.Dialect.parseDeeply` — a pair parsed with a look-up below a look-up wherever the
  value has one.

Main results:

* `WhereClause.splitPath?_eq_some_iff` — the pairs that are looked for are the sole ones;
* `WhereClause.Flavour.format_lookUp` — a formatted comparison below a look-up is formatted to
  itself, unless it needs a column;
* `WhereClause.Dialect.parseDeeply_eq_parse` — looking deeper finds nothing more;
* `WhereClause.parse_of_isJsonPath` — **a look-up means what the comparison in its value means on
  its own**.
-/

import WhereClause.Proofs.BlankColumns
import WhereClause.Proofs.FormattedTerms

set_option relaxedAutoImplicit false
set_option autoImplicit false

namespace WhereClause

open Text

/-! ### Pairs in values -/

namespace Text

/-- The sides of the first separator are those of a separator with none before it. -/
theorem cutFirst?_eq_some_iff {separator : Char} {s before after : List Char} :
    cutFirst? separator s = some (before, after) ↔
      s = before ++ separator :: after ∧ separator ∉ before := by
  constructor
  · intro h
    refine ⟨eq_of_cutFirst?_eq_some h, ?_⟩
    induction s generalizing before with
    | nil => cases h
    | cons c rest ih =>
        rw [cutFirst?] at h
        split at h
        next => cases h; exact List.not_mem_nil
        next hne =>
          obtain ⟨⟨left, right⟩, hcut, hpair⟩ := Option.map_eq_some_iff.1 h
          cases hpair
          rw [List.mem_cons, not_or]
          exact ⟨fun heq => hne heq.symm, ih hcut⟩
  · rintro ⟨rfl, hbefore⟩
    induction before with
    | nil => simp [cutFirst?]
    | cons c before ih =>
        rw [List.mem_cons, not_or] at hbefore
        rw [List.cons_append, cutFirst?, if_neg fun heq => hbefore.1 heq.symm, ih hbefore.2]
        rfl

end Text

/-- A text that is a name and a value around its only equals sign, with a name that is not blank. -/
structure SolePair (text name value : String) : Prop where
  split : text = name ++ "=" ++ value
  notMem_name : '=' ∉ name.toList
  notMem_value : '=' ∉ value.toList
  notBlank : allBlank name = false

/-- **A pair is found in a text exactly if the text is a sole pair.** -/
theorem splitPath?_eq_some_iff {text name value : String} :
    splitPath? text.toList = some (name.toList, value.toList) ↔ SolePair text name value := by
  have hcut : cutFirst? '=' text.toList = some (name.toList, value.toList) ↔
      text = name ++ "=" ++ value ∧ '=' ∉ name.toList := by
    rw [cutFirst?_eq_some_iff, ← String.toList_inj, String.toList_append, String.toList_append]
    simp
  unfold splitPath?
  constructor
  · intro h
    split at h
    next => cases h
    next before after hbefore =>
      split_ifs at h with hrefused
      cases h
      rw [Bool.or_eq_true, not_or, Bool.not_eq_true, List.contains_iff_mem] at hrefused
      obtain ⟨hsplit, hname⟩ := hcut.1 hbefore
      exact ⟨hsplit, hname, hrefused.2, hrefused.1⟩
  · intro h
    have hblank : name.toList.all isBlank = false := h.notBlank
    rw [hcut.2 ⟨h.split, h.notMem_name⟩]
    simp [hblank, h.notMem_value]

theorem solePair_of_splitPath? {text : String} {s s' : List Char}
    (h : splitPath? text.toList = some (s, s')) :
    SolePair text (String.ofList s) (String.ofList s') := by
  rwa [← splitPath?_eq_some_iff, String.toList_ofList, String.toList_ofList]

theorem splitPath?_eq_none_iff {text : String} :
    splitPath? text.toList = none ↔ ¬ ∃ name value, SolePair text name value := by
  constructor
  · rintro hnone ⟨name, value, hpair⟩
    rw [splitPath?_eq_some_iff.2 hpair] at hnone
    cases hnone
  · intro hpair
    cases hsplit : splitPath? text.toList with
    | none => rfl
    | some sides => exact absurd ⟨_, _, solePair_of_splitPath? hsplit⟩ hpair

/-- The value of a pair in a text is shorter than the text. -/
theorem SolePair.length_lt {text name value : String} (h : SolePair text name value) :
    value.length < text.length := by
  rw [h.split, String.length_append, String.length_append]
  have hsign : "=".length = 1 := rfl
  omega

/-- And there is no pair in it. -/
theorem SolePair.splitPath?_value {text name value : String} (h : SolePair text name value) :
    splitPath? value.toList = none := by
  rw [splitPath?_eq_none_iff]
  rintro ⟨name', value', hpair⟩
  refine h.notMem_value ?_
  rw [hpair.split]
  simp

/-! ### Parsing without a limit -/

namespace Dialect

variable {d : Dialect} {key value : String}

/-- A pair whose value holds no pair is parsed on its own. -/
theorem parse_of_splitPath?_eq_none (h : splitPath? value.toList = none) :
    d.parse key value = d.parseSingle key value := by
  unfold parse
  dsimp only
  rw [h, ite_self]

/-- A look-up of a pair has the comparison of this pair below it. -/
theorem parse_of_solePair (hjson : (Key.read d key.toList).operator.isJsonPath = true)
    {name subvalue : String} (h : SolePair value name subvalue) :
    d.parse key value = d.parse name subvalue >>= fun nested =>
      d.format (lookUp (startTerm (Key.read d key.toList) value) nested) := by
  rw [d.parse_of_splitPath?_eq_none h.splitPath?_value]
  unfold parse
  simp only [hjson, if_true, splitPath?_eq_some_iff.2 h, String.ofList_toList]

/-- The pair in the value of a look-up is a sole pair. -/
theorem solePair_of_subpair? {subkey subvalue : List Char}
    (h : d.subpair? key value = some (subkey, subvalue)) :
    SolePair value (String.ofList subkey) (String.ofList subvalue) := by
  rw [subpair?] at h
  split at h
  next => exact solePair_of_splitPath? h
  next => cases h

/-- A pair as a formatted term, with the comparisons that its value holds at any depth. -/
def parseDeeply (d : Dialect) (key value : String) : Except Failure Term :=
  match _ : d.subpair? key value with
  | none => d.parseSingle key value
  | some (subkey, subvalue) => do
      let nested ← d.parseDeeply (String.ofList subkey) (String.ofList subvalue)
      d.format (lookUp (startTerm (Key.read d key.toList) value) nested)
termination_by value.length
decreasing_by exact (solePair_of_subpair? ‹_›).length_lt

/-- **Looking for comparisons at any depth finds no more than one below a look-up.** -/
theorem parseDeeply_eq_parse (d : Dialect) (key value : String) :
    d.parseDeeply key value = d.parse key value := by
  induction hlength : value.length using Nat.strong_induction_on generalizing key value with
  | _ n ih =>
      rw [parseDeeply, parse, ← subpair?]
      split
      next hnone => rw [hnone]
      next subkey subvalue hpair =>
        have hsole : SolePair value (String.ofList subkey) (String.ofList subvalue) :=
          solePair_of_subpair? hpair
        have hshorter : (String.ofList subvalue).length < n := hlength ▸ hsole.length_lt
        -- the comparison below is parsed on its own, whatever its key is
        rw [hpair, ih _ hshorter _ _ rfl, parse_of_splitPath?_eq_none hsole.splitPath?_value]

end Dialect

/-! ### Formatting a look-up -/

/-- A look-up is settled on every shape. -/
theorem Operator.settled_of_isJsonPath {op : Operator} (h : op.isJsonPath = true) (shape : Shape) :
    op.settled shape = op := by
  revert h
  cases op <;> cases shape <;> decide

/-- A look-up matches no pattern. -/
theorem Operator.isTextual_of_isJsonPath {op : Operator} (h : op.isJsonPath = true) :
    op.isTextual = false := by
  revert h
  cases op <;> decide

namespace Flavour

variable {f : Flavour}

/-- A comparison of its own as one of what is found: there is no column to be quoted and no term to
be joined, and what a textual look-up finds is text already, so that PostgreSQL needs no cast. -/
def putBelow (f : Flavour) (above : Operator) (c : Comparison) : Comparison :=
  { c with
    quoted := false
    isOr := false
    keyCast :=
      match f, above with
      | postgres _, .jsonPathText => none
      | _, _ => c.keyCast }

/-- A look-up with a comparison of its own below it. -/
def lookUp (f : Flavour) (t nested : Term) : Term :=
  { t with
    value := .string nested.key
    path := f.putBelow t.operator nested.toComparison :: nested.path }

/-- Every dialect can render look-ups. -/
theorem supports_of_isJsonPath {op : Operator} (h : op.isJsonPath = true) :
    f.normalForm.supports op = true := by
  cases f with
  | postgres style => rfl
  | mysql =>
      change op.inMySql = true
      revert h
      cases op <;> decide

/-- A look-up is settled as it is. -/
theorem settle_of_isJsonPath {c : Comparison} (h : c.operator.isJsonPath = true) :
    f.normalForm.settle c = c := by
  have hsettled : c.settled = c :=
    calc
      c.settled = { c with operator := c.operator.settled c.shape, value := c.settled.value } := rfl
      _ = c := by rw [Operator.settled_of_isJsonPath h, Comparison.value_settled_of_isJsonPath h]
  cases f with
  | mysql => exact hsettled
  | postgres style =>
      have htextual := Operator.isTextual_of_isJsonPath h
      have hoverlap := Operator.isOverlap_of_isJsonPath h
      change style.settle c = c
      simp [PlaceholderStyle.settle, hsettled, htextual, hoverlap]

/-- A look-up with nothing below it is formatted to itself. -/
theorem format_of_isJsonPath {t : Term} (hjson : t.operator.isJsonPath = true)
    (hpath : t.path = []) : f.normalForm.format t = .ok t := by
  refine NormalForm.format_eq_ok_iff.2 ⟨supports_of_isJsonPath hjson, [], ?_, ?_⟩
  · rw [hpath]
    rfl
  · rw [settle_of_isJsonPath hjson, ← hpath]
    rfl

/-- What is formatted is settled. -/
theorem settle_of_format {t u : Term} (h : f.normalForm.format t = .ok u) :
    f.normalForm.settle u.toComparison = u.toComparison := by
  obtain ⟨-, path, -, rfl⟩ := NormalForm.format_eq_ok_iff.1 h
  exact f.lasting.settle t.toComparison

/-- A settled comparison stays as it is below a look-up, but for what only a column has. -/
theorem below_settle {c : Comparison} (h : f.normalForm.settle c = c) (above : Operator) :
    f.normalForm.below above (f.normalForm.settle { c with quoted := false, isOr := false }) =
      f.putBelow above c := by
  have hsettle : f.normalForm.settle { c with quoted := false, isOr := false } =
      { f.normalForm.settle c with quoted := false, isOr := false } := by
    cases f <;> rfl
  rw [hsettle, h]
  cases f with
  | mysql => rfl
  | postgres style => cases above <;> rfl

/-- **A comparison that is formatted on its own is formatted to itself below a look-up**, unless it
needs a column. -/
theorem format_lookUp {t u nested : Term} (hjson : t.operator.isJsonPath = true)
    (hnested : f.normalForm.format u = .ok nested) (hpath : nested.path = []) :
    f.normalForm.format (Dialect.lookUp t nested) =
      if nested.operator.needsColumn then
        .error (.unsupported f.normalForm.name nested.operator .insidePath)
      else .ok (f.lookUp t nested) := by
  have hsupports : f.normalForm.supports nested.operator = true :=
    (NormalForm.format_eq_ok_iff.1 (f.lasting.format_self hnested)).1
  have hsettle : f.normalForm.settle (Dialect.lookUp t nested).toComparison =
      (Dialect.lookUp t nested).toComparison :=
    settle_of_isJsonPath (f := f) (c := (Dialect.lookUp t nested).toComparison) hjson
  have hbelow := below_settle (settle_of_format hnested) t.operator
  have hchain : (Dialect.lookUp t nested).path =
      [{ nested.toComparison with quoted := false, isOr := false }] := by
    rw [Dialect.lookUp, hpath]
  have hput : f.lookUp t nested =
      .ofChain (Dialect.lookUp t nested).toComparison [f.putBelow t.operator nested.toComparison] := by
    rw [lookUp, hpath]
    rfl
  have htop : f.normalForm.supports (Dialect.lookUp t nested).operator = true :=
    supports_of_isJsonPath hjson
  cases hcolumn : nested.operator.needsColumn with
  | true =>
      rw [if_pos rfl, NormalForm.format, hsettle, hchain, htop]
      simp [NormalForm.formatBelow, hcolumn]
  | false =>
      rw [if_neg Bool.false_ne_true]
      refine NormalForm.format_eq_ok_iff.2
        ⟨htop, [f.putBelow t.operator nested.toComparison], ?_, ?_⟩
      · rw [hsettle, hchain, ← hbelow]
        exact NormalForm.formatBelow_singleton_eq_ok_iff.2 ⟨hcolumn, hsupports, rfl⟩
      · rw [hput, hsettle]

end Flavour

/-- A pair that is parsed on its own has nothing below it, and is a formatted term. -/
theorem exists_format_of_parseSingle {f : Flavour} {r : ReservedKeys} {key value : String}
    {t : Term} (h : (f.dialect r).parseSingle key value = .ok t) :
    t.path = [] ∧ ∃ u, f.normalForm.format u = .ok t := by
  obtain ⟨type, v, hformat⟩ := Dialect.exists_of_parseSingle h
  rw [Flavour.format_dialect] at hformat
  exact ⟨(normal_of_parseSingle h).2, _, hformat⟩

/-- **A look-up means what the comparison in its value means on its own.**  If its value is a sole
pair, it fails as this pair does, and it is refused if the operator of the pair needs a column;
otherwise it looks up the column of the pair, and what it finds is compared as the pair says.  Any
other value is looked up as it is.  Looking for pairs at any depth would give the same. -/
theorem parse_of_isJsonPath {f : Flavour} {r : ReservedKeys} {key : String}
    (hjson : (Key.read (f.dialect r) key.toList).operator.isJsonPath = true) (value : String) :
    let d := f.dialect r
    let t := Dialect.startTerm (Key.read d key.toList) value
    (∀ name subvalue, SolePair value name subvalue →
      d.parse key value = d.parse name subvalue >>= fun nested =>
        if nested.operator.isQuantified || nested.operator.isOverlap then
          .error (.unsupported d.name nested.operator .insidePath)
        else .ok (f.lookUp t nested)) ∧
    ((¬ ∃ name subvalue, SolePair value name subvalue) →
      d.parse key value = .ok { t with value := .string value }) ∧
    d.parse key value = d.parseDeeply key value := by
  intro d t
  refine ⟨fun name subvalue hpair => ?_, fun hpair => ?_, (d.parseDeeply_eq_parse key value).symm⟩
  · rw [d.parse_of_solePair hjson hpair, d.parse_of_splitPath?_eq_none hpair.splitPath?_value]
    cases hsingle : d.parseSingle name subvalue with
    | error failure => rfl
    | ok nested =>
        obtain ⟨hpath, u, hformat⟩ := exists_format_of_parseSingle hsingle
        have hname : f.normalForm.name = d.name := by cases f <;> rfl
        have hlookUp := Flavour.format_lookUp (t := t) hjson hformat hpath
        rw [hname, ← Flavour.format_dialect f r] at hlookUp
        exact hlookUp
  · rw [d.parse_of_splitPath?_eq_none (splitPath?_eq_none_iff.2 hpair)]
    refine Dialect.parseSingle_eq_ok_iff.2 ?_
    rw [if_pos hjson, Flavour.format_dialect]
    exact Flavour.format_of_isJsonPath hjson rfl

/-- A pattern below a textual look-up loses its cast, an overlap there is refused, a failure is that
of the pair on its own, and a value with two equals signs is looked up as it is. -/
theorem parse_of_arrows :
    let d := (Flavour.postgres .dollar).dialect {}
    (∃ t c, d.parse "a.b[->>]" " [|]k [~*]=^x" = .ok t ∧ t.value = .string "k" ∧ t.path = [c] ∧
      c.operator = .iregex ∧ c.keyCast = none ∧ c.quoted = false ∧ c.isOr = false) ∧
    d.parse "a[->]" "k[&&]=x" = .error (.unsupported "postgres" .overlaps .insidePath) ∧
    d.parse "a[->]" "k=1::nope" = .error (.unknownType "nope") ∧
    ∃ t, d.parse "a[->]" "b[->]=c=d" = .ok t ∧ t.value = .string "b[->]=c=d" ∧ t.path = [] := by
  intro d
  have htext : (Key.read d "a.b[->>]".toList).operator.isJsonPath = true := by decide
  have harrow : (Key.read d "a[->]".toList).operator.isJsonPath = true := by decide
  have hpattern := (parse_of_isJsonPath htext " [|]k [~*]=^x").1 " [|]k [~*]" "^x"
    ⟨by decide, by decide, by decide, by decide⟩
  have hoverlap := (parse_of_isJsonPath harrow "k[&&]=x").1 "k[&&]" "x"
    ⟨by decide, by decide, by decide, by decide⟩
  have hfailure := (parse_of_isJsonPath harrow "k=1::nope").1 "k" "1::nope"
    ⟨by decide, by decide, by decide, by decide⟩
  have hwhole := (parse_of_isJsonPath harrow "b[->]=c=d").2.1
    (splitPath?_eq_none_iff.1 (by decide))
  exact ⟨⟨_, _, hpattern, rfl, rfl, rfl, rfl, rfl, rfl⟩, hoverlap, hfailure, _, hwhole, rfl, rfl⟩

end WhereClause

/-
**How a parsed term comes about.**

A term is read from a key and a value, cast, put into the form of its dialect, and, below a look-up,
put into that form a second time.  This module says once what each of these steps gives when it
succeeds, so that whatever holds of every parsed term is proved from these statements.

Main results:

* `WhereClause.NormalForm.format_eq_ok_iff` — when a term can be brought into its form, and what
  that form is;
* `WhereClause.Dialect.applyCast_eq_ok_iff`, `WhereClause.Dialect.parseSingle_eq_ok_iff` — when a
  token can be cast, and when a pair without a comparison below it becomes a term;
* `WhereClause.Dialect.exists_of_parseSingle`, `WhereClause.Dialect.exists_of_parse` — a parsed term
  is a formatted one, alone or as a look-up with a comparison below it;
* `WhereClause.Compiler.forall_of_collect` — **whatever holds of parsed terms and of metadata
  holds of every term of a request**.
-/

import WhereClause.Compiler
import WhereClause.Dialect.Format

set_option relaxedAutoImplicit false
set_option autoImplicit false

namespace WhereClause

open Text

/-- A step that succeeds hands its result to the next one. -/
theorem ok_bind {ε α β : Type} (a : α) (next : α → Except ε β) :
    ((Except.ok a : Except ε α) >>= next) = next a := by
  simp [bind, Except.bind]

/-- A sequence of two steps succeeds exactly if both steps do. -/
theorem bind_eq_ok_iff {ε α β : Type} {x : Except ε α} {next : α → Except ε β} {b : β} :
    (x >>= next) = .ok b ↔ ∃ a, x = .ok a ∧ next a = .ok b := by
  cases x <;> simp [bind, Except.bind]

/-! ### Formatting -/

namespace NormalForm

/-- **A term can be brought into its form exactly if its operator can be rendered and what is below
it can be brought into its form.** -/
theorem format_eq_ok_iff {form : NormalForm} {t u : Term} :
    form.format t = .ok u ↔ form.supports t.operator = true ∧
      ∃ path, form.formatBelow (form.settle t.toComparison).operator t.path = .ok path ∧
        u = .ofChain (form.settle t.toComparison) path := by
  unfold format
  cases hs : form.supports t.operator with
  | false => simp
  | true =>
      cases hpath : form.formatBelow (form.settle t.toComparison).operator t.path with
      | error failure => simp [hpath]
      | ok path => simp [hpath, eq_comm]

/-- A term is refused for its own operator before anything else is looked at. -/
theorem format_of_not_supports {form : NormalForm} {t : Term}
    (h : form.supports t.operator = false) :
    form.format t = .error (.unsupported form.name t.operator .anywhere) := by
  simp [format, h]

/-- A chain can be brought into its form exactly if its first operator needs no column and can be
rendered, and the rest can be brought into its form. -/
theorem formatBelow_cons_eq_ok_iff {form : NormalForm} {above : Operator} {c : Comparison}
    {chain path : List Comparison} :
    form.formatBelow above (c :: chain) = .ok path ↔ c.operator.needsColumn = false ∧
      form.supports c.operator = true ∧
        ∃ rest, form.formatBelow (form.settle c).operator chain = .ok rest ∧
          path = form.below above (form.settle c) :: rest := by
  rw [formatBelow]
  cases c.operator.needsColumn with
  | true => simp
  | false =>
      cases form.supports c.operator with
      | false => simp
      | true => cases form.formatBelow (form.settle c).operator chain <;> simp [eq_comm]

/-- A chain of one comparison can be brought into its form exactly if its operator needs no column
and can be rendered. -/
theorem formatBelow_singleton_eq_ok_iff {form : NormalForm} {above : Operator} {c : Comparison}
    {path : List Comparison} :
    form.formatBelow above [c] = .ok path ↔ c.operator.needsColumn = false ∧
      form.supports c.operator = true ∧ path = [form.below above (form.settle c)] := by
  rw [formatBelow_cons_eq_ok_iff]
  simp [formatBelow]

end NormalForm

/-! ### Parsing -/

namespace Dialect

/-- **A token can be cast into a term exactly if its hint can be read and what is left has a value
of the declared type**; nothing but the value and its type changes. -/
theorem applyCast_eq_ok_iff {d : Dialect} {token : String} {t u : Term} :
    d.applyCast token t = .ok u ↔ ∃ rest hint value,
      splitTypeHint token.toList = .ok (rest, hint) ∧
      cast (if d.bracesAreLists then bracesToBrackets t.operator rest else rest)
        (hint.or t.dataType) t.operator d.rangeDelimiters = .ok value ∧
      u = { t with dataType := hint.or t.dataType, value := value } := by
  constructor
  · intro h
    unfold applyCast at h
    obtain ⟨⟨rest, hint⟩, hsplit, h⟩ := bind_eq_ok_iff.1 h
    obtain ⟨value, hcast, h⟩ := bind_eq_ok_iff.1 h
    cases hint <;> exact ⟨rest, _, value, hsplit, hcast, (Except.ok.inj h).symm⟩
  · rintro ⟨rest, hint, value, hsplit, hcast, rfl⟩
    refine bind_eq_ok_iff.2 ⟨(rest, hint), hsplit, bind_eq_ok_iff.2 ⟨value, ?_, ?_⟩⟩
    · cases hint <;> exact hcast
    · cases hint <;> rfl

/-- A pair without a comparison below it becomes a formatted term: a look-up of its value as it is,
or a comparison with what its value is cast to. -/
theorem parseSingle_eq_ok_iff {d : Dialect} {key value : String} {t : Term} :
    d.parseSingle key value = .ok t ↔
      (if (Key.read d key.toList).operator.isJsonPath then
        d.format { startTerm (Key.read d key.toList) value with value := .string value } = .ok t
      else ∃ u, d.applyCast value (startTerm (Key.read d key.toList) value) = .ok u ∧
        d.format u = .ok t) := by
  unfold parseSingle
  dsimp only
  split
  · exact Iff.rfl
  · exact bind_eq_ok_iff

/-- A pair whose key chooses no look-up has no comparison below it. -/
theorem parse_eq_parseSingle {d : Dialect} {key : String}
    (h : (Key.read d key.toList).operator.isJsonPath = false) (value : String) :
    d.parse key value = d.parseSingle key value := by
  unfold parse
  dsimp only
  rw [h]
  rfl

/-- Such a term has the column, the operator and the joint of its key. -/
theorem exists_of_parseSingle {d : Dialect} {key value : String} {t : Term}
    (h : d.parseSingle key value = .ok t) :
    ∃ type v, d.format { startTerm (Key.read d key.toList) value with
      dataType := type, value := v } = .ok t := by
  have hsingle := parseSingle_eq_ok_iff.1 h
  split at hsingle
  · exact ⟨none, .string value, hsingle⟩
  · obtain ⟨u, hcast, hformat⟩ := hsingle
    obtain ⟨-, hint, v, -, -, rfl⟩ := applyCast_eq_ok_iff.1 hcast
    exact ⟨_, v, hformat⟩

/-- A pair becomes a term of its own, or a look-up with the term of another pair below it. -/
theorem exists_of_parse {d : Dialect} {key value : String} {t : Term}
    (h : d.parse key value = .ok t) :
    d.parseSingle key value = .ok t ∨
      (Key.read d key.toList).operator.isJsonPath = true ∧
        ∃ subkey subvalue nested, d.parseSingle subkey subvalue = .ok nested ∧
          d.format (lookUp (startTerm (Key.read d key.toList) value) nested) = .ok t := by
  unfold parse at h
  by_cases hjson : (Key.read d key.toList).operator.isJsonPath = true
  · simp only [hjson, if_true] at h
    split at h
    · exact .inl h
    · obtain ⟨nested, hnested, h⟩ := bind_eq_ok_iff.1 h
      exact .inr ⟨hjson, _, _, nested, hnested, h⟩
  · simp only [hjson] at h
    exact .inl h

end Dialect

/-! ### Collecting -/

/-- Only the key of metadata is read as one. -/
theorem ReservedKeys.eq_extra_of_role {r : ReservedKeys} {key : String}
    (h : r.role key = .extra) : key = r.extra := by
  unfold role at h
  split at h
  next => cases h
  next =>
    split at h
    next => cases h
    next =>
      split at h
      next hextra => exact hextra
      next => cases h

/-- Every term of some parameters has a property. -/
def Params.Forall (P : Term → Prop) (p : Params) : Prop :=
  (∀ t ∈ p.id, P t) ∧ ∀ t ∈ p.terms, P t

namespace Compiler

variable {c : Compiler} {P : Term → Prop}

/-- One pair puts in at most one term: metadata, or a parsed term. -/
theorem forall_of_takePair (hparse : ∀ key value t, c.dialect.parse key value = .ok t → P t)
    (hextra : ∀ value, P (Term.verbatim c.dialect.reserved.extra value)) {p q : Params}
    {document document' : Option String} {key value : String} (hp : p.Forall P)
    (h : c.takePair p document key value = .ok (q, document')) : q.Forall P := by
  have hset : ∀ (k : String) (t : Term), P t → (p.set k t).Forall P := by
    intro k t ht
    refine ⟨hp.1, fun u hu => ?_⟩
    rw [Params.terms_set] at hu
    rcases List.mem_append.1 hu with hu | hu
    · exact hp.2 u hu
    · rwa [List.mem_singleton.1 hu]
  unfold takePair at h
  dsimp only at h
  split at h
  next => cases h; exact hp
  next => cases h; exact hp
  next hrole =>
    cases h
    rw [ReservedKeys.eq_extra_of_role hrole]
    exact hset _ _ (hextra value)
  next =>
    split at h
    next => cases h
    next t hok => cases h; exact hset _ _ (hparse _ _ _ hok)

/-- Every term that the pairs of a request put in is metadata or a parsed term. -/
theorem forall_of_takePairs (hparse : ∀ key value t, c.dialect.parse key value = .ok t → P t)
    (hextra : ∀ value, P (Term.verbatim c.dialect.reserved.extra value))
    (pairs : List (String × String)) :
    ∀ {p q : Params} {document document' : Option String}, p.Forall P →
      c.takePairs p document pairs = .ok (q, document') → q.Forall P := by
  induction pairs with
  | nil =>
      intro p q document document' hp h
      cases h
      exact hp
  | cons pair pairs ih =>
      intro p q document document' hp h
      obtain ⟨key, value⟩ := pair
      unfold takePairs at h
      split at h
      · cases h
      · exact ih (forall_of_takePair hparse hextra hp ‹_›) h

/-- The term for the identifier is a parsed one. -/
theorem forall_of_takeId (hparse : ∀ key value t, c.dialect.parse key value = .ok t → P t)
    {p q : Params} {id : Option String} (h : c.takeId p id = .ok q) (hp : p.Forall P) :
    q.Forall P := by
  unfold takeId at h
  split at h
  next => cases h; exact hp
  next =>
    split at h
    next => cases h
    next t hok =>
      cases h
      refine ⟨fun u hu => ?_, hp.2⟩
      cases Option.mem_some_iff.1 hu
      exact hparse _ _ _ hok

/-- The filter document puts in no term. -/
theorem forall_of_takeFilter {p q : Params} {bytes : Option (List UInt8)}
    (h : takeFilter p bytes = .ok q) (hp : p.Forall P) : q.Forall P := by
  unfold takeFilter at h
  split at h
  next => cases h; exact hp
  next =>
    split at h
    next => cases h
    next => cases h; exact hp

/-- **Whatever holds of parsed terms and of metadata holds of every term of a request.** -/
theorem forall_of_collect (hparse : ∀ key value t, c.dialect.parse key value = .ok t → P t)
    (hextra : ∀ value, P (Term.verbatim c.dialect.reserved.extra value))
    {pairs : List (String × String)} {id : Option String} {body : Option (List UInt8)} {p : Params}
    (h : c.collect pairs id body = .ok p) : p.Forall P := by
  unfold collect at h
  obtain ⟨⟨params, document⟩, hpairs, h⟩ := bind_eq_ok_iff.1 h
  obtain ⟨params', hid, h⟩ := bind_eq_ok_iff.1 h
  have hempty : Params.Forall P .empty :=
    ⟨by simp [Params.empty], by simp [Params.empty, Params.terms]⟩
  have hterms := forall_of_takePairs hparse hextra pairs hempty hpairs
  exact forall_of_takeFilter h (forall_of_takeId hparse hid hterms)

end Compiler

end WhereClause

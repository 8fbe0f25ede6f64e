/-
**Texts that are asked for as they are.**

Without a type behind it, a text can be the word for no value or for a truth value, it can stand in
brackets, and it can end in a type of its own.  With the type of strings behind it, it is what it
is, for every operator that compares with a single value: nothing in the text is read any more, not
even another type.  Equality and inequality still take lists, so there the text must not stand in
the brackets of the dialect.

Main definitions:

* `WhereClause.Wrapped` — a text that begins and ends with the ends of a list;
* `WhereClause.Term.AsksForText` — a comparison of a column with a text.

Main results:

* `WhereClause.written_declared_string` — a text declared a string is a scalar;
* `WhereClause.not_prefix_withToken` — a token behind a column does not make it begin with the mark;
* `WhereClause.Flavour.exists_parse_of_declared_string` — a pair with such a text becomes a term;
* `WhereClause.asksForText_of_declared_string` — **every text can be asked for**.
-/

import WhereClause.Proofs.BracesAndColons
import WhereClause.Proofs.KeyGrammar

set_option relaxedAutoImplicit false
set_option autoImplicit false

namespace WhereClause

open Text

/-! ### Texts -/

/-- A text that begins with one character and ends with another one, as a list does. -/
def Wrapped (ends : Char × Char) (s : List Char) : Prop :=
  s.head? = some ends.1 ∧ s.getLast? = some ends.2

theorem wrapped_of_ends (opening closing : Char) (inner : List Char) :
    Wrapped (opening, closing) (opening :: (inner ++ [closing])) := by
  refine ⟨rfl, ?_⟩
  rw [← List.cons_append, List.getLast?_concat]

section Texts

variable {f : Flavour} {r : ReservedKeys} {operator : Operator} {s : List Char}

/-- A text that does not stand in braces, or for which braces are no list, is seen as it is. -/
theorem seen_eq_self
    (h : operator.acceptsArray = true → ∀ ends ∈ f.brackets, ¬ Wrapped ends s) :
    (f.dialect r).seen operator s = s := by
  cases f with
  | mysql => exact seen_mysql r operator s
  | postgres style =>
      rw [seen_postgres]
      refine bracesToBrackets_eq_self fun inner hbraces => ?_
      refine h hbraces.acceptsArray ('\x7b', '\x7d') (by simp [Flavour.brackets]) ?_
      rw [hbraces.text]
      exact wrapped_of_ends _ _ inner

/-- **A text declared a string is a scalar**, for an operator that takes no lists, and for the
others if it does not stand in brackets. -/
theorem written_declared_string {delimiters : List Char}
    (h : operator.acceptsArray = true → ∀ ends ∈ f.brackets, ¬ Wrapped ends s) :
    Written (some .string) operator delimiters s (.scalar s) := by
  refine .scalar (fun literal hword => ?_) fun inner hinner => ?_
  · cases hword with
    | missing htype => exact htype rfl
    | truth b htype => cases htype
  · refine Bool.eq_false_iff.2 fun harray => h harray _ f.brackets_mem ?_
    rw [hinner.text]
    exact wrapped_of_ends _ _ inner

end Texts

/-! ### Keys -/

/-- A token behind a column does not make it begin with the mark, in which no bracket stands but at
its beginning. -/
theorem not_prefix_withToken {marker column : List Char} (hmarker : '[' ∉ marker.tail)
    (hcolumn : column ≠ []) (h : ¬ marker <+: column) (token : String) :
    ¬ marker <+: withToken column token := by
  rintro ⟨rest, heq⟩
  rcases List.append_eq_append_iff.1 heq with ⟨between, hbetween, -⟩ | ⟨between, rfl, hrest⟩
  · exact h ⟨between, hbetween.symm⟩
  · -- the mark goes on behind the column, with the bracket of the token
    cases between with
    | nil => exact h (by simp)
    | cons c between =>
        obtain ⟨rfl, -⟩ := List.cons.inj hrest
        cases column with
        | nil => exact hcolumn rfl
        | cons first column => exact hmarker (by simp)

/-- A key put together from strings. -/
theorem toList_withToken (column token : String) :
    (column ++ "[" ++ token ++ "]").toList = withToken column.toList token := by
  simp [withToken]

/-! ### Pairs -/

/-- A comparison of a column with a text, which was declared a string. -/
structure Term.AsksForText (t : Term) (column : String) (operator : Operator) (text : String) :
    Prop where
  key : t.key = column
  operator_eq : t.operator = operator
  value : t.value = .string text
  dataType : t.dataType = some .string
  isOr : t.isOr = false
  path : t.path = []

/-- An operator that takes no lists does not change for a scalar. -/
theorem Operator.settled_scalar {op : Operator} (h : op.acceptsArray = false) :
    op.settled .scalar = op := by
  cases op <;> first | rfl | cases h

/-- And it compares no lists. -/
theorem Operator.isOverlap_of_not_acceptsArray {op : Operator} (h : op.acceptsArray = false) :
    op.isOverlap = false := by
  cases op <;> first | rfl | cases h

namespace Flavour

variable {f : Flavour} {r : ReservedKeys}

/-- A term with a text for its value and nothing below it is formatted, if its operator can be
rendered. -/
theorem asksForText_of_format {t : Term} {text : String}
    (hsupports : f.normalForm.supports t.operator = true) (hpath : t.path = [])
    (hvalue : t.value = .string text) (htype : t.dataType = some .string) (hor : t.isOr = false)
    (hsettled : t.operator.settled .scalar = t.operator) (hoverlap : t.operator.isOverlap = false) :
    ∃ u, f.normalForm.format t = .ok u ∧ u.AsksForText t.key t.operator text := by
  have hshape : t.toComparison.shape = .scalar := by rw [Comparison.shape, hvalue]; rfl
  refine ⟨_, format_of_path_eq_nil hsupports hpath, ?_⟩
  exact
    { key := by cases f <;> rfl
      operator_eq := by
        change (f.normalForm.settle t.toComparison).operator = _
        rw [operator_settle, hshape, hsettled]
      value := (value_settle_of_not_isOverlap hoverlap).trans hvalue
      dataType := by cases f <;> exact htype
      isOr := by cases f <;> exact hor
      path := rfl }

/-- **A pair with a text declared a string becomes a term that asks for this text.** -/
theorem exists_parse_of_declared_string {key column : String} {operator : Operator} {text : String}
    (hread : Key.read (f.dialect r) key.toList =
      { column := column.toList, operator := operator, isOr := false })
    (hjson : operator.isJsonPath = false) (hsupports : f.normalForm.supports operator = true)
    (hsettled : operator.settled .scalar = operator) (hoverlap : operator.isOverlap = false)
    (hfree : operator.acceptsArray = true → ∀ ends ∈ f.brackets, ¬ Wrapped ends text.toList) :
    ∃ t, (f.dialect r).parse key (text ++ "::string") = .ok t ∧
      t.AsksForText column operator text := by
  have hsplit : splitTypeHint (text ++ "::string").toList = .ok (text.toList, some .string) := by
    rw [String.toList_append]
    exact splitTypeHint_append text.toList .string
  let start := Dialect.startTerm (Key.read (f.dialect r) key.toList) (text ++ "::string")
  have hoperator : start.operator = operator := by simp only [start, Dialect.startTerm, hread]
  have htakes := (Dialect.takesFor_of_written (d := f.dialect r) (t := start) hsplit (by
    rw [hoperator, seen_eq_self hfree]
    exact written_declared_string hfree)).ok
  have hcast := (htakes _).2 ⟨_, .scalar rfl, rfl⟩
  rw [String.ofList_toList] at hcast
  obtain ⟨u, hformat, hu⟩ := asksForText_of_format (f := f)
    (t := { start with dataType := some .string, value := .string text })
    (by rwa [← hoperator] at hsupports) rfl rfl rfl (by simp only [start, Dialect.startTerm, hread])
    (by rwa [← hoperator] at hsettled) (by rwa [← hoperator] at hoverlap)
  refine ⟨u, ?_, ?_⟩
  · rw [Dialect.parse_eq_parseSingle (by rwa [hread]), Dialect.parseSingle_eq_ok_iff,
      if_neg (by rw [hread, hjson]; exact Bool.false_ne_true)]
    exact ⟨_, hcast, by rwa [format_dialect]⟩
  · have hkey : start.key = column := by
      simp only [start, Dialect.startTerm, hread, String.ofList_toList]
    rw [← hkey, ← hoperator]
    exact hu

end Flavour

/-- **Every text can be asked for.**  With the type of strings behind it, a text is compared with a
column as it is, whatever it holds, by every operator of the dialect that takes a single value; and
by equality and inequality, if it does not stand in the brackets of a list. -/
theorem asksForText_of_declared_string (f : Flavour) {column : String}
    (hcolumn : allBlank column = false) (htrim : trimmed column = column)
    (hmark : ¬ "[|]".toList <+: column.toList) (text : String) :
    let d := f.dialect {}
    (∀ token op, Operator.ofToken? token = some op → f.normalForm.supports op = true →
      op.acceptsArray = false → op.isJsonPath = false →
      ∃ t, d.parse (column ++ "[" ++ token ++ "]") (text ++ "::string") = .ok t ∧
        t.AsksForText column op text) ∧
    ((∀ ends ∈ f.brackets, ¬ Wrapped ends text.toList) →
      (∀ token ∈ ["!", "<>"],
        ∃ t, d.parse (column ++ "[" ++ token ++ "]") (text ++ "::string") = .ok t ∧
          t.AsksForText column .neq text) ∧
      ((∀ before token, (Operator.ofToken? token).isSome = true →
          column.toList ≠ withToken before token) →
        ∃ t, d.parse column (text ++ "::string") = .ok t ∧ t.AsksForText column .eq text)) := by
  intro d
  have htrim' := trimmed_eq_self_iff.1 htrim
  have hread : ∀ token op, Operator.ofToken? token = some op →
      Key.read d (column ++ "[" ++ token ++ "]").toList =
        { column := column.toList, operator := op, isOr := false } := by
    intro token op htoken
    rw [toList_withToken]
    exact Key.read_withToken htrim' htoken
      (not_prefix_withToken (by decide) (toList_ne_nil hcolumn) hmark token)
  have hequality : ∀ op : Operator, op = .eq ∨ op = .neq → f.normalForm.supports op = true := by
    rintro op (rfl | rfl) <;> cases f <;> rfl
  constructor
  · intro token op htoken hsupports harray hjson
    refine Flavour.exists_parse_of_declared_string (hread token op htoken) hjson hsupports
      (Operator.settled_scalar harray) (Operator.isOverlap_of_not_acceptsArray harray) ?_
    rw [harray]
    nofun
  · intro hfree
    constructor
    · intro token htoken
      have hneq : Operator.ofToken? token = some .neq := by
        rcases List.mem_pair.1 htoken with rfl | rfl <;> decide
      exact Flavour.exists_parse_of_declared_string (hread token .neq hneq) rfl
        (hequality _ (.inr rfl)) rfl rfl fun _ => hfree
    · intro hbare
      have hplain : Key.read d column.toList =
          { column := column.toList, operator := .eq, isOr := false } := by
        refine Key.read_eq_iff.2 ⟨column.toList, ?_, .bare hbare⟩
        rw [htrim']
        exact .unmarked hmark
      exact Flavour.exists_parse_of_declared_string hplain rfl (hequality _ (.inl rfl)) rfl rfl
        fun _ => hfree

/-- A column like the beginning of the mark, and texts with words, brackets and types in them. -/
theorem asksForText_of_hostile_texts :
    let d := (Flavour.postgres .dollar).dialect {}
    allBlank "[|" = false ∧ trimmed "[|" = "[|" ∧ ¬ "[|]".toList <+: "[|".toList ∧
    (∀ ends ∈ (Flavour.postgres .dollar).brackets, ¬ Wrapped ends "[null]::int:".toList) ∧
    (∃ t, d.parse "[|[!~*]" "[null]::int:::string" = .ok t ∧
      t.AsksForText "[|" .notIregex "[null]::int:") ∧
    (∃ t, d.parse "[|[<>]" "[null]::int:::string" = .ok t ∧
      t.AsksForText "[|" .neq "[null]::int:") ∧
    ∃ t, d.parse "[|" "[null]::int:::string" = .ok t ∧ t.AsksForText "[|" .eq "[null]::int:" := by
  intro d
  have hcolumn : allBlank "[|" = false := by decide
  have htrim : trimmed "[|" = "[|" := by decide
  have hmark : ¬ "[|]".toList <+: "[|".toList := by decide
  have hfree : ∀ ends ∈ (Flavour.postgres .dollar).brackets,
      ¬ Wrapped ends "[null]::int:".toList := by
    intro ends hends
    rcases List.mem_pair.1 hends with rfl | rfl <;> rintro ⟨-, hlast⟩ <;> revert hlast <;> decide
  have hbare : ∀ before token, (Operator.ofToken? token).isSome = true →
      "[|".toList ≠ withToken before token := by
    intro before token _ h
    have hlast := congrArg List.getLast? h
    rw [withToken, ← List.cons_append, ← List.append_assoc, List.getLast?_concat] at hlast
    cases hlast
  obtain ⟨hsingle, hequality⟩ :=
    asksForText_of_declared_string (.postgres .dollar) hcolumn htrim hmark "[null]::int:"
  obtain ⟨hneq, heq⟩ := hequality hfree
  exact ⟨hcolumn, htrim, hmark, hfree, hsingle "!~*" .notIregex rfl rfl rfl rfl,
    hneq "<>" (by decide), heq hbare⟩

end WhereClause

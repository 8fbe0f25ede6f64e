/-
**Words that are no text.**

Without a declared type, three words stand for a value of their own: the one for no value, and the
two for the truth values.  They are looked for before the operator is, but only where they stand
alone.  So a pattern is the text of its token, brackets and braces included, unless the token is one
of the words; and an overlap takes a scalar as the list that holds just this scalar, unless it is
one of the words, which stay texts inside a list.

Main definitions:

* `WhereClause.ownWords` — the three words;
* `WhereClause.Undeclared` — what a token without a declared type is to an operator that takes a
  single value.

Main results:

* `WhereClause.castScalar_ne_ok_of_null` — with a declared type other than the one of strings, the
  word for no value is no scalar;
* `WhereClause.undeclared_of_parse_pattern` — **what a pattern operator compares with**;
* `WhereClause.parse_of_list_of_one` — **what an overlap makes of a scalar**, beside the list that
  holds just this scalar.
-/

import WhereClause.Proofs.DeclaredStrings
import WhereClause.Proofs.Outline

set_option relaxedAutoImplicit false
set_option autoImplicit false

namespace WhereClause

open Text

/-! ### The words -/

/-- The words that stand for a value of their own where no type is declared. -/
def ownWords : List String := ["null", "true", "false"]

/-- What a token without a declared type is to an operator that takes a single value. -/
inductive Undeclared (token : List Char) : Value → Prop
  | missing : sameLetters token "null".toList = true → Undeclared token .null
  | truth (b : Bool) : sameLetters token (toString b).toList = true → Undeclared token (.bool b)
  | text : (∀ word ∈ ownWords, sameLetters token word.toList = false) →
      Undeclared token (.string (String.ofList token))

section Words

variable {type : Option DataType} {token : List Char}

/-- What is none of the words is not special, with any type or none. -/
theorem not_specialWord_of_ownWords (h : ∀ word ∈ ownWords, sameLetters token word.toList = false)
    (literal : Literal) : ¬ SpecialWord type token literal := by
  intro hword
  cases hword with
  | missing _ hnull =>
      rw [h "null" (by decide)] at hnull
      cases hnull
  | truth b _ htruth =>
      rw [h (toString b) (by cases b <;> decide)] at htruth
      cases htruth

/-- To an operator that takes no lists, a token is what it is as a single value. -/
theorem castLiteral_of_undeclared {operator : Operator} (harray : operator.acceptsArray = false)
    (delimiters : List Char) {v : Value} (h : Undeclared token v) :
    castLiteral none (readLiteral none operator delimiters token) = .ok v := by
  cases h with
  | missing hnull =>
      rw [readLiteral_of_specialWord (.missing (by decide) hnull)]
      rfl
  | truth b htruth =>
      rw [readLiteral_of_specialWord (.truth b rfl htruth)]
      rfl
  | text hwords =>
      rw [readLiteral_eq_iff.2 (.scalar (not_specialWord_of_ownWords hwords) fun _ _ => harray)]
      rfl

/-- Every token is one thing. -/
theorem exists_undeclared (token : List Char) : ∃ v, Undeclared token v := by
  by_cases hwords : ∀ word ∈ ownWords, sameLetters token word.toList = false
  · exact ⟨_, .text hwords⟩
  · simp only [not_forall, Bool.not_eq_false] at hwords
    obtain ⟨word, hmem, hword⟩ := hwords
    simp only [ownWords, List.mem_cons, List.not_mem_nil, or_false] at hmem
    rcases hmem with rfl | rfl | rfl
    · exact ⟨_, .missing hword⟩
    · exact ⟨_, .truth true hword⟩
    · exact ⟨_, .truth false hword⟩

/-- And no token is two things. -/
theorem Undeclared.unique {v w : Value} (hv : Undeclared token v) (hw : Undeclared token w) :
    v = w := by
  have harray : Operator.like.acceptsArray = false := rfl
  have h := castLiteral_of_undeclared harray [] hv
  rw [castLiteral_of_undeclared harray [] hw] at h
  exact (Except.ok.inj h).symm

/-- The word for no value begins with one of two letters. -/
theorem eq_or_of_toLower_eq_n {c : Char} (h : c.toLower = 'n') : c = 'n' ∨ c = 'N' := by
  unfold Char.toLower at h
  split at h
  next hcapital =>
    right
    have hnumber := congrArg Char.toNat h
    simp only [ge_iff_le, UInt32.le_iff_toNat_le] at hcapital
    simp at hcapital hnumber
    refine Char.toNat_inj.1 ?_
    simp
    omega
  next => exact .inl h

/-- The word for no value is no word for an infinity, and no numeral. -/
theorem Binary.read_of_null (f : Format) (h : sameLetters token "null".toList = true) :
    Binary.read f token = .error .invalid := by
  have hletters : token.map Char.toLower = ['n', 'u', 'l', 'l'] := beq_iff_eq.1 h
  have hother : ∀ word : String, word.toList.map Char.toLower ≠ ['n', 'u', 'l', 'l'] →
      sameLetters token word.toList = false := by
    intro word hword
    refine Bool.eq_false_iff.2 fun hsame => hword ?_
    rw [← hletters]
    exact (beq_iff_eq.1 hsame).symm
  have hnone : ∀ negative, Binary.readUnsigned? f negative token = none := by
    intro negative
    unfold Binary.readUnsigned?
    rw [hother "inf" (by decide), hother "infinity" (by decide), hother "nan" (by decide)]
    obtain ⟨c, rest, rfl, hc, -⟩ := List.map_eq_cons_iff.1 hletters
    rcases eq_or_of_toLower_eq_n hc with rfl | rfl <;> rfl
  obtain ⟨c, rest, rfl, hc, -⟩ := List.map_eq_cons_iff.1 hletters
  unfold Binary.read
  rcases eq_or_of_toLower_eq_n hc with rfl | rfl <;> simp [hnone]

/-- **With a declared type other than the one of strings, the word for no value is no scalar.** -/
theorem castScalar_ne_ok_of_null {type : DataType} (htype : type ≠ .string)
    (h : sameLetters token "null".toList = true) (v : Value) :
    castScalar token (some type) ≠ .ok v := by
  intro hok
  have hfloat := fun f => Binary.read_of_null f h
  obtain ⟨c, rest, rfl, hc, -⟩ := List.map_eq_cons_iff.1 (beq_iff_eq.1 h)
  cases type with
  | string => exact htype rfl
  | float =>
      simp only [castScalar, readScalar, hfloat] at hok
      cases hok
  | float64 =>
      simp only [castScalar, readScalar, hfloat] at hok
      cases hok
  -- integers, dates and times begin with neither of the two letters
  | _ => rcases eq_or_of_toLower_eq_n hc with rfl | rfl <;> cases hok

end Words

/-! ### Patterns -/

/-- A pattern operator takes a single value. -/
theorem Operator.acceptsArray_of_isTextual {op : Operator} (h : op.isTextual = true) :
    op.acceptsArray = false := by
  revert h
  cases op <;> decide

/-- A pattern operator stays what it is on every value. -/
theorem Operator.settled_of_isTextual {op : Operator} (h : op.isTextual = true) (shape : Shape) :
    op.settled shape = op := by
  revert h
  cases op <;> cases shape <;> decide

theorem Operator.isJsonPath_of_isTextual {op : Operator} (h : op.isTextual = true) :
    op.isJsonPath = false := by
  revert h
  cases op <;> decide

/-- A comparison with a pattern binds its value. -/
theorem Term.binds_of_isTextual {t : Term} (h : t.operator.isTextual = true) :
    t.binds = [t.value] := by
  unfold Term.binds Comparison.binds
  cases hop : t.operator <;> simp_all [Operator.isTextual, Operator.isJsonPath]

/-- A token without a declared type is cast to what it is as a single value, for an operator that
takes no lists. -/
theorem Flavour.applyCast_of_undeclared {f : Flavour} {r : ReservedKeys} {token : String} {t : Term}
    (harray : t.operator.acceptsArray = false) (htype : t.dataType = none)
    (hhint : splitTypeHint token.toList = .ok (token.toList, none)) {v : Value}
    (hv : Undeclared token.toList v) :
    (f.dialect r).applyCast token t = .ok { t with dataType := none, value := v } := by
  have hseen : (f.dialect r).seen t.operator token.toList = token.toList := by
    refine seen_eq_self ?_
    rw [harray]
    nofun
  rw [Dialect.applyCast_of_split hhint, hseen, htype, Option.or_none,
    castLiteral_of_undeclared harray _ hv]
  rfl

/-- **What a pattern operator compares with.**  A token without a declared type becomes a term for
every pattern operator that the dialect can render, whatever the token looks like.  The column is
compared as text in PostgreSQL, the value is the only one that the term binds, and it is the text of
the token, unless this is one of the three words. -/
theorem undeclared_of_parse_pattern (f : Flavour) (r : ReservedKeys) {key token : String}
    (htextual : (Key.read (f.dialect r) key.toList).operator.isTextual = true)
    (hsupports : f.normalForm.supports (Key.read (f.dialect r) key.toList).operator = true)
    (hhint : splitTypeHint token.toList = .ok (token.toList, none)) :
    ∃ t, (f.dialect r).parse key token = .ok t ∧
      t.operator = (Key.read (f.dialect r) key.toList).operator ∧
      t.keyCast = f.keyCast t.operator ∧
      ((f.dialect r).render t).values = [t.value] ∧
      ∀ v, t.value = v ↔ Undeclared token.toList v := by
  obtain ⟨v, hv⟩ := exists_undeclared token.toList
  let start := Dialect.startTerm (Key.read (f.dialect r) key.toList) token
  have hcast : (f.dialect r).applyCast token start =
      .ok { start with dataType := none, value := v } :=
    Flavour.applyCast_of_undeclared (Operator.acceptsArray_of_isTextual htextual) rfl hhint hv
  have hparse := f.parse_of_column (r := r) (Operator.isJsonPath_of_isTextual htextual) hsupports
    token
  rw [hcast] at hparse
  obtain ⟨t, ht⟩ : ∃ t, (f.dialect r).parse key token = .ok t := ⟨_, hparse⟩
  have hwf := wellFormed_of_parse ht
  have hoperator : t.operator = (Key.read (f.dialect r) key.toList).operator := by
    rw [Flavour.operator_of_parse ht, Operator.settled_of_isTextual htextual]
  have htextual' : t.operator.isTextual = true := by rw [hoperator, htextual]
  have hvalue : t.value = v := by
    cases ht.symm.trans hparse
    exact Flavour.value_settle_of_not_isOverlap
      (Operator.isOverlap_of_not_acceptsArray (Operator.acceptsArray_of_isTextual htextual))
  refine ⟨t, ht, hoperator, hwf.keyCast, ?_, fun w => ?_⟩
  · rw [(Flavour.consists_render hwf).values, Term.binds_of_isTextual htextual']
  · rw [hvalue]
    constructor
    · rintro rfl
      exact hv
    · exact hv.unique

/-- Braces and brackets around a word are part of a pattern, and so is a colon behind it. -/
theorem undeclared_of_enclosed_words :
    let d := (Flavour.postgres .dollar).dialect {}
    let e := Flavour.mysql.dialect {}
    (Key.read d "a[!~*]".toList).operator.isTextual = true ∧
    splitTypeHint "{[null]}::".toList = .ok ("{[null]}::".toList, none) ∧
    (∃ t, d.parse "a[!~*]" "{[null]}::" = .ok t ∧ t.value = .string "{[null]}::") ∧
    (Key.read e "a[~]".toList).operator.isTextual = true ∧
    Flavour.mysql.normalForm.supports (Key.read e "a[~]".toList).operator = true ∧
    splitTypeHint "[true]".toList = .ok ("[true]".toList, none) ∧
    ∃ t, e.parse "a[~]" "[true]" = .ok t ∧ t.value = .string "[true]" := by
  intro d e
  have htextual : (Key.read d "a[!~*]".toList).operator.isTextual = true := by decide
  have htextual' : (Key.read e "a[~]".toList).operator.isTextual = true := by decide
  have hsupports :
      Flavour.mysql.normalForm.supports (Key.read e "a[~]".toList).operator = true := by
    decide
  have hhint : splitTypeHint "{[null]}::".toList = .ok ("{[null]}::".toList, none) := rfl
  have hhint' : splitTypeHint "[true]".toList = .ok ("[true]".toList, none) := rfl
  obtain ⟨t, ht, -, -, -, hvalue⟩ :=
    undeclared_of_parse_pattern (.postgres .dollar) {} htextual rfl hhint
  obtain ⟨u, hu, -, -, -, hvalue'⟩ :=
    undeclared_of_parse_pattern .mysql {} htextual' hsupports hhint'
  exact ⟨htextual, hhint, ⟨t, ht, (hvalue _).2 (.text (by decide))⟩, htextual', hsupports, hhint',
    u, hu, (hvalue' _).2 (.text (by decide))⟩

/-- A pattern that is the word for no value is no text. -/
theorem not_text_of_null_pattern :
    let d := (Flavour.postgres .question).dialect {}
    (Key.read d "a[%]".toList).operator = .like ∧
      splitTypeHint "null".toList = .ok ("null".toList, none) ∧
      ∃ t, d.parse "a[%]" "null" = .ok t ∧ t.value = .null ∧ t.value ≠ .string "null" :=
  ⟨rfl, rfl, _, rfl, rfl, nofun⟩

/-! ### Overlaps -/

section Overlaps

variable {style : PlaceholderStyle} {r : ReservedKeys} {x : List Char} {hint : Option DataType}

/-- A text without a double colon has no type behind it. -/
theorem splitTypeHint_of_no_colons (hcolons : ¬ [':', ':'] <:+: x) (hint : Option DataType) :
    splitTypeHint (x ++ hintText hint) = .ok (x, hint) := by
  cases hint with
  | some type => exact splitTypeHint_append x type
  | none =>
      rw [hintText, List.append_nil, splitTypeHint_eq_ok_none_iff]
      refine ⟨rfl, fun before type hx => hcolons ?_, fun before word hword => hcolons ?_⟩
      · exact ⟨before, type.name.toList, by rw [hx]; simp [hintText]⟩
      · exact ⟨before, word, by rw [hword.cut.text]; simp⟩

/-- An overlap is settled to itself with a cast behind its list, and a scalar becomes the list that
holds just this scalar. -/
theorem PlaceholderStyle.settle_of_isOverlap (style : PlaceholderStyle) {c : Comparison}
    (h : c.operator.isOverlap = true) : style.settle c =
      { c with
        value := if c.shape = .scalar then .array [c.value] else c.value
        valueCast := style.overlapCast c.dataType } := by
  have htextual : c.operator.isTextual = false := by
    revert h
    cases c.operator <;> decide
  have hsettled : c.settled =
      { c with value := if c.shape = .scalar then .array [c.value] else c.value } := by
    cases hshape : c.shape <;>
      simp [Comparison.settled, hshape, Operator.settled_of_isOverlap h, h]
  simp [settle, hsettled, htextual, h]

/-- What holds neither brackets, braces nor commas. -/
def IsPlain (x : List Char) : Prop := ∀ c ∈ x, c ∉ ['[', ']', '\x7b', '\x7d', ',']

/-- The list that holds just one text is read as this list. -/
theorem written_list_of_one {operator : Operator} {delimiters : List Char}
    (hoverlap : operator.isOverlap = true) (hne : x ≠ []) (hplain : IsPlain x) :
    Written hint operator delimiters ('[' :: (x ++ [']'])) (.list [x]) := by
  have hrange : operator.isRange = false := by
    cases operator <;> first | rfl | cases hoverlap
  have hbracket : hasBracket x = false := by
    refine List.any_eq_false.2 fun c hc hbracket => hplain c hc ?_
    rcases Bool.or_eq_true_iff.1 hbracket with h | h
    · simp [beq_iff_eq.1 h]
    · simp [beq_iff_eq.1 h]
  refine .list ⟨rfl, hne, hbracket⟩ (fun h => ?_) ?_ ⟨?_, by simp, ?_⟩
  · rw [hrange] at h
    cases h
  · cases operator <;> first | rfl | cases hoverlap
  · simp [List.intercalate]
  · rw [List.forall_mem_singleton]
    exact fun hcomma => hplain ',' hcomma (by simp)

/-- And the text alone is read as a scalar, unless it is a word. -/
theorem written_of_isPlain {operator : Operator} {delimiters : List Char} (hplain : IsPlain x)
    (hwords : ∀ literal, ¬ SpecialWord hint x literal) :
    Written hint operator delimiters x (.scalar x) := by
  refine .scalar hwords fun inner hinner => ?_
  rw [hinner.text] at hplain
  exact absurd (by simp) (hplain '[' (by simp))

theorem bracesToBrackets_of_isPlain {operator : Operator} (hplain : IsPlain x) :
    Dialect.bracesToBrackets operator x = x := by
  refine bracesToBrackets_eq_self fun inner hinner => ?_
  rw [hinner.text] at hplain
  exact absurd (by simp) (hplain '\x7b' (by simp))

/-- What an overlap is settled with: a scalar becomes the list that holds just this scalar. -/
def Value.promoted (v : Value) : Value := if v.shape = .scalar then .array [v] else v

/-- The term of an overlap with a value. -/
def PlaceholderStyle.overlapTerm (style : PlaceholderStyle) (k : Key) (raw : String)
    (hint : Option DataType) (v : Value) : Term :=
  { Dialect.startTerm k raw with
    dataType := hint
    value := v
    valueCast := style.overlapCast hint }

/-- **A pair with an overlap is the term of what its value is cast to.** -/
theorem parse_of_overlap {key value : String} {s : List Char} {k : Key}
    (hk : Key.read ((Flavour.postgres style).dialect r) key.toList = k)
    (hoverlap : k.operator.isOverlap = true)
    (hsplit : splitTypeHint value.toList = .ok (s, hint)) :
    ((Flavour.postgres style).dialect r).parse key value =
      (castLiteral hint (readLiteral hint k.operator (Flavour.postgres style).delimiters
        (Dialect.bracesToBrackets k.operator s))).map fun v =>
          style.overlapTerm k value hint v.promoted := by
  have hjson : k.operator.isJsonPath = false := by
    revert hoverlap
    cases k.operator <;> decide
  have hsettle : ∀ v, style.settle
      { (Dialect.startTerm k value).toComparison with dataType := hint, value := v } =
        (style.overlapTerm k value hint v.promoted).toComparison :=
    fun v => style.settle_of_isOverlap hoverlap
  rw [Flavour.parse_of_column (by rwa [hk]) rfl, hk, Dialect.applyCast_of_split hsplit,
    seen_postgres, Flavour.rangeDelimiters_dialect]
  simp only [Dialect.startTerm, Option.or_none]
  cases castLiteral hint (readLiteral hint k.operator (Flavour.postgres style).delimiters
      (Dialect.bracesToBrackets k.operator s)) with
  | error failure => rfl
  | ok v => exact congrArg (fun c => Except.ok (Term.ofChain c [])) (hsettle v)

/-- What is a scalar with its type, and none of the words without one, is no special word. -/
theorem not_specialWord_of_castScalar {item : Value} (hitem : castScalar x hint = .ok item)
    (hwords : hint = none → ∀ word ∈ ownWords, sameLetters x word.toList = false)
    (literal : Literal) : ¬ SpecialWord hint x literal := by
  intro hword
  cases hint with
  | none => exact not_specialWord_of_ownWords (hwords rfl) literal hword
  | some type =>
      cases hword with
      | missing htype hnull =>
          exact castScalar_ne_ok_of_null (fun h => htype (h ▸ rfl)) hnull item hitem
      | truth b htype => cases htype

/-- Two colons in a row are at least two colons. -/
theorem not_isInfix_of_count {token : List Char} (h : token.count ':' < 2) :
    ¬ [':', ':'] <:+: token := by
  intro hinfix
  have hcount := hinfix.sublist.count_le ':'
  have htwo : [':', ':'].count ':' = 2 := by decide
  omega

end Overlaps

/-- **What an overlap makes of a scalar.**  Where the list that holds just one text becomes a term,
the text alone becomes the same term up to its raw text, with the same type behind it or none;
unless it is one of the three words without a type behind it, which is a text in the list, and alone
is no value, or a list with a truth value. -/
theorem parse_of_list_of_one (style : PlaceholderStyle) (r : ReservedKeys) {key : String}
    {x : List Char} (hint : Option DataType) {t : Term}
    (hoverlap : (Key.read ((Flavour.postgres style).dialect r) key.toList).operator.isOverlap = true)
    (hne : x ≠ []) (hplain : IsPlain x) (hcolons : ¬ [':', ':'] <:+: x)
    (h : ((Flavour.postgres style).dialect r).parse key
      (String.ofList ('[' :: (x ++ ']' :: hintText hint))) = .ok t) :
    let alone := String.ofList (x ++ hintText hint)
    let parsed := ((Flavour.postgres style).dialect r).parse key alone
    ((hint = none → ∀ word ∈ ownWords, sameLetters x word.toList = false) →
      parsed = .ok { t with raw := alone }) ∧
    (hint = none → t.value = .array [.string (String.ofList x)] ∧
      (sameLetters x "null".toList = true → parsed = .ok { t with raw := alone, value := .null }) ∧
      ∀ b, sameLetters x (toString b).toList = true →
        parsed = .ok { t with raw := alone, value := .array [.bool b] }) := by
  intro alone parsed
  have hsplit : splitTypeHint (String.ofList ('[' :: (x ++ ']' :: hintText hint))).toList =
      .ok ('[' :: (x ++ [']']), hint) := by
    rw [String.toList_ofList]
    exact splitTypeHint_closed rfl rfl ('[' :: x) hint
  have hsplit' : splitTypeHint alone.toList = .ok (x, hint) := by
    rw [String.toList_ofList, splitTypeHint_of_no_colons hcolons]
  -- the list has become a term, so the text has a value of the declared type
  rw [parse_of_overlap rfl hoverlap hsplit, bracesToBrackets_eq_self (not_inBraces_of_bracket _),
    readLiteral_eq_iff.2 (written_list_of_one hoverlap hne hplain), castLiteral, castItems,
    castItems] at h
  cases hitem : castScalar x hint with
  | error failure => rw [hitem] at h; cases h
  | ok item =>
      rw [hitem] at h
      cases h
      have halone := parse_of_overlap rfl hoverlap hsplit'
      rw [bracesToBrackets_of_isPlain hplain] at halone
      constructor
      · intro hwords
        have hspecial := not_specialWord_of_castScalar hitem hwords
        have hpromoted : item.promoted = .array [item] :=
          if_pos (DataType.shape_of_admits (admits_of_castScalar hitem))
        rw [readLiteral_eq_iff.2 (written_of_isPlain hplain hspecial), castLiteral, hitem] at halone
        rw [show parsed = _ from halone, Except.map, hpromoted]
        rfl
      · rintro rfl
        cases hitem
        refine ⟨rfl, fun hnull => ?_, fun b htruth => ?_⟩
        · rw [readLiteral_of_specialWord (.missing (by decide) hnull)] at halone
          exact halone
        · rw [readLiteral_of_specialWord (.truth b rfl htruth)] at halone
          exact halone

/-- A colon next to the type makes a text of a word, which is a truth value without either. -/
theorem parse_of_lone_words :
    let d := (Flavour.postgres .dollar).dialect {}
    (Key.read d "a[!array]".toList).operator.isOverlap = true ∧
    ("TRUE:".toList ≠ [] ∧ IsPlain "TRUE:".toList ∧ ¬ [':', ':'] <:+: "TRUE:".toList) ∧
    (∃ t, d.parse "a[!array]" "[TRUE:]::string" = .ok t ∧
      d.parse "a[!array]" "TRUE:::string" = .ok { t with raw := "TRUE:::string" }) ∧
    ("TRUE".toList ≠ [] ∧ IsPlain "TRUE".toList ∧ ¬ [':', ':'] <:+: "TRUE".toList) ∧
    ∃ t, d.parse "a[!array]" "[TRUE]" = .ok t ∧ t.value = .array [.string "TRUE"] ∧
      d.parse "a[!array]" "TRUE" = .ok { t with raw := "TRUE", value := .array [.bool true] } := by
  intro d
  have hoverlap : (Key.read d "a[!array]".toList).operator.isOverlap = true := by decide
  have htext : "TRUE:".toList ≠ [] ∧ IsPlain "TRUE:".toList ∧ ¬ [':', ':'] <:+: "TRUE:".toList :=
    ⟨by decide, by simp [IsPlain], not_isInfix_of_count (by decide)⟩
  have hword : "TRUE".toList ≠ [] ∧ IsPlain "TRUE".toList ∧ ¬ [':', ':'] <:+: "TRUE".toList :=
    ⟨by decide, by simp [IsPlain], not_isInfix_of_count (by decide)⟩
  obtain ⟨t, ht⟩ : ∃ t, ((Flavour.postgres .dollar).dialect {}).parse "a[!array]"
      "[TRUE:]::string" = .ok t := ⟨_, rfl⟩
  obtain ⟨u, hu⟩ : ∃ u, ((Flavour.postgres .dollar).dialect {}).parse "a[!array]" "[TRUE]" =
      .ok u := ⟨_, rfl⟩
  obtain ⟨hsame, -⟩ :=
    parse_of_list_of_one .dollar {} (some .string) hoverlap htext.1 htext.2.1 htext.2.2 ht
  obtain ⟨hvalue, -, htruth⟩ :=
    (parse_of_list_of_one .dollar {} none hoverlap hword.1 hword.2.1 hword.2.2 hu).2 rfl
  exact ⟨hoverlap, htext, ⟨t, ht, hsame nofun⟩, hword, u, hu, hvalue, htruth true (by decide)⟩

/-- The word for no value is a text in a list, and no value alone. -/
theorem not_promoted_of_null :
    let d := (Flavour.postgres .question).dialect {}
    (Key.read d "tags[&&]".toList).operator = .overlaps ∧
      ∃ t u, d.parse "tags[&&]" "[null]" = .ok t ∧ d.parse "tags[&&]" "null" = .ok u ∧
        t.value = .array [.string "null"] ∧ u.value = .null ∧ u ≠ { t with raw := u.raw } :=
  ⟨rfl, _, _, rfl, rfl, rfl, rfl, nofun⟩

end WhereClause

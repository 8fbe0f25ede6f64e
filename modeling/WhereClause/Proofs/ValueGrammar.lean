/-
**The grammar of values.**

What a token is taken for depends on its text, its declared type and its operator: it is the word
for no value, the word for a truth value, two bounds, a list, or a scalar.  What follows is this
grammar, with the texts of bounds and lists written down by what joins them.  Every token is written
in exactly one way; a text between brackets that does not hold two bounds is a list, while bounds
that are there and have no value of the declared type are at fault.  A delimiter that is a bracket
separates nothing, since no text between brackets has another bracket in it.

Main definitions:

* `WhereClause.Pieces`, `WhereClause.Separates`, `WhereClause.FirstBounds`, `WhereClause.Enclosed` —
  the texts of lists and bounds;
* `WhereClause.Literal` — what a token can be taken for, and the parts of it that are cast;
* `WhereClause.Written` — the grammar;
* `WhereClause.Gives`, `WhereClause.FirstFault` — the value of a literal, and the fault of the first
  part of it without a value;
* `WhereClause.readLiteral`, `WhereClause.castLiteral` — the caster in two steps;
* `WhereClause.Dialect.TakesFor` — what a dialect makes of a token that it takes for a literal.

Main results:

* `WhereClause.splitOn_eq_iff`, `WhereClause.firstBounds?_eq_some_iff` — texts are cut into what
  they are joined from;
* `WhereClause.readLiteral_eq_iff` — tokens are read by the grammar;
* `WhereClause.castItems_eq_ok_iff`, `WhereClause.castItems_eq_error_iff` — a list is cast item by
  item, and fails at the first one without a value;
* `WhereClause.Dialect.applyCast_of_split`, `WhereClause.Dialect.takesFor_of_written` — a dialect
  casts a token as the literal that it is read as, and takes it for what it is written as;
* `WhereClause.written_of_cast` — **the caster follows the grammar**, for every token.
-/

import Mathlib.Data.List.Forall2
import WhereClause.Proofs.Parsed

set_option relaxedAutoImplicit false
set_option autoImplicit false

namespace WhereClause

open Text

/-! ### Pieces -/

/-- The pieces of a text between the occurrences of a character. -/
structure Pieces (separator : Char) (s : List Char) (pieces : List (List Char)) : Prop where
  text : [separator].intercalate pieces = s
  ne_nil : pieces ≠ []
  plain : ∀ piece ∈ pieces, separator ∉ piece

theorem splitOn_eq_list_splitOn (separator : Char) (s : List Char) :
    splitOn separator s = s.splitOn separator := by
  induction s with
  | nil => rw [splitOn_nil, List.splitOn_nil]
  | cons c rest ih =>
      rw [List.splitOn_cons_eq_if_modifyHead, ← ih, splitOn, splitWhere, ← splitOn]
      have hne : splitOn separator rest ≠ [] := splitWhere_ne_nil _ rest
      split
      · rfl
      · cases hsplit : splitOn separator rest with
        | nil => exact absurd hsplit hne
        | cons piece pieces => rfl

/-- No piece has the separator in it. -/
theorem notMem_of_mem_splitOn {separator : Char} {s : List Char} :
    ∀ piece ∈ splitOn separator s, separator ∉ piece := by
  induction s with
  | nil => simp
  | cons c rest ih =>
      rw [splitOn, splitWhere, ← splitOn]
      split
      next => exact List.forall_mem_cons.2 ⟨List.not_mem_nil, ih⟩
      next hc =>
        have hc' : separator ≠ c := by
          rintro rfl
          simp at hc
        cases hsplit : splitOn separator rest with
        | nil => simpa using hc'
        | cons piece pieces =>
            rw [hsplit, List.forall_mem_cons] at ih
            exact List.forall_mem_cons.2
              ⟨List.not_mem_cons_of_ne_of_not_mem hc' ih.1, ih.2⟩

/-- **A text is cut into the pieces that it is joined from.** -/
theorem splitOn_eq_iff {separator : Char} {s : List Char} {pieces : List (List Char)} :
    splitOn separator s = pieces ↔ Pieces separator s pieces := by
  constructor
  · rintro rfl
    exact ⟨intercalate_splitOn separator s, splitWhere_ne_nil _ s, notMem_of_mem_splitOn⟩
  · rintro ⟨rfl, hne, hplain⟩
    rw [splitOn_eq_list_splitOn, List.splitOn_intercalate separator hplain hne]

/-! ### Bounds -/

/-- The two pieces of a text, neither of them empty, around the only occurrence of a character. -/
structure Separates (delimiter : Char) (s lower upper : List Char) : Prop where
  pieces : Pieces delimiter s [lower, upper]
  lower_ne_nil : lower ≠ []
  upper_ne_nil : upper ≠ []

/-- Two bounds and the delimiter between them are the text. -/
theorem Separates.text {delimiter : Char} {s lower upper : List Char}
    (h : Separates delimiter s lower upper) : lower ++ delimiter :: upper = s := by
  rw [← h.pieces.text]
  simp [List.intercalate]

/-- Two bounds are found exactly where a delimiter separates them. -/
theorem bounds?_eq_some_iff {delimiter : Char} {s lower upper : List Char} :
    bounds? delimiter s = some (lower, upper) ↔ Separates delimiter s lower upper := by
  constructor
  · intro h
    unfold bounds? at h
    split at h
    next left right hsplit =>
      split at h
      next => cases h
      next hne =>
        cases h
        simp only [Bool.or_eq_true, List.isEmpty_iff, not_or] at hne
        exact ⟨splitOn_eq_iff.1 hsplit, hne.1, hne.2⟩
    next => cases h
  · rintro ⟨hpieces, hlower, hupper⟩
    simp [bounds?, splitOn_eq_iff.2 hpieces, hlower, hupper]

theorem bounds?_eq_none_iff {delimiter : Char} {s : List Char} :
    bounds? delimiter s = none ↔ ∀ lower upper, ¬ Separates delimiter s lower upper := by
  simp only [Option.eq_none_iff_forall_ne_some, Prod.forall, ne_eq, bounds?_eq_some_iff]

/-- The bounds around the first of several delimiters that separates two. -/
def FirstBounds (delimiters s lower upper : List Char) : Prop :=
  ∃ before delimiter after, delimiters = before ++ delimiter :: after ∧
    Separates delimiter s lower upper ∧
    ∀ other ∈ before, ∀ left right, ¬ Separates other s left right

/-- **The delimiters are tried in order.** -/
theorem firstBounds?_eq_some_iff {delimiters s lower upper : List Char} :
    firstBounds? delimiters s = some (lower, upper) ↔ FirstBounds delimiters s lower upper := by
  induction delimiters with
  | nil => simp [firstBounds?, FirstBounds]
  | cons delimiter delimiters ih =>
      unfold firstBounds?
      cases hbounds : bounds? delimiter s with
      | some bounds =>
          obtain ⟨left, right⟩ := bounds
          have hleft := bounds?_eq_some_iff.1 hbounds
          constructor
          · intro h
            cases h
            exact ⟨[], delimiter, delimiters, rfl, hleft, by simp⟩
          · rintro ⟨before, found, after, heq, hfound, hbefore⟩
            -- nothing stands before the first delimiter, which separates two bounds
            cases before with
            | nil =>
                cases heq
                exact (hbounds.symm.trans (bounds?_eq_some_iff.2 hfound))
            | cons other before =>
                cases heq
                exact absurd hleft (hbefore _ List.mem_cons_self _ _)
      | none =>
          have hnone := bounds?_eq_none_iff.1 hbounds
          dsimp only
          rw [ih]
          constructor
          · rintro ⟨before, found, after, rfl, hfound, hbefore⟩
            exact ⟨delimiter :: before, found, after, rfl, hfound,
              List.forall_mem_cons.2 ⟨hnone, hbefore⟩⟩
          · rintro ⟨before, found, after, heq, hfound, hbefore⟩
            cases before with
            | nil =>
                cases heq
                exact absurd hfound (hnone _ _)
            | cons other before =>
                cases heq
                exact ⟨before, found, after, rfl, hfound, (List.forall_mem_cons.1 hbefore).2⟩

theorem firstBounds?_eq_none_iff {delimiters s : List Char} :
    firstBounds? delimiters s = none ↔
      ∀ delimiter ∈ delimiters, ∀ lower upper, ¬ Separates delimiter s lower upper := by
  induction delimiters with
  | nil => simp [firstBounds?]
  | cons delimiter delimiters ih =>
      rw [List.forall_mem_cons, ← bounds?_eq_none_iff, ← ih, firstBounds?]
      cases bounds? delimiter s <;> simp

/-! ### Literals -/

/-- Whether brackets stand in a text. -/
def hasBracket (s : List Char) : Bool := s.any fun c => c == '[' || c == ']'

/-- **A token encloses what stands between brackets at its ends, if there is something and it holds
no brackets itself.** -/
theorem bracketed?_eq_some_iff {token inner : List Char} : bracketed? token = some inner ↔
    token = '[' :: (inner ++ [']']) ∧ inner ≠ [] ∧ hasBracket inner = false := by
  constructor
  · intro h
    unfold bracketed? at h
    split at h
    next => cases h
    next contents henclosed =>
      split at h
      next => cases h
      next hplain =>
        cases h
        refine ⟨eq_of_enclosed?_eq_some henclosed, ?_⟩
        simpa [hasBracket] using hplain
  · rintro ⟨rfl, hne, hplain⟩
    simpa [bracketed?, enclosed?_append, hne, hasBracket] using hplain

/-- A token in brackets, with something between them that has no brackets in it. -/
structure Enclosed (token inner : List Char) : Prop where
  text : token = '[' :: (inner ++ [']'])
  ne_nil : inner ≠ []
  plain : hasBracket inner = false

theorem bracketed?_eq_some_iff_enclosed {token inner : List Char} :
    bracketed? token = some inner ↔ Enclosed token inner :=
  bracketed?_eq_some_iff.trans ⟨fun h => ⟨h.1, h.2.1, h.2.2⟩, fun h => ⟨h.text, h.ne_nil, h.plain⟩⟩

/-- What a token can be taken for. -/
inductive Literal where
  | missing
  | truth (b : Bool)
  | bounds (lower upper : List Char)
  | list (pieces : List (List Char))
  | scalar (token : List Char)
deriving DecidableEq, Repr

/-- The parts that are cast as scalars, in order. -/
def Literal.parts : Literal → List (List Char)
  | missing => []
  | truth _ => []
  | bounds lower upper => [lower, upper]
  | list pieces => pieces
  | scalar token => [token]

/-- The words that stand for something else: the one for no value, unless a string is declared, and
without a declared type those for the truth values. -/
inductive SpecialWord (type : Option DataType) (token : List Char) : Literal → Prop
  | missing : type ≠ some .string → sameLetters token "null".toList = true →
      SpecialWord type token .missing
  | truth (b : Bool) : type = none → sameLetters token (toString b).toList = true →
      SpecialWord type token (.truth b)

/-- What a token is taken for. -/
inductive Written (type : Option DataType) (operator : Operator) (delimiters token : List Char) :
    Literal → Prop
  | word {literal : Literal} : SpecialWord type token literal →
      Written type operator delimiters token literal
  | bounds {inner lower upper : List Char} : Enclosed token inner → operator.isRange = true →
      FirstBounds delimiters inner lower upper →
      Written type operator delimiters token (.bounds lower upper)
  | list {inner : List Char} {pieces : List (List Char)} : Enclosed token inner →
      (operator.isRange = true →
        ∀ delimiter ∈ delimiters, ∀ lower upper, ¬ Separates delimiter inner lower upper) →
      operator.acceptsArray = true → Pieces ',' inner pieces →
      Written type operator delimiters token (.list pieces)
  /-- No word, and in brackets only if the operator takes no lists. -/
  | scalar : (∀ literal, ¬ SpecialWord type token literal) →
      (∀ inner, Enclosed token inner → operator.acceptsArray = false) →
      Written type operator delimiters token (.scalar token)

/-- What a token is taken for, found by asking one question after the other. -/
def readLiteral (type : Option DataType) (operator : Operator) (delimiters token : List Char) :
    Literal :=
  if type ≠ some .string ∧ sameLetters token "null".toList then .missing
  else if type = none ∧ sameLetters token "true".toList then .truth true
  else if type = none ∧ sameLetters token "false".toList then .truth false
  else
    match bracketed? token with
    | none => .scalar token
    | some inner =>
        match if operator.isRange then firstBounds? delimiters inner else none with
        | some (lower, upper) => .bounds lower upper
        | none => if operator.acceptsArray then .list (splitOn ',' inner) else .scalar token

section Read

variable {type : Option DataType} {operator : Operator} {delimiters token : List Char}

/-- A token is like one word only. -/
theorem map_toLower_eq_of_sameLetters {s t : List Char} (hs : sameLetters token s = true)
    (ht : sameLetters token t = true) : s.map Char.toLower = t.map Char.toLower :=
  (beq_iff_eq.1 hs).symm.trans (beq_iff_eq.1 ht)

/-- No word stands in brackets. -/
theorem Enclosed.not_specialWord {inner : List Char} {literal : Literal} (h : Enclosed token inner) :
    ¬ SpecialWord type token literal := by
  rw [h.text]
  intro hword
  cases hword with
  | missing _ hnull => cases hnull
  | truth b _ htruth => cases b <;> cases htruth

/-- The words are asked for first. -/
theorem readLiteral_of_specialWord {literal : Literal} (h : SpecialWord type token literal) :
    readLiteral type operator delimiters token = literal := by
  cases h with
  | missing htype hnull => exact if_pos ⟨htype, hnull⟩
  | truth b htype htruth =>
      have hnull : ¬ sameLetters token "null".toList = true := by
        intro hnull
        have hsame := map_toLower_eq_of_sameLetters hnull htruth
        revert hsame
        cases b <;> decide
      rw [readLiteral, if_neg fun h => hnull h.2]
      cases b with
      | true => exact if_pos ⟨htype, htruth⟩
      | false =>
          have htrue : ¬ sameLetters token "true".toList = true := by
            intro htrue
            have hsame := map_toLower_eq_of_sameLetters htrue htruth
            revert hsame
            decide
          rw [if_neg fun h => htrue h.2, if_pos ⟨htype, htruth⟩]

/-- What is no word is taken apart. -/
theorem readLiteral_of_not_specialWord (h : ∀ literal, ¬ SpecialWord type token literal) :
    readLiteral type operator delimiters token =
      match bracketed? token with
      | none => .scalar token
      | some inner =>
          match if operator.isRange then firstBounds? delimiters inner else none with
          | some (lower, upper) => .bounds lower upper
          | none => if operator.acceptsArray then .list (splitOn ',' inner) else .scalar token := by
  rw [readLiteral, if_neg fun hnull => h _ (.missing hnull.1 hnull.2),
    if_neg fun htrue => h _ (.truth true htrue.1 htrue.2),
    if_neg fun hfalse => h _ (.truth false hfalse.1 hfalse.2)]

/-- Only operators that take lists take bounds. -/
theorem Operator.acceptsArray_of_isRange {op : Operator} (h : op.isRange = true) :
    op.acceptsArray = true := by
  cases op <;> first | rfl | cases h

/-- Everything is written as it is read. -/
theorem written_readLiteral (type : Option DataType) (operator : Operator)
    (delimiters token : List Char) :
    Written type operator delimiters token (readLiteral type operator delimiters token) := by
  by_cases hword : ∃ literal, SpecialWord type token literal
  · obtain ⟨literal, hword⟩ := hword
    rw [readLiteral_of_specialWord hword]
    exact .word hword
  rw [not_exists] at hword
  rw [readLiteral_of_not_specialWord hword]
  cases hbracketed : bracketed? token with
  | none =>
      refine .scalar hword fun inner hinner => ?_
      rw [bracketed?_eq_some_iff_enclosed.2 hinner] at hbracketed
      cases hbracketed
  | some inner =>
      have hinner := bracketed?_eq_some_iff_enclosed.1 hbracketed
      dsimp only
      split
      next lower upper hbounds =>
        obtain ⟨hrange, hbounds⟩ := Option.ite_none_right_eq_some.1 hbounds
        exact .bounds hinner hrange (firstBounds?_eq_some_iff.1 hbounds)
      next hbounds =>
        split
        next harray =>
          refine .list hinner (fun hrange => ?_) harray (splitOn_eq_iff.1 rfl)
          rw [if_pos hrange] at hbounds
          exact firstBounds?_eq_none_iff.1 hbounds
        next harray => exact .scalar hword fun _ _ => Bool.eq_false_iff.2 harray

/-- **Tokens are read by the grammar**, and every token is written in one way only. -/
theorem readLiteral_eq_iff {literal : Literal} :
    readLiteral type operator delimiters token = literal ↔
      Written type operator delimiters token literal := by
  constructor
  · rintro rfl
    exact written_readLiteral type operator delimiters token
  · intro h
    cases h with
    | word hword => exact readLiteral_of_specialWord hword
    | bounds hinner hrange hbounds =>
        rw [readLiteral_of_not_specialWord fun _ => hinner.not_specialWord]
        simp only [bracketed?_eq_some_iff_enclosed.2 hinner, hrange, if_true,
          firstBounds?_eq_some_iff.2 hbounds]
    | list hinner hbounds harray hpieces =>
        have hnone : (if operator.isRange then firstBounds? delimiters _ else none) = none :=
          ite_eq_right_iff.2 fun hrange => firstBounds?_eq_none_iff.2 (hbounds hrange)
        rw [readLiteral_of_not_specialWord fun _ => hinner.not_specialWord]
        simp only [bracketed?_eq_some_iff_enclosed.2 hinner, hnone, harray, if_true,
          splitOn_eq_iff.2 hpieces]
    | scalar hword hplain =>
        rw [readLiteral_of_not_specialWord hword]
        cases hbracketed : bracketed? token with
        | none => rfl
        | some inner =>
            have harray := hplain inner (bracketed?_eq_some_iff_enclosed.1 hbracketed)
            have hrange : ¬ operator.isRange = true := by
              intro hrange
              rw [Operator.acceptsArray_of_isRange hrange] at harray
              cases harray
            simp [hrange, harray]

/-- The first delimiter that separates two bounds decides, and one that stands twice separates
none. -/
example : readLiteral (some .int) .between ['|', ':'] "[1|x:2]".toList =
      .bounds "1".toList "x:2".toList ∧
    readLiteral (some .int) .between ['|', ':'] "[1|2|3]".toList = .list ["1|2|3".toList] := by
  decide

end Read

/-! ### Values of literals -/

/-- The value of a literal whose parts all have values of the declared type. -/
inductive Gives (type : Option DataType) : Literal → Value → Prop
  | missing : Gives type .missing .null
  | truth (b : Bool) : Gives type (.truth b) (.bool b)
  | bounds {lower upper : List Char} {v w : Value} : castScalar lower type = .ok v →
      castScalar upper type = .ok w → Gives type (.bounds lower upper) (.range v w)
  | list {pieces : List (List Char)} {items : List Value} :
      List.Forall₂ (fun piece v => castScalar piece type = .ok v) pieces items →
      Gives type (.list pieces) (.array items)
  | scalar {token : List Char} {v : Value} : castScalar token type = .ok v →
      Gives type (.scalar token) v

/-- The fault of the first of several parts that has no value of the declared type; it names the
part. -/
def FirstFault (type : Option DataType) (parts : List (List Char)) (failure : Failure) : Prop :=
  ∃ before part after, parts = before ++ part :: after ∧
    (∀ p ∈ before, ∃ v, castScalar p type = .ok v) ∧ castScalar part type = .error failure ∧
    ∃ declared fault, type = some declared ∧
      failure = .cast declared (String.ofList part) fault

/-- The value of a literal. -/
def castLiteral (type : Option DataType) : Literal → Except Failure Value
  | .missing => .ok .null
  | .truth b => .ok (.bool b)
  | .bounds lower upper => do
      let lower ← castScalar lower type
      let upper ← castScalar upper type
      pure (.range lower upper)
  | .list pieces => do
      let items ← castItems type pieces
      pure (.array items)
  | .scalar token => castScalar token type

/-- **To cast a token is to read a literal and to cast that.** -/
theorem cast_eq_castLiteral (token : List Char) (type : Option DataType) (operator : Operator)
    (delimiters : List Char) : cast token type operator delimiters =
      castLiteral type (readLiteral type operator delimiters token) := by
  unfold cast readLiteral
  split
  · rfl
  split
  · rfl
  split
  · rfl
  cases bracketed? token with
  | none => rfl
  | some inner =>
      dsimp only
      cases (if operator.isRange then firstBounds? delimiters inner else none) with
      | some bounds => rfl
      | none => cases operator.acceptsArray <;> rfl

section Values

variable {type : Option DataType}

/-- A scalar that fails is named. -/
theorem exists_of_castScalar_eq_error {token : List Char} {failure : Failure}
    (h : castScalar token type = .error failure) : ∃ declared fault, type = some declared ∧
      failure = .cast declared (String.ofList token) fault := by
  cases type with
  | none => cases h
  | some declared =>
      simp only [castScalar] at h
      split at h
      next => cases h
      next fault _ =>
        cases h
        exact ⟨declared, fault, rfl, rfl⟩

/-- **A list is cast item by item.** -/
theorem castItems_eq_ok_iff {type : Option DataType} {pieces : List (List Char)}
    {items : List Value} : castItems type pieces = .ok items ↔
      List.Forall₂ (fun piece v => castScalar piece type = .ok v) pieces items := by
  induction pieces generalizing items with
  | nil => simp [castItems, eq_comm]
  | cons piece pieces ih =>
      rw [castItems, List.forall₂_cons_left_iff, bind_eq_ok_iff]
      constructor
      · rintro ⟨v, hv, h⟩
        obtain ⟨vs, hvs, h⟩ := bind_eq_ok_iff.1 h
        exact ⟨v, vs, hv, ih.1 hvs, (Except.ok.inj h).symm⟩
      · rintro ⟨v, vs, hv, hvs, rfl⟩
        exact ⟨v, hv, bind_eq_ok_iff.2 ⟨vs, ih.2 hvs, rfl⟩⟩

/-- **A list fails at its first item without a value.** -/
theorem castItems_eq_error_iff {pieces : List (List Char)} {failure : Failure} :
    castItems type pieces = .error failure ↔ FirstFault type pieces failure := by
  induction pieces with
  | nil => simp [castItems, FirstFault]
  | cons piece pieces ih =>
      rw [castItems]
      cases hpiece : castScalar piece type with
      | error failure' =>
          constructor
          · intro h
            cases h
            exact ⟨[], piece, pieces, rfl, by simp, hpiece, exists_of_castScalar_eq_error hpiece⟩
          · rintro ⟨before, part, after, heq, hbefore, hpart, -⟩
            -- no item stands before the first one, which has no value
            cases before with
            | nil =>
                cases heq
                cases hpiece.symm.trans hpart
                rfl
            | cons first before =>
                cases heq
                obtain ⟨v, hv⟩ := hbefore _ List.mem_cons_self
                rw [hpiece] at hv
                cases hv
      | ok v =>
          have hrest : (do
              let values ← castItems type pieces
              pure (v :: values)) = Except.error failure ↔
              castItems type pieces = .error failure := by
            cases castItems type pieces <;> simp [bind, Except.bind, pure, Except.pure]
          refine hrest.trans (ih.trans ?_)
          constructor
          · rintro ⟨before, part, after, rfl, hbefore, hpart⟩
            exact ⟨piece :: before, part, after, rfl,
              List.forall_mem_cons.2 ⟨⟨v, hpiece⟩, hbefore⟩, hpart⟩
          · rintro ⟨before, part, after, heq, hbefore, hpart⟩
            cases before with
            | nil =>
                cases heq
                rw [hpiece] at hpart
                cases hpart.1
            | cons first before =>
                cases heq
                exact ⟨before, part, after, rfl, (List.forall_mem_cons.1 hbefore).2, hpart⟩

/-- A literal has a value exactly if its parts have. -/
theorem castLiteral_eq_ok_iff {literal : Literal} {v : Value} :
    castLiteral type literal = .ok v ↔ Gives type literal v := by
  constructor
  · intro h
    cases literal with
    | missing => cases h; exact .missing
    | truth b => cases h; exact .truth b
    | bounds lower upper =>
        obtain ⟨x, hx, h⟩ := bind_eq_ok_iff.1 h
        obtain ⟨y, hy, h⟩ := bind_eq_ok_iff.1 h
        cases h
        exact .bounds hx hy
    | list pieces =>
        obtain ⟨items, hitems, h⟩ := bind_eq_ok_iff.1 h
        cases h
        exact .list (castItems_eq_ok_iff.1 hitems)
    | scalar token => exact .scalar h
  · intro h
    cases h with
    | missing => rfl
    | truth b => rfl
    | bounds hx hy => exact bind_eq_ok_iff.2 ⟨_, hx, bind_eq_ok_iff.2 ⟨_, hy, rfl⟩⟩
    | list hitems => exact bind_eq_ok_iff.2 ⟨_, castItems_eq_ok_iff.2 hitems, rfl⟩
    | scalar h => exact h

/-- A literal fails exactly if the list of its parts fails, and with the same fault. -/
theorem castLiteral_eq_error_iff {literal : Literal} {failure : Failure} :
    castLiteral type literal = .error failure ↔ FirstFault type literal.parts failure := by
  rw [← castItems_eq_error_iff]
  cases literal with
  | missing => simp [castLiteral, Literal.parts, castItems]
  | truth b => simp [castLiteral, Literal.parts, castItems]
  | bounds lower upper =>
      simp only [castLiteral, Literal.parts, castItems]
      cases castScalar lower type <;> cases castScalar upper type <;>
        simp [bind, Except.bind, pure, Except.pure]
  | list pieces =>
      simp only [castLiteral, Literal.parts]
      cases castItems type pieces <;> simp [bind, Except.bind, pure, Except.pure]
  | scalar token =>
      simp only [castLiteral, Literal.parts, castItems]
      cases castScalar token type <;> simp [bind, Except.bind, pure, Except.pure]

end Values

/-! ### Tokens -/

/-- **The caster follows the grammar.**  Every token is written in exactly one way.  It has a value
exactly if every part of it has a value of the declared type, and then its value is put together
from these; it fails exactly if some part has none, with the fault of the first such part, and the
fault names the part. -/
theorem written_of_cast (token : List Char) (type : Option DataType) (operator : Operator)
    (delimiters : List Char) : ∃ literal,
      (∀ other, Written type operator delimiters token other ↔ other = literal) ∧
      (∀ v, cast token type operator delimiters = .ok v ↔ Gives type literal v) ∧
      ∀ failure, cast token type operator delimiters = .error failure ↔
        FirstFault type literal.parts failure := by
  refine ⟨readLiteral type operator delimiters token, fun other => ?_, fun v => ?_,
    fun failure => ?_⟩
  · exact readLiteral_eq_iff.symm.trans eq_comm
  · rw [cast_eq_castLiteral]
    exact castLiteral_eq_ok_iff
  · rw [cast_eq_castLiteral]
    exact castLiteral_eq_error_iff

/-! ### Dialects -/

namespace Dialect

variable {d : Dialect} {token : String} {t : Term} {s : List Char} {hint : Option DataType}

/-- What the caster of a dialect gets to see of a token without its type. -/
def seen (d : Dialect) (operator : Operator) (s : List Char) : List Char :=
  if d.bracesAreLists then bracesToBrackets operator s else s

/-- A token whose type is at fault fails before anything is cast. -/
theorem applyCast_of_fault {failure : Failure} (h : splitTypeHint token.toList = .error failure) :
    d.applyCast token t = .error failure := by
  rw [applyCast, h]
  rfl

/-- **A token is cast as the literal that it is read as.** -/
theorem applyCast_of_split (h : splitTypeHint token.toList = .ok (s, hint)) :
    d.applyCast token t =
      (castLiteral (hint.or t.dataType) (readLiteral (hint.or t.dataType) t.operator
        d.rangeDelimiters (d.seen t.operator s))).map fun v =>
          { t with dataType := hint.or t.dataType, value := v } := by
  rw [← cast_eq_castLiteral, applyCast, h, seen]
  cases hint <;> rfl

/-- A dialect takes a token for a literal: the term gets the value of the literal and the type, or
the first part of the literal without a value is at fault. -/
structure TakesFor (d : Dialect) (token : String) (t : Term) (type : Option DataType)
    (literal : Literal) : Prop where
  ok : ∀ u, d.applyCast token t = .ok u ↔
    ∃ v, Gives type literal v ∧ u = { t with dataType := type, value := v }
  error : ∀ failure, d.applyCast token t = .error failure ↔
    FirstFault type literal.parts failure

/-- **A dialect takes a token for what it is written as.** -/
theorem takesFor_of_written {literal : Literal}
    (hsplit : splitTypeHint token.toList = .ok (s, hint))
    (h : Written (hint.or t.dataType) t.operator d.rangeDelimiters (d.seen t.operator s) literal) :
    d.TakesFor token t (hint.or t.dataType) literal := by
  have hcast := applyCast_of_split (d := d) (t := t) hsplit
  rw [readLiteral_eq_iff.2 h] at hcast
  refine ⟨fun u => ?_, fun failure => ?_⟩
  · rw [hcast]
    simp only [← castLiteral_eq_ok_iff]
    cases castLiteral (hint.or t.dataType) literal <;> simp [Except.map, eq_comm]
  · rw [hcast, ← castLiteral_eq_error_iff]
    cases castLiteral (hint.or t.dataType) literal <;> simp [Except.map]

end Dialect

end WhereClause

/-
**How a token is read as a value.**

The caster tries one way of reading a token after the other.  Whatever it gives, it was read in one
of five ways: as the word for no value, as a truth value, as two bounds, as a list, or as a scalar.
Here each of them says what the token looks like and where the parts of the value come from, so that
what holds of every value is proved from these five cases, and no proof follows the caster again.

Main definitions:

* `WhereClause.DataType.admits` — the values of a declared type;
* `WhereClause.Reading` — the five ways in which a token is read.

Main results:

* `WhereClause.admits_of_castScalar` — a scalar is one of its declared type;
* `WhereClause.reading_of_cast` — **a token that has a value is read in one of the five ways**.
-/

import WhereClause.Proofs.ValueGrammar

set_option relaxedAutoImplicit false
set_option autoImplicit false

namespace WhereClause

open Text

/-! ### Scalars -/

/-- Whether a value is one of a declared type.  The two types of natural numbers have the same
values. -/
def DataType.admits : DataType → Value → Bool
  | .string, .string _ => true
  | .int, .int _ => true
  | .int64, .int64 _ => true
  | .float, .float _ => true
  | .float64, .float64 _ => true
  | .uint, .uint _ => true
  | .uint64, .uint _ => true
  | .date, .date _ => true
  | .time, .time _ => true
  | .dateTime, .dateTime _ => true
  | _, _ => false

/-- Every value of a declared type is a scalar. -/
theorem DataType.shape_of_admits {type : DataType} {v : Value} (h : type.admits v = true) :
    v.shape = .scalar := by
  cases type <;> cases v <;> first | rfl | cases h

/-- What is read as a scalar of a type is a value of that type. -/
theorem admits_of_readScalar {type : DataType} {token : List Char} {v : Value}
    (h : readScalar type token = .ok v) : type.admits v = true := by
  cases type <;> simp only [readScalar] at h <;> (try split at h) <;> cases h <;> rfl

/-- **A scalar is one of its declared type**, and a string without one. -/
theorem admits_of_castScalar {type : Option DataType} {token : List Char} {v : Value}
    (h : castScalar token type = .ok v) : (type.getD .string).admits v = true := by
  cases type with
  | none => cases h; rfl
  | some type =>
      simp only [castScalar] at h
      split at h
      next hread => cases h; exact admits_of_readScalar hread
      next => cases h

/-- Without a declared type, or as a string, a scalar is its own text. -/
theorem castScalar_of_textual {type : Option DataType} (h : type.getD .string = .string)
    (token : List Char) : castScalar token type = .ok (.string (String.ofList token)) := by
  cases type with
  | none => rfl
  | some type => cases h; rfl

/-- Every item of a list is one of the declared type. -/
theorem admits_of_castItems {type : Option DataType} {pieces : List (List Char)}
    {items : List Value}
    (h : List.Forall₂ (fun piece v => castScalar piece type = .ok v) pieces items) :
    ∀ v ∈ items, (type.getD .string).admits v = true := by
  induction h with
  | nil => simp
  | cons hpiece _ ih => exact List.forall_mem_cons.2 ⟨admits_of_castScalar hpiece, ih⟩

/-- Without a declared type, or as strings, the items of a list are the texts of its pieces. -/
theorem castItems_of_textual {type : Option DataType} (htype : type.getD .string = .string)
    {pieces : List (List Char)} {items : List Value}
    (h : List.Forall₂ (fun piece v => castScalar piece type = .ok v) pieces items) :
    items = pieces.map fun piece => .string (String.ofList piece) := by
  induction h with
  | nil => rfl
  | cons hpiece _ ih =>
      rw [castScalar_of_textual htype] at hpiece
      cases hpiece
      rw [List.map_cons, ih]

/-! ### Tokens -/

/-- The ways in which a token is read as a value of a declared type, for an operator and with the
characters that may stand between bounds. -/
inductive Reading (type : Option DataType) (operator : Operator)
    (delimiters token : List Char) : Value → Prop
  /-- The word for no value, which a string may be itself. -/
  | missing : type ≠ some .string → sameLetters token "null".toList = true →
      Reading type operator delimiters token .null
  | truth (b : Bool) : type = none → sameLetters token (toString b).toList = true →
      Reading type operator delimiters token (.bool b)
  | bounds {delimiter : Char} {lower upper : List Char} {v w : Value} :
      operator.isRange = true → delimiter ∈ delimiters →
      bracketed? token = some (lower ++ delimiter :: upper) →
      castScalar lower type = .ok v → castScalar upper type = .ok w →
      Reading type operator delimiters token (.range v w)
  | list {pieces : List (List Char)} {items : List Value} :
      operator.acceptsArray = true → pieces ≠ [] →
      bracketed? token = some ([','].intercalate pieces) →
      List.Forall₂ (fun piece v => castScalar piece type = .ok v) pieces items →
      Reading type operator delimiters token (.array items)
  /-- For an operator that takes lists, only a token without contents in brackets is a scalar. -/
  | scalar {v : Value} : (operator.acceptsArray = true → bracketed? token = none) →
      castScalar token type = .ok v → Reading type operator delimiters token v

/-- **A token that has a value is read in one of the five ways.** -/
theorem reading_of_cast {type : Option DataType} {operator : Operator}
    {delimiters token : List Char} {v : Value} (h : cast token type operator delimiters = .ok v) :
    Reading type operator delimiters token v := by
  rw [cast_eq_castLiteral, castLiteral_eq_ok_iff] at h
  have hwritten := written_readLiteral type operator delimiters token
  generalize readLiteral type operator delimiters token = literal at h hwritten
  -- one way of reading for each way in which a token is written
  cases hwritten with
  | word hword =>
      cases hword with
      | missing htype hnull => cases h; exact .missing htype hnull
      | truth b htype htruth => cases h; exact .truth b htype htruth
  | bounds hinner hrange hbounds =>
      cases h with
      | bounds hlower hupper =>
          obtain ⟨before, delimiter, after, rfl, hseparates, -⟩ := hbounds
          have hmem : delimiter ∈ before ++ delimiter :: after := by simp
          refine .bounds hrange hmem ?_ hlower hupper
          rw [bracketed?_eq_some_iff_enclosed, hseparates.text]
          exact hinner
  | list hinner _ harray hpieces =>
      cases h with
      | list hitems =>
          refine .list harray hpieces.ne_nil ?_ hitems
          rw [bracketed?_eq_some_iff_enclosed, hpieces.text]
          exact hinner
  | scalar _ hplain =>
      cases h with
      | scalar hscalar =>
          refine .scalar (fun harray => ?_) hscalar
          rw [Option.eq_none_iff_forall_ne_some]
          intro inner hinner
          rw [hplain inner (bracketed?_eq_some_iff_enclosed.1 hinner)] at harray
          cases harray

end WhereClause

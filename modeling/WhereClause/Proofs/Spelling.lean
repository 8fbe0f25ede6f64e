/-
**What a value is spelled like.**

Where no type but that of strings is declared, the caster takes a token apart and changes nothing: a
string is the token, the items of a list and the bounds of an interval are the pieces of the token,
and only the words for no value and for the truth values stand for something else.  A token may end
in its type, and that is all it loses.

There is one exception.  PostgreSQL reads braces around a list as brackets, and does so before it
knows whether they hold a list.  Where brackets stand inside of them they hold none, and then the
token is a string, but with the brackets in place of the braces.

Main definitions:

* `WhereClause.Flavour.brackets`, `WhereClause.Flavour.delimiters` — the ends of a list, and what
  stands between two bounds;
* `WhereClause.Flavour.Spells` — the texts of a value;
* `WhereClause.Flavour.Garbles` — the tokens with brackets inside braces, for an operator that takes
  lists.

Main results:

* `WhereClause.spells_of_applyCast` — **a value is spelled like its token, unless the token has
  brackets inside braces, and then it is not**.
-/

import WhereClause.Proofs.CastReading
import WhereClause.Proofs.Flavour
import WhereClause.Proofs.TypeHints

set_option relaxedAutoImplicit false
set_option autoImplicit false

namespace WhereClause

open Text

/-! ### Texts of values -/

namespace Flavour

/-- What stands around a list or around two bounds. -/
def brackets : Flavour → List (Char × Char)
  | postgres _ => [('[', ']'), ('\x7b', '\x7d')]
  | mysql => [('[', ']')]

/-- What may stand between two bounds. -/
def delimiters : Flavour → List Char
  | postgres _ => ['|', ':']
  | mysql => ['|']

/-- A text is one of a value: it is a word for no value or for a truth value, it is the string, or
it holds the strings of a list or of two bounds between brackets. -/
inductive Spells (f : Flavour) (s : List Char) : Value → Prop
  | null : sameLetters s "null".toList = true → Spells f s .null
  | bool (b : Bool) : sameLetters s (toString b).toList = true → Spells f s (.bool b)
  | string : Spells f s (.string (String.ofList s))
  | array {ends : Char × Char} {pieces : List (List Char)} : ends ∈ f.brackets →
      s = ends.1 :: ([','].intercalate pieces ++ [ends.2]) →
      Spells f s (.array (pieces.map fun piece => .string (String.ofList piece)))
  | range {ends : Char × Char} {delimiter : Char} {lower upper : List Char} :
      ends ∈ f.brackets → delimiter ∈ f.delimiters →
      s = ends.1 :: (lower ++ delimiter :: upper ++ [ends.2]) →
      Spells f s (.range (.string (String.ofList lower)) (.string (String.ofList upper)))

/-- A string is spelled like itself only. -/
theorem Spells.eq_ofList {f : Flavour} {s : List Char} {x : String} (h : f.Spells s (.string x)) :
    x = String.ofList s := by
  cases h
  rfl

/-- A text in braces around `inner` in which further brackets stand, for an operator that takes
lists. -/
structure Garbles (f : Flavour) (operator : Operator) (s inner : List Char) : Prop where
  braces : ('\x7b', '\x7d') ∈ f.brackets
  acceptsArray : operator.acceptsArray = true
  text : s = '\x7b' :: (inner ++ ['\x7d'])
  bracket : hasBracket inner = true

@[simp] theorem rangeDelimiters_dialect (f : Flavour) (r : ReservedKeys) :
    (f.dialect r).rangeDelimiters = f.delimiters := by
  cases f <;> rfl

@[simp] theorem bracesAreLists_dialect (f : Flavour) (r : ReservedKeys) :
    (f.dialect r).bracesAreLists = true ↔ ('\x7b', '\x7d') ∈ f.brackets := by
  cases f <;> simp [dialect, WhereClause.postgres, WhereClause.mysql, brackets]

theorem brackets_mem (f : Flavour) : ('[', ']') ∈ f.brackets := by
  cases f <;> exact List.mem_cons_self

end Flavour

/-! ### Braces -/

/-- A list in braces is read as one in brackets, for an operator that takes lists; every other text
is read as it is. -/
theorem bracesToBrackets_eq_or (operator : Operator) (s : List Char) :
    Dialect.bracesToBrackets operator s = s ∨ operator.acceptsArray = true ∧
      ∃ inner, inner ≠ [] ∧ s = '\x7b' :: (inner ++ ['\x7d']) ∧
        Dialect.bracesToBrackets operator s = '[' :: (inner ++ [']']) := by
  unfold Dialect.bracesToBrackets
  split
  next => exact .inl rfl
  next inner henclosed =>
    split
    next hinner =>
      have hs := eq_of_enclosed?_eq_some henclosed
      simp only [Bool.and_eq_true, Bool.not_eq_true', List.isEmpty_eq_false_iff] at hinner
      exact .inr ⟨hinner.2, inner, hinner.1, hs, rfl⟩
    next => exact .inl rfl

/-- Braces around something are read as brackets, for an operator that takes lists. -/
theorem bracesToBrackets_braces {operator : Operator} (h : operator.acceptsArray = true)
    {inner : List Char} (hne : inner ≠ []) :
    Dialect.bracesToBrackets operator ('\x7b' :: (inner ++ ['\x7d'])) =
      '[' :: (inner ++ [']']) := by
  simp [Dialect.bracesToBrackets, enclosed?_append, h, hne]

/-! ### Tokens -/

variable {f : Flavour} {operator : Operator} {type : Option DataType}

/-- A token that is read as it is spells its value. -/
theorem spells_of_reading {s : List Char} {v : Value} (htype : type.getD .string = .string)
    (h : Reading type operator f.delimiters s v) : f.Spells s v := by
  cases h with
  | missing _ hnull => exact .null hnull
  | truth b _ htruth => exact .bool b htruth
  | bounds _ hdelimiter hinner hlower hupper =>
      rw [castScalar_of_textual htype] at hlower hupper
      cases hlower
      cases hupper
      exact .range f.brackets_mem hdelimiter ((bracketed?_eq_some_iff.1 hinner).1)
  | list _ _ hinner hitems =>
      rw [castItems_of_textual htype hitems]
      exact .array f.brackets_mem ((bracketed?_eq_some_iff.1 hinner).1)
  | scalar _ hscalar =>
      rw [castScalar_of_textual htype] at hscalar
      cases hscalar
      exact .string

/-- A list in braces that is read as one in brackets spells its value, unless brackets stand inside
of it; then the value is the text with the brackets in place of the braces. -/
theorem spells_of_reading_braces {inner : List Char} {v : Value}
    (htype : type.getD .string = .string) (hbraces : ('\x7b', '\x7d') ∈ f.brackets)
    (harray : operator.acceptsArray = true) (hne : inner ≠ [])
    (h : Reading type operator f.delimiters ('[' :: (inner ++ [']'])) v) :
    if hasBracket inner then v = .string (String.ofList ('[' :: (inner ++ [']'])))
    else f.Spells ('\x7b' :: (inner ++ ['\x7d'])) v := by
  cases h with
  | missing _ hnull => cases hnull
  | truth b _ htruth => cases b <;> cases htruth
  | bounds _ hdelimiter hinner hlower hupper =>
      rw [castScalar_of_textual htype] at hlower hupper
      cases hlower
      cases hupper
      obtain ⟨htoken, -, hplain⟩ := bracketed?_eq_some_iff.1 hinner
      have hpieces := List.append_cancel_right (List.cons.inj htoken).2
      subst hpieces
      rw [if_neg (by simp [hplain])]
      exact .range hbraces hdelimiter rfl
  | list _ _ hinner hitems =>
      rw [castItems_of_textual htype hitems]
      obtain ⟨htoken, -, hplain⟩ := bracketed?_eq_some_iff.1 hinner
      have hpieces := List.append_cancel_right (List.cons.inj htoken).2
      subst hpieces
      rw [if_neg (by simp [hplain])]
      exact .array hbraces rfl
  | scalar hnone hscalar =>
      rw [castScalar_of_textual htype] at hscalar
      cases hscalar
      cases hbracket : hasBracket inner with
      | true => rfl
      | false =>
          have hinner : bracketed? ('[' :: (inner ++ [']'])) = some inner :=
            bracketed?_eq_some_iff.2 ⟨rfl, hne, hbracket⟩
          rw [hnone harray] at hinner
          cases hinner

/-- **A value is spelled like its token, unless the token has brackets inside braces, and then it is
not.** -/
theorem spells_of_applyCast {r : ReservedKeys} {token : String} {t u : Term}
    (h : (f.dialect r).applyCast token t = .ok u) (htype : u.dataType.getD .string = .string) :
    ∃ s hint, splitTypeHint token.toList = .ok (s, hint) ∧ token.toList = s ++ hintText hint ∧
      ((∀ inner, ¬ f.Garbles t.operator s inner) → f.Spells s u.value) ∧
      ∀ inner, f.Garbles t.operator s inner →
        u.value = .string (String.ofList ('[' :: (inner ++ [']']))) ∧ ¬ f.Spells s u.value := by
  obtain ⟨s, hint, v, hsplit, hcast, rfl⟩ := Dialect.applyCast_eq_ok_iff.1 h
  rw [Flavour.rangeDelimiters_dialect] at hcast
  have hreading := reading_of_cast hcast
  refine ⟨s, hint, hsplit, eq_of_splitTypeHint hsplit, fun hplain => ?_, fun inner hgarbles => ?_⟩
  -- a token in braces may have been read as another one, all others are read as they are
  · split at hreading
    next hbraces =>
      rcases bracesToBrackets_eq_or t.operator s with hsame | ⟨harray, inner, hne, hs, hread⟩
      · rw [hsame] at hreading
        exact spells_of_reading htype hreading
      · rw [hread] at hreading
        have hmem := (f.bracesAreLists_dialect r).1 hbraces
        have hspells := spells_of_reading_braces htype hmem harray hne hreading
        rw [if_neg fun hbracket => hplain inner ⟨hmem, harray, hs, hbracket⟩] at hspells
        rw [hs]
        exact hspells
    next => exact spells_of_reading htype hreading
  · obtain ⟨hmem, harray, rfl, hbracket⟩ := hgarbles
    have hne : inner ≠ [] := by
      rintro rfl
      cases hbracket
    rw [if_pos ((f.bracesAreLists_dialect r).2 hmem), bracesToBrackets_braces harray hne]
      at hreading
    have hv := spells_of_reading_braces htype hmem harray hne hreading
    rw [if_pos hbracket] at hv
    -- the value begins with a bracket, and the token with a brace
    refine ⟨hv, ?_⟩
    change ¬ f.Spells _ v
    rw [hv]
    intro hspells
    have htexts := congrArg String.toList hspells.eq_ofList
    rw [String.toList_ofList, String.toList_ofList] at htexts
    cases htexts

/-- A list in braces, with the type of strings behind it, is spelled like what is left of its
token. -/
theorem spells_of_list_in_braces : ∃ u,
    (Flavour.dialect (.postgres .question) {}).applyCast "{a,b}::string"
        { key := "a", operator := .eq } = .ok u ∧
      u.dataType.getD .string = .string ∧
      Flavour.Spells (.postgres .question) "{a,b}".toList u.value := by
  have hcast : ∃ u, (Flavour.dialect (.postgres .question) {}).applyCast "{a,b}::string"
      { key := "a", operator := .eq } = .ok u ∧ u.dataType.getD .string = .string :=
    ⟨_, rfl, rfl⟩
  obtain ⟨u, hcast, htype⟩ := hcast
  obtain ⟨s, hint, hsplit, -, hspells, -⟩ := spells_of_applyCast hcast htype
  have hs : splitTypeHint "{a,b}::string".toList = .ok ("{a,b}".toList, some .string) := rfl
  rw [hs] at hsplit
  cases hsplit
  refine ⟨u, hcast, htype, hspells fun inner hgarbles => ?_⟩
  have hinner : "a,b".toList = inner :=
    List.append_cancel_right (List.cons.inj hgarbles.text).2
  have hbracket := hgarbles.bracket
  rw [← hinner] at hbracket
  cases hbracket

/-- The braces around a list in brackets are lost. -/
theorem not_spells_of_nested_brackets : ∃ t,
    (Flavour.dialect (.postgres .question) {}).parse "a" "{[1]}" = .ok t ∧
      splitTypeHint "{[1]}".toList = .ok ("{[1]}".toList, none) ∧ t.dataType = none ∧
      t.value = .string "[[1]]" ∧
      ¬ Flavour.Spells (.postgres .question) "{[1]}".toList t.value := by
  refine ⟨_, rfl, rfl, rfl, rfl, fun h => ?_⟩
  have htexts := congrArg String.toList h.eq_ofList
  revert htexts
  decide

end WhereClause

/-
**What a reader finds in a predicate.**

A reader that knows how identifiers are quoted finds in the text of a predicate exactly the pieces
that it was written from, provided that no fixed text holds a character that the reader takes for
something else, and that behind every name stands a fixed text that does not begin with a dot.

Main definitions:

* `WhereClause.Flavour.isMark` — the characters that only names and placeholders may bring in;
* `WhereClause.Flavour.Clean`, `WhereClause.separated` — the two conditions on a form;
* `WhereClause.Sql.tokens`, `WhereClause.Sql.lexemes` — what the reader finds.

Main results:

* `WhereClause.Flavour.lex_textFrom` — **the reader finds the pieces of a predicate**;
* `WhereClause.joinNames_tokens`, `WhereClause.names_lexemes` — and the dotted names in it are its
  names, cut at their dots;
* `WhereClause.masked_tokens` — with its names masked it is its form, filled with marks.
-/

import WhereClause.Proofs.Lexing
import WhereClause.Proofs.Outline

set_option relaxedAutoImplicit false
set_option autoImplicit false

namespace WhereClause

open Text

/-! ### Characters with a meaning -/

/-- The character that a placeholder begins with. -/
def PlaceholderStyle.mark : PlaceholderStyle → Char
  | question => '?'
  | dollar => '$'

namespace Flavour

/-- The characters that only names and placeholders may bring into a predicate: quotes, the
beginnings of placeholders, and digits. -/
def isMark (f : Flavour) (c : Char) : Bool :=
  c == f.quoteMark || c == f.style.mark || c.isDigit

/-- No fixed text of a form holds a character with a meaning. -/
def Clean (f : Flavour) (form : List Fragment) : Prop :=
  ∀ text, .fixed text ∈ form → ∀ c ∈ text.toList, f.isMark c = false

theorem clean_append {f : Flavour} {form form' : List Fragment} :
    f.Clean (form ++ form') ↔ f.Clean form ∧ f.Clean form' := by
  simp only [Clean, List.mem_append, or_imp, forall_and]

theorem Clean.of_cons {f : Flavour} {fragment : Fragment} {form : List Fragment}
    (h : f.Clean (fragment :: form)) : f.Clean form :=
  fun text htext => h text (List.mem_cons_of_mem _ htext)

/-- A fixed text of a clean form holds no quote. -/
theorem Clean.quoteMark_notMem {f : Flavour} {form : List Fragment} (h : f.Clean form)
    {text : String} (htext : .fixed text ∈ form) : f.quoteMark ∉ text.toList := by
  intro hmem
  have := h text htext _ hmem
  simp [isMark] at this

/-- A fixed text of a clean form holds no mark of a placeholder. -/
theorem Clean.mark_notMem {f : Flavour} {form : List Fragment} (h : f.Clean form) {text : String}
    (htext : .fixed text ∈ form) : f.style.mark ∉ text.toList := by
  intro hmem
  have := h text htext _ hmem
  simp [isMark] at this

/-- A fixed text of a clean form holds no digit. -/
theorem Clean.isDigit {f : Flavour} {form : List Fragment} (h : f.Clean form) {text : String}
    (htext : .fixed text ∈ form) : ∀ c ∈ text.toList, c.isDigit = false := by
  intro c hc
  have hmark := h text htext c hc
  simp only [isMark, Bool.or_eq_false_iff] at hmark
  exact hmark.2

theorem quoteMark_ne_mark (f : Flavour) : f.quoteMark ≠ f.style.mark := by
  rcases f with (_ | _) | _ <;> decide

theorem isDigit_quoteMark (f : Flavour) : f.quoteMark.isDigit = false := by
  cases f <;> rfl

theorem quoteMark_ne_dot (f : Flavour) : f.quoteMark ≠ '.' := by
  cases f <;> simp [quoteMark]

theorem mark_ne_dot (f : Flavour) : f.style.mark ≠ '.' := by
  cases f.style <;> simp [PlaceholderStyle.mark]

theorem isDigit_mark (f : Flavour) : f.style.mark.isDigit = false := by
  cases f.style <;> rfl

/-- A placeholder is its mark, and digits. -/
theorem exists_digits_of_placeholder (f : Flavour) (n : Nat) :
    ∃ digits, (f.style.placeholder n).toList = f.style.mark :: digits ∧
      ∀ c ∈ digits, c.isDigit = true := by
  cases f.style with
  | question => exact ⟨[], by simp [PlaceholderStyle.placeholder, PlaceholderStyle.mark], by simp⟩
  | dollar =>
      refine ⟨Nat.toDigits 10 n, ?_, fun c hc => ?_⟩
      · simp [PlaceholderStyle.placeholder, PlaceholderStyle.mark, decimal]
      · exact Nat.isDigit_of_mem_toDigits (by decide) (by decide) hc

/-- A placeholder holds no quote. -/
theorem quoteMark_notMem_placeholder (f : Flavour) (n : Nat) :
    f.quoteMark ∉ (f.style.placeholder n).toList := by
  obtain ⟨digits, hplace, hdigits⟩ := f.exists_digits_of_placeholder n
  rw [hplace]
  intro hmem
  rcases List.mem_cons.1 hmem with hmark | hdigit
  · exact f.quoteMark_ne_mark hmark
  · simpa [f.isDigit_quoteMark] using hdigits _ hdigit

end Flavour

/-- A form that begins with a fixed text, and the text neither empty nor with a dot in front. -/
def closesName : List Fragment → Bool
  | .fixed text :: _ => text.toList.head?.any (· != '.')
  | _ => false

/-- Behind every name stands a fixed text that does not begin with a dot. -/
def separated : List Fragment → Bool
  | [] => true
  | .name :: rest => closesName rest && separated rest
  | _ :: rest => separated rest

theorem closesName_append {form : List Fragment} (h : closesName form = true)
    (form' : List Fragment) : closesName (form ++ form') = true := by
  cases form with
  | nil => cases h
  | cons fragment form =>
      cases fragment with
      | fixed text => exact h
      | place => cases h
      | name => cases h

theorem separated_append {form form' : List Fragment} (h : separated form = true)
    (h' : separated form' = true) : separated (form ++ form') = true := by
  induction form with
  | nil => exact h'
  | cons fragment form ih =>
      cases fragment with
      | fixed text => exact ih h
      | place => exact ih h
      | name =>
          have hboth := Bool.and_eq_true_iff.1 h
          exact Bool.and_eq_true_iff.2 ⟨closesName_append hboth.1 form', ih hboth.2⟩

/-- What begins with such a fixed text begins with a character other than a dot. -/
theorem exists_of_closesName {p : Sql} (h : closesName p.fragments = true) :
    ∃ text c cs rest, p = .code text :: rest ∧ text.toList = c :: cs ∧ c ≠ '.' := by
  cases p with
  | nil => cases h
  | cons piece rest =>
      cases piece with
      | column name => cases h
      | bind value => cases h
      | code text =>
          change text.toList.head?.any (· != '.') = true at h
          cases htext : text.toList with
          | nil => simp [htext] at h
          | cons c cs => exact ⟨text, c, cs, rest, rfl, htext, by simpa [htext] using h⟩

/-! ### Reading a predicate -/

namespace Sql

/-- The tokens of a predicate behind `bound` values. -/
def tokens (placeholder : Nat → String) : Nat → Sql → List Token
  | _, [] => []
  | bound, .code text :: rest => text.toList.map .sign ++ tokens placeholder bound rest
  | bound, .column name :: rest =>
      dotted (splitOn '.' name.toList) ++ tokens placeholder bound rest
  | bound, .bind _ :: rest =>
      (placeholder (bound + 1)).toList.map .sign ++ tokens placeholder (bound + 1) rest

/-- The tokens of a predicate behind `bound` values, with its names put together. -/
def lexemes (placeholder : Nat → String) : Nat → Sql → List Lexeme
  | _, [] => []
  | bound, .code text :: rest => text.toList.map .sign ++ lexemes placeholder bound rest
  | bound, .column name :: rest =>
      .name (splitOn '.' name.toList) :: lexemes placeholder bound rest
  | bound, .bind _ :: rest =>
      (placeholder (bound + 1)).toList.map .sign ++ lexemes placeholder (bound + 1) rest

end Sql

/-- What is written behind a name begins with a character other than a quote. -/
theorem Flavour.head?_textFrom {f : Flavour} {p : Sql} (hclean : f.Clean p.fragments)
    (hclose : closesName p.fragments = true) (bound : Nat) :
    (p.textFrom (quotedName f.quoteMark) f.style.placeholder bound).toList.head? ≠
      some f.quoteMark := by
  obtain ⟨text, c, cs, rest, rfl, htext, -⟩ := exists_of_closesName hclose
  have hquote : f.quoteMark ∉ text.toList := hclean.quoteMark_notMem (by simp)
  rw [Sql.textFrom, String.toList_append, htext, List.cons_append, List.head?_cons]
  intro heq
  rw [htext] at hquote
  exact hquote (by simp [Option.some.inj heq])

/-- **A reader finds the pieces of a predicate.** -/
theorem Flavour.lex_textFrom {f : Flavour} {p : Sql} (hclean : f.Clean p.fragments)
    (hsep : separated p.fragments = true) (bound : Nat) :
    lex f.quoteMark .outside
        (p.textFrom (quotedName f.quoteMark) f.style.placeholder bound).toList =
      some (p.tokens f.style.placeholder bound) := by
  induction p generalizing bound with
  | nil => rfl
  | cons piece rest ih =>
      cases piece with
      | code text =>
          rw [Sql.textFrom, String.toList_append,
            lex_signs (hclean.quoteMark_notMem (List.mem_cons_self ..)), ih hclean.of_cons hsep]
          rfl
      | bind value =>
          rw [Sql.textFrom, String.toList_append,
            lex_signs (f.quoteMark_notMem_placeholder _), ih hclean.of_cons hsep]
          rfl
      | column name =>
          obtain ⟨hclose, hrest⟩ := Bool.and_eq_true_iff.1 hsep
          rw [Sql.textFrom, String.toList_append,
            lex_quotedName f.quoteMark_ne_dot name (head?_textFrom hclean.of_cons hclose bound),
            ih hclean.of_cons hrest]
          rfl

/-! ### Dotted names of a predicate -/

/-- Characters outside of names stay as they are. -/
theorem joinNames_signs (s : List Char) (tokens : List Token) :
    joinNames (s.map .sign ++ tokens) = s.map .sign ++ joinNames tokens := by
  induction s with
  | nil => rfl
  | cons c s ih => simp [joinNames, ih]

/-- **The dotted names that a reader finds in a predicate are its names.** -/
theorem joinNames_tokens (placeholder : Nat → String) {p : Sql}
    (hsep : separated p.fragments = true) (bound : Nat) :
    joinNames (p.tokens placeholder bound) = p.lexemes placeholder bound := by
  induction p generalizing bound with
  | nil => rfl
  | cons piece rest ih =>
      cases piece with
      | code text => rw [Sql.tokens, joinNames_signs, ih hsep, Sql.lexemes]
      | bind value => rw [Sql.tokens, joinNames_signs, ih hsep, Sql.lexemes]
      | column name =>
          obtain ⟨hclose, hrest⟩ := Bool.and_eq_true_iff.1 hsep
          have hdot : (Sql.tokens placeholder bound rest).head? ≠ some (.sign '.') := by
            obtain ⟨text, c, cs, tail, rfl, htext, hc⟩ := exists_of_closesName hclose
            simpa [Sql.tokens, htext] using hc
          have hparts : splitOn '.' name.toList ≠ [] := splitWhere_ne_nil _ _
          rw [Sql.tokens, joinNames_dotted hparts hdot, ih hrest, Sql.lexemes]

@[simp] theorem names_signs (s : List Char) (rest : List Lexeme) :
    names (s.map .sign ++ rest) = names rest := by
  induction s with
  | nil => rfl
  | cons c s ih => exact ih

/-- The names in a predicate, cut at their dots, in order. -/
theorem names_lexemes (placeholder : Nat → String) (bound : Nat) (p : Sql) :
    names (p.lexemes placeholder bound) = p.columns.map fun name => splitOn '.' name.toList := by
  induction p generalizing bound with
  | nil => rfl
  | cons piece rest ih =>
      cases piece with
      | code text => rw [Sql.lexemes, names_signs, ih, Sql.columns_code]
      | bind value => rw [Sql.lexemes, names_signs, ih, Sql.columns_bind]
      | column name =>
          rw [Sql.columns_column, List.map_cons, ← ih bound]
          rfl

/-! ### Masked names -/

/-- A fixed mark for each of some parts of a name, with dots between them. -/
def marks (mark : List Char) (parts : Nat) : String :=
  String.ofList (['.'].intercalate (List.replicate parts mark))

theorem masked_append (mark : List Char) (tokens tokens' : List Token) :
    masked mark (tokens ++ tokens') = masked mark tokens ++ masked mark tokens' :=
  List.flatMap_append

@[simp] theorem masked_signs (mark s : List Char) :
    masked mark (s.map .sign) = s := by
  simp [masked, List.flatMap_map]

/-- A masked name shows the number of its parts. -/
theorem masked_dotted (mark : List Char) (parts : List (List Char)) :
    masked mark (dotted parts) = (marks mark parts.length).toList := by
  rw [marks, String.toList_ofList]
  induction parts with
  | nil => rfl
  | cons part parts ih =>
      cases parts with
      | nil => simp [dotted, masked, List.intercalate]
      | cons next parts =>
          have hcons : masked mark (dotted (part :: next :: parts)) =
              mark ++ '.' :: masked mark (dotted (next :: parts)) := rfl
          rw [hcons, ih]
          simp [List.replicate_succ, List.intercalate_cons_cons]

/-- **A predicate with masked names is its form, filled with marks.** -/
theorem masked_tokens (mark : List Char) (placeholder : Nat → String) (bound : Nat) (p : Sql) :
    masked mark (p.tokens placeholder bound) =
      (Sql.fill placeholder
        (p.columns.map fun name => marks mark (splitOn '.' name.toList).length) bound
        p.fragments).toList := by
  induction p generalizing bound with
  | nil => rfl
  | cons piece rest ih =>
      cases piece <;>
        simp [Sql.tokens, Sql.fill, masked_append, masked_dotted, ih, String.toList_append]

end WhereClause

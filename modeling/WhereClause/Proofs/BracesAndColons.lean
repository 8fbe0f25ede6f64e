/-
**What PostgreSQL reads in a token and MySQL does not.**

Both dialects cast with one caster, but PostgreSQL lets a list stand in braces and bounds stand
around a colon.  On every other token the two give the same term or the same fault.  Braces are
brackets to PostgreSQL and text to MySQL.  Bounds around a colon are a list to MySQL, which may have
a value where the bounds have none, and the other way round.

Main definitions:

* `WhereClause.InBraces`, `WhereClause.ColonBounds` — the tokens on which the dialects differ.

Main results:

* `WhereClause.written_colon_iff` — a further delimiter matters only where it is the first one that
  separates two bounds;
* `WhereClause.applyCast_eq_or_of_dialects` — **the tokens on which the dialects differ**, and what
  each of the two takes them for.
-/

import WhereClause.Proofs.Spelling
import WhereClause.Proofs.TypeHints
import WhereClause.Proofs.ValueGrammar

set_option relaxedAutoImplicit false
set_option autoImplicit false

namespace WhereClause

open Text

/-! ### Where the dialects differ -/

/-- A text in braces around something, for an operator that takes lists. -/
structure InBraces (operator : Operator) (s inner : List Char) : Prop where
  acceptsArray : operator.acceptsArray = true
  text : s = '\x7b' :: (inner ++ ['\x7d'])
  ne_nil : inner ≠ []

/-- Two bounds in brackets around the only colon, which are none around a bar, for the operator that
takes bounds. -/
structure ColonBounds (operator : Operator) (s inner lower upper : List Char) : Prop where
  operator_eq : operator = .between
  enclosed : Enclosed s inner
  bar : ∀ left right, ¬ Separates '|' inner left right
  colon : Separates ':' inner lower upper

section Literals

variable {type : Option DataType} {operator : Operator} {delimiters s : List Char}

/-- Text that does not stand in braces is seen as it is. -/
theorem bracesToBrackets_eq_self (h : ∀ inner, ¬ InBraces operator s inner) :
    Dialect.bracesToBrackets operator s = s := by
  rcases bracesToBrackets_eq_or operator s with hsame | ⟨harray, inner, hne, hs, -⟩
  · exact hsame
  · exact absurd ⟨harray, hs, hne⟩ (h inner)

/-- What stands in brackets does not stand in braces. -/
theorem not_inBraces_of_bracket (rest inner : List Char) :
    ¬ InBraces operator ('[' :: rest) inner := by
  intro h
  cases (List.cons.inj h.text).1

/-- Text in braces is a scalar to the caster. -/
theorem written_of_inBraces {inner : List Char} (h : InBraces operator s inner) :
    Written type operator delimiters s (.scalar s) := by
  rw [h.text]
  refine .scalar (fun literal hword => ?_) fun contents henclosed => ?_
  · cases hword with
    | missing _ hnull => cases hnull
    | truth b _ htruth => cases b <;> cases htruth
  · cases (List.cons.inj henclosed.text).1

/-- The first bounds stay the first ones with further delimiters. -/
theorem FirstBounds.append {inner lower upper : List Char}
    (h : FirstBounds delimiters inner lower upper) (further : List Char) :
    FirstBounds (delimiters ++ further) inner lower upper := by
  obtain ⟨before, delimiter, after, rfl, hseparates, hbefore⟩ := h
  exact ⟨before, delimiter, after ++ further, by simp, hseparates, hbefore⟩

/-- **The colon matters only where it is the first delimiter that separates two bounds.** -/
theorem written_colon_iff (h : ∀ inner lower upper, ¬ ColonBounds operator s inner lower upper)
    (literal : Literal) :
    Written type operator ['|', ':'] s literal ↔ Written type operator ['|'] s literal := by
  have hmono : ∀ other, Written type operator ['|'] s other →
      Written type operator ['|', ':'] s other := by
    intro other hother
    cases hother with
    | word hword => exact .word hword
    | bounds hinner hrange hbounds => exact .bounds hinner hrange (hbounds.append [':'])
    | list hinner hbounds harray hpieces =>
        refine .list hinner (fun hrange => ?_) harray hpieces
        have hbar := hbounds hrange '|' List.mem_cons_self
        have hoperator : operator = .between := by
          cases operator <;> first | rfl | cases hrange
        intro delimiter hdelimiter lower upper hseparates
        rcases List.mem_pair.1 hdelimiter with rfl | rfl
        · exact hbar lower upper hseparates
        · exact h _ _ _ ⟨hoperator, hinner, hbar, hseparates⟩
    | scalar hword hplain => exact .scalar hword hplain
  -- a token is written in one way with either delimiters
  have hread := readLiteral_eq_iff.2 (hmono _ (written_readLiteral type operator ['|'] s))
  rw [← readLiteral_eq_iff, ← readLiteral_eq_iff, hread]

end Literals

/-! ### Both dialects -/

section Dialects

variable {style : PlaceholderStyle} {r r' : ReservedKeys} {token : String} {t : Term}
  {s : List Char} {hint : Option DataType}

@[simp] theorem seen_postgres (style : PlaceholderStyle) (r : ReservedKeys) (operator : Operator)
    (s : List Char) :
    ((Flavour.postgres style).dialect r).seen operator s =
      Dialect.bracesToBrackets operator s := rfl

@[simp] theorem seen_mysql (r : ReservedKeys) (operator : Operator) (s : List Char) :
    (Flavour.mysql.dialect r).seen operator s = s := rfl

/-- On a token with neither braces nor bounds around a colon, the dialects agree. -/
theorem applyCast_eq_of_plain (hsplit : splitTypeHint token.toList = .ok (s, hint))
    (hbraces : ∀ inner, ¬ InBraces t.operator s inner)
    (hcolon : ∀ inner lower upper, ¬ ColonBounds t.operator s inner lower upper) :
    ((Flavour.postgres style).dialect r).applyCast token t =
      (Flavour.mysql.dialect r').applyCast token t := by
  rw [Dialect.applyCast_of_split hsplit, Dialect.applyCast_of_split hsplit, seen_postgres,
    seen_mysql, bracesToBrackets_eq_self hbraces, Flavour.rangeDelimiters_dialect,
    Flavour.rangeDelimiters_dialect]
  have hread := (written_colon_iff hcolon _).2
    (written_readLiteral (hint.or t.dataType) t.operator ['|'] s)
  rw [Flavour.delimiters, Flavour.delimiters, readLiteral_eq_iff.2 hread]

/-- A token in braces is cast like the one in brackets, with the same type behind it. -/
theorem applyCast_braces {inner : List Char} (harray : t.operator.acceptsArray = true)
    (hne : inner ≠ []) (hint : Option DataType) :
    ((Flavour.postgres style).dialect r).applyCast
        (String.ofList ('\x7b' :: (inner ++ '\x7d' :: hintText hint))) t =
      ((Flavour.postgres style).dialect r).applyCast
        (String.ofList ('[' :: (inner ++ ']' :: hintText hint))) t := by
  have hbraces : splitTypeHint (String.ofList ('\x7b' :: (inner ++ '\x7d' :: hintText hint))).toList =
      .ok ('\x7b' :: (inner ++ ['\x7d']), hint) := by
    rw [String.toList_ofList]
    exact splitTypeHint_closed rfl rfl ('\x7b' :: inner) hint
  have hbrackets : splitTypeHint (String.ofList ('[' :: (inner ++ ']' :: hintText hint))).toList =
      .ok ('[' :: (inner ++ [']']), hint) := by
    rw [String.toList_ofList]
    exact splitTypeHint_closed rfl rfl ('[' :: inner) hint
  rw [Dialect.applyCast_of_split hbraces, Dialect.applyCast_of_split hbrackets, seen_postgres,
    seen_postgres, bracesToBrackets_braces harray hne,
    bracesToBrackets_eq_self (not_inBraces_of_bracket _)]

/-- Bounds around a colon are bounds to PostgreSQL. -/
theorem takesFor_bounds_of_colonBounds {inner lower upper : List Char}
    (hsplit : splitTypeHint token.toList = .ok (s, hint))
    (h : ColonBounds t.operator s inner lower upper) :
    ((Flavour.postgres style).dialect r).TakesFor token t (hint.or t.dataType)
      (.bounds lower upper) := by
  refine Dialect.takesFor_of_written hsplit ?_
  rw [seen_postgres, bracesToBrackets_eq_self (by
    rw [h.enclosed.text]
    exact not_inBraces_of_bracket _), h.operator_eq, Flavour.rangeDelimiters_dialect]
  refine .bounds h.enclosed rfl ⟨['|'], ':', [], rfl, h.colon, ?_⟩
  rw [List.forall_mem_singleton]
  exact h.bar

/-- And they are a list to MySQL. -/
theorem takesFor_list_of_colonBounds {inner lower upper : List Char} {pieces : List (List Char)}
    (hsplit : splitTypeHint token.toList = .ok (s, hint))
    (h : ColonBounds t.operator s inner lower upper) (hpieces : Pieces ',' inner pieces) :
    (Flavour.mysql.dialect r).TakesFor token t (hint.or t.dataType) (.list pieces) := by
  refine Dialect.takesFor_of_written hsplit ?_
  rw [seen_mysql, h.operator_eq, Flavour.rangeDelimiters_dialect]
  refine .list h.enclosed (fun _ => ?_) rfl hpieces
  rw [Flavour.delimiters, List.forall_mem_singleton]
  exact h.bar

end Dialects

/-- **The tokens on which the dialects differ.**  PostgreSQL and MySQL give the same term or the
same fault for every token and every term, unless what stands before the type is in braces or holds
bounds around a colon.  Braces are brackets to PostgreSQL, whatever they hold, and to MySQL they are
part of a scalar.  Bounds around a colon are bounds to PostgreSQL, and a list to MySQL. -/
theorem applyCast_eq_or_of_dialects (style : PlaceholderStyle) (r r' : ReservedKeys)
    (token : String) (t : Term) :
    let postgres := (Flavour.postgres style).dialect r
    let mysql := Flavour.mysql.dialect r'
    (postgres.applyCast token t = mysql.applyCast token t ∨
      ∃ s hint, splitTypeHint token.toList = .ok (s, hint) ∧
        ((∃ inner, InBraces t.operator s inner) ∨
          ∃ inner lower upper, ColonBounds t.operator s inner lower upper)) ∧
    (∀ inner hint, t.operator.acceptsArray = true → inner ≠ [] →
      postgres.applyCast (String.ofList ('\x7b' :: (inner ++ '\x7d' :: hintText hint))) t =
        postgres.applyCast (String.ofList ('[' :: (inner ++ ']' :: hintText hint))) t) ∧
    ∀ s hint, splitTypeHint token.toList = .ok (s, hint) →
      (∀ inner, InBraces t.operator s inner →
        mysql.TakesFor token t (hint.or t.dataType) (.scalar s)) ∧
      ∀ inner lower upper, ColonBounds t.operator s inner lower upper →
        postgres.TakesFor token t (hint.or t.dataType) (.bounds lower upper) ∧
        ∀ pieces, Pieces ',' inner pieces →
          mysql.TakesFor token t (hint.or t.dataType) (.list pieces) := by
  intro postgres mysql
  refine ⟨?_, ?_, ?_⟩
  · cases hsplit : splitTypeHint token.toList with
    | error failure =>
        left
        rw [Dialect.applyCast_of_fault hsplit, Dialect.applyCast_of_fault hsplit]
    | ok split =>
        obtain ⟨s, hint⟩ := split
        by_cases hbraces : ∃ inner, InBraces t.operator s inner
        · exact .inr ⟨s, hint, rfl, .inl hbraces⟩
        by_cases hcolon : ∃ inner lower upper, ColonBounds t.operator s inner lower upper
        · exact .inr ⟨s, hint, rfl, .inr hcolon⟩
        simp only [not_exists] at hbraces hcolon
        exact .inl (applyCast_eq_of_plain hsplit hbraces hcolon)
  · intro inner hint harray hne
    exact applyCast_braces harray hne hint
  · intro s hint hsplit
    constructor
    · intro inner hbraces
      exact Dialect.takesFor_of_written hsplit (written_of_inBraces hbraces)
    · intro inner lower upper hcolon
      refine ⟨takesFor_bounds_of_colonBounds hsplit hcolon, ?_⟩
      intro pieces hpieces
      exact takesFor_list_of_colonBounds hsplit hcolon hpieces

/-- A comma behind the colon belongs to a bound for PostgreSQL, and MySQL makes two items of it. -/
theorem takesFor_of_colon_and_comma :
    let t : Term := { key := "a", operator := .between }
    let postgres := (Flavour.postgres .dollar).dialect {}
    let mysql := Flavour.mysql.dialect {}
    splitTypeHint "[a:b,c]::string".toList = .ok ("[a:b,c]".toList, some .string) ∧
    ColonBounds .between "[a:b,c]".toList "a:b,c".toList "a".toList "b,c".toList ∧
    Pieces ',' "a:b,c".toList ["a:b".toList, "c".toList] ∧
    postgres.TakesFor "[a:b,c]::string" t (some .string) (.bounds "a".toList "b,c".toList) ∧
    mysql.TakesFor "[a:b,c]::string" t (some .string) (.list ["a:b".toList, "c".toList]) ∧
    splitTypeHint "{b,c}".toList = .ok ("{b,c}".toList, none) ∧
    InBraces .between "{b,c}".toList "b,c".toList ∧
    mysql.TakesFor "{b,c}" t none (.scalar "{b,c}".toList) ∧
    postgres.applyCast "{b,c}::int" t = postgres.applyCast "[b,c]::int" t := by
  intro t postgres mysql
  have hsplit : splitTypeHint "[a:b,c]::string".toList = .ok ("[a:b,c]".toList, some .string) := rfl
  have hcolon : ColonBounds .between "[a:b,c]".toList "a:b,c".toList "a".toList "b,c".toList :=
    { operator_eq := rfl
      enclosed := bracketed?_eq_some_iff_enclosed.1 rfl
      bar := bounds?_eq_none_iff.1 rfl
      colon := bounds?_eq_some_iff.1 rfl }
  have hpieces : Pieces ',' "a:b,c".toList ["a:b".toList, "c".toList] := splitOn_eq_iff.1 rfl
  have hplain : splitTypeHint "{b,c}".toList = .ok ("{b,c}".toList, none) := rfl
  have hbraces : InBraces .between "{b,c}".toList "b,c".toList := ⟨rfl, rfl, nofun⟩
  obtain ⟨-, hlike, hliteral⟩ := applyCast_eq_or_of_dialects .dollar {} {} "[a:b,c]::string" t
  obtain ⟨hbounds, hlist⟩ := (hliteral _ _ hsplit).2 _ _ _ hcolon
  have hscalar := ((applyCast_eq_or_of_dialects .dollar {} {} "{b,c}" t).2.2 _ _ hplain).1 _ hbraces
  exact ⟨hsplit, hcolon, hpieces, hbounds, hlist _ hpieces, hplain, hbraces, hscalar,
    hlike "b,c".toList (some .int) rfl nofun⟩

end WhereClause

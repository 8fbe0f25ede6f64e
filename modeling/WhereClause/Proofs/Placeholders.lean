/-
**Placeholders and values.**

The values of a predicate are handed over apart from its text, and the database puts the first one
into the first placeholder, the second one into the second, and so on.  A reader that scans a
predicate outside of its identifiers finds as many placeholders as there are values, numbered in
order where they carry numbers, and finds in the text of every term the placeholders of the values
that this term binds.

Main definitions:

* `WhereClause.places` — the placeholders among some tokens;
* `WhereClause.PlaceholderStyle.numbered` — placeholders numbered in order.

Main results:

* `WhereClause.Flavour.places_tokens` — the placeholders in a predicate are numbered in order;
* `WhereClause.places_of_parsed` — **the placeholders in a predicate of parsed terms are those of
  its values, term by term**.
-/

import WhereClause.Proofs.Containment

set_option relaxedAutoImplicit false
set_option autoImplicit false

namespace WhereClause

open Text

/-! ### Scanning -/

/-- The digits that some tokens begin with. -/
def leadingDigits : List Token → List Char
  | .sign c :: rest => if c.isDigit then c :: leadingDigits rest else []
  | _ => []

/-- The placeholders among some tokens: every mark outside of identifiers, with the digits behind
it. -/
def places (mark : Char) : List Token → List (List Char)
  | [] => []
  | .name _ :: rest => places mark rest
  | .sign c :: rest =>
      if c = mark then (c :: leadingDigits rest) :: places mark rest else places mark rest

/-- Characters other than the mark hold no placeholder. -/
theorem places_signs {mark : Char} {s : List Char} (h : mark ∉ s) (rest : List Token) :
    places mark (s.map .sign ++ rest) = places mark rest := by
  induction s with
  | nil => rfl
  | cons c s ih =>
      have hc : c ≠ mark := fun heq => h (heq ▸ List.mem_cons_self ..)
      have hs : mark ∉ s := fun hmem => h (List.mem_cons_of_mem c hmem)
      simp [places, hc, ih hs]

/-- A dotted name holds no placeholder. -/
theorem places_dotted {mark : Char} (h : mark ≠ '.') (parts : List (List Char))
    (rest : List Token) : places mark (dotted parts ++ rest) = places mark rest := by
  induction parts with
  | nil => rfl
  | cons part parts ih =>
      cases parts with
      | nil => rfl
      | cons next parts => simpa [dotted, places, h.symm] using ih

/-- Digits are read up to the first token that is none. -/
theorem leadingDigits_append {s : List Char} (h : ∀ c ∈ s, c.isDigit = true) {rest : List Token}
    (hrest : leadingDigits rest = []) : leadingDigits (s.map .sign ++ rest) = s := by
  induction s with
  | nil => exact hrest
  | cons c s ih =>
      simp [leadingDigits, h c (by simp), ih fun d hd => h d (List.mem_cons_of_mem c hd)]

/-- The placeholders of `count` values of which the first has the number `first`. -/
def PlaceholderStyle.numbered (style : PlaceholderStyle) (first count : Nat) : List (List Char) :=
  (List.range' first count).map fun n => (style.placeholder n).toList

namespace Flavour

variable {f : Flavour}

/-- No predicate begins with a digit. -/
theorem leadingDigits_tokens {p : Sql} (h : f.Clean p.fragments) (bound : Nat) :
    leadingDigits (p.tokens f.style.placeholder bound) = [] := by
  induction p generalizing bound with
  | nil => rfl
  | cons piece rest ih =>
      cases piece with
      | code text =>
          have hdigit : ∀ c ∈ text.toList, c.isDigit = false := h.isDigit (by simp)
          cases htext : text.toList with
          -- an empty text shows nothing, and the digits would have to be those of the rest
          | nil => simpa [Sql.tokens, htext] using ih h.of_cons bound
          | cons c cs =>
              have hc : c.isDigit = false := hdigit c (by simp [htext])
              simp [Sql.tokens, htext, leadingDigits, hc]
      | column name =>
          have hparts : splitOn '.' name.toList ≠ [] := splitWhere_ne_nil _ _
          rw [Sql.tokens]
          cases hsplit : splitOn '.' name.toList with
          | nil => exact absurd hsplit hparts
          | cons part parts => cases parts <;> rfl
      | bind value =>
          obtain ⟨digits, hplace, -⟩ := f.exists_digits_of_placeholder (bound + 1)
          simp [Sql.tokens, hplace, leadingDigits, f.isDigit_mark]

/-- **The placeholders in a predicate are those of its values, numbered in order.** -/
theorem places_tokens {p : Sql} (h : f.Clean p.fragments) (bound : Nat) :
    places f.style.mark (p.tokens f.style.placeholder bound) =
      f.style.numbered (bound + 1) p.values.length := by
  induction p generalizing bound with
  | nil => rfl
  | cons piece rest ih =>
      cases piece with
      | code text =>
          have hmark : f.style.mark ∉ text.toList := h.mark_notMem (by simp)
          rw [Sql.tokens, places_signs hmark, ih h.of_cons, Sql.values_code]
      | column name =>
          rw [Sql.tokens, places_dotted f.mark_ne_dot, ih h.of_cons, Sql.values_column]
      | bind value =>
          obtain ⟨digits, hplace, hdigits⟩ := f.exists_digits_of_placeholder (bound + 1)
          have hmark : f.style.mark ∉ digits := fun hmem => by
            simpa [f.isDigit_mark] using hdigits _ hmem
          have hread := leadingDigits_append hdigits (leadingDigits_tokens h.of_cons (bound + 1))
          simp only [Sql.tokens, hplace, List.map_cons, List.cons_append, places, if_true, hread,
            places_signs hmark, ih h.of_cons, Sql.values_bind, List.length_cons,
            PlaceholderStyle.numbered, List.range'_succ]

end Flavour

/-! ### Terms in their places -/

/-- The tokens of a whole are those of its parts, the second numbered behind the first. -/
theorem Sql.tokens_append (placeholder : Nat → String) (bound : Nat) (p q : Sql) :
    (p ++ q).tokens placeholder bound =
      p.tokens placeholder bound ++ q.tokens placeholder (bound + p.values.length) := by
  induction p generalizing bound with
  | nil => simp [tokens]
  | cons piece rest ih =>
      cases piece with
      | code text => simp [tokens, ih]
      | column name => simp [tokens, ih]
      | bind value =>
          simp only [List.cons_append, tokens, ih, values_bind, List.length_cons,
            List.append_assoc]
          rw [show bound + 1 + (values rest).length = bound + ((values rest).length + 1) by omega]

/-- **Placeholders and values correspond, term by term.**  In the predicate of parsed terms, a
reader finds one placeholder for each value, numbered in order; the values are those that the
rendered terms bind, in their order; and the tokens of every term, which are those of its text
alone, hold the placeholders of its own values, behind those of the terms before it. -/
theorem places_of_parsed {f : Flavour} {r : ReservedKeys} {p : Params}
    (h : p.Forall fun t => ∃ key value, (f.dialect r).parse key value = .ok t)
    (columns : List String) :
    ∃ tokens,
      lex f.quoteMark .outside ((f.dialect r).text ((f.dialect r).assemble p columns)).toList =
        some tokens ∧
      places f.style.mark tokens =
        f.style.numbered 1 ((f.dialect r).assemble p columns).values.length ∧
      ((f.dialect r).assemble p columns).values =
        ((f.dialect r).renderedTerms p columns).flatMap Term.binds ∧
      ∀ before t after, (f.dialect r).renderedTerms p columns = before ++ t :: after →
        ∃ lead own rest, tokens = lead ++ own ++ rest ∧
          lex f.quoteMark .outside (Sql.textFrom (f.dialect r).quote (f.dialect r).placeholder
            (before.flatMap Term.binds).length ((f.dialect r).render t)).toList = some own ∧
          places f.style.mark lead = f.style.numbered 1 (before.flatMap Term.binds).length ∧
          places f.style.mark own =
            f.style.numbered ((before.flatMap Term.binds).length + 1) t.binds.length := by
  -- being parsed is only used to know that the terms are well formed
  have hwf : p.Forall (Term.WellFormed f) :=
    ⟨fun t ht => (h.1 t ht).elim fun _ ⟨_, hparse⟩ => wellFormed_of_parse hparse,
      fun t ht => (h.2 t ht).elim fun _ ⟨_, hparse⟩ => wellFormed_of_parse hparse⟩
  have hclean := Flavour.clean_assemble (r := r) hwf columns
  refine ⟨_, Flavour.lex_assemble hwf columns, Flavour.places_tokens hclean 0,
    (Flavour.consists_assemble hwf columns).values, fun before t after hsplit => ?_⟩
  have hterms : ∀ u ∈ before ++ t :: after, u.WellFormed f :=
    hsplit ▸ Flavour.wellFormed_of_mem_renderedTerms hwf columns
  obtain ⟨lead, rest, hassemble, hlead⟩ :=
    (f.dialect r).exists_assemble_eq_append hsplit
  have hrender : ∀ u ∈ before ++ t :: after, Sql.values ((f.dialect r).render u) = u.binds :=
    fun u hu => (Flavour.consists_render (hterms u hu)).values
  have hbinds : lead.values = before.flatMap Term.binds := by
    rw [hlead, List.flatMap_def, List.flatMap_def,
      List.map_congr_left fun u hu => hrender u (List.mem_append_left _ hu)]
  have ht := hrender t (List.mem_append_right _ (List.mem_cons_self ..))
  rw [hassemble, Sql.fragments_append, Sql.fragments_append, Flavour.clean_append,
    Flavour.clean_append] at hclean
  obtain ⟨hcleanLead, hcleanOwn, -⟩ := hclean
  rw [hassemble, Sql.tokens_append, Sql.tokens_append, ← List.append_assoc, Nat.zero_add, hbinds]
  refine ⟨_, _, _, rfl, ?_, ?_, ?_⟩
  · rw [Flavour.quote_dialect, Flavour.placeholder_dialect]
    refine Flavour.lex_textFrom hcleanOwn ?_ _
    rw [(Flavour.consists_render (hterms t (by simp))).fragments]
    exact f.separated_form _
  · rw [Flavour.places_tokens hcleanLead, hbinds]
  · rw [Flavour.places_tokens hcleanOwn, ht]

/-- The five placeholders of an interval below a look-up and of an interval for two columns. -/
theorem places_of_intervals :
    ∃ lookup interval tokens,
      ((Flavour.postgres .dollar).dialect {}).parse "a?[->]" "k[:]=[1|5]::int" = .ok lookup ∧
      ((Flavour.postgres .dollar).dialect {}).parse "*[:]" "[2|3]::int" = .ok interval ∧
      lex '"' .outside (((Flavour.postgres .dollar).dialect {}).text
        (((Flavour.postgres .dollar).dialect {}).assemble
          { entries := [("a?", lookup), ("*", interval)] } ["$1", "a?"])).toList = some tokens ∧
      places '$' tokens = ["$1".toList, "$2".toList, "$3".toList, "$4".toList, "$5".toList] := by
  obtain ⟨lookup, interval, hlookup, hinterval, hplaces⟩ : ∃ lookup interval,
      ((Flavour.postgres .dollar).dialect {}).parse "a?[->]" "k[:]=[1|5]::int" = .ok lookup ∧
      ((Flavour.postgres .dollar).dialect {}).parse "*[:]" "[2|3]::int" = .ok interval ∧
      PlaceholderStyle.dollar.numbered 1 (((Flavour.postgres .dollar).dialect {}).assemble
        { entries := [("a?", lookup), ("*", interval)] } ["$1", "a?"]).values.length =
          ["$1".toList, "$2".toList, "$3".toList, "$4".toList, "$5".toList] :=
    ⟨_, _, rfl, rfl, rfl⟩
  have hparsed : Params.Forall
      (fun t => ∃ key value, ((Flavour.postgres .dollar).dialect {}).parse key value = .ok t)
      { entries := [("a?", lookup), ("*", interval)] } := by
    refine ⟨by simp, ?_⟩
    simp only [Params.terms, List.map_cons, List.map_nil, List.forall_mem_cons, List.not_mem_nil,
      false_implies, implies_true, and_true]
    exact ⟨⟨_, _, hlookup⟩, ⟨_, _, hinterval⟩⟩
  obtain ⟨tokens, hlex, hscan, -⟩ := places_of_parsed hparsed ["$1", "a?"]
  exact ⟨lookup, interval, tokens, hlookup, hinterval, hlex, hscan.trans hplaces⟩

end WhereClause

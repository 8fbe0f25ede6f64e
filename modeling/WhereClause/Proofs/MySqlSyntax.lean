/-
**What MySQL is asked.**

Not every operator has a rendering in MySQL, and a request that asks for one of the others is
refused.  What is accepted is written in MySQL's own words, and none that only PostgreSQL knows is
among them, but for the arrow of a look-up below a look-up.

Each of PostgreSQL's words has a character that no word of MySQL has, or else an A with an L behind
it, which no word of MySQL has either.  So it is enough to look at characters and at pairs of them.

Main definitions:

* `WhereClause.arrowWords`, `WhereClause.postgresWords` — the words that only PostgreSQL knows;
* `WhereClause.MySql.Plain` — texts without certain characters and without that pair;
* `WhereClause.Dialect.Refuses` — how a pair is refused.

Main results:

* `WhereClause.MySql.Grammatical.plain` — a grammatical predicate of plain conditions is plain;
* `WhereClause.MySql.not_isInfix_of_grammatical_arrows`,
  `WhereClause.MySql.not_isInfix_of_grammatical_nil` — no word of PostgreSQL is in it;
* `WhereClause.grammatical_of_collect` — **an accepted request is asked for in MySQL's own words,
  unless a look-up stands below a look-up, and an operator that only PostgreSQL has is refused**.
-/

import Mathlib.Data.List.Chain
import WhereClause.Proofs.MySqlGrammar

set_option relaxedAutoImplicit false
set_option autoImplicit false

namespace WhereClause

open Text

/-! ### Words of PostgreSQL -/

/-- The keywords of look-ups in PostgreSQL. -/
def arrowWords : List String := ["->", "->>"]

/-- The other words that only PostgreSQL knows. -/
def postgresWords : List String := ["::", "~", "&&", "SIMILAR TO", "ANY", "SOME", "ALL"]

namespace MySql

/-- Outside of identifiers stands none of some characters, and no A with an L behind it. -/
structure Plain (marks : List Char) (s : List Lexeme) : Prop where
  sign : ∀ c ∈ marks, .sign c ∉ s
  pair : s.IsChain fun a b => ¬ (a = .sign 'A' ∧ b = .sign 'L')

instance (marks : List Char) (s : List Lexeme) : Decidable (Plain marks s) :=
  -- the characters are looked through one by one, and not all that there are
  decidable_of_iff ((marks.all fun c => !s.contains (.sign c)) = true ∧
      s.IsChain fun a b => ¬ (a = .sign 'A' ∧ b = .sign 'L'))
    ⟨fun h => ⟨by simpa using h.1, h.2⟩, fun h => ⟨by simpa using h.sign, h.pair⟩⟩

/-- The characters that only words of PostgreSQL have, the arrows among them. -/
def foreignMarks : List Char := ['-', ':', '~', '&', 'M', 'Y']

/-- The characters that only other words of PostgreSQL have than arrows. -/
def foreignMarksButArrows : List Char := [':', '~', '&', 'M', 'Y']

variable {marks : List Char} {s t : List Lexeme}

theorem plain_nil : Plain marks [] := ⟨by simp, .nil⟩

/-- A part of a plain text is plain. -/
theorem Plain.of_isInfix (h : Plain marks s) (ht : t <:+: s) : Plain marks t where
  sign := fun c hc hmem => h.sign c hc (ht.subset hmem)
  pair := h.pair.infix ht

/-- A plain text is plain for fewer characters. -/
theorem Plain.mono {marks' : List Char} (h : Plain marks' s) (hsub : marks ⊆ marks') :
    Plain marks s :=
  ⟨fun c hc => h.sign c (hsub hc), h.pair⟩

/-- Plain texts make a plain text, unless an A stands before the place where they meet. -/
theorem Plain.append (hs : Plain marks s) (ht : Plain marks t)
    (hmeet : ∀ a ∈ s.getLast?, ∀ b ∈ t.head?, ¬ (a = .sign 'A' ∧ b = .sign 'L')) :
    Plain marks (s ++ t) where
  sign := by
    intro c hc hmem
    rcases List.mem_append.1 hmem with hmem | hmem
    · exact hs.sign c hc hmem
    · exact ht.sign c hc hmem
  pair := List.isChain_append.2 ⟨hs.pair, ht.pair, hmeet⟩

/-- A text is plain whatever the columns in it are. -/
theorem plain_map_onto {parts : List (List Char)} (h : Plain marks s) :
    Plain marks (s.map (Lexeme.onto (.name parts))) where
  sign := by
    intro c hc hmem
    obtain ⟨lexeme, hlexeme, hsign⟩ := List.mem_map.1 hmem
    cases lexeme with
    | name other => cases hsign
    | sign d =>
        cases hsign
        exact h.sign c hc hlexeme
  pair := by
    refine (List.isChain_map _).2 (h.pair.imp fun a b hab hboth => hab ?_)
    cases a <;> cases b <;> simp_all [Lexeme.onto]

/-- A condition is plain, if it is so for one column. -/
theorem plain_of_mem_conditions {more : List String}
    (hmore : ∀ s ∈ conditions more (.name []), Plain marks s) {parts : List (List Char)}
    (h : s ∈ conditions more (.name parts)) : Plain marks s := by
  rw [← map_onto_conditions _ _ []] at h
  obtain ⟨s, hs, rfl⟩ := List.mem_map.1 h
  exact plain_map_onto (hmore s hs)

/-- A plain text that makes no pair with what stands around it. -/
structure Seam (text : String) : Prop where
  plain : Plain foreignMarks (signs text)
  head : (signs text).head?.any (· != .sign 'L') = true
  last : (signs text).getLast?.any (· != .sign 'A') = true

/-- What stands between conditions is such a text. -/
theorem seam_of_mem_rowTexts : ∀ text ∈ rowTexts, Seam text := by
  have hall : ∀ text ∈ rowTexts, Plain foreignMarks (signs text) ∧
      (signs text).head?.any (· != .sign 'L') = true ∧
      (signs text).getLast?.any (· != .sign 'A') = true := by
    decide +kernel
  intro text htext
  obtain ⟨hplain, hhead, hlast⟩ := hall text htext
  exact ⟨hplain, hhead, hlast⟩

section Grammar

variable (hmarks : marks ⊆ foreignMarks)
include hmarks

/-- Plain texts with such a text between them make a plain text. -/
theorem Seam.plain_append {text : String} (h : Seam text) (hs : Plain marks s)
    (ht : Plain marks t) : Plain marks (s ++ (signs text ++ t)) := by
  -- the pair would need an A at the end of the seam, or an L at its beginning
  refine hs.append ((h.plain.mono hmarks).append ht fun a ha b hb => ?_) fun a ha b hb => ?_
  · rintro ⟨rfl, -⟩
    have hlast := h.last
    rw [Option.mem_def.1 ha] at hlast
    cases hlast
  · rintro ⟨-, rfl⟩
    have hhead := h.head
    cases hsigns : signs text with
    | nil => simp [hsigns] at hhead
    | cons c rest =>
        rw [hsigns] at hb hhead
        cases Option.mem_def.1 hb
        cases hhead

/-- A plain text in parentheses is plain, with a plain text behind it. -/
theorem Plain.parenthesized (hs : Plain marks s) (ht : Plain marks t) :
    Plain marks (signs "(" ++ s ++ signs ")" ++ t) := by
  have hopen : Seam "(" := seam_of_mem_rowTexts _ (by simp [rowTexts])
  have hclose : Seam ")" := seam_of_mem_rowTexts _ (by simp [rowTexts])
  simpa using hopen.plain_append hmarks plain_nil (hclose.plain_append hmarks hs ht)

variable {more : List String} (hmore : ∀ s ∈ conditions more (.name []), Plain marks s)
include hmore

/-- A row of plain conditions is plain. -/
theorem Row.plain {joints : List String} (hjoints : ∀ joint ∈ joints, joint ∈ rowTexts)
    (h : Row more joints s) : Plain marks s := by
  induction h with
  | last hs => exact plain_of_mem_conditions hmore hs
  | cons hs hjoint _ ih =>
      have hseam := seam_of_mem_rowTexts _ (hjoints _ hjoint)
      exact hseam.plain_append hmarks (plain_of_mem_conditions hmore hs) ih

/-- **A grammatical predicate of plain conditions is plain.** -/
theorem Grammatical.plain (h : Grammatical more s) : Plain marks s := by
  have hchain : ∀ joint ∈ [" AND ", " OR "], joint ∈ rowTexts := by simp [rowTexts]
  have hgroup : ∀ joint ∈ [" OR "], joint ∈ rowTexts := by simp [rowTexts]
  cases h with
  | nothing => exact plain_nil
  | chain h => exact h.plain hmarks hmore hchain
  | group h => simpa using (h.plain hmarks hmore hgroup).parenthesized hmarks plain_nil
  | both h hrest =>
      have hand : Seam " AND " := seam_of_mem_rowTexts _ (by simp [rowTexts])
      have htail := hand.plain_append hmarks plain_nil (hrest.plain hmarks hmore hchain)
      exact (h.plain hmarks hmore hgroup).parenthesized hmarks htail

end Grammar

/-- **No word of PostgreSQL but an arrow is in a grammatical predicate with arrows.** -/
theorem not_isInfix_of_grammatical_arrows (h : Grammatical arrows s) :
    ∀ word ∈ postgresWords, ¬ signs word <:+: s := by
  have hplain : Plain foreignMarksButArrows s := h.plain (by decide) (by decide +kernel)
  have hwords : ∀ word ∈ postgresWords, ¬ Plain foreignMarksButArrows (signs word) := by
    decide +kernel
  exact fun word hword hinfix => hwords word hword (hplain.of_isInfix hinfix)

/-- **No arrow is in a grammatical predicate without arrows.** -/
theorem not_isInfix_of_grammatical_nil (h : Grammatical [] s) :
    ∀ word ∈ arrowWords, ¬ signs word <:+: s := by
  have hplain : Plain foreignMarks s := h.plain (List.Subset.refl _) (by decide +kernel)
  have hwords : ∀ word ∈ arrowWords, ¬ Plain foreignMarks (signs word) := by decide +kernel
  exact fun word hword hinfix => hwords word hword (hplain.of_isInfix hinfix)

end MySql

/-! ### Refused operators -/

/-- Look-ups are not among the operators that only PostgreSQL has. -/
theorem Operator.isJsonPath_of_mem_postgresOnly {op : Operator} (h : op ∈ postgresOnly) :
    op.isJsonPath = false := by
  revert h
  cases op <;> decide

namespace Dialect

/-- A pair is refused: its operator has no rendering, unless its value has no type or cannot be
cast, which is said first. -/
def Refuses (d : Dialect) (key value : String) (outcome : Except Failure Term) : Prop :=
  let k := Key.read d key.toList
  outcome = .error (.unsupported d.name k.operator .anywhere) ∨
    ∃ failure, d.applyCast value (startTerm k value) = .error failure ∧ outcome = .error failure

variable {r : ReservedKeys} {key value : String}

/-- **A pair whose operator only PostgreSQL has is refused**, on its own or below a look-up. -/
theorem refuses_parseSingle
    (h : (Key.read (mysql r) key.toList).operator ∈ Operator.postgresOnly) :
    (mysql r).Refuses key value ((mysql r).parseSingle key value) := by
  have hsupports := (Operator.mem_postgresOnly_iff _).1 h
  have hjson := Operator.isJsonPath_of_mem_postgresOnly h
  unfold parseSingle Refuses
  simp only [hjson, Bool.false_eq_true, if_false]
  cases hcast : (mysql r).applyCast value (startTerm (Key.read (mysql r) key.toList) value) with
  | error failure => exact .inr ⟨failure, rfl, rfl⟩
  | ok t =>
      obtain ⟨-, hint, v, -, -, rfl⟩ := applyCast_eq_ok_iff.1 hcast
      exact .inl (NormalForm.format_of_not_supports hsupports)

/-- A pair that is no look-up is read on its own. -/
theorem refuses_parse (h : (Key.read (mysql r) key.toList).operator ∈ Operator.postgresOnly) :
    (mysql r).Refuses key value ((mysql r).parse key value) := by
  have hparse : (mysql r).parse key value = (mysql r).parseSingle key value := by
    unfold parse
    simp only [Operator.isJsonPath_of_mem_postgresOnly h, Bool.false_eq_true, if_false]
  rw [hparse]
  exact refuses_parseSingle h

/-- A pair below a look-up is refused with the look-up. -/
theorem refuses_parse_nested {subkey subvalue : List Char}
    (hjson : (Key.read (mysql r) key.toList).operator.isJsonPath = true)
    (hpath : splitPath? value.toList = some (subkey, subvalue))
    (h : (Key.read (mysql r) subkey).operator ∈ Operator.postgresOnly) :
    (mysql r).Refuses (String.ofList subkey) (String.ofList subvalue)
      ((mysql r).parse key value) := by
  have hkey : (Key.read (mysql r) (String.ofList subkey).toList).operator ∈
      Operator.postgresOnly := by
    rwa [String.toList_ofList]
  have hparse : ∀ failure,
      (mysql r).parseSingle (String.ofList subkey) (String.ofList subvalue) = .error failure →
        (mysql r).parse key value = .error failure := by
    intro failure hfailure
    unfold parse
    simp only [hjson, if_true, hpath, hfailure]
    rfl
  rcases refuses_parseSingle hkey with hrefused | ⟨failure, hcast, hfailure⟩
  · exact .inl (hparse _ hrefused)
  · exact .inr ⟨failure, hcast, hparse _ hfailure⟩

end Dialect

/-! ### Requests -/

/-- **MySQL is asked in its own words.**  The predicate of an accepted request is grammatical, with
no word of PostgreSQL in it but an arrow; it has no arrow without a look-up below a look-up, and has
one with it.  A pair with an operator that only PostgreSQL has is refused, and so is a look-up with
such a pair below it. -/
theorem grammatical_of_collect (r : ReservedKeys) (idField : String) :
    (∀ pairs id body p columns, Compiler.collect ⟨mysql r, idField⟩ pairs id body = .ok p →
      ∃ tokens,
        lex '\x60' .outside ((mysql r).text ((mysql r).assemble p columns)).toList = some tokens ∧
        MySql.Grammatical MySql.arrows (joinNames tokens) ∧
        (∀ word ∈ postgresWords, ¬ signs word <:+: joinNames tokens) ∧
        ((∀ t ∈ (mysql r).renderedTerms p columns, ∀ c ∈ t.path, c.operator.isJsonPath = false) →
          MySql.Grammatical [] (joinNames tokens) ∧
            ∀ word ∈ arrowWords, ¬ signs word <:+: joinNames tokens) ∧
        ((∃ t ∈ (mysql r).renderedTerms p columns, ∃ c ∈ t.path, c.operator.isJsonPath = true) →
          signs "->" <:+: joinNames tokens)) ∧
    (∀ key value, (Key.read (mysql r) key.toList).operator ∈ Operator.postgresOnly →
      (mysql r).Refuses key value ((mysql r).parse key value)) ∧
    ∀ key value subkey subvalue, (Key.read (mysql r) key.toList).operator.isJsonPath = true →
      splitPath? value.toList = some (subkey, subvalue) →
      (Key.read (mysql r) subkey).operator ∈ Operator.postgresOnly →
      (mysql r).Refuses (String.ofList subkey) (String.ofList subvalue)
        ((mysql r).parse key value) := by
  refine ⟨?_, fun _ _ => Dialect.refuses_parse, fun _ _ _ _ => Dialect.refuses_parse_nested⟩
  intro pairs id body p columns h
  have hwf : p.Forall (Term.WellFormed .mysql) := wellFormed_of_collect (f := .mysql) h
  have harrows : MySql.Grammatical MySql.arrows
      (((Flavour.mysql.dialect r).assemble p columns).flatMap Piece.lexemes) :=
    MySql.grammatical_arrows hwf
  refine ⟨_, Flavour.lex_assemble (r := r) hwf columns, ?_⟩
  rw [MySql.joinNames_assemble hwf]
  refine ⟨harrows, MySql.not_isInfix_of_grammatical_arrows harrows, fun hplain => ?_, ?_⟩
  · have hnil := MySql.grammatical_nil (r := r) hwf hplain
    exact ⟨hnil, MySql.not_isInfix_of_grammatical_nil hnil⟩
  · rintro ⟨t, ht, c, hc, hjson⟩
    exact MySql.arrow_isInfix (r := r) hwf ht hc hjson

/-- A look-up with a comparison below it and an interval are asked for in MySQL's own words; a pattern
that is matched in any case is refused, and so is a quantified comparison below a look-up. -/
theorem grammatical_of_lookUp_and_interval :
    (∃ p tokens,
      Compiler.collect ⟨mysql {}, "id"⟩ [("a[->>]", "b[>]=5"), ("n[:]", "[1|2]")] none none =
        .ok p ∧
      lex '\x60' .outside ((mysql {}).text ((mysql {}).assemble p [])).toList = some tokens ∧
      MySql.Grammatical [] (joinNames tokens)) ∧
    (mysql {}).Refuses "a[~*]" "x" ((mysql {}).parse "a[~*]" "x") ∧
    (mysql {}).Refuses "b[any]" "x" ((mysql {}).parse "a[->]" "b[any]=x") := by
  obtain ⟨haccepted, hrefused, hnested⟩ := grammatical_of_collect {} "id"
  refine ⟨?_, hrefused _ _ (by decide), ?_⟩
  · obtain ⟨p, hcollect, hplain⟩ : ∃ p,
        Compiler.collect ⟨mysql {}, "id"⟩ [("a[->>]", "b[>]=5"), ("n[:]", "[1|2]")] none none =
          .ok p ∧
        (((mysql {}).renderedTerms p []).all fun t =>
          t.path.all fun c => !c.operator.isJsonPath) = true := ⟨_, rfl, rfl⟩
    obtain ⟨tokens, hlex, -, -, hgrammatical, -⟩ := haccepted _ _ _ _ [] hcollect
    refine ⟨p, tokens, hcollect, hlex, (hgrammatical ?_).1⟩
    simpa using hplain
  · have hpath : splitPath? "b[any]=x".toList = some ("b[any]".toList, "x".toList) := by decide
    simpa using hnested "a[->]" _ _ _ (by decide) hpath (by decide)

/-- A look-up below a look-up is accepted, and written with an arrow. -/
theorem arrow_of_nested_lookUp : ∃ p,
    Compiler.collect ⟨mysql {}, "id"⟩ [("a[->]", "b[->]=c")] none none = .ok p ∧
      (mysql {}).text ((mysql {}).assemble p []) =
        "JSON_EXTRACT(\x60a\x60, CONCAT('$.', ?)) -> ?" :=
  ⟨_, rfl, rfl⟩

end WhereClause

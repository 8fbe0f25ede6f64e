/-
**No text of a request leaves its quotes.**

Keys of pairs, fields of the filter document and columns of the table reach the text of a predicate
only as names, whatever they hold.  A reader that knows nothing but how identifiers are quoted finds
exactly the names that were meant, and everything around them is fixed by the outlines of the terms
and by the words that join them.

Main results:

* `WhereClause.Flavour.lex_assemble` — a reader finds the pieces of the predicate of well-formed
  terms;
* `WhereClause.exists_lex_of_collect` — **what it finds in the predicate of a request is the keys of
  the rendered terms, in a frame that no text of the request can change**.
-/

import WhereClause.Proofs.Constants

set_option relaxedAutoImplicit false
set_option autoImplicit false

namespace WhereClause

open Text

namespace Flavour

variable {f : Flavour} {r : ReservedKeys} {p : Params}

/-- The outlines in a layout are those of well-formed terms. -/
theorem castable_of_wellFormed (h : p.Forall (Term.WellFormed f)) (columns : List String) :
    ∀ item ∈ ((f.dialect r).groupTerms p columns).map Term.frame ++
      ((f.dialect r).chainTerms p).map Term.frame, item.1.Castable f := by
  intro item hitem
  rw [← List.map_append] at hitem
  obtain ⟨t, ht, rfl⟩ := List.mem_map.1 hitem
  exact (wellFormed_of_mem_renderedTerms h columns t ht).castable

theorem clean_assemble (h : p.Forall (Term.WellFormed f)) (columns : List String) :
    f.Clean ((f.dialect r).assemble p columns).fragments := by
  rw [(consists_assemble h columns).fragments]
  exact clean_layout (castable_of_wellFormed h columns)

theorem separated_assemble (h : p.Forall (Term.WellFormed f)) (columns : List String) :
    separated ((f.dialect r).assemble p columns).fragments = true := by
  rw [(consists_assemble h columns).fragments]
  exact f.separated_layout _ _

/-- **A reader finds the pieces of the predicate of well-formed terms.** -/
theorem lex_assemble (h : p.Forall (Term.WellFormed f)) (columns : List String) :
    lex f.quoteMark .outside ((f.dialect r).text ((f.dialect r).assemble p columns)).toList =
      some (((f.dialect r).assemble p columns).tokens f.style.placeholder 0) := by
  rw [Dialect.text, quote_dialect, placeholder_dialect]
  exact lex_textFrom (clean_assemble h columns) (separated_assemble h columns) 0

end Flavour

/-- **No text of a request leaves its quotes.**  The predicate of a request does not end inside an
identifier; its dotted names are the keys of the rendered terms, cut at their dots, in order; and
with a mark in the place of every identifier it is the layout of the outlines and joints of these
terms, filled with as many marks as each key has parts, and made of fixed texts of the dialect. -/
theorem exists_lex_of_collect {f : Flavour} {r : ReservedKeys} {idField : String}
    {pairs : List (String × String)} {id : Option String} {body : Option (List UInt8)} {p : Params}
    (h : Compiler.collect ⟨f.dialect r, idField⟩ pairs id body = .ok p) (columns : List String) :
    ∃ tokens,
      lex f.quoteMark .outside ((f.dialect r).text ((f.dialect r).assemble p columns)).toList =
        some tokens ∧
      names (joinNames tokens) =
        ((f.dialect r).renderedTerms p columns).map (fun t => splitOn '.' t.key.toList) ∧
      (∀ mark, masked mark tokens =
        (Sql.fill f.style.placeholder
          (((f.dialect r).renderedTerms p columns).map fun t =>
            marks mark (splitOn '.' t.key.toList).length)
          0 (f.layoutOf r p columns)).toList) ∧
      ∀ text, .fixed text ∈ f.layoutOf r p columns → text ∈ f.constants := by
  have hwf := wellFormed_of_collect h
  have hconsists := Flavour.consists_assemble (r := r) hwf columns
  refine ⟨_, Flavour.lex_assemble hwf columns, ?_, fun mark => ?_, fun text htext => ?_⟩
  · rw [joinNames_tokens _ (Flavour.separated_assemble hwf columns), names_lexemes,
      hconsists.columns, List.map_map]
    rfl
  · rw [masked_tokens, hconsists.columns, hconsists.fragments, List.map_map]
    rfl
  · exact Flavour.mem_constants_of_layout (Flavour.castable_of_wellFormed hwf columns) htext

/-- A key that would close its quotes and go on with a comment, and a column with a dot and a quote
of its own, are two of the names that a reader finds. -/
theorem exists_lex_of_hostile_names :
    ∃ p tokens,
      Compiler.collect ⟨(Flavour.postgres .dollar).dialect {}, "id"⟩
        [("a\" = 1 --[>]", "5::int"), ("*[%]", "x")] (some "7") none = .ok p ∧
      lex '"' .outside (((Flavour.postgres .dollar).dialect {}).text
        (((Flavour.postgres .dollar).dialect {}).assemble p ["b.\"c"])).toList = some tokens ∧
      names (joinNames tokens) =
        [["b".toList, "\"c".toList], ["id".toList], ["a\" = 1 --".toList]] := by
  obtain ⟨p, hcollect, hkeys⟩ : ∃ p,
      Compiler.collect ⟨(Flavour.postgres .dollar).dialect {}, "id"⟩
        [("a\" = 1 --[>]", "5::int"), ("*[%]", "x")] (some "7") none = .ok p ∧
      (((Flavour.postgres .dollar).dialect {}).renderedTerms p ["b.\"c"]).map
        (fun t => splitOn '.' t.key.toList) =
          [["b".toList, "\"c".toList], ["id".toList], ["a\" = 1 --".toList]] := ⟨_, rfl, rfl⟩
  obtain ⟨tokens, hlex, hnames, -⟩ := exists_lex_of_collect hcollect ["b.\"c"]
  exact ⟨p, tokens, hcollect, hlex, hnames.trans hkeys⟩

end WhereClause

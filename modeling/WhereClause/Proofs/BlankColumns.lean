/-
**Blank columns.**

A key that is blank as it is written is passed over, and so is the key of a comparison below a
look-up.  What is left of a key once its mark for OR and its operator token are cut off is not
looked at again, so a key with nothing else in it becomes a term without a name.  Such keys are the
only ones that do: apart from them every term of a request, and every comparison below a look-up, is
named by something that is not blank.

Main definitions:

* `WhereClause.Term.keys`, `WhereClause.Term.Named` — the names in a term, and that none is blank;
* `WhereClause.Dialect.subpair?`, `WhereClause.Dialect.namesIn` — the pair in the value of a
  look-up, and the names in a pair once marks and tokens are cut off;
* `WhereClause.Dialect.PlainKey` — keys that are not blank, with neither a mark nor a token.

Main results:

* `WhereClause.keys_of_parse` — the names in a parsed term are those in its pair;
* `WhereClause.named_of_parse_iff` — none of them is blank exactly if none in the pair is empty;
* `WhereClause.exists_blank_key_iff_of_collect` — which terms of a chain have no name;
* `WhereClause.named_iff_of_collect` — **the terms of a request are named exactly if no key in it
  that is not blank has nothing left when its mark and its token are cut off**, and a reader of the
  predicate finds an empty identifier in the chain for just those keys of pairs.
-/

import WhereClause.Proofs.Containment
import WhereClause.Proofs.NormalTerms
import WhereClause.Proofs.Requests

set_option relaxedAutoImplicit false
set_option autoImplicit false

namespace WhereClause

open Text

/-! ### Names -/

/-- The names in a term: its column, and what is compared below it. -/
def Term.keys (t : Term) : List String := (t.toComparison :: t.path).map fun c => c.key

/-- The column is the first name in a term. -/
theorem Term.key_eq_of_keys {t : Term} {key : String} {below : List String}
    (h : t.keys = key :: below) : t.key = key := (List.cons.inj h).1

/-- A term in which no name is blank. -/
def Term.Named (t : Term) : Prop := ∀ key ∈ t.keys, allBlank key = false

namespace Dialect

/-- The pair in the value of a look-up, if there is one. -/
def subpair? (d : Dialect) (key value : String) : Option (List Char × List Char) :=
  if (Key.read d key.toList).operator.isJsonPath then splitPath? value.toList else none

/-- The names in a pair: what is left of its key, and of the key in the value of a look-up, without
blanks, marks and tokens. -/
def namesIn (d : Dialect) (key value : String) : List (List Char) :=
  (key.toList :: ((d.subpair? key value).map Prod.fst).toList).map fun s => (Key.read d s).column

/-- A key with more than blanks in it, and with neither a mark for OR nor an operator token. -/
structure PlainKey (d : Dialect) (key : String) : Prop where
  notBlank : trim key.toList ≠ []
  unmarked : ¬ d.reserved.orMarker.toList <+: trim key.toList
  bare : ∀ token ∈ d.tokens, ¬ '[' :: (token.toList ++ [']']) <:+ trim key.toList

/-- A plain key is the only name in its pair. -/
theorem PlainKey.namesIn_eq {d : Dialect} {key : String} (h : d.PlainKey key) (value : String) :
    d.namesIn key value = [trim key.toList] := by
  have hread := Key.read_of_plain h.unmarked h.bare
  have hsubpair : d.subpair? key value = none := by
    rw [subpair?, hread]
    rfl
  simp [namesIn, hsubpair, hread]

/-- So no name in its pair is empty. -/
theorem PlainKey.nil_notMem_namesIn {d : Dialect} {key : String} (h : d.PlainKey key)
    (value : String) : [] ∉ d.namesIn key value := by
  rw [h.namesIn_eq, List.mem_singleton]
  exact fun hnil => h.notBlank hnil.symm

end Dialect

/-! ### Names of parsed terms -/

namespace Flavour

variable {f : Flavour}

theorem key_below_settle (f : Flavour) (above : Operator) (c : Comparison) :
    (f.normalForm.below above (f.normalForm.settle c)).key = c.key := by
  obtain ⟨keyCast, valueCast, hsettle⟩ := f.settle_eq c
  obtain ⟨keyCast', hbelow⟩ := f.below_eq above (f.normalForm.settle c)
  rw [hbelow, hsettle]
  rfl

/-- Bringing a chain into its form keeps the names in it. -/
theorem keys_of_formatBelow {above : Operator} {chain path : List Comparison}
    (h : f.normalForm.formatBelow above chain = .ok path) :
    (path.map fun c => c.key) = chain.map fun c => c.key := by
  induction chain generalizing above path with
  | nil =>
      cases h
      rfl
  | cons c chain ih =>
      obtain ⟨-, -, rest, hrest, rfl⟩ := NormalForm.formatBelow_cons_eq_ok_iff.1 h
      rw [List.map_cons, List.map_cons, key_below_settle, ih hrest]

/-- Bringing a term into its form keeps the names in it. -/
theorem keys_of_format {t u : Term} (h : f.normalForm.format t = .ok u) : u.keys = t.keys := by
  obtain ⟨-, path, hbelow, rfl⟩ := NormalForm.format_eq_ok_iff.1 h
  obtain ⟨keyCast, valueCast, hsettle⟩ := f.settle_eq t.toComparison
  have hkey : (f.normalForm.settle t.toComparison).key = t.key := by
    rw [hsettle]
    rfl
  have hpath := keys_of_formatBelow hbelow
  simp only [Term.keys, List.map_cons, hpath, Term.ofChain, hkey]

end Flavour

variable {f : Flavour} {r : ReservedKeys} {key value : String} {t : Term}

/-- A pair without a comparison below it is parsed to a term with one name. -/
theorem keys_of_parseSingle (h : (f.dialect r).parseSingle key value = .ok t) :
    t.keys = [String.ofList (Key.read (f.dialect r) key.toList).column] := by
  obtain ⟨type, v, hformat⟩ := Dialect.exists_of_parseSingle h
  rw [Flavour.format_dialect] at hformat
  exact Flavour.keys_of_format hformat

/-- **The names in a parsed term are those in its pair**, in order. -/
theorem keys_of_parse (h : (f.dialect r).parse key value = .ok t) :
    t.keys = ((f.dialect r).namesIn key value).map String.ofList := by
  unfold Dialect.parse at h
  dsimp only at h
  rw [Dialect.namesIn, Dialect.subpair?]
  split at h
  next hnone =>
    rw [hnone]
    exact keys_of_parseSingle h
  next subkey subvalue hsome =>
    obtain ⟨nested, hnested, hformat⟩ := bind_eq_ok_iff.1 h
    have hbelow := keys_of_parseSingle hnested
    rw [String.toList_ofList] at hbelow
    rw [Flavour.format_dialect] at hformat
    rw [hsome, Flavour.keys_of_format hformat]
    -- the term of the look-up begins with its own name, and the names below follow it
    have hkeys : (Dialect.lookUp (Dialect.startTerm (Key.read (f.dialect r) key.toList) value)
        nested).keys =
          String.ofList (Key.read (f.dialect r) key.toList).column :: nested.keys := rfl
    rw [hkeys, hbelow]
    rfl

/-- A parsed term has no name exactly if nothing is left of its key. -/
theorem key_eq_empty_iff_of_parse (h : (f.dialect r).parse key value = .ok t) :
    t.key = "" ↔ (Key.read (f.dialect r) key.toList).column = [] := by
  rw [Term.key_eq_of_keys (keys_of_parse h)]
  exact String.ofList_eq_empty_iff

/-- **No name in a parsed term is blank exactly if none in its pair is empty.** -/
theorem named_of_parse_iff (h : (f.dialect r).parse key value = .ok t) :
    t.Named ↔ [] ∉ (f.dialect r).namesIn key value := by
  rw [Term.Named, keys_of_parse h]
  constructor
  · intro hnamed hnil
    cases hnamed _ (List.mem_map_of_mem hnil)
  · intro hnil key hkey
    obtain ⟨name, hname, rfl⟩ := List.mem_map.1 hkey
    obtain ⟨s, -, rfl⟩ := List.mem_map.1 hname
    -- what is left of a key is blank only if nothing is left of it
    refine Bool.eq_false_iff.2 fun hblank => hnil ?_
    rw [allBlank, String.toList_ofList] at hblank
    rwa [Key.column_eq_nil_of_blank hblank] at hname

/-! ### Names of a request -/

section Request

variable {idField : String} {pairs : List (String × String)} {id : Option String}
  {body : Option (List UInt8)} {p : Params}

/-- The keys of the filter document and of metadata are plain. -/
theorem Dialect.plainKey_of_trimmed {key : String} (h : trimmed key = "~" ∨ trimmed key = "+") :
    (f.dialect {}).PlainKey key := by
  have htrim : trim key.toList = ['~'] ∨ trim key.toList = ['+'] := by
    rw [← String.toList_ofList (l := trim key.toList), ← trimmed]
    exact h.imp (fun h => by rw [h]; rfl) (fun h => by rw [h]; rfl)
  rcases htrim with htrim | htrim <;> rcases f with (_ | _) | _ <;>
    exact ⟨by rw [htrim]; decide, by rw [htrim]; decide, by rw [htrim]; decide⟩

/-- What is stored is metadata, or what a pair that is not blank is parsed to. -/
theorem named_or_parsed_of_mem
    (h : Compiler.collect ⟨f.dialect {}, idField⟩ pairs id body = .ok p) (ht : t ∈ p.terms) :
    t.keys = ["+"] ∨
      ∃ pair ∈ pairs, allBlank pair.1 = false ∧
        (f.dialect {}).parse pair.1 pair.2 = .ok t := by
  obtain ⟨pair, hpair, hreading⟩ := (Compiler.mem_terms_iff_of_collect h).1 ht
  unfold Compiler.reading? at hreading
  split_ifs at hreading with hblank hfilter hextra
  · cases hreading
    rw [Flavour.reserved_dialect]
    exact .inl rfl
  · refine .inr ⟨pair, hpair, ?_, Option.some.inj hreading⟩
    rwa [trimmed_eq_empty_iff, Bool.not_eq_true] at hblank

/-- A pair that is not blank is stored as what it is parsed to, unless its key is plain. -/
theorem exists_parse_or_plainKey
    (h : Compiler.collect ⟨f.dialect {}, idField⟩ pairs id body = .ok p) {pair : String × String}
    (hpair : pair ∈ pairs) (hblank : allBlank pair.1 = false) :
    (∃ t ∈ p.terms, (f.dialect {}).parse pair.1 pair.2 = .ok t) ∨
      (f.dialect {}).PlainKey pair.1 := by
  rcases Compiler.reading?_eq_or (c := ⟨f.dialect {}, idField⟩) hblank pair.2 with
    hreading | hreserved
  · exact .inl (Compiler.exists_mem_terms_of_reading h hpair hreading)
  · rw [Flavour.reserved_dialect] at hreserved
    exact .inr (Dialect.plainKey_of_trimmed hreserved)

/-- The identifier is parsed with its own field as its only name. -/
theorem keys_of_id (hplain : (f.dialect {}).PlainKey idField)
    (h : Compiler.collect ⟨f.dialect {}, idField⟩ pairs id body = .ok p) (ht : t ∈ p.id) :
    t.keys = [trimmed idField] := by
  have hreading := Compiler.idReading_of_collect h
  rw [Option.mem_def.1 ht] at hreading
  obtain ⟨value, -, hparse⟩ := Option.map_eq_some_iff.1 hreading
  rw [keys_of_parse hparse, hplain.namesIn_eq]
  rfl

/-- The terms of a request are named exactly if nothing is blank only after it was cut. -/
theorem forall_named_iff_of_collect (hplain : (f.dialect {}).PlainKey idField)
    (h : Compiler.collect ⟨f.dialect {}, idField⟩ pairs id body = .ok p) :
    p.Forall Term.Named ↔ ∀ pair ∈ pairs, allBlank pair.1 = false →
      [] ∉ (f.dialect {}).namesIn pair.1 pair.2 := by
  constructor
  · intro hnamed pair hpair hblank
    rcases exists_parse_or_plainKey h hpair hblank with ⟨t, ht, hparse⟩ | hkey
    · exact (named_of_parse_iff hparse).1 (hnamed.2 t ht)
    · exact hkey.nil_notMem_namesIn pair.2
  · intro hnames
    refine ⟨fun t ht => ?_, fun t ht => ?_⟩
    · intro key hkey
      rw [keys_of_id hplain h ht, List.mem_singleton] at hkey
      rw [hkey, trimmed, allBlank, String.toList_ofList, Bool.eq_false_iff, ne_eq,
        ← trim_eq_nil_iff, trim_trim]
      exact hplain.notBlank
    · rcases named_or_parsed_of_mem h ht with hkeys | ⟨pair, hpair, hblank, hparse⟩
      · intro key hkey
        rw [hkeys, List.mem_singleton] at hkey
        subst hkey
        decide
      · exact (named_of_parse_iff hparse).2 (hnames pair hpair hblank)

/-- **A term of the chain has no name exactly if the key of some pair that is not blank has nothing
left once its mark and its token are cut off.** -/
theorem exists_blank_key_iff_of_collect (hplain : (f.dialect {}).PlainKey idField)
    (h : Compiler.collect ⟨f.dialect {}, idField⟩ pairs id body = .ok p) :
    (∃ t ∈ (f.dialect {}).chainTerms p, t.key = "") ↔
      ∃ pair ∈ pairs, allBlank pair.1 = false ∧
        (Key.read (f.dialect {}) pair.1.toList).column = [] := by
  constructor
  · rintro ⟨t, ht, hkey⟩
    rcases List.mem_append.1 ht with ht | ht
    · rw [Term.key_eq_of_keys (keys_of_id hplain h (Option.mem_toList.1 ht)), trimmed,
        String.ofList_eq_empty_iff] at hkey
      exact absurd hkey hplain.notBlank
    · rcases named_or_parsed_of_mem h (List.mem_filter.1 ht).1 with
        hkeys | ⟨pair, hpair, hblank, hparse⟩
      · rw [Term.key_eq_of_keys hkeys] at hkey
        exact absurd hkey (by decide)
      · exact ⟨pair, hpair, hblank, (key_eq_empty_iff_of_parse hparse).1 hkey⟩
  · rintro ⟨pair, hpair, hblank, hcolumn⟩
    rcases exists_parse_or_plainKey h hpair hblank with ⟨t, ht, hparse⟩ | hkey
    · -- a term without a name is under no reserved key, so it is in the chain
      have hname := (key_eq_empty_iff_of_parse hparse).2 hcolumn
      refine ⟨t, List.mem_append_right _ (List.mem_filter.2 ⟨ht, ?_⟩), hname⟩
      rw [hname, Flavour.reserved_dialect]
      rfl
    · rw [Key.read_of_plain hkey.unmarked hkey.bare] at hcolumn
      exact absurd hcolumn hkey.notBlank

end Request

/-! ### Identifiers of a predicate -/

/-- A name is one empty part exactly if it is empty. -/
theorem splitOn_eq_singleton_nil_iff {separator : Char} {s : List Char} :
    splitOn separator s = [[]] ↔ s = [] := by
  constructor
  · intro hsplit
    rw [← intercalate_splitOn separator s, hsplit]
    rfl
  · rintro rfl
    rfl

/-- A reader finds the names of the group, and then those of the chain. -/
theorem Flavour.exists_lex_names {p : Params} (h : p.Forall (Term.WellFormed f))
    (columns : List String) :
    ∃ tokens,
      lex f.quoteMark .outside ((f.dialect r).text ((f.dialect r).assemble p columns)).toList =
        some tokens ∧
      (names (joinNames tokens)).drop ((f.dialect r).groupTerms p columns).length =
        ((f.dialect r).chainTerms p).map fun t => splitOn '.' t.key.toList := by
  refine ⟨_, lex_assemble h columns, ?_⟩
  rw [joinNames_tokens _ (separated_assemble h columns), names_lexemes,
    (consists_assemble h columns).columns, List.map_map, Dialect.renderedTerms, List.map_append,
    List.drop_left' (List.length_map _)]
  rfl

/-- **The terms of a request are named exactly if no key in it that is not blank has nothing left
when its mark and its token are cut off**, be it the key of a pair or one in the value of a look-up.
A reader of the predicate finds an empty identifier in the chain exactly if the key of some pair is
of that kind. -/
theorem named_iff_of_collect {f : Flavour} {idField : String} {pairs : List (String × String)}
    {id : Option String} {body : Option (List UInt8)} {p : Params}
    (hplain : (f.dialect {}).PlainKey idField)
    (h : Compiler.collect ⟨f.dialect {}, idField⟩ pairs id body = .ok p) (columns : List String) :
    (p.Forall Term.Named ↔ ∀ pair ∈ pairs, allBlank pair.1 = false →
      [] ∉ (f.dialect {}).namesIn pair.1 pair.2) ∧
    ∃ tokens,
      lex f.quoteMark .outside ((f.dialect {}).text ((f.dialect {}).assemble p columns)).toList =
        some tokens ∧
      ([[]] ∈ (names (joinNames tokens)).drop ((f.dialect {}).groupTerms p columns).length ↔
        ∃ pair ∈ pairs, allBlank pair.1 = false ∧
          (Key.read (f.dialect {}) pair.1.toList).column = []) := by
  obtain ⟨tokens, hlex, hnames⟩ :=
    Flavour.exists_lex_names (r := {}) (wellFormed_of_collect h) columns
  refine ⟨forall_named_iff_of_collect hplain h, tokens, hlex, ?_⟩
  rw [hnames, List.mem_map, ← exists_blank_key_iff_of_collect hplain h]
  simp only [splitOn_eq_singleton_nil_iff, String.toList_eq_nil_iff]

/-- A blank key is passed over, a blank key below a look-up leaves the look-up alone, and what is
marked or has a token keeps its name. -/
theorem named_of_blank_as_written :
    ∃ p tokens,
      Compiler.collect ⟨(Flavour.postgres .dollar).dialect {}, "id"⟩
        [("  ", "a"), ("[|] name [!]", "b"), ("doc[->]", " =c"), ("doc[->>]", "kind[!]=d")]
        (some "7") none = .ok p ∧
      p.Forall Term.Named ∧
      lex '"' .outside (((Flavour.postgres .dollar).dialect {}).text
        (((Flavour.postgres .dollar).dialect {}).assemble p [])).toList = some tokens ∧
      [[]] ∉ names (joinNames tokens) := by
  obtain ⟨p, hcollect, hgroup⟩ : ∃ p,
      Compiler.collect ⟨(Flavour.postgres .dollar).dialect {}, "id"⟩
        [("  ", "a"), ("[|] name [!]", "b"), ("doc[->]", " =c"), ("doc[->>]", "kind[!]=d")]
        (some "7") none = .ok p ∧
      (((Flavour.postgres .dollar).dialect {}).groupTerms p []).length = 0 := ⟨_, rfl, rfl⟩
  have hplain : ((Flavour.postgres .dollar).dialect {}).PlainKey "id" :=
    ⟨by decide, by decide, by decide⟩
  obtain ⟨hnamed, tokens, hlex, hempty⟩ := named_iff_of_collect hplain hcollect []
  rw [hgroup, List.drop_zero] at hempty
  exact ⟨p, tokens, hcollect, hnamed.2 (by decide), hlex, mt hempty.1 (by decide)⟩

/-- A key that is nothing but a token, or nothing but a mark, becomes a term without a name, on its
own and below a look-up. -/
theorem unnamed_of_bare_token : ∃ p,
    Compiler.collect ⟨(Flavour.postgres .question).dialect {}, "id"⟩
        [("[!]", "a"), ("[|]", "b"), ("doc[->]", "[!]=c")] none none = .ok p ∧
      p.terms.map Term.keys = [[""], [""], ["doc", ""]] ∧
      ((Flavour.postgres .question).dialect {}).text
          (((Flavour.postgres .question).dialect {}).assemble p []) =
        "\"\" != ? OR \"\" = ? AND \"doc\" -> ? != ?" :=
  ⟨_, rfl, rfl, by decide +kernel⟩

end WhereClause

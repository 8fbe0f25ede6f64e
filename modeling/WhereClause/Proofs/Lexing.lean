/-
**Reading the identifiers of a predicate.**

A reader of a predicate that knows nothing but how identifiers are quoted cuts its text into
identifiers and other characters: an identifier runs from a quote to the next quote that is not
written twice, and a quote written twice stands for one.  Identifiers with a single dot between them
make one dotted name.

Main definitions:

* `WhereClause.Token`, `WhereClause.lex` — identifiers and other characters, and the reader, which
  has no answer for a text that ends inside an identifier;
* `WhereClause.Lexeme`, `WhereClause.joinNames` — dotted names and other characters;
* `WhereClause.names` — the dotted names in order;
* `WhereClause.masked` — the text with a fixed mark in the place of every identifier.

Main results:

* `WhereClause.lex_quotedPart` — a quoted part of a name is read as that part;
* `WhereClause.lex_quotedName` — a quoted name is read as its parts with dots between them;
* `WhereClause.joinNames_dotted` — and these make one dotted name.
-/

import WhereClause.Text.Quoted

set_option relaxedAutoImplicit false
set_option autoImplicit false

namespace WhereClause

open Text

/-! ### The reader -/

/-- A piece of a text in which identifiers are quoted. -/
inductive Token where
  /-- An identifier, without its quotes. -/
  | name (text : List Char)
  /-- A character outside of identifiers. -/
  | sign (c : Char)
deriving DecidableEq, Repr

/-- Where the reader stands. -/
inductive Place where
  | outside
  /-- Inside an identifier of which `text` has been read. -/
  | inside (text : List Char)
  /-- Behind a quote that closes the identifier unless it is written twice. -/
  | behindQuote (text : List Char)
deriving DecidableEq, Repr

/-- The tokens of a text; none if it ends inside an identifier. -/
def lex (quote : Char) : Place → List Char → Option (List Token)
  | .outside, [] => some []
  | .inside _, [] => none
  | .behindQuote text, [] => some [.name text]
  | .outside, c :: rest =>
      if c = quote then lex quote (.inside []) rest
      else (lex quote .outside rest).map (.sign c :: ·)
  | .inside text, c :: rest =>
      if c = quote then lex quote (.behindQuote text) rest
      else lex quote (.inside (text ++ [c])) rest
  | .behindQuote text, c :: rest =>
      if c = quote then lex quote (.inside (text ++ [quote])) rest
      else (lex quote .outside rest).map fun tokens => .name text :: .sign c :: tokens

/-- Characters other than the quote are read as they are. -/
theorem lex_signs {quote : Char} {s : List Char} (h : quote ∉ s) (rest : List Char) :
    lex quote .outside (s ++ rest) = (lex quote .outside rest).map (s.map .sign ++ ·) := by
  induction s with
  | nil => simp
  | cons c s ih =>
      have hc : c ≠ quote := fun e => h (by simp [e])
      have hs : quote ∉ s := fun hm => h (List.mem_cons_of_mem c hm)
      simp [lex, hc, ih hs, Option.map_map, Function.comp_def]

/-- Behind a quote that is not written twice the identifier is complete. -/
theorem lex_behindQuote {quote : Char} (text : List Char) {rest : List Char}
    (h : rest.head? ≠ some quote) :
    lex quote (.behindQuote text) rest = (lex quote .outside rest).map (.name text :: ·) := by
  cases rest with
  | nil => rfl
  | cons c rest =>
      have hc : c ≠ quote := by simpa using h
      simp [lex, hc, Option.map_map, Function.comp_def]

/-- A part in which quotes are written twice is read, up to the closing quote, as the part. -/
theorem lex_inside (quote : Char) (text part rest : List Char) :
    lex quote (.inside text)
        (part.flatMap (fun c => if c = quote then [quote, quote] else [c]) ++ quote :: rest) =
      lex quote (.behindQuote (text ++ part)) rest := by
  induction part generalizing text with
  | nil => simp [lex]
  | cons c part ih =>
      by_cases hc : c = quote
      · subst hc
        simp [lex, ih]
      · simp [lex, hc, ih]

/-- **A quoted part of a name is read as that part**, unless a further quote follows. -/
theorem lex_quotedPart {quote : Char} (part : List Char) {rest : List Char}
    (h : rest.head? ≠ some quote) :
    lex quote .outside (quotedPart quote part ++ rest) =
      (lex quote .outside rest).map (.name part :: ·) := by
  have hinside := lex_inside quote [] part rest
  simp only [List.nil_append] at hinside
  rw [quotedPart, List.cons_append, List.append_assoc, List.singleton_append, lex, if_pos rfl,
    hinside, lex_behindQuote part h]

/-! ### Dotted names -/

/-- The identifiers of a dotted name, with the dots between them. -/
def dotted : List (List Char) → List Token
  | [] => []
  | [part] => [.name part]
  | part :: parts => .name part :: .sign '.' :: dotted parts

/-- **A quoted name is read as its parts with dots between them.** -/
theorem lex_quotedName {quote : Char} (hdot : quote ≠ '.') (name : String) {rest : List Char}
    (h : rest.head? ≠ some quote) :
    lex quote .outside ((quotedName quote name).toList ++ rest) =
      (lex quote .outside rest).map (dotted (splitOn '.' name.toList) ++ ·) := by
  rw [quotedName, String.toList_ofList]
  generalize splitOn '.' name.toList = parts
  induction parts with
  | nil => simp [dotted, List.intercalate]
  | cons part parts ih =>
      cases parts with
      | nil => simpa [dotted, List.intercalate] using lex_quotedPart part h
      | cons next parts =>
          -- the dot behind the part closes it, and is itself no quote
          have hclose : ∀ s : List Char, ('.' :: s).head? ≠ some quote := by
            simpa using hdot.symm
          simp only [List.map_cons, List.intercalate_cons_cons, List.append_assoc,
            List.cons_append, List.nil_append] at ih ⊢
          rw [lex_quotedPart part (hclose _), lex, if_neg hdot.symm, ih]
          simp [dotted, Option.map_map, Function.comp_def]

/-- A dotted name, or a character outside of names. -/
inductive Lexeme where
  | name (parts : List (List Char))
  | sign (c : Char)
deriving DecidableEq, Repr

/-- Put identifiers with a single dot between them together. -/
def joinNames : List Token → List Lexeme
  | [] => []
  | .sign c :: tokens => .sign c :: joinNames tokens
  | .name part :: tokens =>
      match joinNames tokens with
      | .sign '.' :: .name parts :: rest => .name (part :: parts) :: rest
      | rest => .name [part] :: rest

/-- What begins with an identifier begins with a name. -/
theorem joinNames_name_cons (part : List Char) (tokens : List Token) :
    ∃ parts rest, joinNames (.name part :: tokens) = .name parts :: rest := by
  rw [joinNames]
  split
  · exact ⟨_, _, rfl⟩
  · exact ⟨_, _, rfl⟩

/-- An identifier without a dot behind it is a name of one part. -/
theorem joinNames_name (part : List Char) {tokens : List Token}
    (h : tokens.head? ≠ some (.sign '.')) :
    joinNames (.name part :: tokens) = .name [part] :: joinNames tokens := by
  cases tokens with
  | nil => rfl
  | cons token tokens =>
      cases token with
      | sign c =>
          have hc : c ≠ '.' := by simpa using h
          simp [joinNames, hc]
      | name next =>
          obtain ⟨parts, rest, hjoin⟩ := joinNames_name_cons next tokens
          rw [joinNames, hjoin]

/-- **The identifiers of a dotted name make that name**, if no further dot follows. -/
theorem joinNames_dotted {parts : List (List Char)} (hne : parts ≠ []) {tokens : List Token}
    (h : tokens.head? ≠ some (.sign '.')) :
    joinNames (dotted parts ++ tokens) = .name parts :: joinNames tokens := by
  induction parts with
  | nil => exact absurd rfl hne
  | cons part parts ih =>
      cases parts with
      | nil => exact joinNames_name part h
      | cons next parts =>
          have htail := ih (by simp)
          simp only [dotted, List.cons_append]
          rw [joinNames, joinNames, htail]
          rfl

/-- The dotted names of a text, in order. -/
def names (lexemes : List Lexeme) : List (List (List Char)) :=
  lexemes.filterMap fun
    | .name parts => some parts
    | .sign _ => none

/-- The text with a fixed mark in the place of every identifier. -/
def masked (mark : List Char) (tokens : List Token) : List Char :=
  tokens.flatMap fun
    | .name _ => mark
    | .sign c => [c]

end WhereClause

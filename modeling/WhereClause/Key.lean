/-
**Keys of a request.**

A key may begin with the mark that joins its term with OR, and may end with an operator token in
brackets; what is left is the column.  A bracketed text that is no token belongs to the column.

Main definitions:

* `WhereClause.cutSuffix?` — a text and the token in brackets at its end;
* `WhereClause.Key` — the parts of a key;
* `WhereClause.Key.read` — the parts of a key in a dialect.

Main results:

* `WhereClause.eq_append_of_cutSuffix?` — a cut loses nothing.
-/

import WhereClause.Dialect.Basic
import WhereClause.Text.Blank

set_option autoImplicit false

namespace WhereClause

open Text

/-- What stands before the leftmost bracketed token that reaches to the end of a text, and the
token. -/
def cutSuffix? (tokens : List String) : List Char → Option (List Char × String)
  | [] => none
  | c :: rest =>
      let further := (cutSuffix? tokens rest).map fun (before, token) => (c :: before, token)
      match enclosed? '[' ']' (c :: rest) with
      | none => further
      | some inner =>
          if tokens.contains (String.ofList inner) then some ([], String.ofList inner) else further

/-- A text is what stands before its token, and the token in brackets. -/
theorem eq_append_of_cutSuffix? {tokens : List String} {s before : List Char} {token : String}
    (h : cutSuffix? tokens s = some (before, token)) :
    s = before ++ '[' :: (token.toList ++ [']']) ∧ token ∈ tokens := by
  induction s generalizing before with
  | nil => cases h
  | cons c rest ih =>
      -- a cut further right comes with the character before it
      have hfurther : (cutSuffix? tokens rest).map (fun (before, token) => (c :: before, token)) =
          some (before, token) →
          c :: rest = before ++ '[' :: (token.toList ++ [']']) ∧ token ∈ tokens := by
        intro hmap
        obtain ⟨⟨left, token'⟩, hcut, hpair⟩ := Option.map_eq_some_iff.1 hmap
        simp only [Prod.mk.injEq] at hpair
        obtain ⟨rfl, rfl⟩ := hpair
        obtain ⟨hrest, hmem⟩ := ih hcut
        exact ⟨by rw [List.cons_append, ← hrest], hmem⟩
      rw [cutSuffix?] at h
      split at h
      next => exact hfurther h
      next inner hinner =>
        split at h
        next hmem =>
          simp only [Option.some.injEq, Prod.mk.injEq] at h
          obtain ⟨rfl, rfl⟩ := h
          refine ⟨?_, List.contains_iff_mem.1 hmem⟩
          rw [String.toList_ofList, List.nil_append]
          exact eq_of_enclosed?_eq_some hinner
        next => exact hfurther h

/-- The parts of a key. -/
structure Key where
  column : List Char
  operator : Operator
  /-- Whether the key begins with the mark that joins its term with OR. -/
  isOr : Bool
deriving DecidableEq, Repr

namespace Key

/-- A column and the operator that is chosen at its end; equality, if none is. -/
def readOperator (tokens : List String) (key : List Char) : List Char × Operator :=
  match cutSuffix? tokens key with
  | none => (key, .eq)
  | some (before, token) =>
      match Operator.ofToken? token with
      | none => (key, .eq)
      | some op => (trimEnd before, op)

/-- The parts of a key.  Blanks around the key, behind the mark and before the token do not
count. -/
def read (d : Dialect) (key : List Char) : Key :=
  let key := trim key
  let (key, isOr) :=
    match dropLead? d.reserved.orMarker.toList key with
    | none => (key, false)
    | some rest => (trimStart rest, true)
  let (column, operator) := readOperator d.tokens key
  { column := column, operator := operator, isOr := isOr }

end Key

end WhereClause

/-
**What is left of a key.**

Blanks around a key do not count, and neither do those behind the mark for OR and before the
operator token.  So the column that is left of a key has no blank at either end where something was
cut off, and it is blank only if nothing is left at all.  A key without blanks around it and with
neither a mark nor a token is its own column, and no other key is: every cut makes it shorter.

Main results:

* `WhereClause.Text.trim_trim` — trimming twice changes nothing more;
* `WhereClause.Dialect.parse_trimmed` — **a pair is parsed the same with blanks around its key**;
* `WhereClause.Key.column_eq_nil_of_blank` — **the column of a key is blank only if it is empty**;
* `WhereClause.Key.read_of_plain` — a key with neither a mark nor a token is its own column;
* `WhereClause.cutSuffix?_eq_none_iff` — no token is cut off exactly if there is none at the end;
* `WhereClause.Key.column_eq_self_iff` — **which keys are their own columns**.
-/

import Mathlib.Data.List.DropRight
import WhereClause.Parsing

set_option relaxedAutoImplicit false
set_option autoImplicit false

namespace WhereClause

open Text

/-! ### Trimming -/

namespace Text

variable {s : List Char}

theorem trimEnd_eq_rdropWhile (s : List Char) : trimEnd s = s.rdropWhile isBlank := rfl

@[simp] theorem trimStart_trimStart (s : List Char) : trimStart (trimStart s) = trimStart s :=
  List.dropWhile_idempotent isBlank s

@[simp] theorem trimEnd_trimEnd (s : List Char) : trimEnd (trimEnd s) = trimEnd s :=
  List.rdropWhile_idempotent isBlank s

/-- Nothing is left of a text exactly if it is blank. -/
theorem trimStart_eq_nil_iff : trimStart s = [] ↔ s.all isBlank = true := by
  rw [trimStart, List.dropWhile_eq_nil_iff, List.all_eq_true]

theorem trimEnd_eq_nil_iff : trimEnd s = [] ↔ s.all isBlank = true := by
  rw [trimEnd_eq_rdropWhile, List.rdropWhile_eq_nil_iff, List.all_eq_true]

/-- Cutting blanks off at the end leaves none at the beginning where there was none. -/
theorem trimStart_trim (s : List Char) : trimStart (trim s) = trim s := by
  have hstem : trim s <+: trimStart s := List.rdropWhile_prefix isBlank (trimStart s)
  refine List.dropWhile_eq_self_iff.2 fun hlength => ?_
  have hstart := List.dropWhile_eq_self_iff.1 (trimStart_trimStart s)
  rw [hstem.getElem hlength]
  exact hstart (hlength.trans_le hstem.length_le)

/-- Trimming twice changes nothing more. -/
@[simp] theorem trim_trim (s : List Char) : trim (trim s) = trim s := by
  rw [trim, trimStart_trim, trim, trimEnd_trimEnd]

/-- Nothing is left of a trimmed text exactly if the text was blank. -/
theorem trim_eq_nil_iff : trim s = [] ↔ s.all isBlank = true := by
  constructor
  · intro h
    rw [trim, trimEnd_eq_nil_iff, ← trimStart_eq_nil_iff, trimStart_trimStart,
      trimStart_eq_nil_iff] at h
    exact h
  · intro h
    rw [trim, trimStart_eq_nil_iff.2 h, trimEnd_nil]

/-- What is left of a trimmed string is the empty string exactly if the string was blank. -/
theorem trimmed_eq_empty_iff {s : String} : trimmed s = "" ↔ allBlank s = true := by
  rw [trimmed, allBlank, ← trim_eq_nil_iff, ← String.toList_inj, String.toList_ofList,
    String.toList_empty]

/-- What is not blank is not empty, trimmed or not. -/
theorem trimmed_ne_empty {s : String} (h : allBlank s = false) : trimmed s ≠ "" := by
  rw [ne_eq, trimmed_eq_empty_iff, h]
  exact Bool.false_ne_true

theorem trim_ne_nil {s : String} (h : allBlank s = false) : trim s.toList ≠ [] := by
  intro hnil
  have hempty : trimmed s = "" := by rw [trimmed, hnil, String.ofList_nil]
  exact trimmed_ne_empty h hempty

theorem toList_ne_nil {s : String} (h : allBlank s = false) : s.toList ≠ [] := by
  intro hnil
  rw [allBlank, hnil] at h
  cases h

/-- A string has no blanks around it exactly if its text has none. -/
theorem trimmed_eq_self_iff {s : String} : trimmed s = s ↔ trim s.toList = s.toList := by
  rw [trimmed, ← String.toList_inj, String.toList_ofList]

/-- Whether a text begins with a blank is told by its beginning. -/
theorem trimStart_append_eq_self_iff (h : s ≠ []) (rest : List Char) :
    trimStart (s ++ rest) = s ++ rest ↔ trimStart s = s := by
  cases s with
  | nil => exact absurd rfl h
  | cons c s =>
      rw [trimStart, trimStart, List.dropWhile_eq_self_iff, List.dropWhile_eq_self_iff]
      simp

/-- Whether it ends with one is told by its end. -/
theorem trimEnd_append_of_eq_self (h : s ≠ []) (hs : trimEnd s = s) (before : List Char) :
    trimEnd (before ++ s) = before ++ s := by
  rw [trimEnd_eq_rdropWhile, List.rdropWhile_eq_self_iff] at hs ⊢
  intro hne
  rw [List.getLast_append_of_ne_nil hne h]
  exact hs h

theorem length_trimStart_le (s : List Char) : (trimStart s).length ≤ s.length :=
  (List.dropWhile_sublist isBlank).length_le

theorem length_trimEnd_le (s : List Char) : (trimEnd s).length ≤ s.length :=
  (List.rdropWhile_prefix isBlank s).length_le

/-- Trimming makes no text longer. -/
theorem length_trim_le (s : List Char) : (trim s).length ≤ s.length :=
  (length_trimEnd_le _).trans (length_trimStart_le s)

end Text

/-! ### Tokens -/

/-- **No token is cut off exactly if none stands in brackets at the end.** -/
theorem cutSuffix?_eq_none_iff {tokens : List String} {s : List Char} :
    cutSuffix? tokens s = none ↔
      ∀ token ∈ tokens, ¬ '[' :: (token.toList ++ [']']) <:+ s := by
  constructor
  · intro hnone token htoken hsuffix
    induction s with
    | nil => simp at hsuffix
    | cons c rest ih =>
        rw [cutSuffix?] at hnone
        rcases List.suffix_cons_iff.1 hsuffix with hwhole | hrest
        · rw [← hwhole, enclosed?_append] at hnone
          simp [String.ofList_toList, htoken] at hnone
        · -- whether or not the whole text is a token, the one further right is not missed
          refine ih ?_ hrest
          dsimp only at hnone
          split at hnone
          next => exact Option.map_eq_none_iff.1 hnone
          next =>
            split at hnone
            next => cases hnone
            next => exact Option.map_eq_none_iff.1 hnone
  · intro hnone
    cases hcut : cutSuffix? tokens s with
    | none => rfl
    | some cut =>
        obtain ⟨hsplit, hmem⟩ := eq_append_of_cutSuffix? hcut
        exact absurd ⟨_, hsplit.symm⟩ (hnone _ hmem)

/-! ### Columns -/

namespace Key

variable {d : Dialect}

/-- Blanks around a key do not count. -/
@[simp] theorem read_trim (d : Dialect) (s : List Char) : read d (trim s) = read d s := by
  simp only [read, trim_trim]

/-- What is left before a token is blank only if it is empty. -/
theorem readOperator_eq_nil_of_blank {tokens : List String} {s : List Char}
    (hs : s.all isBlank = true → s = [])
    (h : (readOperator tokens s).1.all isBlank = true) : (readOperator tokens s).1 = [] := by
  unfold readOperator at h ⊢
  split at h
  next => exact hs h
  next before token hcut =>
    split at h
    next => exact hs h
    next =>
      rw [← trimEnd_eq_nil_iff, trimEnd_trimEnd] at h
      exact h

/-- **The column of a key is blank only if it is empty.** -/
theorem column_eq_nil_of_blank {s : List Char} (h : (read d s).column.all isBlank = true) :
    (read d s).column = [] := by
  unfold read at h ⊢
  cases hlead : dropLead? d.reserved.orMarker.toList (trim s) with
  | none =>
      simp only [hlead] at h ⊢
      refine readOperator_eq_nil_of_blank (fun hblank => ?_) h
      rwa [← trim_eq_nil_iff, trim_trim] at hblank
  | some rest =>
      simp only [hlead] at h ⊢
      refine readOperator_eq_nil_of_blank (fun hblank => ?_) h
      rwa [← trimStart_eq_nil_iff, trimStart_trimStart] at hblank

/-- A key with neither a mark nor a token is its own column, the blanks around it aside, and is
compared with equality. -/
theorem read_of_plain {s : List Char} (hmark : ¬ d.reserved.orMarker.toList <+: trim s)
    (htoken : ∀ token ∈ d.tokens, ¬ '[' :: (token.toList ++ [']']) <:+ trim s) :
    read d s = { column := trim s, operator := .eq, isOr := false } := by
  have hlead : dropLead? d.reserved.orMarker.toList (trim s) = none :=
    dropLead?_eq_none_iff.2 hmark
  have hcut : cutSuffix? d.tokens (trim s) = none := cutSuffix?_eq_none_iff.2 htoken
  simp only [read, hlead, readOperator, hcut]

/-- A key is not longer for its operator, and it is as long only if no token is cut off. -/
theorem length_readOperator {tokens : List String}
    (htokens : ∀ token ∈ tokens, (Operator.ofToken? token).isSome = true) (s : List Char) :
    (readOperator tokens s).1.length < s.length ∨
      readOperator tokens s = (s, .eq) ∧ cutSuffix? tokens s = none := by
  unfold readOperator
  cases hcut : cutSuffix? tokens s with
  | none => exact .inr ⟨rfl, rfl⟩
  | some cut =>
      obtain ⟨before, token⟩ := cut
      obtain ⟨hsplit, hmem⟩ := eq_append_of_cutSuffix? hcut
      obtain ⟨op, hop⟩ := Option.isSome_iff_exists.1 (htokens token hmem)
      have hbefore := length_trimEnd_le before
      have hlength := congrArg List.length hsplit
      simp only [List.length_append, List.length_cons] at hlength
      simp only [hop]
      exact .inl (by omega)

/-- **A key is its own column exactly if it has no blanks around it, no mark and no token.** -/
theorem column_eq_self_iff (hmarker : d.reserved.orMarker.toList ≠ [])
    (htokens : ∀ token ∈ d.tokens, (Operator.ofToken? token).isSome = true) {s : List Char} :
    (read d s).column = s ↔ trim s = s ∧ ¬ d.reserved.orMarker.toList <+: trim s ∧
      ∀ token ∈ d.tokens, ¬ '[' :: (token.toList ++ [']']) <:+ trim s := by
  constructor
  · intro hcolumn
    have htrim := length_trim_le s
    have hlength := congrArg List.length hcolumn
    unfold read at hcolumn hlength
    cases hlead : dropLead? d.reserved.orMarker.toList (trim s) with
    | some rest =>
        -- the mark is missing in the column
        have hpos := List.length_pos_iff.2 hmarker
        have hrest := length_trimStart_le rest
        have hsplit := congrArg List.length (eq_of_dropLead?_eq_some hlead)
        rw [List.length_append] at hsplit
        simp only [hlead] at hlength
        rcases length_readOperator htokens (trimStart rest) with hlt | ⟨heq, -⟩
        · omega
        · rw [heq] at hlength
          dsimp only at hlength
          omega
    | none =>
        simp only [hlead] at hcolumn hlength
        rcases length_readOperator htokens (trim s) with hlt | ⟨heq, hcut⟩
        · omega
        · rw [heq] at hcolumn
          exact ⟨hcolumn, dropLead?_eq_none_iff.1 hlead, cutSuffix?_eq_none_iff.1 hcut⟩
  · rintro ⟨htrim, hmark, htoken⟩
    rw [read_of_plain hmark htoken, htrim]

/-- The term of a key is joined with OR exactly if the key begins with the mark. -/
theorem isOr_read_iff {s : List Char} :
    (read d s).isOr = true ↔ d.reserved.orMarker.toList <+: trim s := by
  have hsome : (dropLead? d.reserved.orMarker.toList (trim s)).isSome = true ↔
      d.reserved.orMarker.toList <+: trim s := by
    rw [Option.isSome_iff_ne_none, ne_eq, dropLead?_eq_none_iff, not_not]
  rw [← hsome, read]
  cases dropLead? d.reserved.orMarker.toList (trim s) <;> exact Iff.rfl

/-- **Before a key without a mark, the mark changes how its term is joined and nothing else.** -/
theorem read_append_of_unmarked {marker key : List Char}
    (hmarker : d.reserved.orMarker.toList = marker) (hne : marker ≠ [])
    (hstart : trimStart marker = marker) (hkey : key ≠ []) (htrim : trim key = key)
    (hmark : ¬ marker <+: key) : read d (marker ++ key) = { read d key with isOr := true } := by
  have hkeyStart : trimStart key = key := by rw [← htrim, trimStart_trim]
  have hkeyEnd : trimEnd key = key := by rw [← htrim, trim, trimEnd_trimEnd]
  have htrimmed : trim (marker ++ key) = marker ++ key := by
    rw [trim, (trimStart_append_eq_self_iff hne key).2 hstart,
      trimEnd_append_of_eq_self hkey hkeyEnd]
  have hlead : dropLead? marker key = none := dropLead?_eq_none_iff.2 hmark
  simp only [read, hmarker, htrimmed, htrim, dropLead?_append, hlead, hkeyStart]

end Key

/-! ### Pairs -/

/-- **A pair is parsed the same with blanks around its key.** -/
@[simp] theorem Dialect.parse_trimmed (d : Dialect) (key value : String) :
    d.parse (trimmed key) value = d.parse key value := by
  have hread : Key.read d (trimmed key).toList = Key.read d key.toList := by
    rw [trimmed, String.toList_ofList, Key.read_trim]
  simp only [parse, parseSingle, hread]

end WhereClause

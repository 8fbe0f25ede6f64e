/-
**Types behind a token.**

The type of a token stands behind its last double colon.  Colons may stand in the token itself, in
pairs as well as next to the pair that belongs to the type, and so may other types.  Since no name
of a type has a colon in it, what stands before the type is told by the token all the same: a type
put behind any text at all is split off again, and the text is what is left.

Main definitions:

* `WhereClause.LastPair` — the two sides of the last place where a character stands twice;
* `WhereClause.TypeWord` — a letter, then letters and digits;
* `WhereClause.hintText` — the text of a type behind a token;
* `WhereClause.UnknownHint` — a token with a word behind it that names no type.

Main results:

* `WhereClause.cutLastPair?_eq_some_iff` — the last pair is found, if there is one;
* `WhereClause.eq_of_splitTypeHint` — a token is what is left of it and the type behind it;
* `WhereClause.splitTypeHint_append` — **a type put behind a text is split off again**;
* `WhereClause.hintText_append_inj` — a token has one type behind it at most;
* `WhereClause.splitTypeHint_eq_error_iff` — which tokens are at fault;
* `WhereClause.splitTypeHint_closed` — what ends in neither a letter nor a digit is left as it is;
* `WhereClause.splitTypeHint_eq_iff` — **what a token is split into**, for every token.
-/

import Mathlib.Data.List.Basic
import WhereClause.Cast

set_option relaxedAutoImplicit false
set_option autoImplicit false

namespace WhereClause

open Text

/-! ### The last pair -/

/-- The two sides of the last place where a character stands twice in a row. -/
structure LastPair (mark : Char) (s before after : List Char) : Prop where
  text : s = before ++ mark :: mark :: after
  last : ∀ before' after', s = before' ++ mark :: mark :: after' → before'.length ≤ before.length

section LastPair

variable {mark : Char} {s before after : List Char}

/-- There is one last place at most. -/
theorem LastPair.unique {before' after' : List Char} (h : LastPair mark s before after)
    (h' : LastPair mark s before' after') : before = before' ∧ after = after' := by
  have hlength : before.length = before'.length :=
    Nat.le_antisymm (h'.last _ _ h.text) (h.last _ _ h'.text)
  obtain ⟨hbefore, hrest⟩ := List.append_inj (h.text.symm.trans h'.text) hlength
  exact ⟨hbefore, (List.cons.inj (List.cons.inj hrest).2).2⟩

/-- A pair behind which the character does not stand again is the last one. -/
theorem lastPair_of_notMem (h : mark ∉ after) :
    LastPair mark (before ++ mark :: mark :: after) before after := by
  refine ⟨rfl, fun before' after' heq => ?_⟩
  rcases List.append_eq_append_iff.1 heq with ⟨between, hbefore, hrest⟩ | ⟨between, hbefore, -⟩
  · -- a pair further right would have its second character in what stands behind
    match between, hrest with
    | [], _ => simp [hbefore]
    | [_], hrest =>
        rw [List.singleton_append] at hrest
        have hafter := (List.cons.inj (List.cons.inj hrest).2).2
        exact absurd (hafter ▸ List.mem_cons_self) h
    | _ :: _ :: between, hrest =>
        have hafter := (List.cons.inj (List.cons.inj hrest).2).2
        rw [hafter] at h
        exact absurd (by simp) h
  · rw [hbefore, List.length_append]
    exact Nat.le_add_right _ _

/-- Nothing is found only where the character never stands twice in a row. -/
theorem ne_append_of_cutLastPair?_eq_none (h : cutLastPair? mark s = none)
    (before after : List Char) : s ≠ before ++ mark :: mark :: after := by
  induction s generalizing before with
  | nil => simp
  | cons c rest ih =>
      unfold cutLastPair? at h
      cases hcut : cutLastPair? mark rest with
      | some cut => simp [hcut] at h
      | none =>
          rintro heq
          cases before with
          | nil =>
              obtain ⟨rfl, rfl⟩ := List.cons.inj heq
              simp [hcut] at h
          | cons d before => exact ih hcut before (List.cons.inj heq).2

/-- What is found is the last pair. -/
theorem lastPair_of_cutLastPair? (h : cutLastPair? mark s = some (before, after)) :
    LastPair mark s before after := by
  refine ⟨eq_of_cutLastPair?_eq_some h, ?_⟩
  induction s generalizing before with
  | nil => cases h
  | cons c rest ih =>
      intro before' after' heq
      cases before' with
      | nil => exact Nat.zero_le _
      | cons d before' =>
          have hrest := (List.cons.inj heq).2
          unfold cutLastPair? at h
          cases hcut : cutLastPair? mark rest with
          | none => exact absurd hrest (ne_append_of_cutLastPair?_eq_none hcut before' after')
          | some cut =>
              obtain ⟨left, right⟩ := cut
              simp only [hcut, Option.some.injEq, Prod.mk.injEq] at h
              obtain ⟨rfl, rfl⟩ := h
              exact Nat.succ_le_succ (ih hcut before' after' hrest)

/-- **The last pair is found, if there is one.** -/
theorem cutLastPair?_eq_some_iff :
    cutLastPair? mark s = some (before, after) ↔ LastPair mark s before after := by
  refine ⟨lastPair_of_cutLastPair?, fun h => ?_⟩
  cases hcut : cutLastPair? mark s with
  | none => exact absurd h.text (ne_append_of_cutLastPair?_eq_none hcut before after)
  | some cut =>
      obtain ⟨hbefore, hafter⟩ := h.unique (lastPair_of_cutLastPair? hcut)
      rw [hbefore, hafter]

end LastPair

/-! ### Words -/

/-- A word that could name a type: a letter, then letters and digits, all of ASCII. -/
def TypeWord (word : List Char) : Prop :=
  ∃ first rest, word = first :: rest ∧ isLetter first = true ∧
    ∀ c ∈ rest, isLetter c = true ∨ isDigit c = true

theorem isTypeWord_iff {word : List Char} : isTypeWord word = true ↔ TypeWord word := by
  cases word with
  | nil => simp [isTypeWord, TypeWord]
  | cons first rest =>
      simp only [isTypeWord, Bool.and_eq_true, List.all_eq_true, Bool.or_eq_true]
      constructor
      · rintro ⟨hfirst, hrest⟩
        exact ⟨first, rest, rfl, hfirst, hrest⟩
      · rintro ⟨_, _, heq, hfirst, hrest⟩
        cases heq
        exact ⟨hfirst, hrest⟩

/-- The name of every type is such a word. -/
theorem isTypeWord_name (type : DataType) : isTypeWord type.name.toList = true := by
  cases type <;> decide

/-- Every character of such a word is a letter or a digit. -/
theorem TypeWord.isLetter_or_isDigit {word : List Char} (h : TypeWord word) :
    ∀ c ∈ word, isLetter c = true ∨ isDigit c = true := by
  obtain ⟨first, rest, rfl, hfirst, hrest⟩ := h
  exact List.forall_mem_cons.2 ⟨.inl hfirst, hrest⟩

theorem TypeWord.colon_notMem {word : List Char} (h : TypeWord word) : ':' ∉ word := by
  intro hmem
  rcases h.isLetter_or_isDigit _ hmem with hletter | hdigit
  · cases hletter
  · cases hdigit

/-! ### Hints -/

/-- The text of a declared type behind a token. -/
def hintText : Option DataType → List Char
  | none => []
  | some type => ':' :: ':' :: type.name.toList

/-- A type is read from its name. -/
theorem DataType.name_of_read {name : String} {type : DataType}
    (h : DataType.read name = .ok type) : name = type.name := by
  unfold DataType.read at h
  split at h
  next found hfound => cases h; exact DataType.ofName?_eq_some_iff.1 hfound
  next => cases h

/-- **A token is what is left of it and the type behind it.** -/
theorem eq_of_splitTypeHint {token rest : List Char} {hint : Option DataType}
    (h : splitTypeHint token = .ok (rest, hint)) : token = rest ++ hintText hint := by
  unfold splitTypeHint at h
  split at h
  next => cases h; simp [hintText]
  next value name hcut =>
    split at h
    next =>
      split at h
      next type hread =>
        cases h
        rw [hintText, ← DataType.name_of_read hread, String.toList_ofList]
        exact eq_of_cutLastPair?_eq_some hcut
      next => cases h
    next => cases h; simp [hintText]

/-- A word behind the last pair of colons that could name a type and does not. -/
structure UnknownHint (token rest word : List Char) : Prop where
  cut : LastPair ':' token rest word
  typeWord : TypeWord word
  unknown : ∀ type : DataType, word ≠ type.name.toList

theorem DataType.read_name (type : DataType) : DataType.read type.name = .ok type := by
  rw [read, ofName?_name]

/-- A word that names no type is not read as one. -/
theorem DataType.read_eq_error {name : String} (h : ∀ type : DataType, name ≠ type.name) :
    DataType.read name = .error (.unknownType name) := by
  unfold read
  split
  next type htype => exact absurd (ofName?_eq_some_iff.1 htype) (h type)
  next => rfl

/-- The word behind the last pair of colons decides. -/
theorem splitTypeHint_of_lastPair {token rest word : List Char}
    (hcut : LastPair ':' token rest word) (hword : TypeWord word) :
    splitTypeHint token =
      (DataType.read (String.ofList word)).map fun type => (rest, some type) := by
  simp only [splitTypeHint, cutLastPair?_eq_some_iff.2 hcut, isTypeWord_iff.2 hword, if_true]
  cases DataType.read (String.ofList word) <;> rfl

/-- **A type put behind a text is split off again**, and the text is what is left. -/
theorem splitTypeHint_append (rest : List Char) (type : DataType) :
    splitTypeHint (rest ++ hintText (some type)) = .ok (rest, some type) := by
  have hword := isTypeWord_iff.1 (isTypeWord_name type)
  rw [hintText, splitTypeHint_of_lastPair (lastPair_of_notMem hword.colon_notMem) hword,
    String.ofList_toList, DataType.read_name]
  rfl

/-- A token has one type behind it at most, and what stands before it is told by the token. -/
theorem hintText_append_inj {rest rest' : List Char} {type type' : DataType} :
    rest ++ hintText (some type) = rest' ++ hintText (some type') ↔ rest = rest' ∧ type = type' := by
  constructor
  · intro h
    have hsplit := splitTypeHint_append rest type
    rw [h, splitTypeHint_append] at hsplit
    cases hsplit
    exact ⟨rfl, rfl⟩
  · rintro ⟨rfl, rfl⟩
    rfl

/-- A token is split exactly if a type stands behind it. -/
theorem splitTypeHint_eq_ok_some_iff {token rest : List Char} {type : DataType} :
    splitTypeHint token = .ok (rest, some type) ↔ token = rest ++ hintText (some type) := by
  refine ⟨eq_of_splitTypeHint, ?_⟩
  rintro rfl
  exact splitTypeHint_append rest type

/-- **A token is at fault exactly if the word behind its last pair of colons could name a type and
does not**, and the fault names the word. -/
theorem splitTypeHint_eq_error_iff {token : List Char} {failure : Failure} :
    splitTypeHint token = .error failure ↔ ∃ rest word, UnknownHint token rest word ∧
      failure = .unknownType (String.ofList word) := by
  constructor
  · intro h
    unfold splitTypeHint at h
    split at h
    next => cases h
    next rest word hcut =>
      split at h
      next hword =>
        refine ⟨rest, word, ⟨cutLastPair?_eq_some_iff.1 hcut, isTypeWord_iff.1 hword, ?_⟩, ?_⟩
        · rintro type rfl
          rw [String.ofList_toList, DataType.read_name] at h
          cases h
        · split at h
          next => cases h
          next failure' hread =>
            cases h
            unfold DataType.read at hread
            split at hread <;> cases hread
            rfl
      next => cases h
  · rintro ⟨rest, word, ⟨hcut, hword, hunknown⟩, rfl⟩
    rw [splitTypeHint_of_lastPair hcut hword, DataType.read_eq_error]
    · rfl
    · rintro type htype
      exact hunknown type (by rw [← htype, String.toList_ofList])

/-- A token is left as it is exactly if no type and no other word stands behind it. -/
theorem splitTypeHint_eq_ok_none_iff {token rest : List Char} :
    splitTypeHint token = .ok (rest, none) ↔ rest = token ∧
      (∀ before type, token ≠ before ++ hintText (some type)) ∧
      ∀ before word, ¬ UnknownHint token before word := by
  constructor
  · intro h
    refine ⟨?_, ?_, fun before word hunknown => ?_⟩
    · simpa [hintText] using (eq_of_splitTypeHint h).symm
    · rintro before type rfl
      rw [splitTypeHint_append] at h
      cases h
    · rw [splitTypeHint_eq_error_iff.2 ⟨before, word, hunknown, rfl⟩] at h
      cases h
  · rintro ⟨rfl, hknown, hunknown⟩
    -- with the two other outcomes excluded, this one is left
    cases hsplit : splitTypeHint rest with
    | error failure =>
        obtain ⟨before, word, h, -⟩ := splitTypeHint_eq_error_iff.1 hsplit
        exact absurd h (hunknown before word)
    | ok split =>
        obtain ⟨before, hint⟩ := split
        cases hint with
        | some type => exact absurd (eq_of_splitTypeHint hsplit) (hknown before type)
        | none =>
            have hrest := eq_of_splitTypeHint hsplit
            rw [hintText, List.append_nil] at hrest
            rw [hrest]

/-- What ends in neither a letter nor a digit has no type behind it. -/
theorem splitTypeHint_append_singleton {c : Char} (hletter : isLetter c = false)
    (hdigit : isDigit c = false) (s : List Char) :
    splitTypeHint (s ++ [c]) = .ok (s ++ [c], none) := by
  have hends : ∀ before word, TypeWord word → s ++ [c] ≠ before ++ ':' :: ':' :: word := by
    intro before word hword heq
    obtain ⟨first, rest, rfl, -⟩ := id hword
    have hlast := congrArg List.getLast? heq
    rw [List.getLast?_concat, List.getLast?_append_of_ne_nil _ (by simp),
      List.getLast?_cons_cons, List.getLast?_cons_cons] at hlast
    rcases hword.isLetter_or_isDigit c (List.mem_of_getLast? hlast.symm) with h | h
    · rw [hletter] at h
      cases h
    · rw [hdigit] at h
      cases h
  refine splitTypeHint_eq_ok_none_iff.2 ⟨rfl, fun before type => ?_, fun before word h => ?_⟩
  · exact hends before _ (isTypeWord_iff.1 (isTypeWord_name type))
  · exact hends before word h.typeWord h.cut.text

/-- Behind what ends in neither a letter nor a digit, a type or none is split off again. -/
theorem splitTypeHint_closed {c : Char} (hletter : isLetter c = false)
    (hdigit : isDigit c = false) (s : List Char) (hint : Option DataType) :
    splitTypeHint (s ++ c :: hintText hint) = .ok (s ++ [c], hint) := by
  cases hint with
  | none => exact splitTypeHint_append_singleton hletter hdigit s
  | some type =>
      rw [List.append_cons]
      exact splitTypeHint_append (s ++ [c]) type

/-- **What a token is split into.**  It loses a type exactly if the type stands behind it, and there
is one way only to read it so; it is at fault exactly if the word behind its last pair of colons
could name a type and does not; and in all other cases it is left as it is.  A type put behind any
text at all is split off again. -/
theorem splitTypeHint_eq_iff :
    (∀ token rest type, splitTypeHint token = .ok (rest, some type) ↔
      token = rest ++ hintText (some type)) ∧
    (∀ rest rest' type type', rest ++ hintText (some type) = rest' ++ hintText (some type') ↔
      rest = rest' ∧ type = type') ∧
    (∀ token failure, splitTypeHint token = .error failure ↔
      ∃ rest word, UnknownHint token rest word ∧ failure = .unknownType (String.ofList word)) ∧
    (∀ token rest, splitTypeHint token = .ok (rest, none) ↔ rest = token ∧
      (∀ before type, token ≠ before ++ hintText (some type)) ∧
      ∀ before word, ¬ UnknownHint token before word) ∧
    ∀ rest type, splitTypeHint (rest ++ hintText (some type)) = .ok (rest, some type) :=
  ⟨fun _ _ _ => splitTypeHint_eq_ok_some_iff, fun _ _ _ _ => hintText_append_inj,
    fun _ _ => splitTypeHint_eq_error_iff, fun _ _ => splitTypeHint_eq_ok_none_iff,
    splitTypeHint_append⟩

/-- Colons next to the pair of the type belong to the token, and so does a type before it. -/
example : splitTypeHint "a::int:::uint64".toList = .ok ("a::int:".toList, some .uint64) := rfl

end WhereClause

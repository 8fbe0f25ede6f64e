/-
**Cutting a text at characters and at marks.**

Lists of values, ranges, dotted names and encoded pairs are all texts cut at a separator.  The cuts
lose nothing: joining the pieces with the separator gives the text back.

Main definitions:

* `WhereClause.Text.splitWhere`, `WhereClause.Text.splitOn` — every piece between separators, the
  empty ones included;
* `WhereClause.Text.cutFirst?` — the two sides of the first separator;
* `WhereClause.Text.cutLastPair?` — the two sides of the last doubled separator;
* `WhereClause.Text.dropLead?` — what follows a given beginning;
* `WhereClause.Text.enclosed?` — what stands between an opening and a closing character.

Main results:

* `WhereClause.Text.intercalate_splitOn` — pieces joined with the separator give the text back;
* `WhereClause.Text.eq_of_cutFirst?_eq_some`, `WhereClause.Text.eq_of_cutLastPair?_eq_some` — the
  sides of a cut and what stands between them are the text;
* `WhereClause.Text.eq_of_dropLead?_eq_some`, `WhereClause.Text.eq_of_enclosed?_eq_some` — and so
  are the beginning of a text and what follows it, and the contents of a text and its ends.
-/

set_option autoImplicit false

namespace WhereClause.Text

/-- The pieces of a text between the characters of a class: one more than there are such
characters, and any of them may be empty. -/
def splitWhere (p : Char → Bool) : List Char → List (List Char)
  | [] => [[]]
  | c :: rest =>
      if p c then [] :: splitWhere p rest
      else
        match splitWhere p rest with
        | [] => [[c]]
        | piece :: pieces => (c :: piece) :: pieces

/-- The pieces of a text between the occurrences of one character. -/
def splitOn (separator : Char) (s : List Char) : List (List Char) :=
  splitWhere (· == separator) s

@[simp] theorem splitWhere_nil (p : Char → Bool) : splitWhere p [] = [[]] := rfl

@[simp] theorem splitOn_nil (separator : Char) : splitOn separator [] = [[]] := rfl

/-- There is always at least one piece. -/
theorem splitWhere_ne_nil (p : Char → Bool) (s : List Char) : splitWhere p s ≠ [] := by
  cases s with
  | nil => simp
  | cons c rest =>
      rw [splitWhere]
      split
      · simp
      · split <;> simp

/-- Pieces joined with the separator give the text back. -/
theorem intercalate_splitOn (separator : Char) (s : List Char) :
    [separator].intercalate (splitOn separator s) = s := by
  induction s with
  | nil => rfl
  | cons c rest ih =>
      have hne := splitWhere_ne_nil (· == separator) rest
      simp only [splitOn, splitWhere] at ih ⊢
      generalize splitWhere (· == separator) rest = pieces at ih hne ⊢
      match pieces, hne with
      | piece :: pieces, _ =>
          by_cases h : c = separator
          · subst h
            simpa [List.intercalate, List.intersperse] using ih
          · cases pieces <;> simp_all [List.intercalate, List.intersperse]

/-- The two sides of the first occurrence of a character. -/
def cutFirst? (separator : Char) : List Char → Option (List Char × List Char)
  | [] => none
  | c :: rest =>
      if c = separator then some ([], rest)
      else (cutFirst? separator rest).map fun (before, after) => (c :: before, after)

/-- The two sides of a cut and the separator between them are the text. -/
theorem eq_of_cutFirst?_eq_some {separator : Char} {s before after : List Char}
    (h : cutFirst? separator s = some (before, after)) : s = before ++ separator :: after := by
  induction s generalizing before with
  | nil => simp [cutFirst?] at h
  | cons c rest ih =>
      rw [cutFirst?] at h
      split at h
      · simp_all
      · obtain ⟨⟨left, right⟩, hcut, hpair⟩ := Option.map_eq_some_iff.1 h
        simp only [Prod.mk.injEq] at hpair
        obtain ⟨rfl, rfl⟩ := hpair
        rw [ih hcut, List.cons_append]

/-- The two sides of the last place where a character stands twice in a row. -/
def cutLastPair? (mark : Char) : List Char → Option (List Char × List Char)
  | [] => none
  | c :: rest =>
      match cutLastPair? mark rest with
      | some (before, after) => some (c :: before, after)
      | none =>
          match rest with
          | [] => none
          | d :: after => if c = mark ∧ d = mark then some ([], after) else none

/-- The two sides of a cut and the doubled separator between them are the text. -/
theorem eq_of_cutLastPair?_eq_some {mark : Char} {s before after : List Char}
    (h : cutLastPair? mark s = some (before, after)) : s = before ++ mark :: mark :: after := by
  induction s generalizing before with
  | nil => simp [cutLastPair?] at h
  | cons c rest ih =>
      unfold cutLastPair? at h
      cases hcut : cutLastPair? mark rest with
      | some cut =>
          obtain ⟨left, right⟩ := cut
          simp only [hcut, Option.some.injEq, Prod.mk.injEq] at h
          obtain ⟨rfl, rfl⟩ := h
          rw [ih hcut, List.cons_append]
      | none =>
          cases rest with
          | nil => simp [hcut] at h
          | cons d tail =>
              simp only [hcut] at h
              split at h
              · simp_all
              · simp at h

/-- What follows `lead` in a text that begins with it. -/
def dropLead? : List Char → List Char → Option (List Char)
  | [], s => some s
  | _ :: _, [] => none
  | a :: lead, c :: rest => if a = c then dropLead? lead rest else none

/-- A text without the given last character, if it ends with it. -/
def dropLast? (last : Char) (s : List Char) : Option (List Char) :=
  match s.reverse with
  | [] => none
  | c :: rest => if c = last then some rest.reverse else none

/-- What stands between an opening character at the very beginning of a text and a closing one at
its very end. -/
def enclosed? (opening closing : Char) : List Char → Option (List Char)
  | [] => none
  | c :: rest => if c = opening then dropLast? closing rest else none

@[simp] theorem dropLead?_nil (s : List Char) : dropLead? [] s = some s := by
  cases s <;> rfl

/-- A text that begins with `lead` gives back what was put after it. -/
theorem dropLead?_append (lead s : List Char) : dropLead? lead (lead ++ s) = some s := by
  induction lead with
  | nil => simp
  | cons a lead ih => simp [dropLead?, ih]

/-- What follows the beginning of a text, with the beginning before it, is the text. -/
theorem eq_of_dropLead?_eq_some {lead s rest : List Char} (h : dropLead? lead s = some rest) :
    s = lead ++ rest := by
  induction lead generalizing s with
  | nil => simpa using h
  | cons a lead ih =>
      cases s with
      | nil => cases h
      | cons c s =>
          simp only [dropLead?, Option.ite_none_right_eq_some] at h
          obtain ⟨rfl, hrest⟩ := h
          rw [ih hrest, List.cons_append]

/-- A text has no given beginning exactly if it does not begin with it. -/
theorem dropLead?_eq_none_iff {lead s : List Char} : dropLead? lead s = none ↔ ¬ lead <+: s := by
  constructor
  · rintro hnone ⟨rest, rfl⟩
    rw [dropLead?_append] at hnone
    cases hnone
  · intro hlead
    cases hrest : dropLead? lead s with
    | none => rfl
    | some rest => exact absurd ⟨rest, (eq_of_dropLead?_eq_some hrest).symm⟩ hlead

/-- A text closed by a character gives back what was put before it. -/
theorem dropLast?_append (last : Char) (s : List Char) : dropLast? last (s ++ [last]) = some s := by
  simp [dropLast?]

/-- A text without its last character, with that character behind it, is the text. -/
theorem eq_of_dropLast?_eq_some {last : Char} {s rest : List Char}
    (h : dropLast? last s = some rest) : s = rest ++ [last] := by
  unfold dropLast? at h
  cases hreverse : s.reverse with
  | nil => simp [hreverse] at h
  | cons c reversed =>
      simp only [hreverse, Option.ite_none_right_eq_some, Option.some.injEq] at h
      obtain ⟨hlast, hrest⟩ := h
      rw [← List.reverse_reverse s, hreverse, List.reverse_cons, hlast, hrest]

/-- The contents of a text between their ends are the text. -/
theorem eq_of_enclosed?_eq_some {opening closing : Char} {s inner : List Char}
    (h : enclosed? opening closing s = some inner) : s = opening :: (inner ++ [closing]) := by
  cases s with
  | nil => cases h
  | cons c rest =>
      simp only [enclosed?, Option.ite_none_right_eq_some] at h
      obtain ⟨hopening, hclosing⟩ := h
      rw [hopening, eq_of_dropLast?_eq_some hclosing]

/-- The contents of a closed text are what was put between its ends. -/
theorem enclosed?_append (opening closing : Char) (s : List Char) :
    enclosed? opening closing (opening :: (s ++ [closing])) = some s := by
  simp [enclosed?, dropLast?_append]

end WhereClause.Text

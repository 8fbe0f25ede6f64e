/-
**Runs of digits.**

Numbers are written as runs of decimal digits, some of them filled up with zeros, and read again in
several places: as integers within bounds, as the parts of dates and times, and in documents.  Each
reader goes from left to right and puts one digit after the other behind the number it has, which
only grows; so where the number that a run writes is within the bound, no beginning of the run is
beyond it.

Main definitions:

* `WhereClause.Text.Writes` — a run of digits that writes a number;
* `WhereClause.Calendar.Stops` — a text behind a run of digits that does not go on with it.

Main results:

* `WhereClause.Text.writes_toDigits`, `WhereClause.Text.writes_padded` — what is written for a
  number writes it;
* `WhereClause.Integer.readUnsigned_of_writes`, `WhereClause.Integer.readSigned_decimalInt` —
  integers are read as they are written;
* `WhereClause.Calendar.readUnsigned_of_writes`, `WhereClause.Calendar.readNumber_padded` — and so
  are the parts of dates and times.
-/

import WhereClause.Calendar.Reader
import WhereClause.Number.Integer
import WhereClause.Proofs.Parsed

set_option relaxedAutoImplicit false
set_option autoImplicit false

namespace WhereClause

/-! ### Digits -/

namespace Text

/-- The digits are ten characters in a row. -/
theorem isDigit_iff {c : Char} : isDigit c = true ↔ 48 ≤ c.toNat ∧ c.toNat ≤ 57 := by
  simp only [isDigit, Bool.and_eq_true, decide_eq_true_eq]
  exact Iff.rfl

theorem digit?_of_isDigit {c : Char} (h : isDigit c = true) : digit? c = some (c.toNat - 48) :=
  if_pos h

theorem digit?_of_not_isDigit {c : Char} (h : isDigit c = false) : digit? c = none := by
  simp [digit?, h]

/-- A digit is no sign. -/
theorem ne_sign_of_isDigit {c : Char} (h : isDigit c = true) : c ≠ '-' ∧ c ≠ '+' := by
  constructor <;> rintro rfl <;> cases h

/-- A digit is no blank. -/
theorem isBlank_of_isDigit {c : Char} (h : isDigit c = true) : isBlank c = false := by
  have hrange := isDigit_iff.1 h
  simp only [isBlank, Bool.or_eq_false_iff, Bool.and_eq_false_iff, decide_eq_false_iff_not,
    beq_eq_false_iff_ne]
  omega

/-- A run of digits, at least one, that writes a number. -/
structure Writes (s : List Char) (n : Nat) : Prop where
  isDigit : ∀ c ∈ s, isDigit c = true
  value : Nat.ofDigitChars 10 s 0 = n
  ne_nil : s ≠ []

/-- A run of digits begins with one. -/
theorem Writes.exists_cons {s : List Char} {n : Nat} (h : Writes s n) :
    ∃ c rest, s = c :: rest ∧ Text.isDigit c = true := by
  obtain ⟨c, rest, rfl⟩ := List.exists_cons_of_ne_nil h.ne_nil
  exact ⟨c, rest, rfl, h.isDigit c List.mem_cons_self⟩

/-- The digits of a number write it. -/
theorem writes_toDigits (n : Nat) : Writes (Nat.toDigits 10 n) n where
  isDigit := by
    intro c hc
    have hdigit := Nat.isDigit_of_mem_toDigits (by decide) (by decide) hc
    simp only [Char.isDigit, Bool.and_eq_true, decide_eq_true_eq, ge_iff_le,
      UInt32.le_iff_toNat_le] at hdigit
    exact isDigit_iff.2 hdigit
  value := Nat.ofDigitChars_ten_toDigits
  ne_nil := Nat.toDigits_ne_nil

/-- Zeros in front do not count. -/
theorem Writes.replicate_append {s : List Char} {n : Nat} (h : Writes s n) (count : Nat) :
    Writes (List.replicate count '0' ++ s) n where
  isDigit := by
    intro c hc
    rcases List.mem_append.1 hc with hzero | hc
    · rw [List.eq_of_mem_replicate hzero]
      decide
    · exact h.isDigit c hc
  value := by
    rw [Nat.ofDigitChars_append, Nat.ofDigitChars_replicate_zero, Nat.mul_zero, h.value]
  ne_nil := by simp [h.ne_nil]

/-- A number filled up with zeros is written by its digits. -/
theorem writes_padded (width n : Nat) : Writes (padded width n).toList n := by
  rw [padded, String.toList_ofList]
  exact (writes_toDigits n).replicate_append _

/-- A number that needs no more digits is filled up to exactly the width. -/
theorem length_padded {width n : Nat} (h : (Nat.toDigits 10 n).length ≤ width) :
    (padded width n).toList.length = width := by
  simp only [padded, String.toList_ofList, List.length_append, List.length_replicate]
  omega

/-- A digit is put behind the number that is read so far. -/
theorem ofDigitChars_cons_digit (c : Char) (s : List Char) (m : Nat) :
    Nat.ofDigitChars 10 (c :: s) m = Nat.ofDigitChars 10 s (m * 10 + (c.toNat - 48)) := by
  rw [Nat.ofDigitChars_cons, Nat.mul_comm]
  rfl

/-- A run of digits puts its number behind another one, which does not get smaller. -/
theorem le_ofDigitChars (s : List Char) (m : Nat) : m ≤ Nat.ofDigitChars 10 s m := by
  induction s generalizing m with
  | nil => exact Nat.le_refl m
  | cons c s ih =>
      rw [Nat.ofDigitChars_cons]
      exact Nat.le_trans (by omega) (ih _)

theorem trimStart_of_isBlank {c : Char} (h : isBlank c = true) (rest : List Char) :
    trimStart (c :: rest) = trimStart rest := by
  simp [trimStart, h]

theorem trimStart_of_not_isBlank {c : Char} (h : isBlank c = false) (rest : List Char) :
    trimStart (c :: rest) = c :: rest := by
  simp [trimStart, h]

end Text

open Text

/-! ### Readers -/

namespace Integer

/-- Digits are read as long as they keep the number within its bound. -/
theorem readMagnitude_of_isDigit {bound m : Nat} {beyond : Fault} {s : List Char}
    (hdigits : ∀ c ∈ s, isDigit c = true) (hle : Nat.ofDigitChars 10 s m ≤ bound) :
    readMagnitude bound beyond m s = .ok (Nat.ofDigitChars 10 s m) := by
  induction s generalizing m with
  | nil => rfl
  | cons c s ih =>
      obtain ⟨hc, hs⟩ := List.forall_mem_cons.1 hdigits
      rw [ofDigitChars_cons_digit] at hle ⊢
      have hbound := Nat.le_trans (le_ofDigitChars s _) hle
      simp only [readMagnitude, digit?_of_isDigit hc, hbound, if_true]
      exact ih hs hle

theorem readMagnitude_of_writes (beyond : Fault) {bound n : Nat} {s : List Char} (h : Writes s n)
    (hn : n ≤ bound) : readMagnitude bound beyond 0 s = .ok n := by
  rw [readMagnitude_of_isDigit h.isDigit (by rwa [h.value]), h.value]

/-- A token that begins with a digit has no sign. -/
theorem readUnsigned_of_isDigit {c : Char} (h : isDigit c = true) (rest : List Char)
    (greatest : Nat) :
    readUnsigned greatest (c :: rest) = readMagnitude greatest .tooLarge 0 (c :: rest) := by
  have hsign := ne_sign_of_isDigit h
  rw [readUnsigned] <;> simp [hsign]

theorem readSigned_of_isDigit {c : Char} (h : isDigit c = true) (rest : List Char)
    (below greatest : Nat) :
    readSigned below greatest (c :: rest) =
      (readMagnitude greatest .tooLarge 0 (c :: rest)).map Int.ofNat := by
  have hsign := ne_sign_of_isDigit h
  rw [readSigned] <;> simp [hsign]

/-- **A natural number is read from the digits that write it.** -/
theorem readUnsigned_of_writes {greatest n : Nat} {s : List Char} (h : Writes s n)
    (hn : n ≤ greatest) : readUnsigned greatest s = .ok n := by
  have hread := readMagnitude_of_writes .tooLarge h hn
  obtain ⟨c, rest, rfl, hc⟩ := h.exists_cons
  rw [readUnsigned_of_isDigit hc, hread]

/-- **An integer is read from its digits**, with the minus sign before them below zero. -/
theorem readSigned_decimalInt {below greatest : Nat} {z : Int} (hbelow : -(below : Int) ≤ z)
    (hgreatest : z ≤ greatest) : readSigned below greatest (decimalInt z).toList = .ok z := by
  cases z with
  | ofNat n =>
      have hread := readMagnitude_of_writes .tooLarge (writes_toDigits n)
        (Int.ofNat_le.1 hgreatest)
      rw [decimalInt, decimal, String.toList_ofList]
      obtain ⟨c, rest, hdigits, hc⟩ := (writes_toDigits n).exists_cons
      rw [hdigits] at hread ⊢
      rw [readSigned_of_isDigit hc, hread]
      rfl
  | negSucc n =>
      have hn : n + 1 ≤ below := by omega
      have hread := readMagnitude_of_writes .tooSmall (writes_toDigits (n + 1)) hn
      have htext : (decimalInt (.negSucc n)).toList = '-' :: Nat.toDigits 10 (n + 1) := by
        simp [decimalInt, decimal]
      rw [htext]
      obtain ⟨c, rest, hdigits, -⟩ := (writes_toDigits (n + 1)).exists_cons
      rw [hdigits] at hread ⊢
      rw [readSigned, hread]
      · rfl
      · simp

end Integer

namespace Calendar

/-- Nothing stands behind a run of digits that would go on with it. -/
def Stops (rest : List Char) : Prop := ∀ c ∈ rest.head?, isDigit c = false

/-- Digits are read up to the limit, or up to what is no digit. -/
theorem readDigits_append {limit m : Nat} {s rest : List Char}
    (hdigits : ∀ c ∈ s, isDigit c = true) (hlength : s.length ≤ limit)
    (hrest : s.length = limit ∨ Stops rest) (hle : Nat.ofDigitChars 10 s m ≤ largest) :
    readDigits limit m (s ++ rest) = .ok (Nat.ofDigitChars 10 s m, rest) := by
  induction s generalizing limit m with
  | nil =>
      cases rest with
      | nil => cases limit <;> rfl
      | cons c rest =>
          cases limit with
          | zero => rfl
          | succ limit =>
              have hc : isDigit c = false := by
                rcases hrest with hzero | hstops
                · cases hzero
                · exact hstops c (by simp)
              simp [readDigits, digit?_of_not_isDigit hc]
  | cons c s ih =>
      obtain ⟨hc, hs⟩ := List.forall_mem_cons.1 hdigits
      cases limit with
      | zero => cases hlength
      | succ limit =>
          rw [ofDigitChars_cons_digit] at hle ⊢
          have hbound := Nat.le_trans (le_ofDigitChars s _) hle
          have hread : readDigits (limit + 1) m (c :: (s ++ rest)) =
              readDigits limit (m * 10 + (c.toNat - 48)) (s ++ rest) := by
            rw [readDigits.eq_def]
            simp only [digit?_of_isDigit hc, hbound, if_true]
          rw [List.cons_append, hread]
          exact ih hs (Nat.le_of_succ_le_succ hlength) (hrest.imp_left Nat.succ.inj) hle

/-- **A number is read from the digits that write it.** -/
theorem readUnsigned_of_writes {limit n : Nat} {s rest : List Char} (h : Writes s n)
    (hlength : s.length ≤ limit) (hrest : s.length = limit ∨ Stops rest) (hn : n ≤ largest) :
    readUnsigned limit (s ++ rest) = .ok (n, rest) := by
  have hread := readDigits_append h.isDigit hlength hrest (by rwa [h.value])
  rw [h.value] at hread
  obtain ⟨c, s, rfl, hc⟩ := h.exists_cons
  rw [List.cons_append] at hread ⊢
  simp only [readUnsigned, hc, if_true, hread]

/-- A run of digits is not trimmed. -/
theorem trimStart_of_writes {n : Nat} {s : List Char} (h : Writes s n) (rest : List Char) :
    trimStart (s ++ rest) = s ++ rest := by
  obtain ⟨c, s, rfl, hc⟩ := h.exists_cons
  exact trimStart_of_not_isBlank (isBlank_of_isDigit hc) (s ++ rest)

/-- **A number of two digits within its range is read**, whatever stands behind it. -/
theorem readNumber_padded {least greatest n : Nat} (hleast : least ≤ n) (hgreatest : n ≤ greatest)
    (hwidth : greatest < 100) (rest : List Char) :
    readNumber least greatest ((padded 2 n).toList ++ rest) = .ok (n, rest) := by
  have hlength : (padded 2 n).toList.length = 2 :=
    length_padded ((Nat.length_toDigits_le_iff (by decide) (by decide)).2 (by omega))
  have hlargest : 100 ≤ largest := by decide
  have hwrites := writes_padded 2 n
  rw [readNumber, trimStart_of_writes hwrites,
    readUnsigned_of_writes hwrites (Nat.le_of_eq hlength) (.inl hlength) (by omega), ok_bind]
  exact if_pos ⟨hleast, hgreatest⟩

end Calendar

end WhereClause

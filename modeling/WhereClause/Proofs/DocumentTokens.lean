/-
**The tokens of a document.**

A document is a row of tokens, with blanks between them that mean nothing.  Three words, numbers and
strings are tokens by themselves, and what follows is the grammar of them, byte by byte, written
without any reader.  A token that is only passed over is passed over exactly by this grammar:
nothing of what stands behind it is taken with it, and nothing of it is left.

Main definitions:

* `WhereClause.Json.Blank` — the blanks between two tokens;
* `WhereClause.Json.Whole`, `WhereClause.Json.Fraction`, `WhereClause.Json.Exponent`,
  `WhereClause.Json.Unsigned` — numbers and their parts;
* `WhereClause.Json.Content` — what may stand between the quotation marks of a string.

Main results:

* `WhereClause.Json.skipNumber_append`, `WhereClause.Json.exists_unsigned` — numbers are passed over
  by their grammar;
* `WhereClause.Json.skipString_append`, `WhereClause.Json.exists_content` — and so are strings.
-/

import WhereClause.Proofs.DocumentPieces

set_option relaxedAutoImplicit false
set_option autoImplicit false

namespace WhereClause.Json

open Text

variable {s bytes rest : List UInt8}

/-! ### Blanks and words -/

/-- Blanks between two tokens. -/
def Blank (s : List UInt8) : Prop := ∀ b ∈ s, isSpace b = true

theorem blank_nil : Blank [] := nofun

theorem skipSpace_append (h : Blank s) (rest : List UInt8) :
    skipSpace (s ++ rest) = skipSpace rest :=
  List.dropWhile_append_of_pos h

/-- Bytes begin with the blanks that are skipped. -/
theorem exists_blank (bytes : List UInt8) : ∃ s, Blank s ∧ bytes = s ++ skipSpace bytes :=
  ⟨bytes.takeWhile isSpace, List.all_eq_true.1 List.all_takeWhile,
    List.takeWhile_append_dropWhile.symm⟩

theorem readWord_append (word rest : List UInt8) : readWord word (word ++ rest) = .ok rest := by
  induction word with
  | nil => rfl
  | cons b word ih => rw [List.cons_append, readWord, if_pos rfl, ih]

theorem eq_of_readWord {word : List UInt8} (h : readWord word bytes = .ok rest) :
    bytes = word ++ rest := by
  induction word generalizing bytes with
  | nil =>
      cases h
      rfl
  | cons w word ih =>
      cases bytes with
      | nil => cases h
      | cons b bytes =>
          rw [readWord] at h
          split at h
          next hb => rw [hb, ih h, List.cons_append]
          next => cases h

/-! ### Digits -/

/-- Some digits, or none. -/
def AllDigits (s : List UInt8) : Prop := ∀ b ∈ s, (digitOf? b).isSome = true

theorem startsWithDigit_append (hs : AllDigits s) (hne : s ≠ []) (rest : List UInt8) :
    startsWithDigit (s ++ rest) = true := by
  obtain ⟨b, s, rfl⟩ := List.exists_cons_of_ne_nil hne
  exact hs b List.mem_cons_self

theorem skipDigits_of_not_startsWithDigit (h : startsWithDigit rest = false) :
    skipDigits rest = rest := by
  cases rest with
  | nil => rfl
  | cons b rest => exact List.dropWhile_cons_of_neg (by simpa [startsWithDigit] using h)

/-- Digits are passed over up to what is none. -/
theorem skipDigits_append (hs : AllDigits s) (hrest : startsWithDigit rest = false) :
    skipDigits (s ++ rest) = rest := by
  have hskip : skipDigits (s ++ rest) = skipDigits rest := List.dropWhile_append_of_pos hs
  rw [hskip, skipDigits_of_not_startsWithDigit hrest]

/-- Behind digits that are passed over stands no digit. -/
theorem startsWithDigit_skipDigits (bytes : List UInt8) :
    startsWithDigit (skipDigits bytes) = false := by
  induction bytes with
  | nil => rfl
  | cons b bytes ih =>
      rw [skipDigits, List.dropWhile_cons]
      split
      next => exact ih
      next hb => simpa [startsWithDigit] using hb

/-- Bytes begin with the digits that are passed over. -/
theorem exists_allDigits (bytes : List UInt8) : ∃ s, AllDigits s ∧ bytes = s ++ skipDigits bytes :=
  ⟨bytes.takeWhile fun b => (digitOf? b).isSome, List.all_eq_true.1 List.all_takeWhile,
    List.takeWhile_append_dropWhile.symm⟩

/-- Bytes that begin with a digit begin with a run of them. -/
theorem exists_digits (h : startsWithDigit bytes = true) :
    ∃ s, AllDigits s ∧ s ≠ [] ∧ bytes = s ++ skipDigits bytes := by
  obtain ⟨s, hs, hbytes⟩ := exists_allDigits bytes
  refine ⟨s, hs, ?_, hbytes⟩
  rintro rfl
  rw [List.nil_append] at hbytes
  rw [hbytes, startsWithDigit_skipDigits] at h
  cases h

/-! ### Numbers -/

/-- The whole part of a number: a zero, or digits of which the first one is none. -/
inductive Whole : List UInt8 → Prop
  | zero : Whole [byte '0']
  | digits {b : UInt8} {s : List UInt8} : b ≠ byte '0' → AllDigits (b :: s) → Whole (b :: s)

/-- The fraction of a number, which may be absent. -/
inductive Fraction : List UInt8 → Prop
  | absent : Fraction []
  | digits {s : List UInt8} : AllDigits s → s ≠ [] → Fraction (byte '.' :: s)

/-- The exponent of a number, which may be absent, and so may its sign. -/
inductive Exponent : List UInt8 → Prop
  | absent : Exponent []
  | digits {letter : UInt8} {sign s : List UInt8} : letter = byte 'e' ∨ letter = byte 'E' →
      sign ∈ [[], [byte '+'], [byte '-']] → AllDigits s → s ≠ [] →
      Exponent (letter :: (sign ++ s))

/-- A number without a sign. -/
inductive Unsigned : List UInt8 → Prop
  | parts {whole fraction exponent : List UInt8} : Whole whole → Fraction fraction →
      Exponent exponent → Unsigned (whole ++ (fraction ++ exponent))

/-- What follows the whole part of a number. -/
def skipWhole : List UInt8 → Except Fault (List UInt8)
  | [] => .error .malformed
  | b :: rest =>
      if b = byte '0' then if startsWithDigit rest then .error .malformed else .ok rest
      else if (digitOf? b).isSome then .ok (skipDigits rest)
      else .error .malformed

/-- What follows the fraction of a number, if there is one. -/
def skipFraction : List UInt8 → Except Fault (List UInt8)
  | [] => .ok []
  | b :: rest =>
      if b = byte '.' then if startsWithDigit rest then .ok (skipDigits rest) else .error .malformed
      else .ok (b :: rest)

/-- What is passed over behind the whole part of a number. -/
theorem skipNumber_eq_skipWhole (bytes : List UInt8) :
    skipNumber bytes = match skipWhole bytes with
      | .error fault => .error fault
      | .ok [] => .ok []
      | .ok (b :: rest) =>
          if b = byte '.' then
            if startsWithDigit rest then skipScale (skipDigits rest) else .error .malformed
          else skipScale (b :: rest) := by
  cases bytes <;> rfl

/-- A number is passed over part by part. -/
theorem skipNumber_eq (bytes : List UInt8) : skipNumber bytes = (do
    let rest ← skipWhole bytes
    let rest ← skipFraction rest
    skipScale rest) := by
  rw [skipNumber_eq_skipWhole]
  cases skipWhole bytes with
  | error fault => rfl
  | ok rest =>
      rw [ok_bind]
      cases rest with
      | nil => rfl
      | cons b rest =>
          simp only [skipFraction]
          split
          · split <;> rfl
          · rfl

theorem skipWhole_append (h : Whole s) (hrest : startsWithDigit rest = false) :
    skipWhole (s ++ rest) = .ok rest := by
  cases h with
  | zero => simp [skipWhole, hrest]
  | @digits b s hb hs =>
      have hdigits : AllDigits s := fun d hd => hs d (List.mem_cons_of_mem b hd)
      simp [skipWhole, hb, hs b List.mem_cons_self, skipDigits_append hdigits hrest]

theorem exists_whole (h : skipWhole bytes = .ok rest) : ∃ s, Whole s ∧ bytes = s ++ rest := by
  cases bytes with
  | nil => cases h
  | cons b bytes =>
      rw [skipWhole] at h
      split at h
      next hb =>
        split at h
        next => cases h
        next =>
          cases h
          exact ⟨_, .zero, by rw [hb]; rfl⟩
      next hb =>
        split at h
        next hdigit =>
          cases h
          obtain ⟨s, hs, hbytes⟩ := exists_allDigits bytes
          exact ⟨b :: s, .digits hb (List.forall_mem_cons.2 ⟨hdigit, hs⟩),
            congrArg (b :: ·) hbytes⟩
        next => cases h

theorem skipFraction_append (h : Fraction s) (hdigit : startsWithDigit rest = false)
    (hpoint : rest.head? ≠ some (byte '.')) : skipFraction (s ++ rest) = .ok rest := by
  cases h with
  | absent =>
      cases rest with
      | nil => rfl
      | cons b rest =>
          have hb : b ≠ byte '.' := by simpa using hpoint
          rw [List.nil_append, skipFraction, if_neg hb]
  | digits hs hne =>
      rw [List.cons_append, skipFraction, if_pos rfl, if_pos (startsWithDigit_append hs hne rest),
        skipDigits_append hs hdigit]

theorem exists_fraction (h : skipFraction bytes = .ok rest) :
    ∃ s, Fraction s ∧ bytes = s ++ rest := by
  cases bytes with
  | nil =>
      cases h
      exact ⟨[], .absent, rfl⟩
  | cons b bytes =>
      rw [skipFraction] at h
      split at h
      next hb =>
        split at h
        next hdigit =>
          cases h
          obtain ⟨s, hs, hne, hbytes⟩ := exists_digits hdigit
          exact ⟨byte '.' :: s, .digits hs hne, by rw [hb, List.cons_append, ← hbytes]⟩
        next => cases h
      next =>
        cases h
        exact ⟨[], .absent, rfl⟩

theorem skipExponent_append {sign : List UInt8} (hsign : sign ∈ [[], [byte '+'], [byte '-']])
    (hs : AllDigits s) (hne : s ≠ []) (hrest : startsWithDigit rest = false) :
    skipExponent (sign ++ (s ++ rest)) = .ok rest := by
  have hstarts := startsWithDigit_append hs hne rest
  have hskip := skipDigits_append hs hrest
  simp only [List.mem_cons, List.not_mem_nil, or_false] at hsign
  rcases hsign with rfl | rfl | rfl
  · obtain ⟨b, s, rfl⟩ := List.exists_cons_of_ne_nil hne
    have hb : ¬ (b = byte '+' ∨ b = byte '-') := by
      rintro (rfl | rfl) <;> exact absurd (hs _ List.mem_cons_self) (by decide)
    rw [List.cons_append] at hstarts hskip
    simp only [List.nil_append, List.cons_append, skipExponent, hb, if_false, hstarts, hskip,
      if_true]
  · simp only [List.cons_append, List.nil_append, skipExponent, true_or, if_true, hstarts, hskip]
  · simp only [List.cons_append, List.nil_append, skipExponent, or_true, if_true, hstarts, hskip]

theorem exists_exponent (h : skipExponent bytes = .ok rest) :
    ∃ sign s, sign ∈ [[], [byte '+'], [byte '-']] ∧ AllDigits s ∧ s ≠ [] ∧
      bytes = sign ++ (s ++ rest) := by
  obtain ⟨sign, digits, hsign, hbytes, hskip⟩ : ∃ sign digits,
      sign ∈ [[], [byte '+'], [byte '-']] ∧ bytes = sign ++ digits ∧
        skipExponent bytes =
          if startsWithDigit digits then .ok (skipDigits digits) else .error .malformed := by
    cases bytes with
    | nil => exact ⟨[], [], by simp, rfl, rfl⟩
    | cons b bytes =>
        by_cases hb : b = byte '+' ∨ b = byte '-'
        · refine ⟨[b], bytes, ?_, rfl, by simp only [skipExponent, hb, if_true]⟩
          rcases hb with rfl | rfl <;> simp
        · exact ⟨[], b :: bytes, by simp, rfl, by simp only [skipExponent, hb, if_false]⟩
  rw [hskip] at h
  split at h
  next hdigit =>
    cases h
    obtain ⟨s, hs, hne, hdigits⟩ := exists_digits hdigit
    exact ⟨sign, s, hsign, hs, hne, by rw [hbytes, ← hdigits]⟩
  next => cases h

theorem skipScale_append (h : Exponent s) (hrest : Follows rest) :
    skipScale (s ++ rest) = .ok rest := by
  cases h with
  | absent =>
      cases rest with
      | nil => rfl
      | cons b rest =>
          obtain ⟨-, -, he, hE⟩ := hrest b (by simp)
          have hb : ¬ (b = byte 'e' ∨ b = byte 'E') := not_or.2 ⟨he, hE⟩
          simp only [List.nil_append, skipScale, hb, if_false]
  | digits hletter hsign hs hne =>
      rw [List.cons_append, List.append_assoc, skipScale, if_pos hletter,
        skipExponent_append hsign hs hne hrest.startsWithDigit]

theorem exists_scale (h : skipScale bytes = .ok rest) : ∃ s, Exponent s ∧ bytes = s ++ rest := by
  cases bytes with
  | nil =>
      cases h
      exact ⟨[], .absent, rfl⟩
  | cons b bytes =>
      simp only [skipScale] at h
      split at h
      next hb =>
        obtain ⟨sign, s, hsign, hs, hne, rfl⟩ := exists_exponent h
        exact ⟨b :: (sign ++ s), .digits hb hsign hs hne, by simp⟩
      next =>
        cases h
        exact ⟨[], .absent, rfl⟩

/-- An exponent goes on neither with a digit nor with a point. -/
theorem Exponent.head (h : Exponent s) (hrest : Follows rest) :
    startsWithDigit (s ++ rest) = false ∧ (s ++ rest).head? ≠ some (byte '.') := by
  cases h with
  | absent =>
      refine ⟨hrest.startsWithDigit, fun hhead => ?_⟩
      exact (hrest (byte '.') hhead).2.1 rfl
  | digits hletter => rcases hletter with rfl | rfl <;> exact ⟨rfl, nofun⟩

/-- A fraction does not go on with a digit. -/
theorem Fraction.head (h : Fraction s) (hrest : startsWithDigit rest = false) :
    startsWithDigit (s ++ rest) = false := by
  cases h with
  | absent => exact hrest
  | digits => rfl

/-- **A number is passed over**, and nothing behind it. -/
theorem skipNumber_append (h : Unsigned s) (hrest : Follows rest) :
    skipNumber (s ++ rest) = .ok rest := by
  cases h with
  | parts hwhole hfraction hexponent =>
      obtain ⟨hdigit, hpoint⟩ := hexponent.head hrest
      rw [skipNumber_eq, List.append_assoc, List.append_assoc,
        skipWhole_append hwhole (hfraction.head hdigit), ok_bind,
        skipFraction_append hfraction hdigit hpoint, ok_bind, skipScale_append hexponent hrest]

/-- **What is passed over as a number is one.** -/
theorem exists_unsigned (h : skipNumber bytes = .ok rest) :
    ∃ s, Unsigned s ∧ bytes = s ++ rest := by
  rw [skipNumber_eq] at h
  obtain ⟨afterWhole, hwhole, h⟩ := bind_eq_ok_iff.1 h
  obtain ⟨afterFraction, hfraction, hexponent⟩ := bind_eq_ok_iff.1 h
  obtain ⟨whole, hw, rfl⟩ := exists_whole hwhole
  obtain ⟨fraction, hf, rfl⟩ := exists_fraction hfraction
  obtain ⟨exponent, he, rfl⟩ := exists_scale hexponent
  exact ⟨_, .parts hw hf he, by simp⟩

theorem eq_ok_of_toOption {ε α : Type} {r : Except ε α} {a : α} (h : r.toOption = some a) :
    r = .ok a := by
  cases r with
  | error e => cases h
  | ok b =>
      cases h
      rfl

/-- Bytes that are passed over as a number to their end are one. -/
theorem Unsigned.of_skipNumber (h : (skipNumber s).toOption = some []) : Unsigned s := by
  obtain ⟨s', hs', rfl⟩ := exists_unsigned (eq_ok_of_toOption h)
  rwa [List.append_nil]

/-- A number begins with a digit. -/
theorem Unsigned.exists_cons (h : Unsigned s) :
    ∃ b bytes, s = b :: bytes ∧ (digitOf? b).isSome = true := by
  cases h with
  | parts hwhole _ _ =>
      cases hwhole with
      | zero => exact ⟨_, _, rfl, by decide⟩
      | digits _ hs => exact ⟨_, _, rfl, hs _ List.mem_cons_self⟩

/-! ### Strings -/

/-- What may stand between the quotation marks of a string: bytes that need no escape, and
escapes. -/
inductive Content : List UInt8 → Prop
  | nil : Content []
  | plain {b : UInt8} {s : List UInt8} : Plain b → Content s → Content (b :: s)
  | escape {e : UInt8} {s : List UInt8} : (escaped? e).isSome = true → Content s →
      Content (byte '\\' :: e :: s)
  | code {h₁ h₂ h₃ h₄ : UInt8} {s : List UInt8} : (hexNumber? h₁ h₂ h₃ h₄).isSome = true →
      Content s → Content (byte '\\' :: byte 'u' :: h₁ :: h₂ :: h₃ :: h₄ :: s)

theorem skipString_of_plain {b : UInt8} (h : Plain b) (s : List UInt8) :
    skipString (b :: s) = skipString s := by
  obtain ⟨hlower, hquote, hescape⟩ := h
  have hcontrol : ¬ b < 0x20 := by
    simp only [UInt8.lt_iff_toNat_lt, UInt8.reduceToNat]
    omega
  rw [skipString.eq_def]
  simp only [hquote, hescape, hcontrol, if_false]

theorem skipString_of_escape {e : UInt8} (h : (escaped? e).isSome = true) (s : List UInt8) :
    skipString (byte '\\' :: e :: s) = skipString s := by
  have hquote : byte '\\' ≠ byte '"' := by decide
  have hu : e ≠ byte 'u' := by
    rintro rfl
    exact absurd h (by decide)
  rw [skipString.eq_def]
  simp only [hquote, hu, h, if_false, if_true]

theorem skipString_of_code {h₁ h₂ h₃ h₄ : UInt8} (h : (hexNumber? h₁ h₂ h₃ h₄).isSome = true)
    (s : List UInt8) :
    skipString (byte '\\' :: byte 'u' :: h₁ :: h₂ :: h₃ :: h₄ :: s) = skipString s := by
  have hquote : byte '\\' ≠ byte '"' := by decide
  rw [skipString.eq_def]
  simp only [hquote, h, if_false, if_true]

/-- **A string is passed over**, and nothing behind it. -/
theorem skipString_append (h : Content s) (rest : List UInt8) :
    skipString (s ++ byte '"' :: rest) = .ok rest := by
  induction h with
  | nil =>
      rw [List.nil_append, skipString.eq_def]
      rfl
  | plain hb _ ih => rw [List.cons_append, skipString_of_plain hb, ih]
  | escape he _ ih => rw [List.cons_append, List.cons_append, skipString_of_escape he, ih]
  | code hhex _ ih =>
      simp only [List.cons_append]
      rw [skipString_of_code hhex, ih]

/-- **What is passed over as a string is one.** -/
theorem exists_content (h : skipString bytes = .ok rest) :
    ∃ s, Content s ∧ bytes = s ++ byte '"' :: rest := by
  fun_induction skipString bytes with
  | case2 s =>
      cases h
      exact ⟨[], .nil, rfl⟩
  | case4 h₁ h₂ h₃ h₄ s hhex _ ih =>
      obtain ⟨content, hcontent, rfl⟩ := ih h
      exact ⟨_, .code hhex hcontent, rfl⟩
  | case7 e s _ he _ ih =>
      obtain ⟨content, hcontent, rfl⟩ := ih h
      exact ⟨_, .escape he hcontent, rfl⟩
  | case10 b s hquote hescape hcontrol ih =>
      obtain ⟨content, hcontent, rfl⟩ := ih h
      simp only [UInt8.lt_iff_toNat_lt, UInt8.reduceToNat, Nat.not_lt] at hcontrol
      exact ⟨_, .plain ⟨hcontrol, hquote, hescape⟩ hcontent, rfl⟩
  | case1 | case3 | case5 | case6 | case8 | case9 => cases h

/-- Bytes that are passed over as a string, with its closing mark, are one. -/
theorem Content.of_skipString (h : (skipString (s ++ [byte '"'])).toOption = some []) :
    Content s := by
  obtain ⟨s', hs', hbytes⟩ := exists_content (eq_ok_of_toOption h)
  rwa [List.append_cancel_right hbytes]

end WhereClause.Json

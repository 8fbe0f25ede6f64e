/-
**The pieces of a document are read as they are written.**

A string is written with an escape for the quotation mark, the backslash and every control
character, and with all other characters as they are; the reader, which knows many more escapes,
takes each of them back.  A whole number is written in digits without a zero in front, and what
stands behind it decides whether the reader takes it for a whole number at all.

Main definitions:

* `WhereClause.Json.Plain` — bytes of a string that need no escape;
* `WhereClause.Json.Follows` — bytes that end a number.

Main results:

* `WhereClause.Json.readContent_escape` — the characters that write one character give its bytes;
* `WhereClause.Json.readString_quoted` — **a string is read as it is written**;
* `WhereClause.Json.readNumber_natural`, `WhereClause.Json.readNumber_negSucc` — **and so is a whole
  number of 64 bits**.
-/

import WhereClause.Json.Reader
import WhereClause.Json.Writer
import WhereClause.Proofs.Digits
import WhereClause.Proofs.EncodedText

set_option relaxedAutoImplicit false
set_option autoImplicit false

namespace WhereClause.Json

open Text Utf8

/-! ### Bytes of ASCII -/

/-- A character of ASCII is written by its byte. -/
theorem encode_cons_of_lt {c : Char} (h : c.toNat < 128) (s : List Char) :
    encode (c :: s) = byte c :: encode s := by
  rw [encode_cons, utf8EncodeChar_of_lt h]
  rfl

theorem toNat_byte {c : Char} (h : c.toNat < 128) : (byte c).toNat = c.toNat :=
  Utf8.toNat_ofNat_of_lt (Nat.lt_trans h (by decide))

/-- Different characters of ASCII have different bytes. -/
theorem byte_inj {c d : Char} (hc : c.toNat < 128) (hd : d.toNat < 128) (h : byte c = byte d) :
    c = d := by
  rw [← Char.toNat_inj, ← toNat_byte hc, h, toNat_byte hd]

/-- What begins with no blank is not skipped. -/
theorem skipSpace_of_not_isSpace {b : UInt8} (h : isSpace b = false) (rest : List UInt8) :
    skipSpace (b :: rest) = b :: rest := by
  simp [skipSpace, h]

/-! ### Strings -/

theorem prepend_nil (r : Except Fault (List UInt8 × List UInt8)) : prepend [] r = r := by
  cases r <;> rfl

theorem prepend_append (front back : List UInt8) (r : Except Fault (List UInt8 × List UInt8)) :
    prepend (front ++ back) r = prepend front (prepend back r) := by
  cases r with
  | error fault => rfl
  | ok r => simp [prepend]

/-- A byte that needs no escape. -/
def Plain (b : UInt8) : Prop := 32 ≤ b.toNat ∧ b ≠ byte '"' ∧ b ≠ byte '\\'

theorem readContent_of_plain {b : UInt8} (h : Plain b) (s : List UInt8) :
    readContent (b :: s) = prepend [b] (readContent s) := by
  obtain ⟨hlower, hquote, hescape⟩ := h
  have hcontrol : ¬ b < 0x20 := by
    simp only [UInt8.lt_iff_toNat_lt, UInt8.reduceToNat]
    omega
  rw [readContent.eq_def]
  simp only [hquote, hescape, hcontrol, if_false]

theorem readContent_append_of_plain {bytes : List UInt8} (h : ∀ b ∈ bytes, Plain b)
    (s : List UInt8) : readContent (bytes ++ s) = prepend bytes (readContent s) := by
  induction bytes with
  | nil => rw [List.nil_append, prepend_nil]
  | cons b bytes ih =>
      obtain ⟨hb, hbytes⟩ := List.forall_mem_cons.1 h
      rw [List.cons_append, readContent_of_plain hb, ih hbytes, ← prepend_append]
      rfl

/-- An escape of one letter stands for its byte. -/
theorem readContent_of_escaped {e b : UInt8} (h : escaped? e = some b) (hu : e ≠ byte 'u')
    (s : List UInt8) : readContent (byte '\\' :: e :: s) = prepend [b] (readContent s) := by
  have hquote : byte '\\' ≠ byte '"' := by decide
  rw [readContent.eq_def]
  simp only [hquote, hu, h, if_false, if_true]

/-- The digits of a control character. -/
theorem hexNumber?_control {n : Nat} (h : n < 32) :
    hexNumber? (byte '0') (byte '0') (byte (hexChar (n / 16))) (byte (hexChar (n % 16))) =
      some n := by
  revert n
  decide

theorem readContent_of_control {n : Nat} (h : n < 32) (s : List UInt8) :
    readContent (byte '\\' :: byte 'u' :: byte '0' :: byte '0' :: byte (hexChar (n / 16)) ::
      byte (hexChar (n % 16)) :: s) =
      prepend (String.utf8EncodeChar (Char.ofNat n)) (readContent s) := by
  have hquote : byte '\\' ≠ byte '"' := by decide
  have htrailing : isTrailing n = false := by simp [isTrailing]; omega
  have hleading : isLeading n = false := by simp [isLeading]; omega
  rw [readContent.eq_def]
  simp only [hquote, hexNumber?_control h, htrailing, hleading, if_false, if_true,
    Bool.false_eq_true]

/-- Every byte of a character that is written as it is needs no escape. -/
theorem plain_of_mem_utf8EncodeChar {c : Char} (hquote : c ≠ '"') (hescape : c ≠ '\\')
    (hcontrol : ¬ c.toNat < 32) : ∀ b ∈ String.utf8EncodeChar c, Plain b := by
  intro b hb
  rcases Nat.lt_or_ge c.toNat 128 with hascii | hother
  · -- one byte, with the number of the character
    rw [utf8EncodeChar_of_lt hascii, List.mem_singleton] at hb
    have hbyte : b = byte c := hb
    subst hbyte
    refine ⟨?_, fun h => hquote (byte_inj hascii (by decide) h),
      fun h => hescape (byte_inj hascii (by decide) h)⟩
    rw [toNat_byte hascii]
    omega
  · have hbyte := ge_of_mem_utf8EncodeChar hother b hb
    refine ⟨by omega, ?_, ?_⟩
    · rintro rfl
      exact absurd hbyte (by decide)
    · rintro rfl
      exact absurd hbyte (by decide)

/-- **The characters that write one character give its bytes.** -/
theorem readContent_escape (c : Char) (s : List UInt8) :
    readContent (encode (escape c) ++ s) = prepend (String.utf8EncodeChar c) (readContent s) := by
  unfold escape
  -- seven characters have an escape of one letter; two of the tests are needed at the end
  split
  next h => subst h; exact readContent_of_escaped (by decide) (by decide) s
  next hquote =>
  split
  next h => subst h; exact readContent_of_escaped (by decide) (by decide) s
  next hescape =>
  split
  next h => subst h; exact readContent_of_escaped (by decide) (by decide) s
  split
  next h => subst h; exact readContent_of_escaped (by decide) (by decide) s
  split
  next h => subst h; exact readContent_of_escaped (by decide) (by decide) s
  split
  next h => subst h; exact readContent_of_escaped (by decide) (by decide) s
  split
  next h => subst h; exact readContent_of_escaped (by decide) (by decide) s
  split
  next hcontrol =>
    have hhex : ∀ k < 16, (hexChar k).toNat < 128 := by decide
    have hread := readContent_of_control hcontrol s
    rw [Char.ofNat_toNat] at hread
    rw [encode_cons_of_lt (by decide), encode_cons_of_lt (by decide), encode_cons_of_lt (by decide),
      encode_cons_of_lt (by decide), encode_cons_of_lt (hhex _ (by omega)),
      encode_cons_of_lt (hhex _ (by omega))]
    exact hread
  next hcontrol =>
    rw [encode_cons, encode_nil, List.append_nil]
    exact readContent_append_of_plain (plain_of_mem_utf8EncodeChar hquote hescape hcontrol) s

/-- The characters of a string, up to its closing quotation mark. -/
theorem readContent_flatMap_escape (s : List Char) (rest : List UInt8) :
    readContent (encode (s.flatMap escape) ++ byte '"' :: rest) = .ok (encode s, rest) := by
  induction s with
  | nil =>
      rw [List.flatMap_nil, encode_nil, List.nil_append, readContent.eq_def]
      rfl
  | cons c s ih =>
      rw [List.flatMap_cons, encode_append, List.append_assoc, readContent_escape, ih]
      rfl

/-- **A string is read as it is written**, behind its opening quotation mark. -/
theorem readString_quoted (s : String) (rest : List UInt8) :
    readString (encode (s.toList.flatMap escape) ++ byte '"' :: rest) = .ok (s, rest) := by
  rw [readString, readContent_flatMap_escape, ok_bind]
  simp only [decode?_encode, String.ofList_toList]

/-- The bytes of a string in quotation marks. -/
theorem encode_quoted (s : String) (rest : List UInt8) :
    encode (quoted s) ++ rest =
      byte '"' :: (encode (s.toList.flatMap escape) ++ byte '"' :: rest) := by
  rw [quoted, encode_cons_of_lt (by decide), encode_append, encode_cons_of_lt (by decide)]
  simp

/-! ### Numbers -/

section Numbers

/-- Nothing stands behind a number that would go on with it. -/
def Follows (rest : List UInt8) : Prop :=
  ∀ b ∈ rest.head?, digitOf? b = none ∧ b ≠ byte '.' ∧ b ≠ byte 'e' ∧ b ≠ byte 'E'

variable {n m : Nat} {s : List Char} {rest : List UInt8}

theorem follows_nil : Follows [] := nofun

theorem Follows.startsWithDigit (h : Follows rest) : startsWithDigit rest = false := by
  cases rest with
  | nil => rfl
  | cons b rest => simp [Json.startsWithDigit, (h b (by simp)).1]

/-- The byte of a digit. -/
theorem digitOf?_byte {c : Char} (h : isDigit c = true) :
    digitOf? (byte c) = some (c.toNat - 48) := by
  have hrange := isDigit_iff.1 h
  have hbyte : (byte c).toNat = c.toNat := toNat_byte (by omega)
  have hdigit : 0x30 ≤ byte c ∧ byte c ≤ 0x39 := by
    simp only [UInt8.le_iff_toNat_le, hbyte, UInt8.reduceToNat]
    exact hrange
  rw [digitOf?, if_pos hdigit, hbyte]

/-- Digits are read up to the end of the number. -/
theorem readDigits_append (hdigits : ∀ c ∈ s, isDigit c = true) (hrest : Follows rest)
    (hle : Nat.ofDigitChars 10 s m ≤ largest) :
    readDigits m (encode s ++ rest) = (Nat.ofDigitChars 10 s m, rest) := by
  induction s generalizing m with
  | nil =>
      cases rest with
      | nil => rfl
      | cons b rest =>
          rw [encode_nil, List.nil_append, readDigits, (hrest b (by simp)).1]
          rfl
  | cons c s ih =>
      obtain ⟨hc, hs⟩ := List.forall_mem_cons.1 hdigits
      have hrange := isDigit_iff.1 hc
      rw [ofDigitChars_cons_digit] at hle ⊢
      have hbound := Nat.le_trans (le_ofDigitChars s _) hle
      rw [encode_cons_of_lt (by omega), List.cons_append, readDigits, digitOf?_byte hc]
      simp only [hbound, if_true]
      exact ih hs hle

/-- A number above zero does not begin with a zero. -/
theorem head?_toDigits (hn : 0 < n) : (Nat.toDigits 10 n).head? ≠ some '0' := by
  induction n using Nat.strongRecOn with
  | _ n ih =>
      have hdigit : ∀ k < 10, 0 < k → Nat.digitChar k ≠ '0' := by decide
      rw [Nat.toDigits_eq_if (by decide)]
      split
      next hlt =>
        intro hhead
        exact hdigit n hlt hn (Option.some.inj hhead)
      next hge =>
        -- the first digits are those of a smaller number, which is above zero too
        rw [List.head?_append, Option.or_of_isSome (by simp [Nat.toDigits_ne_nil])]
        exact ih (n / 10) (by omega) (by omega)

theorem readAfterDigits_natural (n : Nat) (hrest : Follows rest) :
    readAfterDigits false n rest = .ok (.natural n, rest) := by
  cases rest with
  | nil => rfl
  | cons b rest =>
      obtain ⟨-, hpoint, he, hE⟩ := hrest b (by simp)
      simp [readAfterDigits, hpoint, he, hE]

theorem readAfterDigits_negative (hpos : 1 ≤ n) (hn : n ≤ Nat.pow 2 63) (hrest : Follows rest) :
    readAfterDigits true n rest = .ok (.negative n, rest) := by
  have hwhole : 1 ≤ n ∧ n ≤ Nat.pow 2 63 := ⟨hpos, hn⟩
  cases rest with
  | nil => simp [readAfterDigits, hwhole]
  | cons b rest =>
      obtain ⟨-, hpoint, he, hE⟩ := hrest b (by simp)
      simp [readAfterDigits, hpoint, he, hE, hwhole]

/-- **The digits of a number are read**, up to what decides whether it is a whole number. -/
theorem readNumber_toDigits (negative : Bool) (hn : n ≤ largest) (hrest : Follows rest) :
    readNumber negative (encode (Nat.toDigits 10 n) ++ rest) =
      readAfterDigits negative n rest := by
  have hwrites := writes_toDigits n
  have hread : readDigits 0 (encode (Nat.toDigits 10 n) ++ rest) = (n, rest) := by
    rw [readDigits_append hwrites.isDigit hrest (by rwa [hwrites.value]), hwrites.value]
  rcases Nat.eq_zero_or_pos n with rfl | hpos
  · have hzero : encode (Nat.toDigits 10 0) = [byte '0'] := by decide
    simp only [hzero, List.cons_append, List.nil_append, readNumber, hrest.startsWithDigit, if_true,
      Bool.false_eq_true, if_false]
  · have hhead := head?_toDigits hpos
    obtain ⟨c, s, hdigits, hc⟩ := hwrites.exists_cons
    rw [hdigits] at hhead hread ⊢
    have hrange := isDigit_iff.1 hc
    have hzero : byte c ≠ byte '0' := by
      intro hbyte
      exact hhead (congrArg some (byte_inj (by omega) (by decide) hbyte))
    rw [encode_cons_of_lt (by omega), List.cons_append] at hread ⊢
    simp only [readNumber, hzero, digitOf?_byte hc, hread, hrest.startsWithDigit, if_false,
      Option.isSome_some, if_true, Bool.false_eq_true]

/-- **A natural number of 64 bits** begins with a digit, and is read as itself. -/
theorem readNumber_natural (hn : n < Nat.pow 2 64) (hrest : Follows rest) :
    ∃ b bytes, encode (decimal n).toList ++ rest = b :: bytes ∧ (digitOf? b).isSome = true ∧
      readNumber false (b :: bytes) = .ok (.natural n, rest) := by
  have hwrites := writes_toDigits n
  have hread := readNumber_toDigits false (Nat.le_pred_of_lt hn) hrest
  rw [readAfterDigits_natural n hrest] at hread
  rw [decimal, String.toList_ofList]
  obtain ⟨c, s, hdigits, hc⟩ := hwrites.exists_cons
  rw [hdigits] at hread ⊢
  have hrange := isDigit_iff.1 hc
  rw [encode_cons_of_lt (by omega), List.cons_append] at hread ⊢
  exact ⟨_, _, rfl, by rw [digitOf?_byte hc]; rfl, hread⟩

/-- **A negative number of 64 bits** begins with its sign, and is read as itself. -/
theorem readNumber_negSucc (hn : n < Nat.pow 2 63) (hrest : Follows rest) :
    ∃ bytes, encode (decimalInt (.negSucc n)).toList ++ rest = byte '-' :: bytes ∧
      readNumber true bytes = .ok (.negative (n + 1), rest) := by
  have hlargest : Nat.pow 2 63 ≤ largest := by decide
  have hread := readNumber_toDigits true (Nat.le_trans hn hlargest) hrest
  rw [readAfterDigits_negative (Nat.succ_pos n) hn hrest] at hread
  refine ⟨_, ?_, hread⟩
  have htext : (decimalInt (.negSucc n)).toList = '-' :: Nat.toDigits 10 (n + 1) := by
    simp [decimalInt, decimal]
  rw [htext, encode_cons_of_lt (by decide), List.cons_append]

end Numbers

end WhereClause.Json

/-
**Texts and their bytes.**

A character of a text is one to four bytes, and the first of them says how many.  The reader takes
them one by one and refuses what no character is written with: overlong forms, surrogates, numbers
that are too large.  None of this is written for a character, so a text is read from its own bytes,
whatever characters it holds.

Main results:

* `WhereClause.Text.Utf8.readFirst_utf8EncodeChar` — a character is read from its bytes;
* `WhereClause.Text.Utf8.decode?_encode` — **a text is read from its bytes**;
* `WhereClause.Text.Utf8.ge_of_mem_utf8EncodeChar` — a character outside ASCII has no byte of ASCII.
-/

import WhereClause.Text.Utf8

set_option relaxedAutoImplicit false
set_option autoImplicit false

namespace WhereClause.Text.Utf8

/-! ### Bytes as numbers -/

/-- The number of a byte that was made from a number below 256. -/
theorem toNat_ofNat_of_lt {n : Nat} (h : n < 256) : (UInt8.ofNat n).toNat = n :=
  UInt8.toNat_ofNat_of_lt' h

/-- The byte that continues a character with the lowest six bits of a number. -/
theorem isTail_ofNat (m : Nat) : isTail (UInt8.ofNat (m % 64 + 128)) = true := by
  have hbyte : (UInt8.ofNat (m % 64 + 128)).toNat = m % 64 + 128 := toNat_ofNat_of_lt (by omega)
  simp only [isTail, Bool.and_eq_true, decide_eq_true_eq, UInt8.le_iff_toNat_le, hbyte,
    UInt8.reduceToNat]
  omega

theorem addTail_ofNat (n m : Nat) :
    addTail n (UInt8.ofNat (m % 64 + 128)) = n * 64 + m % 64 := by
  rw [addTail, toNat_ofNat_of_lt (by omega)]
  omega

/-- A byte that continues a character adds its six bits. -/
theorem readTails_ofNat (count n m : Nat) (rest : List UInt8) :
    readTails (count + 1) n (UInt8.ofNat (m % 64 + 128) :: rest) =
      readTails count (n * 64 + m % 64) rest := by
  rw [readTails, isTail_ofNat, addTail_ofNat]
  rfl

/-- What excludes a second byte are four bounds, each for one first byte. -/
theorem fits_of_toNat {first second : UInt8} (hlower : 128 ≤ second.toNat)
    (hupper : second.toNat ≤ 191) (hoverlong : first.toNat = 224 → 160 ≤ second.toNat)
    (hsurrogate : first.toNat = 237 → second.toNat ≤ 159)
    (hshort : first.toNat = 240 → 144 ≤ second.toNat)
    (hlarge : first.toNat = 244 → second.toNat ≤ 143) : fits first second = true := by
  simp only [fits, isTail, ← UInt8.toNat_inj, UInt8.le_iff_toNat_le, UInt8.reduceToNat]
  split
  next h => simp [hoverlong h, hupper]
  split
  next h => simp [hsurrogate h, hlower]
  split
  next h => simp [hshort h, hupper]
  split
  next h => simp [hlarge h, hlower]
  next => simp [hlower, hupper]

/-! ### First bytes -/

section FirstBytes

variable {first second : UInt8}

/-- The first byte says how many bytes follow. -/
theorem readFirst_of_lt (h : first.toNat < 128) (rest : List UInt8) :
    readFirst first rest = (some (Char.ofNat first.toNat), rest) := by
  have hone : first < 0x80 := UInt8.lt_iff_toNat_lt.2 h
  simp only [readFirst, hone, if_true]

theorem readFirst_of_two (hlower : 194 ≤ first.toNat) (hupper : first.toNat ≤ 223)
    (rest : List UInt8) : readFirst first rest = readTails 1 (first.toNat % 32) rest := by
  have hone : ¬ first < 0x80 := by
    simp only [UInt8.lt_iff_toNat_lt, UInt8.reduceToNat]
    omega
  have htwo : (0xC2 ≤ first && first ≤ 0xDF) = true := by
    simp [UInt8.le_iff_toNat_le, hlower, hupper]
  simp only [readFirst, hone, if_false, htwo, if_true]

/-- Three or four bytes need a second one that fits. -/
theorem readFirst_of_more (hlower : 224 ≤ first.toNat) (hupper : first.toNat ≤ 244)
    (hfits : fits first second = true) (rest : List UInt8) :
    readFirst first (second :: rest) =
      if first ≤ 0xEF then readTails 1 (addTail (first.toNat % 16) second) rest
      else readTails 2 (addTail (first.toNat % 8) second) rest := by
  have hone : ¬ first < 0x80 := by
    simp only [UInt8.lt_iff_toNat_lt, UInt8.reduceToNat]
    omega
  have htwo : (0xC2 ≤ first && first ≤ 0xDF) = false := by
    simp only [Bool.and_eq_false_iff, decide_eq_false_iff_not, UInt8.le_iff_toNat_le,
      UInt8.reduceToNat]
    omega
  have hmore : (0xE0 ≤ first && first ≤ 0xF4) = true := by
    simp [UInt8.le_iff_toNat_le, hlower, hupper]
  simp only [readFirst, hone, if_false, htwo, hmore, hfits, if_true, Bool.false_eq_true]

end FirstBytes

/-! ### Characters -/

/-- The bytes of a character with a given number, by how many there are. -/
inductive Layout (n : Nat) : List UInt8 → Prop
  | one : n < 128 → Layout n [UInt8.ofNat n]
  | two : 128 ≤ n → n < 2048 →
      Layout n [UInt8.ofNat (n / 64 + 192), UInt8.ofNat (n % 64 + 128)]
  | three : 2048 ≤ n → n < 65536 →
      Layout n [UInt8.ofNat (n / 4096 + 224), UInt8.ofNat (n / 64 % 64 + 128),
        UInt8.ofNat (n % 64 + 128)]
  | four : 65536 ≤ n → n < 1114112 →
      Layout n [UInt8.ofNat (n / 262144 + 240), UInt8.ofNat (n / 4096 % 64 + 128),
        UInt8.ofNat (n / 64 % 64 + 128), UInt8.ofNat (n % 64 + 128)]

/-- A character is no surrogate, and its number is not too large. -/
theorem toNat_valid (c : Char) : c.toNat < 55296 ∨ 57343 < c.toNat ∧ c.toNat < 1114112 := c.valid

theorem layout_utf8EncodeChar (c : Char) : Layout c.toNat (String.utf8EncodeChar c) := by
  have hvalid := toNat_valid c
  have hnumber : c.val.toNat = c.toNat := rfl
  rw [String.utf8EncodeChar.eq_1, hnumber]
  generalize c.toNat = n at hvalid ⊢
  split
  · exact .one (by omega)
  split
  · rw [Nat.mod_eq_of_lt (by omega : n / 64 < 32)]
    exact .two (by omega) (by omega)
  split
  · rw [Nat.mod_eq_of_lt (by omega : n / 4096 < 16)]
    exact .three (by omega) (by omega)
  · rw [Nat.mod_eq_of_lt (by omega : n / 262144 < 8)]
    exact .four (by omega) (by omega)

/-- **A number is read from its bytes**, unless it is the one of a surrogate. -/
theorem Layout.read {n : Nat} {bytes : List UInt8} (h : Layout n bytes)
    (hvalid : n < 55296 ∨ 57343 < n) (rest : List UInt8) :
    ∃ first tails, bytes = first :: tails ∧
      readFirst first (tails ++ rest) = (some (Char.ofNat n), rest) := by
  cases h with
  | one hlt =>
      have hfirst := toNat_ofNat_of_lt (by omega : n < 256)
      refine ⟨_, _, rfl, ?_⟩
      rw [readFirst_of_lt (by omega), hfirst]
      rfl
  | two hge hlt =>
      have hfirst := toNat_ofNat_of_lt (by omega : n / 64 + 192 < 256)
      refine ⟨_, _, rfl, ?_⟩
      rw [readFirst_of_two (by omega) (by omega), hfirst, List.cons_append, readTails_ofNat]
      have hnumber : (n / 64 + 192) % 32 * 64 + n % 64 = n := by omega
      rw [hnumber]
      rfl
  | three hge hlt =>
      have hfirst := toNat_ofNat_of_lt (by omega : n / 4096 + 224 < 256)
      have hsecond := toNat_ofNat_of_lt (by omega : n / 64 % 64 + 128 < 256)
      have hfits : fits (UInt8.ofNat (n / 4096 + 224)) (UInt8.ofNat (n / 64 % 64 + 128)) = true :=
        fits_of_toNat (by omega) (by omega) (by omega) (by omega) (by omega) (by omega)
      have hthree : UInt8.ofNat (n / 4096 + 224) ≤ 0xEF := by
        simp only [UInt8.le_iff_toNat_le, UInt8.reduceToNat]
        omega
      refine ⟨_, _, rfl, ?_⟩
      rw [List.cons_append, readFirst_of_more (by omega) (by omega) hfits, if_pos hthree, hfirst,
        addTail_ofNat, List.cons_append, readTails_ofNat]
      have hnumber : ((n / 4096 + 224) % 16 * 64 + n / 64 % 64) * 64 + n % 64 = n := by omega
      rw [hnumber]
      rfl
  | four hge hlt =>
      have hfirst := toNat_ofNat_of_lt (by omega : n / 262144 + 240 < 256)
      have hsecond := toNat_ofNat_of_lt (by omega : n / 4096 % 64 + 128 < 256)
      have hfits : fits (UInt8.ofNat (n / 262144 + 240)) (UInt8.ofNat (n / 4096 % 64 + 128)) =
          true :=
        fits_of_toNat (by omega) (by omega) (by omega) (by omega) (by omega) (by omega)
      have hfour : ¬ UInt8.ofNat (n / 262144 + 240) ≤ 0xEF := by
        simp only [UInt8.le_iff_toNat_le, UInt8.reduceToNat]
        omega
      refine ⟨_, _, rfl, ?_⟩
      rw [List.cons_append, readFirst_of_more (by omega) (by omega) hfits, if_neg hfour, hfirst,
        addTail_ofNat, List.cons_append, readTails_ofNat, List.cons_append, readTails_ofNat]
      have hnumber : (((n / 262144 + 240) % 8 * 64 + n / 4096 % 64) * 64 + n / 64 % 64) * 64 +
          n % 64 = n := by omega
      rw [hnumber]
      rfl

/-! ### Texts -/

@[simp] theorem encode_nil : encode [] = [] := rfl

@[simp] theorem encode_cons (c : Char) (s : List Char) :
    encode (c :: s) = String.utf8EncodeChar c ++ encode s := rfl

@[simp] theorem encode_append (s t : List Char) : encode (s ++ t) = encode s ++ encode t :=
  List.flatMap_append

/-- The characters are read one by one. -/
theorem read_encode (s : List Char) : read (encode s) = s.map some := by
  induction s with
  | nil => rw [encode_nil, Utf8.read, List.map_nil]
  | cons c s ih =>
      have hvalid := toNat_valid c
      obtain ⟨first, tails, hbytes, hread⟩ :=
        (layout_utf8EncodeChar c).read (by omega) (encode s)
      rw [encode_cons, hbytes, List.cons_append, Utf8.read, hread, ih, Char.ofNat_toNat,
        List.map_cons]

/-- **A text is read from its bytes.** -/
theorem decode?_encode (s : List Char) : decode? (encode s) = some s := by
  rw [decode?, read_encode]
  induction s with
  | nil => rfl
  | cons c s ih => simp [ih]

/-! ### Characters of ASCII -/

/-- A character of ASCII is one byte. -/
theorem utf8EncodeChar_of_lt {c : Char} (h : c.toNat < 128) :
    String.utf8EncodeChar c = [UInt8.ofNat c.toNat] := by
  have hone : c.val.toNat ≤ 127 := Nat.le_of_lt_succ h
  rw [String.utf8EncodeChar.eq_1, if_pos hone]
  rfl

theorem ge_ofNat {n : Nat} (hlower : 128 ≤ n) (hupper : n < 256) :
    128 ≤ (UInt8.ofNat n).toNat := by
  rwa [toNat_ofNat_of_lt hupper]

/-- Any other character has no byte of ASCII. -/
theorem ge_of_mem_utf8EncodeChar {c : Char} (h : 128 ≤ c.toNat) :
    ∀ b ∈ String.utf8EncodeChar c, 128 ≤ b.toNat := by
  intro b hb
  have hlayout := layout_utf8EncodeChar c
  generalize String.utf8EncodeChar c = bytes at hlayout hb
  cases hlayout with
  | one => omega
  | two =>
      simp only [List.mem_cons, List.not_mem_nil, or_false] at hb
      rcases hb with rfl | rfl <;> exact ge_ofNat (by omega) (by omega)
  | three =>
      simp only [List.mem_cons, List.not_mem_nil, or_false] at hb
      rcases hb with rfl | rfl | rfl <;> exact ge_ofNat (by omega) (by omega)
  | four =>
      simp only [List.mem_cons, List.not_mem_nil, or_false] at hb
      rcases hb with rfl | rfl | rfl | rfl <;> exact ge_ofNat (by omega) (by omega)

end WhereClause.Text.Utf8

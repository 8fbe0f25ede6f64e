/-
**What is read of a token.**

A reader of numbers or strings uses up one token, the one that would be passed over in its place,
and what it makes of the token does not depend on what stands behind it.  A number is read until its
digits, its point and its exponent are used up, where digits that no longer fit only move the point;
a string is read up to its closing mark, and two escapes in it may make one character.

Main definitions:

* `WhereClause.Json.Settled` — bytes of which the same is read, whatever ends them;
* `WhereClause.Json.ReadsString` — bytes that begin with a string, of which the same is read.

Main results:

* `WhereClause.Json.skipNumber_of_readNumber`, `WhereClause.Json.skipString_of_readString` — what is
  read would be passed over as well;
* `WhereClause.Json.settled_readNumber` — **a number is read as the same, whatever ends it**;
* `WhereClause.Json.readString_of_content` — **and so is a string**.
-/

import WhereClause.Proofs.Documents
import WhereClause.Proofs.DocumentTokens

set_option relaxedAutoImplicit false
set_option autoImplicit false

namespace WhereClause.Json

open Text

variable {s bytes rest other : List UInt8} {negative : Bool} {n : Nat} {place : Int} {x : Numeral}

theorem map_eq_ok_iff {ε α β : Type} {r : Except ε α} {f : α → β} {b : β} :
    r.map f = .ok b ↔ ∃ a, r = .ok a ∧ f a = b := by
  cases r <;> simp [Except.map]

/-- Bytes of which the same is read, or which are refused for the same fault, whatever ends them. -/
def Settled {α : Type} (read : List UInt8 → Except Fault (α × List UInt8)) (s : List UInt8) :
    Prop :=
  ∃ result : Except Fault α, ∀ rest, Follows rest →
    read (s ++ rest) = result.map fun a => (a, rest)

/-- What is read once is read always. -/
theorem Settled.eq_of_ok {α : Type} {read : List UInt8 → Except Fault (α × List UInt8)} {a : α}
    {r : List UInt8} (h : Settled read s) (hrest : Follows rest)
    (hread : read (s ++ rest) = .ok (a, r)) :
    r = rest ∧ ∀ other, Follows other → read (s ++ other) = .ok (a, other) := by
  obtain ⟨result, hresult⟩ := h
  rw [hresult rest hrest] at hread
  obtain ⟨a', rfl, ha⟩ := map_eq_ok_iff.1 hread
  cases ha
  exact ⟨rfl, hresult⟩

/-! ### Exponents -/

/-- Whether an exponent is below zero, and what stands behind its sign. -/
def exponentSign : List UInt8 → Bool × List UInt8
  | [] => (false, [])
  | b :: rest =>
      if b = byte '-' then (true, rest)
      else if b = byte '+' then (false, rest)
      else (false, b :: rest)

/-- The place of the point when the digits of an exponent have moved it. -/
def movedBy (place : Int) (down : Bool) (digits : List UInt8) : Int :=
  let e : Int := digitsValue (digits.map fun b => Char.ofNat b.toNat)
  if down then place - e else place + e

/-- The digits that bytes begin with. -/
def leadingDigits (bytes : List UInt8) : List UInt8 := bytes.takeWhile fun b => (digitOf? b).isSome

theorem leadingDigits_append (hs : AllDigits s) (hrest : startsWithDigit rest = false) :
    leadingDigits (s ++ rest) = s := by
  have hnone : leadingDigits rest = [] := by
    cases rest with
    | nil => rfl
    | cons b rest => exact List.takeWhile_cons_of_neg (by simpa [startsWithDigit] using hrest)
  have happend : leadingDigits (s ++ rest) = s ++ leadingDigits rest :=
    List.takeWhile_append_of_pos hs
  rw [happend, hnone, List.append_nil]

/-- An exponent is read behind its sign. -/
theorem readExponent_eq_exponentSign (bytes : List UInt8) :
    readExponent negative n place bytes = match (exponentSign bytes).2 with
      | [] => .error .truncated
      | b :: rest =>
          if (digitOf? b).isSome then
            match scaled negative n
              (movedBy place (exponentSign bytes).1 (leadingDigits (b :: rest))) with
            | .error fault => .error fault
            | .ok x => .ok (.real x, skipDigits rest)
          else .error .malformed := by
  cases bytes <;> rfl

/-- An exponent is read from its first digit to its last one. -/
theorem readExponent_eq (bytes : List UInt8) :
    readExponent negative n place bytes =
      if startsWithDigit (exponentSign bytes).2 then
        (scaled negative n
          (movedBy place (exponentSign bytes).1 (leadingDigits (exponentSign bytes).2))).map
          fun x => (.real x, skipDigits (exponentSign bytes).2)
      else .error (if (exponentSign bytes).2.isEmpty then .truncated else .malformed) := by
  rw [readExponent_eq_exponentSign]
  cases (exponentSign bytes).2 with
  | nil => rfl
  | cons b digits =>
      by_cases h : (digitOf? b).isSome = true
      · have hskip : skipDigits (b :: digits) = skipDigits digits := List.dropWhile_cons_of_pos h
        simp only [startsWithDigit, h, if_true, hskip]
        cases scaled negative n _ <;> rfl
      · simp only [startsWithDigit, h, List.isEmpty_cons]
        rfl

theorem skipExponent_eq (bytes : List UInt8) :
    skipExponent bytes = if startsWithDigit (exponentSign bytes).2 then
      .ok (skipDigits (exponentSign bytes).2) else .error .malformed := by
  cases bytes with
  | nil => rfl
  | cons b bytes =>
      rw [exponentSign]
      split
      next hminus => simp only [skipExponent, hminus, or_true, if_true]
      next hminus =>
        split
        next hplus => simp only [skipExponent, hplus, true_or, if_true]
        next hplus => simp only [skipExponent, hminus, hplus, or_self, if_false]

theorem skipExponent_of_readExponent (h : readExponent negative n place bytes = .ok (x, rest)) :
    skipExponent bytes = .ok rest := by
  rw [readExponent_eq] at h
  split at h
  next hdigit =>
    obtain ⟨y, -, hy⟩ := map_eq_ok_iff.1 h
    cases hy
    rw [skipExponent_eq, if_pos hdigit]
  next => cases h

/-- What is read of an exponent is what its sign and its digits say. -/
theorem settled_readExponent {sign : List UInt8} (hsign : sign ∈ [[], [byte '+'], [byte '-']])
    (hs : AllDigits s) (hne : s ≠ []) : Settled (readExponent negative n place) (sign ++ s) := by
  obtain ⟨down, hdown⟩ :
      ∃ down, ∀ rest, exponentSign (sign ++ (s ++ rest)) = (down, s ++ rest) := by
    simp only [List.mem_cons, List.not_mem_nil, or_false] at hsign
    rcases hsign with rfl | rfl | rfl
    · obtain ⟨b, s, rfl⟩ := List.exists_cons_of_ne_nil hne
      have hdigit := hs b List.mem_cons_self
      have hplus : b ≠ byte '+' := ne_of_digit hdigit (by decide)
      have hminus : b ≠ byte '-' := ne_of_digit hdigit (by decide)
      exact ⟨false, fun rest => by
        rw [List.nil_append, List.cons_append, exponentSign, if_neg hminus, if_neg hplus]⟩
    · exact ⟨false, fun rest => rfl⟩
    · exact ⟨true, fun rest => rfl⟩
  refine ⟨(scaled negative n (movedBy place down s)).map .real, fun rest hrest => ?_⟩
  have hdigit := hrest.startsWithDigit
  rw [List.append_assoc, readExponent_eq, hdown, if_pos (startsWithDigit_append hs hne rest),
    leadingDigits_append hs hdigit, skipDigits_append hs hdigit]
  cases scaled negative n _ <;> rfl

theorem skipScale_of_readScale (h : readScale negative n place bytes = .ok (x, rest)) :
    skipScale bytes = .ok rest := by
  cases bytes with
  | nil =>
      simp only [readScale] at h
      split at h
      next => cases h
      next =>
        cases h
        rfl
  | cons b bytes =>
      simp only [readScale] at h
      rw [skipScale]
      split at h
      next hletter =>
        rw [if_pos hletter]
        exact skipExponent_of_readExponent h
      next hletter =>
        rw [if_neg hletter]
        split at h
        next => cases h
        next =>
          cases h
          rfl

/-- What is read behind the digits of a number that is not whole is what its exponent says. -/
theorem settled_readScale (h : Exponent s) : Settled (readScale negative n place) s := by
  cases h with
  | absent =>
      refine ⟨(scaled negative n place).map .real, fun rest hrest => ?_⟩
      cases rest with
      | nil =>
          rw [List.nil_append, readScale]
          cases scaled negative n place <;> rfl
      | cons b rest =>
          obtain ⟨-, -, he, hE⟩ := hrest b (by simp)
          simp only [List.nil_append, readScale, he, hE, or_self, if_false]
          cases scaled negative n place <;> rfl
  | digits hletter hsign hs hne =>
      obtain ⟨result, hresult⟩ := settled_readExponent hsign hs hne
      refine ⟨result, fun rest hrest => ?_⟩
      simp only [List.cons_append, readScale, hletter, if_true]
      exact hresult rest hrest

/-! ### Digits and fractions -/

theorem skipDigits_cons {b : UInt8} (h : (digitOf? b).isSome = true) (bytes : List UInt8) :
    skipDigits (b :: bytes) = skipDigits bytes :=
  List.dropWhile_cons_of_pos h

theorem readDigits_of_not_startsWithDigit (h : startsWithDigit bytes = false) :
    readDigits n bytes = (n, bytes) := by
  cases bytes with
  | nil => rfl
  | cons b bytes =>
      have hb : digitOf? b = none := by simpa [startsWithDigit] using h
      rw [readDigits, hb]

/-- The digits that do not fit are passed over with the others. -/
theorem skipDigits_readDigits (n : Nat) (bytes : List UInt8) :
    skipDigits (readDigits n bytes).2 = skipDigits bytes := by
  induction bytes generalizing n with
  | nil => rfl
  | cons b bytes ih =>
      rw [readDigits]
      cases hb : digitOf? b with
      | none => rfl
      | some d =>
          have hdigit : (digitOf? b).isSome = true := by rw [hb]; rfl
          by_cases hfits : n * 10 + d ≤ largest
          · simp only [hfits, if_true]
            rw [ih, skipDigits_cons hdigit]
          · simp only [hfits, if_false]

/-- Of digits, the first ones that fit are read, and the others are left. -/
theorem exists_readDigits (hs : AllDigits s) (n : Nat) :
    ∃ m left, AllDigits left ∧ ∀ rest, startsWithDigit rest = false →
      readDigits n (s ++ rest) = (m, left ++ rest) := by
  induction s generalizing n with
  | nil => exact ⟨n, [], hs, fun rest hrest => readDigits_of_not_startsWithDigit hrest⟩
  | cons b s ih =>
      obtain ⟨hb, hdigits⟩ := List.forall_mem_cons.1 hs
      obtain ⟨d, hd⟩ := Option.isSome_iff_exists.1 hb
      by_cases hfits : n * 10 + d ≤ largest
      · obtain ⟨m, left, hleft, hread⟩ := ih hdigits (n * 10 + d)
        refine ⟨m, left, hleft, fun rest hrest => ?_⟩
        simp only [List.cons_append, readDigits, hd, hfits, if_true]
        exact hread rest hrest
      · refine ⟨n, b :: s, hs, fun rest _ => ?_⟩
        simp only [List.cons_append, readDigits, hd, hfits, if_false]

theorem skipScale_of_readFraction (h : readFraction negative n place bytes = .ok (x, rest)) :
    startsWithDigit bytes = true ∧ skipScale (skipDigits bytes) = .ok rest := by
  have hskip := skipDigits_readDigits n bytes
  unfold readFraction at h
  cases hdigit : startsWithDigit bytes with
  | false =>
      rw [readDigits_of_not_startsWithDigit hdigit] at h
      simp only [hdigit, Bool.false_eq_true, if_false, if_true] at h
      split at h <;> cases h
  | true =>
      refine ⟨rfl, ?_⟩
      generalize readDigits n bytes = read at h hskip
      obtain ⟨m, left⟩ := read
      simp only at h hskip
      split at h
      next =>
        rw [hskip] at h
        exact skipScale_of_readScale h
      next hleft =>
        rw [skipDigits_of_not_startsWithDigit (Bool.eq_false_iff.2 hleft)] at hskip
        split at h
        next => split at h <;> cases h
        next =>
          rw [← hskip]
          exact skipScale_of_readScale h

/-- What is read of a fraction is what its digits say, and what stands behind them. -/
theorem exists_readFraction (hs : AllDigits s) (hne : s ≠ []) (negative : Bool) (n : Nat)
    (place : Int) : ∃ m place', ∀ rest, startsWithDigit rest = false →
      readFraction negative n place (s ++ rest) = readScale negative m place' rest := by
  obtain ⟨m, left, hleft, hread⟩ := exists_readDigits hs n
  refine ⟨m, place - (s.length - left.length), fun rest hrest => ?_⟩
  have hmoved : place - ((s ++ rest).length - (left ++ rest).length : Int) =
      place - (s.length - left.length) := by
    simp only [List.length_append]
    omega
  simp only [readFraction, hread rest hrest, hmoved, skipDigits_append hleft hrest]
  cases left with
  | nil =>
      have hlength : (s ++ rest).length ≠ rest.length := by
        have hpos := List.length_pos_iff.2 hne
        rw [List.length_append]
        omega
      simp only [List.nil_append, hrest, hlength, if_false]
      rfl
  | cons b left =>
      rw [if_pos (startsWithDigit_append hleft (List.cons_ne_nil b left) rest)]

/-! ### Numbers -/

/-- Behind the digits of a whole number may stand what is passed over behind them. -/
theorem skipFraction_of_readAfterDigits (h : readAfterDigits negative n bytes = .ok (x, rest)) :
    (do
      let rest ← skipFraction bytes
      skipScale rest) = .ok rest := by
  cases bytes with
  | nil =>
      simp only [readAfterDigits] at h
      cases h
      rfl
  | cons b bytes =>
      simp only [readAfterDigits] at h
      rw [skipFraction]
      split at h
      next hpoint =>
        obtain ⟨hdigit, hscale⟩ := skipScale_of_readFraction h
        rw [if_pos hpoint, if_pos hdigit, ok_bind, hscale]
      next hpoint =>
        rw [if_neg hpoint, ok_bind, skipScale]
        split at h
        next hletter =>
          rw [if_pos hletter]
          exact skipExponent_of_readExponent h
        next hletter =>
          rw [if_neg hletter]
          cases h
          rfl

/-- What follows the digits of a whole number that does not fit 64 bits. -/
def readPastDigits (negative : Bool) (significand : Nat) (place : Int) :
    List UInt8 → Except Fault (Numeral × List UInt8)
  | [] => readScale negative significand place []
  | b :: rest =>
      if b = byte '.' then readFraction negative significand place rest
      else readScale negative significand place (b :: rest)

theorem skipFraction_of_readPastDigits
    (h : readPastDigits negative n place bytes = .ok (x, rest)) :
    (do
      let rest ← skipFraction bytes
      skipScale rest) = .ok rest := by
  cases bytes with
  | nil =>
      rw [readPastDigits] at h
      exact skipScale_of_readScale h
  | cons b bytes =>
      rw [readPastDigits] at h
      rw [skipFraction]
      split at h
      next hpoint =>
        obtain ⟨hdigit, hscale⟩ := skipScale_of_readFraction h
        rw [if_pos hpoint, if_pos hdigit, ok_bind, hscale]
      next hpoint =>
        rw [if_neg hpoint, ok_bind]
        exact skipScale_of_readScale h

/-- A number that begins with a digit other than zero: the digits that do not fit move the point. -/
theorem readNumber_of_digit {b : UInt8} (hzero : b ≠ byte '0') (hb : (digitOf? b).isSome = true)
    {m : Nat} {left : List UInt8} (hread : readDigits 0 (b :: bytes) = (m, left)) :
    readNumber negative (b :: bytes) =
      if startsWithDigit left then
        readPastDigits negative m (left.length - (skipDigits left).length) (skipDigits left)
      else readAfterDigits negative m left := by
  simp only [readNumber, hzero, hb, hread, if_false, if_true]
  rfl

theorem skipNumber_of_readNumber (h : readNumber negative bytes = .ok (x, rest)) :
    skipNumber bytes = .ok rest := by
  rw [skipNumber_eq]
  cases bytes with
  | nil => cases h
  | cons b bytes =>
      rw [skipWhole]
      by_cases hzero : b = byte '0'
      · simp only [readNumber, hzero, if_true] at h
        rw [if_pos hzero]
        split at h
        next => cases h
        next hdigit =>
          rw [if_neg hdigit, ok_bind]
          exact skipFraction_of_readAfterDigits h
      · by_cases hb : (digitOf? b).isSome = true
        · have hskip := skipDigits_readDigits 0 (b :: bytes)
          rcases hread : readDigits 0 (b :: bytes) with ⟨m, left⟩
          rw [hread, skipDigits_cons hb] at hskip
          rw [readNumber_of_digit hzero hb hread] at h
          rw [if_neg hzero, if_pos hb, ok_bind, ← hskip]
          split at h
          next => exact skipFraction_of_readPastDigits h
          next hleft =>
            rw [skipDigits_of_not_startsWithDigit (Bool.eq_false_iff.2 hleft)]
            exact skipFraction_of_readAfterDigits h
        · simp only [readNumber, hzero, hb, if_false] at h
          cases h

/-- What is read behind the digits of a whole number is what its fraction and exponent say. -/
theorem settled_readAfterDigits {fraction exponent : List UInt8} (hfraction : Fraction fraction)
    (hexponent : Exponent exponent) :
    Settled (readAfterDigits negative n) (fraction ++ exponent) := by
  cases hfraction with
  | absent =>
      cases hexponent with
      | absent =>
          refine ⟨readAfterDigits negative n [] |>.map Prod.fst, fun rest hrest => ?_⟩
          cases rest with
          | nil => rfl
          | cons b rest =>
              obtain ⟨-, hpoint, he, hE⟩ := hrest b (by simp)
              simp only [List.nil_append, readAfterDigits, hpoint, he, hE, or_self, if_false]
              rfl
      | @digits letter _ _ hletter hsign hs hne =>
          have hpoint : letter ≠ byte '.' := by
            rcases hletter with rfl | rfl <;> decide
          obtain ⟨result, hresult⟩ := settled_readExponent hsign hs hne
          refine ⟨result, fun rest hrest => ?_⟩
          simp only [List.nil_append, List.cons_append, readAfterDigits, hpoint, hletter, if_false,
            if_true]
          exact hresult rest hrest
  | digits hs hne =>
      obtain ⟨m, place, hread⟩ := exists_readFraction hs hne negative n 0
      obtain ⟨result, hresult⟩ := settled_readScale hexponent
      refine ⟨result, fun rest hrest => ?_⟩
      rw [List.append_assoc, List.cons_append, readAfterDigits, if_pos rfl,
        hread _ (hexponent.head hrest).1]
      exact hresult rest hrest

theorem settled_readPastDigits {fraction exponent : List UInt8} (hfraction : Fraction fraction)
    (hexponent : Exponent exponent) :
    Settled (readPastDigits negative n place) (fraction ++ exponent) := by
  cases hfraction with
  | absent =>
      obtain ⟨result, hresult⟩ := settled_readScale hexponent
      refine ⟨result, fun rest hrest => ?_⟩
      rw [List.nil_append, ← hresult rest hrest]
      have hpoint := (hexponent.head hrest).2
      cases hbytes : exponent ++ rest with
      | nil => rfl
      | cons b bytes =>
          rw [hbytes] at hpoint
          have hb : b ≠ byte '.' := by simpa using hpoint
          rw [readPastDigits, if_neg hb]
  | digits hs hne =>
      obtain ⟨m, place', hread⟩ := exists_readFraction hs hne negative n place
      obtain ⟨result, hresult⟩ := settled_readScale hexponent
      refine ⟨result, fun rest hrest => ?_⟩
      rw [List.append_assoc, List.cons_append, readPastDigits, if_pos rfl,
        hread _ (hexponent.head hrest).1]
      exact hresult rest hrest

/-- What stands behind the whole part of a number does not begin with a digit. -/
theorem startsWithDigit_fraction {fraction exponent : List UInt8} (hfraction : Fraction fraction)
    (hexponent : Exponent exponent) (hrest : Follows rest) :
    startsWithDigit (fraction ++ (exponent ++ rest)) = false :=
  hfraction.head (hexponent.head hrest).1

theorem settled_readNumber_of_digits {b : UInt8} {fraction exponent : List UInt8}
    (hzero : b ≠ byte '0') (hs : AllDigits (b :: s)) (hfraction : Fraction fraction)
    (hexponent : Exponent exponent) :
    Settled (readNumber negative) ((b :: s) ++ (fraction ++ exponent)) := by
  obtain ⟨m, left, hleft, hread⟩ := exists_readDigits hs 0
  have hb := hs b List.mem_cons_self
  -- the digits that are left say how the number goes on, and all of them are its own
  cases left with
  | nil =>
      obtain ⟨result, hresult⟩ : Settled (readAfterDigits negative m) (fraction ++ exponent) :=
        settled_readAfterDigits hfraction hexponent
      refine ⟨result, fun rest hrest => ?_⟩
      have htail := startsWithDigit_fraction hfraction hexponent hrest
      have hdigits := hread _ htail
      rw [List.cons_append, List.nil_append] at hdigits
      rw [← hresult rest hrest, List.append_assoc, List.append_assoc, List.cons_append,
        readNumber_of_digit hzero hb hdigits, htail, if_neg Bool.false_ne_true]
  | cons d left =>
      obtain ⟨result, hresult⟩ : Settled (readPastDigits negative m (left.length + 1))
          (fraction ++ exponent) := settled_readPastDigits hfraction hexponent
      refine ⟨result, fun rest hrest => ?_⟩
      have htail := startsWithDigit_fraction hfraction hexponent hrest
      have hdigits := hread _ htail
      have hstarts := startsWithDigit_append hleft (List.cons_ne_nil d left)
        (fraction ++ (exponent ++ rest))
      have hplace : (((d :: left ++ (fraction ++ (exponent ++ rest))).length : Int) -
          (fraction ++ (exponent ++ rest)).length) = left.length + 1 := by
        simp only [List.length_append, List.length_cons]
        omega
      rw [List.cons_append] at hdigits
      rw [← hresult rest hrest, List.append_assoc, List.append_assoc, List.cons_append,
        readNumber_of_digit hzero hb hdigits, hstarts, if_pos rfl, skipDigits_append hleft htail,
        hplace]

/-- **A number is read as the same, whatever ends it.** -/
theorem settled_readNumber (h : Unsigned s) : Settled (readNumber negative) s := by
  cases h with
  | @parts whole fraction exponent hwhole hfraction hexponent =>
      cases hwhole with
      | zero =>
          obtain ⟨result, hresult⟩ : Settled (readAfterDigits negative 0) (fraction ++ exponent) :=
            settled_readAfterDigits hfraction hexponent
          refine ⟨result, fun rest hrest => ?_⟩
          rw [← hresult rest hrest]
          simp only [List.cons_append, List.nil_append, List.append_assoc, readNumber, if_true,
            startsWithDigit_fraction hfraction hexponent hrest, Bool.false_eq_true, if_false]
      | digits hzero hs => exact settled_readNumber_of_digits hzero hs hfraction hexponent

/-! ### Strings -/

/-- Bytes of which a string is read that is passed over as well, and that is the same whatever
stands behind it. -/
structure ReadsString (bytes content rest : List UInt8) : Prop where
  skip : skipString bytes = .ok rest
  front : ∃ front, bytes = front ++ rest ∧
    ∀ other, readContent (front ++ other) = .ok (content, other)

/-- A piece of a string is read, and passed over, by itself. -/
theorem ReadsString.append {bytes content : List UInt8} (front piece : List UInt8)
    (hskip : ∀ s, skipString (front ++ s) = skipString s)
    (hread : ∀ s, readContent (front ++ s) = prepend piece (readContent s))
    (h : ReadsString bytes content rest) :
    ReadsString (front ++ bytes) (piece ++ content) rest where
  skip := by rw [hskip, h.skip]
  front := by
    obtain ⟨back, rfl, hback⟩ := h.front
    refine ⟨front ++ back, by rw [List.append_assoc], fun other => ?_⟩
    rw [List.append_assoc, hread, hback]
    rfl

theorem prepend_eq_ok_iff {piece content : List UInt8}
    {r : Except Fault (List UInt8 × List UInt8)} :
    prepend piece r = .ok (content, rest) ↔
      ∃ back, r = .ok (back, rest) ∧ piece ++ back = content := by
  cases r with
  | error fault => simp [prepend]
  | ok r =>
      obtain ⟨back, rest'⟩ := r
      simp only [prepend, Except.ok.injEq, Prod.mk.injEq]
      constructor
      · rintro ⟨hcontent, hrest⟩
        exact ⟨back, ⟨rfl, hrest⟩, hcontent⟩
      · rintro ⟨_, ⟨rfl, hrest⟩, hcontent⟩
        exact ⟨hcontent, hrest⟩

theorem readsString_of_readContent {content : List UInt8}
    (h : readContent bytes = .ok (content, rest)) : ReadsString bytes content rest := by
  fun_induction readContent bytes generalizing content with
  | case2 s =>
      cases h
      exact ⟨skipString_append .nil rest, [byte '"'], rfl, fun other => by
        rw [List.singleton_append, readContent.eq_def]
        rfl⟩
  | case9 h₁ h₂ h₃ h₄ n hn htrailing hleading k₁ k₂ k₃ k₄ s m hm hm' hquote ih =>
      obtain ⟨back, hback, rfl⟩ := prepend_eq_ok_iff.1 h
      refine (ih hback).append [byte '\\', byte 'u', h₁, h₂, h₃, h₄, byte '\\', byte 'u', k₁, k₂,
        k₃, k₄] _ (fun s => ?_) (fun s => ?_)
      · have hfirst : (hexNumber? h₁ h₂ h₃ h₄).isSome = true := by rw [hn]; rfl
        have hsecond : (hexNumber? k₁ k₂ k₃ k₄).isSome = true := by rw [hm]; rfl
        exact (skipString_of_code hfirst _).trans (skipString_of_code hsecond s)
      · simp only [List.cons_append, List.nil_append]
        rw [readContent.eq_def]
        simp only [hquote, hn, htrailing, hleading, hm, hm', Bool.false_eq_true, if_false, if_true]
  | case14 h₁ h₂ h₃ h₄ s n hn htrailing hleading hquote ih =>
      obtain ⟨back, hback, rfl⟩ := prepend_eq_ok_iff.1 h
      refine (ih hback).append [byte '\\', byte 'u', h₁, h₂, h₃, h₄] _
        (skipString_of_code (by rw [hn]; rfl)) (fun s => ?_)
      simp only [List.cons_append, List.nil_append]
      rw [readContent.eq_def]
      simp only [hquote, hn, htrailing, hleading, Bool.false_eq_true, if_false, if_true]
  | case17 e s hu c hc _ ih =>
      obtain ⟨back, hback, rfl⟩ := prepend_eq_ok_iff.1 h
      exact (ih hback).append [byte '\\', e] _ (skipString_of_escape (by rw [hc]; rfl))
        (readContent_of_escaped hc hu)
  | case19 b s hquote hescape hcontrol ih =>
      obtain ⟨back, hback, rfl⟩ := prepend_eq_ok_iff.1 h
      simp only [UInt8.lt_iff_toNat_lt, UInt8.reduceToNat, Nat.not_lt] at hcontrol
      have hplain : Plain b := ⟨hcontrol, hquote, hescape⟩
      exact (ih hback).append [b] _ (skipString_of_plain hplain) (readContent_of_plain hplain)
  | _ => cases h

theorem readString_eq_ok_iff {k : String} :
    readString bytes = .ok (k, rest) ↔ ∃ content cs, readContent bytes = .ok (content, rest) ∧
      Utf8.decode? content = some cs ∧ k = String.ofList cs := by
  rw [readString, bind_eq_ok_iff]
  constructor
  · rintro ⟨⟨content, rest'⟩, hcontent, h⟩
    simp only at h
    split at h
    next => cases h
    next cs hcs =>
      cases h
      exact ⟨content, cs, hcontent, hcs, rfl⟩
  · rintro ⟨content, cs, hcontent, hcs, rfl⟩
    exact ⟨(content, rest), hcontent, by simp only [hcs]⟩

/-- What is read as a string is passed over as one. -/
theorem skipString_of_readString {k : String} (h : readString bytes = .ok (k, rest)) :
    skipString bytes = .ok rest := by
  obtain ⟨content, cs, hcontent, -, -⟩ := readString_eq_ok_iff.1 h
  exact (readsString_of_readContent hcontent).skip

/-- **A string is read as the same, whatever stands behind it.** -/
theorem readString_of_content {k : String} {r : List UInt8} (hs : Content s)
    (h : readString (s ++ byte '"' :: rest) = .ok (k, r)) :
    r = rest ∧ ∀ other, readString (s ++ byte '"' :: other) = .ok (k, other) := by
  obtain ⟨content, cs, hcontent, hcs, hk⟩ := readString_eq_ok_iff.1 h
  obtain ⟨hskip, front, hfront, hread⟩ := readsString_of_readContent hcontent
  rw [skipString_append hs] at hskip
  cases hskip
  rw [List.append_cons] at hfront
  refine ⟨rfl, fun other => readString_eq_ok_iff.2 ⟨content, cs, ?_, hcs, hk⟩⟩
  rw [List.append_cons, List.append_cancel_right hfront, hread]

end WhereClause.Json

/-
**Encoded queries are read as they are written.**

What is written for a byte is the byte itself, a plus sign, or two hexadecimal digits behind a
percent sign, and each of the three is read back; none of them is an ampersand or an equals sign, so
a query is cut exactly where its pairs were joined.  Whatever stands in the keys and values of some
pairs, the query that is written for them is compiled as the pairs are.

Main definitions:

* `WhereClause.FormEncoding.isWritten` — the characters that a side may be written with;
* `WhereClause.FormEncoding.pairText` — a pair as it is written.

Main results:

* `WhereClause.FormEncoding.unescape_escape` — a byte is read as it is written;
* `WhereClause.FormEncoding.decode_encode` — and so is one side of a pair;
* `WhereClause.FormEncoding.notMem_encode` — what joins sides and pairs is not written inside a
  side;
* `WhereClause.FormEncoding.pairs_query` — **pairs are read as they are written**;
* `WhereClause.compile_query` — **the query that is written for some pairs is compiled as they
  are**.
-/

import WhereClause.FormEncoding
import WhereClause.Proofs.EncodedText
import WhereClause.Proofs.LookUps
import WhereClause.Proofs.ValueGrammar

set_option relaxedAutoImplicit false
set_option autoImplicit false

namespace WhereClause

open Text

namespace FormEncoding

/-! ### Bytes -/

/-- What stands for itself is a byte of ASCII, and none that means something else. -/
theorem lt_of_isPlain {n : Nat} (hn : n < 256) (h : isPlain (UInt8.ofNat n) = true) :
    n < 128 ∧ n ≠ 0x2B ∧ n ≠ 0x25 := by
  revert n
  decide +kernel

/-- The character of a byte of ASCII is written with that byte. -/
theorem encode_ofNat {n : Nat} (hn : n < 128) :
    Utf8.encode [Char.ofNat n] = [UInt8.ofNat n] := by
  revert n
  decide +kernel

/-- A byte is written in capital digits. -/
theorem hexByte?_hexCapital {high low : Nat} (hhigh : high < 16) (hlow : low < 16) :
    hexByte? (UInt8.ofNat (hexCapital high).toNat) (UInt8.ofNat (hexCapital low).toNat) =
      some (UInt8.ofNat (high * 16 + low)) := by
  have hdigit : ∀ k < 16,
      hexDigit? (Char.ofNat (UInt8.ofNat (hexCapital k).toNat).toNat) = some k := by decide
  simp only [hexByte?, hdigit high hhigh, hdigit low hlow]

/-- The bytes of a percent sign and two capital digits. -/
theorem encode_percent {high low : Nat} (hhigh : high < 16) (hlow : low < 16) :
    Utf8.encode ['%', hexCapital high, hexCapital low] =
      [0x25, UInt8.ofNat (hexCapital high).toNat, UInt8.ofNat (hexCapital low).toNat] := by
  have hascii : ∀ k < 16, (hexCapital k).toNat < 128 := by decide
  simp only [Utf8.encode_cons, Utf8.encode_nil, Utf8.utf8EncodeChar_of_lt (hascii high hhigh),
    Utf8.utf8EncodeChar_of_lt (hascii low hlow)]
  rfl

/-- A byte that means nothing else is read as itself. -/
theorem unescape_cons {b : UInt8} (hplus : b ≠ 0x2B) (hpercent : b ≠ 0x25) (rest : List UInt8) :
    unescape (b :: rest) = b :: unescape rest := by
  rw [unescape.eq_def]
  simp only [hplus, hpercent, if_false]

theorem unescape_percent {high low b : UInt8} (h : hexByte? high low = some b)
    (rest : List UInt8) : unescape (0x25 :: high :: low :: rest) = b :: unescape rest := by
  have hplus : (0x25 : UInt8) ≠ 0x2B := by decide
  rw [unescape.eq_def]
  simp only [hplus, h, if_false, if_true]

/-- **A byte is read as it is written.** -/
theorem unescape_escape (b : UInt8) (rest : List UInt8) :
    unescape (Utf8.encode (escape b) ++ rest) = b :: unescape rest := by
  have hb : b.toNat < 256 := b.toNat_lt
  have hself : UInt8.ofNat b.toNat = b := UInt8.ofNat_toNat
  unfold escape
  split
  next hplain =>
    rw [← hself] at hplain
    obtain ⟨hascii, hplus, hpercent⟩ := lt_of_isPlain hb hplain
    rw [encode_ofNat hascii, hself]
    refine unescape_cons ?_ ?_ rest
    · rintro rfl
      exact hplus rfl
    · rintro rfl
      exact hpercent rfl
  split
  next hblank =>
    subst hblank
    have hplus : Utf8.encode ['+'] = [0x2B] := rfl
    rw [hplus, List.singleton_append, unescape.eq_def]
    rfl
  next =>
    have hhigh : b.toNat / 16 < 16 := by omega
    have hlow : b.toNat % 16 < 16 := Nat.mod_lt _ (by decide)
    have hdigits : b.toNat / 16 * 16 + b.toNat % 16 = b.toNat := by omega
    have hbyte := hexByte?_hexCapital hhigh hlow
    rw [hdigits, hself] at hbyte
    rw [encode_percent hhigh hlow]
    exact unescape_percent hbyte rest

/-- The characters that a side may be written with. -/
def isWritten (c : Char) : Bool :=
  isLetter c || isDigit c || c == '*' || c == '-' || c == '.' || c == '_' || c == '+' || c == '%'

theorem isWritten_of_mem_escape {b : UInt8} {c : Char} (h : c ∈ escape b) : isWritten c = true := by
  have hdigit : ∀ k < 16, isWritten (hexCapital k) = true := by decide
  have hhigh : b.toNat / 16 < 16 := by
    have hb := b.toNat_lt
    omega
  have hlow : b.toNat % 16 < 16 := Nat.mod_lt _ (by decide)
  unfold escape at h
  split at h
  next hplain =>
    rw [List.mem_singleton] at h
    subst h
    rw [isWritten, Bool.or_eq_true, Bool.or_eq_true]
    exact .inl (.inl hplain)
  split at h
  · rw [List.mem_singleton.1 h]
    decide
  · simp only [List.mem_cons, List.not_mem_nil, or_false] at h
    rcases h with rfl | rfl | rfl
    · decide
    · exact hdigit _ hhigh
    · exact hdigit _ hlow

/-! ### Sides -/

/-- The bytes of a side are read one by one. -/
theorem unescape_flatMap_escape (bytes : List UInt8) :
    unescape (Utf8.encode (bytes.flatMap escape)) = bytes := by
  induction bytes with
  | nil => rfl
  | cons b bytes ih => rw [List.flatMap_cons, Utf8.encode_append, unescape_escape, ih]

/-- **One side of a pair is read as it is written.** -/
theorem decode_encode (side : List Char) : decode (encode side) = side := by
  rw [decode, encode, unescape_flatMap_escape, Utf8.decodeLossy, Utf8.read_encode, List.map_map]
  exact List.map_id side

/-- Nothing but letters, digits and six signs is written for a side. -/
theorem isWritten_of_mem_encode {side : List Char} {c : Char} (h : c ∈ encode side) :
    isWritten c = true := by
  obtain ⟨b, -, hb⟩ := List.mem_flatMap.1 h
  exact isWritten_of_mem_escape hb

/-- What joins sides and pairs is not written inside a side. -/
theorem notMem_encode {c : Char} (h : isWritten c = false) (side : List Char) :
    c ∉ encode side := by
  intro hmem
  rw [isWritten_of_mem_encode hmem] at h
  cases h

/-! ### Queries -/

/-- A pair as it is written. -/
def pairText (p : String × String) : List Char := encode p.1.toList ++ '=' :: encode p.2.toList

theorem ampersand_notMem_pairText (p : String × String) : '&' ∉ pairText p := by
  rw [pairText, List.mem_append, List.mem_cons]
  rintro (hkey | heq | hvalue)
  · exact notMem_encode (by decide) _ hkey
  · exact absurd heq (by decide)
  · exact notMem_encode (by decide) _ hvalue

theorem isEmpty_pairText (p : String × String) : (pairText p).isEmpty = false := by
  simp [pairText]

/-- A pair is cut at the equals sign that joins its sides, which is the first one. -/
theorem cutPair_pairText (p : String × String) :
    cutPair (pairText p) = (encode p.1.toList, encode p.2.toList) := by
  have hcut : cutFirst? '=' (pairText p) = some (encode p.1.toList, encode p.2.toList) :=
    cutFirst?_eq_some_iff.2 ⟨rfl, notMem_encode (by decide) _⟩
  rw [cutPair, hcut]

/-- A query is cut at the ampersands that join its pairs. -/
theorem splitOn_query {ps : List (String × String)} (h : ps ≠ []) :
    splitOn '&' (query ps).toList = ps.map pairText := by
  refine splitOn_eq_iff.2 ⟨?_, ?_, ?_⟩
  · rw [query, String.toList_ofList]
    rfl
  · rwa [ne_eq, List.map_eq_nil_iff]
  · exact List.forall_mem_map.2 fun p _ => ampersand_notMem_pairText p

/-- **Pairs are read as they are written.** -/
theorem pairs_query (ps : List (String × String)) : pairs (query ps) = ps := by
  by_cases h : ps = []
  · subst h
    rfl
  · have hfilter : (ps.map pairText).filter (fun pair => !pair.isEmpty) = ps.map pairText :=
      List.filter_eq_self.2 (List.forall_mem_map.2 fun p _ => by rw [isEmpty_pairText]; rfl)
    rw [pairs, splitOn_query h, hfilter, List.map_map]
    refine (List.map_congr_left fun p _ => ?_).trans (List.map_id ps)
    simp only [Function.comp_apply, cutPair_pairText, decode_encode, String.ofList_toList, id_eq]

end FormEncoding

/-- Where no columns are known, the table does not matter. -/
theorem Compiler.build_none (c : Compiler) (pairs : List (String × String)) (id : Option String)
    (body : Option (List UInt8)) (table table' : String) :
    c.build pairs id body ColumnSource.none table =
      c.build pairs id body ColumnSource.none table' :=
  rfl

/-- **The query that is written for some pairs is compiled as they are**, with a result or a
failure. -/
theorem compile_query (pairs : List (String × String)) (table : String) :
    FormEncoding.pairs (FormEncoding.query pairs) = pairs ∧
      compile (FormEncoding.query pairs) =
        ({ dialect := postgres {} .question } : Compiler).build pairs none none
          ColumnSource.none table := by
  have hpairs := FormEncoding.pairs_query pairs
  refine ⟨hpairs, ?_⟩
  rw [compile, hpairs]
  exact Compiler.build_none _ pairs none none "" table

end WhereClause

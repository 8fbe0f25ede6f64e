/-
**Encoded queries.**

A query is a list of pairs joined by ampersands, each a key and a value joined by an equals sign.  A
plus sign is a blank, and a percent sign with two hexadecimal digits is a byte; the bytes are read
as UTF-8.

Main definitions:

* `WhereClause.FormEncoding.decode` — one side of a pair;
* `WhereClause.FormEncoding.encode` — a text as one side of a pair;
* `WhereClause.FormEncoding.pairs` — the pairs of a query;
* `WhereClause.FormEncoding.query` — pairs as a query;
* `WhereClause.compile` — the predicate of a query.
-/

import WhereClause.Compiler
import WhereClause.Dialect.Postgres

set_option autoImplicit false

namespace WhereClause

open Text

namespace FormEncoding

/-! ### Reading -/

/-- The byte that two hexadecimal digits write. -/
def hexByte? (high low : UInt8) : Option UInt8 :=
  match hexDigit? (Char.ofNat high.toNat), hexDigit? (Char.ofNat low.toNat) with
  | some h, some l => some (UInt8.ofNat (h * 16 + l))
  | _, _ => none

/-- The bytes of one side of a pair.  A percent sign without two digits stands for itself. -/
def unescape : List UInt8 → List UInt8
  | [] => []
  | b :: rest =>
      if b = 0x2B then 0x20 :: unescape rest
      else if b = 0x25 then
        match rest with
        | high :: low :: rest' =>
            match hexByte? high low with
            | some byte => byte :: unescape rest'
            | none => b :: unescape (high :: low :: rest')
        | short => b :: unescape short
      else b :: unescape rest

/-- One side of a pair. -/
def decode (side : List Char) : List Char := Utf8.decodeLossy (unescape (Utf8.encode side))

/-- The two sides of a pair; without an equals sign the second one is empty. -/
def cutPair (pair : List Char) : List Char × List Char :=
  match cutFirst? '=' pair with
  | none => (pair, [])
  | some sides => sides

/-- The pairs of a query.  Nothing between two ampersands is no pair. -/
def pairs (query : String) : List (String × String) :=
  ((splitOn '&' query.toList).filter fun pair => !pair.isEmpty).map fun pair =>
    let (key, value) := cutPair pair
    (String.ofList (decode key), String.ofList (decode value))

/-! ### Writing -/

/-- A byte that stands for itself in an encoded text. -/
def isPlain (b : UInt8) : Bool :=
  let c := Char.ofNat b.toNat
  isLetter c || isDigit c || c == '*' || c == '-' || c == '.' || c == '_'

/-- The capital hexadecimal digit of a number below sixteen. -/
def hexCapital (n : Nat) : Char := (Nat.digitChar n).toUpper

/-- The characters that write one byte. -/
def escape (b : UInt8) : List Char :=
  if isPlain b then [Char.ofNat b.toNat]
  else if b = 0x20 then ['+']
  else ['%', hexCapital (b.toNat / 16), hexCapital (b.toNat % 16)]

/-- A text as one side of a pair. -/
def encode (side : List Char) : List Char := (Utf8.encode side).flatMap escape

/-- Pairs as a query. -/
def query (pairs : List (String × String)) : String :=
  let pair := fun (p : String × String) => encode p.1.toList ++ '=' :: encode p.2.toList
  String.ofList (['&'].intercalate (pairs.map pair))

end FormEncoding

/-- The predicate of an encoded query for PostgreSQL with question marks, where no columns are
known. -/
def compile (query : String) : Except Failure Predicate :=
  let compiler : Compiler := { dialect := postgres {} .question }
  compiler.build (FormEncoding.pairs query) none none ColumnSource.none ""

end WhereClause

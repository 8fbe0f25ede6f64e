/-
**Reading JSON values.**

Arrays and objects are read with one loop each, which hands every item or member to a step as it is
met; the values of a document, the parts of a filter document and everything that is only skipped
are read with the same loops.  A value that is kept may be nested in at most 127 arrays and objects;
one that is skipped may be nested to any depth.

Main definitions:

* `WhereClause.Json.foldItems`, `WhereClause.Json.foldMembers` — the loops over items and members;
* `WhereClause.Json.readValue` — a value;
* `WhereClause.Json.skipValue` — what follows a value;
* `WhereClause.Json.mismatch` — the fault of a value of the wrong kind;
* `WhereClause.Json.readText`, `WhereClause.Json.readTexts`, `WhereClause.Json.readInt64` — values
  of one kind.
-/

import WhereClause.Json.Scan

set_option autoImplicit false

namespace WhereClause.Json

open Text

/-- The deepest nesting of a document that is kept. -/
def deepest : Nat := 127

/-- The items of an array behind its opening bracket, or behind an item if `first` is false; every
item is given to `step` with what has been gathered so far.  An item is at least one byte long, so
the number of bytes bounds the number of rounds. -/
def foldItems {σ : Type} (step : σ → List UInt8 → Except Fault (σ × List UInt8)) :
    Nat → Bool → σ → List UInt8 → Except Fault (σ × List UInt8)
  | 0, _, _, _ => .error .truncated
  | rounds + 1, first, state, bytes =>
      let item := fun (bytes : List UInt8) =>
        match step state bytes with
        | .error fault => .error fault
        | .ok (state, rest) => foldItems step rounds false state rest
      match skipSpace bytes with
      | [] => .error .truncated
      | b :: rest =>
          if b = byte ']' then .ok (state, rest)
          else if first then item (b :: rest)
          else if b = byte ',' then
            match skipSpace rest with
            | [] => .error .truncated
            | c :: rest' => if c = byte ']' then .error .malformed else item (c :: rest')
          else .error .malformed

/-- The members of an object behind its opening brace, or behind a member if `first` is false; the
name is read by `name`, and every member is given to `step` with what has been gathered so far. -/
def foldMembers {σ κ : Type} (name : List UInt8 → Except Fault (κ × List UInt8))
    (step : σ → κ → List UInt8 → Except Fault (σ × List UInt8)) :
    Nat → Bool → σ → List UInt8 → Except Fault (σ × List UInt8)
  | 0, _, _, _ => .error .truncated
  | rounds + 1, first, state, bytes =>
      let member := fun (bytes : List UInt8) =>
        match name bytes with
        | .error fault => .error fault
        | .ok (k, rest) =>
            match step state k rest with
            | .error fault => .error fault
            | .ok (state, rest) => foldMembers name step rounds false state rest
      match skipSpace bytes with
      | [] => .error .truncated
      | b :: rest =>
          if b = byte '\x7d' then .ok (state, rest)
          else if first then if b = byte '"' then member rest else .error .malformed
          else if b = byte ',' then
            match skipSpace rest with
            | [] => .error .truncated
            | c :: rest' => if c = byte '"' then member rest' else .error .malformed
          else .error .malformed

/-- The colon between the name and the value of a member. -/
def readColon (bytes : List UInt8) : Except Fault (List UInt8) :=
  match skipSpace bytes with
  | [] => .error .truncated
  | b :: rest => if b = byte ':' then .ok rest else .error .malformed

/-- A number as a value. -/
def readNumberValue (negative : Bool) (bytes : List UInt8) : Except Fault (Json × List UInt8) := do
  let (n, rest) ← readNumber negative bytes
  pure (n.toJson, rest)

/-- A word as a value. -/
def readWordValue (word : String) (value : Json) (bytes : List UInt8) :
    Except Fault (Json × List UInt8) := do
  let rest ← readWord (Utf8.encode word.toList) bytes
  pure (value, rest)

/-- A value that may be nested in `levels` arrays and objects. -/
def readValue : Nat → List UInt8 → Except Fault (Json × List UInt8)
  | levels, bytes =>
      match skipSpace bytes with
      | [] => .error .truncated
      | b :: rest =>
          if b = byte 'n' then readWordValue "ull" .null rest
          else if b = byte 't' then readWordValue "rue" (.bool true) rest
          else if b = byte 'f' then readWordValue "alse" (.bool false) rest
          else if b = byte '-' then readNumberValue true rest
          else if (digitOf? b).isSome then readNumberValue false (b :: rest)
          else if b = byte '"' then do
            let (s, rest) ← readString rest
            pure (.string s, rest)
          else if b = byte '[' then
            match levels with
            | 0 => .error .malformed
            | levels + 1 => do
                let step := fun (items : List Json) (bytes : List UInt8) => do
                  let (item, rest) ← readValue levels bytes
                  pure (item :: items, rest)
                let (items, rest) ← foldItems step (rest.length + 1) true [] rest
                pure (.array items.reverse, rest)
          else if b = byte '\x7b' then
            match levels with
            | 0 => .error .malformed
            | levels + 1 => do
                let step := fun (members : List (String × Json)) (k : String) bytes => do
                  let rest ← readColon bytes
                  let (value, rest) ← readValue levels rest
                  pure (insertMember k value members, rest)
                let (members, rest) ← foldMembers readString step (rest.length + 1) true [] rest
                pure (.object members, rest)
          else .error .malformed

/-- What follows a value of which only the extent matters.  Every level of nesting is at least one
byte long, so the number of bytes bounds the number of levels. -/
def skipNested : Nat → List UInt8 → Except Fault (List UInt8)
  | 0, _ => .error .malformed
  | levels + 1, bytes =>
      match skipSpace bytes with
      | [] => .error .truncated
      | b :: rest =>
          if b = byte 'n' then readWord (Utf8.encode "ull".toList) rest
          else if b = byte 't' then readWord (Utf8.encode "rue".toList) rest
          else if b = byte 'f' then readWord (Utf8.encode "alse".toList) rest
          else if b = byte '-' then skipNumber rest
          else if (digitOf? b).isSome then skipNumber (b :: rest)
          else if b = byte '"' then skipString rest
          else if b = byte '[' then do
            let step := fun (_ : Unit) (bytes : List UInt8) => do
              let rest ← skipNested levels bytes
              pure ((), rest)
            let ((), rest) ← foldItems step (rest.length + 1) true () rest
            pure rest
          else if b = byte '\x7b' then do
            let name := fun (bytes : List UInt8) => do
              let rest ← skipString bytes
              pure ((), rest)
            let step := fun (_ : Unit) (_ : Unit) (bytes : List UInt8) => do
              let rest ← readColon bytes
              let rest ← skipNested levels rest
              pure ((), rest)
            let ((), rest) ← foldMembers name step (rest.length + 1) true () rest
            pure rest
          else .error .malformed

/-- What follows a value of which only the extent matters. -/
def skipValue (bytes : List UInt8) : Except Fault (List UInt8) :=
  skipNested (bytes.length + 1) bytes

/-! ### Values of one kind -/

/-- The fault of a value of the wrong kind, whose first byte is given.  A word, number or string is
read to its end first, and may turn out malformed; an array or object is not read. -/
def mismatch (b : UInt8) (rest : List UInt8) : Fault :=
  let verdict {α : Type} (r : Except Fault α) : Fault :=
    match r with
    | .error fault => fault
    | .ok _ => .unexpected
  if b = byte 'n' then verdict (readWord (Utf8.encode "ull".toList) rest)
  else if b = byte 't' then verdict (readWord (Utf8.encode "rue".toList) rest)
  else if b = byte 'f' then verdict (readWord (Utf8.encode "alse".toList) rest)
  else if b = byte '-' then verdict (readNumber true rest)
  else if (digitOf? b).isSome then verdict (readNumber false (b :: rest))
  else if b = byte '"' then verdict (readString rest)
  else if b = byte '[' ∨ b = byte '\x7b' then .unexpected
  else .malformed

/-- A string. -/
def readText (bytes : List UInt8) : Except Fault (String × List UInt8) :=
  match skipSpace bytes with
  | [] => .error .truncated
  | b :: rest => if b = byte '"' then readString rest else .error (mismatch b rest)

/-- A list of strings. -/
def readTexts (bytes : List UInt8) : Except Fault (List String × List UInt8) :=
  match skipSpace bytes with
  | [] => .error .truncated
  | b :: rest =>
      if b = byte '[' then do
        let step := fun (items : List String) (bytes : List UInt8) => do
          let (item, rest) ← readText bytes
          pure (item :: items, rest)
        let (items, rest) ← foldItems step (rest.length + 1) true [] rest
        pure (items.reverse, rest)
      else .error (mismatch b rest)

/-- A whole number of 64 bits; a number with a fraction or an exponent is of another kind, and so
is negative zero. -/
def readInt64 (bytes : List UInt8) : Except Fault (Int64 × List UInt8) :=
  let accept : Numeral × List UInt8 → Except Fault (Int64 × List UInt8) := fun (n, rest) =>
    match n with
    | .natural n => if n < Nat.pow 2 63 then .ok (Int64.ofNat n, rest) else .error .unexpected
    | .negative n => .ok (Int64.ofInt (-(n : Int)), rest)
    | .real _ => .error .unexpected
  match skipSpace bytes with
  | [] => .error .truncated
  | b :: rest =>
      if b = byte '-' then readNumber true rest >>= accept
      else if (digitOf? b).isSome then readNumber false (b :: rest) >>= accept
      else .error (mismatch b rest)

/-- The members of an object, whose values may be nested in `levels` arrays and objects. -/
def readObject (levels : Nat) (bytes : List UInt8) :
    Except Fault (List (String × Json) × List UInt8) :=
  match skipSpace bytes with
  | [] => .error .truncated
  | b :: rest =>
      if b = byte '\x7b' then
        match levels with
        | 0 => .error .malformed
        | levels + 1 =>
            let step := fun (members : List (String × Json)) (k : String) (bytes : List UInt8) => do
              let rest ← readColon bytes
              let (value, rest) ← readValue levels rest
              pure (insertMember k value members, rest)
            foldMembers readString step (rest.length + 1) true [] rest
      else .error (mismatch b rest)

end WhereClause.Json

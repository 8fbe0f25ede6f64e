/-
**From tokens to values.**

A token may declare its type at its end (`5::int`).  What is left is a word for no value, a truth
value, a pair of bounds, a list, or a scalar of the declared type; without a declared type a scalar
is a string and stays as it is.

Main definitions:

* `WhereClause.splitTypeHint` — a token and the type declared at its end;
* `WhereClause.bounds?` — two non-empty bounds around a single delimiter;
* `WhereClause.castScalar`, `WhereClause.castItems` — one scalar, and a list of them;
* `WhereClause.cast` — the value of a token.
-/

import WhereClause.Failure
import WhereClause.Text.Blank
import WhereClause.Value

set_option autoImplicit false

namespace WhereClause

open Text

/-! ### Declared types -/

/-- A text that could name a type: a letter, then letters and digits, all of ASCII. -/
def isTypeWord : List Char → Bool
  | [] => false
  | c :: rest => isLetter c && rest.all fun c => isLetter c || isDigit c

/-- The type of a given name. -/
def DataType.read (name : String) : Except Failure DataType :=
  match DataType.ofName? name with
  | some type => .ok type
  | none => .error (.unknownType name)

/-- A token without the type declared at its end, and that type.  Where the text behind the last
double colon could not name a type, it belongs to the token; where it could and does not, the token
is at fault. -/
def splitTypeHint (token : List Char) : Except Failure (List Char × Option DataType) :=
  match cutLastPair? ':' token with
  | none => .ok (token, none)
  | some (value, hint) =>
      if isTypeWord hint then
        match DataType.read (String.ofList hint) with
        | .ok type => .ok (value, some type)
        | .error failure => .error failure
      else .ok (token, none)

/-! ### Scalars -/

/-- The value of a scalar of a declared type. -/
def readScalar (type : DataType) (token : List Char) : Except CastFault Value :=
  match type with
  | .string => .ok (.string (String.ofList token))
  | .int =>
      match Integer.readSigned (Nat.pow 2 31) (Nat.pow 2 31 - 1) token with
      | .ok n => .ok (.int (Int32.ofInt n))
      | .error fault => .error (.integer fault)
  | .int64 =>
      match Integer.readSigned (Nat.pow 2 63) (Nat.pow 2 63 - 1) token with
      | .ok n => .ok (.int64 (Int64.ofInt n))
      | .error fault => .error (.integer fault)
  | .float =>
      match Binary.read .single token with
      | .ok x => .ok (.float x)
      | .error fault => .error (.decimal fault)
  | .float64 =>
      match Binary.read .double token with
      | .ok x => .ok (.float64 x)
      | .error fault => .error (.decimal fault)
  | .uint | .uint64 =>
      match Integer.readUnsigned (Nat.pow 2 64 - 1) token with
      | .ok n => .ok (.uint (UInt64.ofNat n))
      | .error fault => .error (.integer fault)
  | .date =>
      match Date.read token with
      | .ok d => .ok (.date d)
      | .error fault => .error (.calendar fault)
  | .time =>
      match TimeOfDay.read token with
      | .ok t => .ok (.time t)
      | .error fault => .error (.calendar fault)
  | .dateTime =>
      match DateTime.read token with
      | .ok x => .ok (.dateTime x)
      | .error fault => .error (.calendar fault)

/-- The value of a scalar; without a declared type it is a string. -/
def castScalar (token : List Char) : Option DataType → Except Failure Value
  | none => .ok (.string (String.ofList token))
  | some type =>
      match readScalar type token with
      | .ok value => .ok value
      | .error fault => .error (.cast type (String.ofList token) fault)

/-- The values of a list of scalars; the first one that fails decides. -/
def castItems (type : Option DataType) : List (List Char) → Except Failure (List Value)
  | [] => .ok []
  | item :: items => do
      let value ← castScalar item type
      let values ← castItems type items
      pure (value :: values)

/-! ### Literals -/

/-- The two bounds of a text in which `delimiter` stands exactly once, with something on either
side of it. -/
def bounds? (delimiter : Char) (s : List Char) : Option (List Char × List Char) :=
  match splitOn delimiter s with
  | [lower, upper] => if lower.isEmpty || upper.isEmpty then none else some (lower, upper)
  | _ => none

/-- The bounds at the first of several delimiters that separates two. -/
def firstBounds? : List Char → List Char → Option (List Char × List Char)
  | [], _ => none
  | delimiter :: delimiters, s =>
      match bounds? delimiter s with
      | some bounds => some bounds
      | none => firstBounds? delimiters s

/-- What stands between brackets that enclose a token, if there is something and it holds no
brackets itself. -/
def bracketed? (token : List Char) : Option (List Char) :=
  match enclosed? '[' ']' token with
  | none => none
  | some inner =>
      if inner.isEmpty || inner.any (fun c => c == '[' || c == ']') then none else some inner

/-- The value of a token whose declared type has been split off. -/
def cast (token : List Char) (type : Option DataType) (operator : Operator)
    (delimiters : List Char) : Except Failure Value :=
  if type ≠ some .string ∧ sameLetters token "null".toList then .ok .null
  else if type = none ∧ sameLetters token "true".toList then .ok (.bool true)
  else if type = none ∧ sameLetters token "false".toList then .ok (.bool false)
  else
    match bracketed? token with
    | none => castScalar token type
    | some inner =>
        match if operator.isRange then firstBounds? delimiters inner else none with
        | some (lower, upper) => do
            let lower ← castScalar lower type
            let upper ← castScalar upper type
            pure (.range lower upper)
        | none =>
            if operator.acceptsArray then do
              let items ← castItems type (splitOn ',' inner)
              pure (.array items)
            else castScalar token type

end WhereClause

/-
**Writing JSON.**

The compact text has no blank at all; the indented one puts every item and member on a line of its
own.  In strings only the quotation mark, the backslash and the control characters below U+0020 are
escaped, and numbers that are none are written `null`.

Main definitions:

* `WhereClause.Json.escape` — the characters that write one character of a string;
* `WhereClause.Json.chars`, `WhereClause.Json.text` — the compact text;
* `WhereClause.Json.indented` — the text with one item or member a line.
-/

import WhereClause.Json.Basic
import WhereClause.Number.Style

set_option autoImplicit false

namespace WhereClause.Json

open Text

/-- The small hexadecimal digit of a number below sixteen. -/
def hexChar (n : Nat) : Char := Nat.digitChar n

/-- The characters that write one character inside a string. -/
def escape (c : Char) : List Char :=
  if c = '"' then ['\\', '"']
  else if c = '\\' then ['\\', '\\']
  else if c = '\n' then ['\\', 'n']
  else if c = '\r' then ['\\', 'r']
  else if c = '\t' then ['\\', 't']
  else if c = '\x08' then ['\\', 'b']
  else if c = '\x0c' then ['\\', 'f']
  else if c.toNat < 32 then ['\\', 'u', '0', '0', hexChar (c.toNat / 16), hexChar (c.toNat % 16)]
  else [c]

/-- A string in quotation marks. -/
def quoted (s : String) : List Char := '"' :: (s.toList.flatMap escape ++ ['"'])

/-! ### The compact text -/

mutual

/-- The compact text of a value. -/
def chars : Json → List Char
  | null => "null".toList
  | bool true => "true".toList
  | bool false => "false".toList
  | integer n => (decimalInt n).toList
  | single x => (x.text (.document .single)).toList
  | double x => (x.text (.document .double)).toList
  | string s => quoted s
  | array [] => ['[', ']']
  | array (item :: items) => '[' :: (chars item ++ itemChars items)
  | object [] => ['\x7b', '\x7d']
  | object ((name, value) :: members) =>
      '\x7b' :: (quoted name ++ ':' :: (chars value ++ memberChars members))

/-- The items after the first one, and the bracket that closes the array. -/
def itemChars : List Json → List Char
  | [] => [']']
  | item :: items => ',' :: (chars item ++ itemChars items)

/-- The members after the first one, and the brace that closes the object. -/
def memberChars : List (String × Json) → List Char
  | [] => ['\x7d']
  | (name, value) :: members => ',' :: (quoted name ++ ':' :: (chars value ++ memberChars members))

end

/-- The compact text of a value. -/
def text (j : Json) : String := String.ofList (chars j)

/-! ### The indented text -/

/-- A new line at a depth of nesting, two blanks a level. -/
def newLine (depth : Nat) : String := "\n" ++ String.ofList (List.replicate (2 * depth) ' ')

mutual

/-- The text of a value at a depth of nesting, with its items and members one level deeper. -/
def indentedAt (depth : Nat) : Json → String
  | array [] => "[]"
  | array (item :: items) =>
      "[" ++ newLine (depth + 1) ++ indentedAt (depth + 1) item ++ indentedItems depth items
  | object [] => "\x7b\x7d"
  | object ((name, value) :: members) =>
      "\x7b" ++ newLine (depth + 1) ++ String.ofList (quoted name) ++ ": " ++
        indentedAt (depth + 1) value ++ indentedMembers depth members
  | null => text null
  | bool b => text (bool b)
  | integer n => text (integer n)
  | single x => text (single x)
  | double x => text (double x)
  | string s => text (string s)

/-- The items after the first one, and the bracket that closes the array. -/
def indentedItems (depth : Nat) : List Json → String
  | [] => newLine depth ++ "]"
  | item :: items =>
      "," ++ newLine (depth + 1) ++ indentedAt (depth + 1) item ++ indentedItems depth items

/-- The members after the first one, and the brace that closes the object. -/
def indentedMembers (depth : Nat) : List (String × Json) → String
  | [] => newLine depth ++ "\x7d"
  | (name, value) :: members =>
      "," ++ newLine (depth + 1) ++ String.ofList (quoted name) ++ ": " ++
        indentedAt (depth + 1) value ++ indentedMembers depth members

end

/-- The text of a value with one item or member a line. -/
def indented (j : Json) : String := indentedAt 0 j

end WhereClause.Json

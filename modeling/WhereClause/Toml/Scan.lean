/-
**The pieces of a TOML document.**

Blanks, comments, line ends, keys and the four kinds of strings.  A string in three quotes runs over
several lines and may hold up to two of its quotes in a row, also directly before the closing ones.

Main definitions:

* `WhereClause.Toml.skipBlanks`, `WhereClause.Toml.skipLines`, `WhereClause.Toml.readLineEnd` — what
  stands between the pieces;
* `WhereClause.Toml.readBasic`, `WhereClause.Toml.readLiteral` — strings on one line;
* `WhereClause.Toml.readBasicLines`, `WhereClause.Toml.readLiteralLines` — strings on several lines;
* `WhereClause.Toml.readString` — a string of any kind;
* `WhereClause.Toml.readKey` — a dotted key.
-/

import WhereClause.Text.Ascii

set_option autoImplicit false

namespace WhereClause.Toml

open Text

/-! ### Blanks, comments and line ends -/

/-- A blank inside a line. -/
def isBlank (c : Char) : Bool := c == ' ' || c == '\t'

/-- A character that may stand in a comment or a string: no control character but the tabulator. -/
def isTextChar (c : Char) : Bool := c == '\t' || (' ' ≤ c && c != '\x7f')

/-- The text from the first character that is no blank. -/
def skipBlanks (s : List Char) : List Char := s.dropWhile isBlank

/-- What follows the end of a line. -/
def readNewline : List Char → Option (List Char)
  | '\n' :: rest => some rest
  | '\r' :: '\n' :: rest => some rest
  | _ => none

/-- What follows the rest of a line that holds nothing but blanks and a comment. -/
def readLineEnd (s : List Char) : Option (List Char) :=
  let s := match skipBlanks s with
    | '#' :: rest => rest.dropWhile isTextChar
    | other => other
  match s with
  | [] => some []
  | _ => readNewline s

/-- The text from the first character that is no blank, line end or part of a comment; `comment`
says whether the text begins inside a comment. -/
def skipLines (comment : Bool) : List Char → List Char
  | [] => []
  | c :: rest =>
      if c = '\n' then skipLines false rest
      else if c = '\r' ∧ rest.head? = some '\n' then skipLines comment rest
      else if comment then if isTextChar c then skipLines true rest else c :: rest
      else if isBlank c then skipLines false rest
      else if c = '#' then skipLines true rest
      else c :: rest

/-! ### Strings -/

/-- The character with a given number, if there is one. -/
def charOf? (n : Nat) : Option Char := if h : n.isValidChar then some (Char.ofNatAux n h) else none

/-- The character that hexadecimal digits write. -/
def hexChar? (digits : List Char) : Option Char :=
  match digits.mapM hexDigit? with
  | none => none
  | some ds => charOf? (ds.foldl (fun n d => n * 16 + d) 0)

/-- The character that a one-letter escape stands for. -/
def escaped? (c : Char) : Option Char :=
  if c = 'b' then some '\x08'
  else if c = 't' then some '\t'
  else if c = 'n' then some '\n'
  else if c = 'f' then some '\x0c'
  else if c = 'r' then some '\r'
  else if c = '"' then some '"'
  else if c = '\\' then some '\\'
  else none

/-- Put a character in front of what is read. -/
def prepend? (c : Option Char) (s : Option (List Char × List Char)) :
    Option (List Char × List Char) :=
  match c, s with
  | some c, some (content, rest) => some (c :: content, rest)
  | _, _ => none

/-- A string behind its opening quotation mark. -/
def readBasic : List Char → Option (List Char × List Char)
  | [] => none
  | c :: rest =>
      if c = '"' then some ([], rest)
      else if c = '\\' then
        match rest with
        | 'u' :: a :: b :: c :: d :: rest => prepend? (hexChar? [a, b, c, d]) (readBasic rest)
        | 'U' :: a :: b :: c :: d :: e :: f :: g :: h :: rest =>
            prepend? (hexChar? [a, b, c, d, e, f, g, h]) (readBasic rest)
        | e :: rest => prepend? (escaped? e) (readBasic rest)
        | [] => none
      else if isTextChar c then prepend? (some c) (readBasic rest)
      else none

/-- A string behind its opening apostrophe; it knows no escapes. -/
def readLiteral : List Char → Option (List Char × List Char)
  | [] => none
  | c :: rest =>
      if c = '\'' then some ([], rest)
      else if isTextChar c then prepend? (some c) (readLiteral rest)
      else none

/-- The end of a string behind three closing quotes: up to two more of them belong to it. -/
def closeLines (quote : Char) : List Char → List Char × List Char
  | c :: d :: rest =>
      if c = quote then if d = quote then ([quote, quote], rest) else ([quote], d :: rest)
      else ([], c :: d :: rest)
  | [c] => if c = quote then ([quote], []) else ([], [c])
  | [] => ([], [])

/-- A string on several lines behind its opening marks.  A backslash at the end of a line takes away
the line end and all blanks behind it; `joining` says whether the text begins among those. -/
def readBasicLines (joining : Bool) : List Char → Option (List Char × List Char)
  | [] => none
  | c :: rest =>
      if joining && (isBlank c || c == '\n' || (c == '\r' && rest.head? == some '\n')) then
        readBasicLines true rest
      else if c = '"' then
        match rest with
        | '"' :: '"' :: after => some (closeLines '"' after)
        | _ => prepend? (some '"') (readBasicLines false rest)
      else if c = '\\' then
        if (readNewline (skipBlanks rest)).isSome then readBasicLines true rest
        else
          match rest with
          | 'u' :: a :: b :: c :: d :: rest =>
              prepend? (hexChar? [a, b, c, d]) (readBasicLines false rest)
          | 'U' :: a :: b :: c :: d :: e :: f :: g :: h :: rest =>
              prepend? (hexChar? [a, b, c, d, e, f, g, h]) (readBasicLines false rest)
          | e :: rest => prepend? (escaped? e) (readBasicLines false rest)
          | [] => none
      else if c = '\r' ∧ rest.head? = some '\n' then readBasicLines false rest
      else if c = '\n' ∨ isTextChar c then prepend? (some c) (readBasicLines false rest)
      else none

/-- A string on several lines behind its opening apostrophes; it knows no escapes. -/
def readLiteralLines : List Char → Option (List Char × List Char)
  | [] => none
  | c :: rest =>
      if c = '\'' then
        match rest with
        | '\'' :: '\'' :: after => some (closeLines '\'' after)
        | _ => prepend? (some '\'') (readLiteralLines rest)
      else if c = '\r' ∧ rest.head? = some '\n' then readLiteralLines rest
      else if c = '\n' ∨ isTextChar c then prepend? (some c) (readLiteralLines rest)
      else none

/-- The text without a line end at its beginning. -/
def skipNewline (s : List Char) : List Char := (readNewline s).getD s

/-- A string of any kind. -/
def readString : List Char → Option (List Char × List Char)
  | '"' :: '"' :: '"' :: rest => readBasicLines false (skipNewline rest)
  | '"' :: rest => readBasic rest
  | '\'' :: '\'' :: '\'' :: rest => readLiteralLines (skipNewline rest)
  | '\'' :: rest => readLiteral rest
  | _ => none

/-! ### Keys -/

/-- A character of a key without quotes. -/
def isBareChar (c : Char) : Bool := isLetter c || isDigit c || c == '_' || c == '-'

/-- A part of a dotted key. -/
def readPart : List Char → Option (List Char × List Char)
  | '"' :: rest => readBasic rest
  | '\'' :: rest => readLiteral rest
  | s =>
      let bare := s.takeWhile isBareChar
      if bare.isEmpty then none else some (bare, s.dropWhile isBareChar)

/-- The parts of a dotted key, with the blanks around each of them; at most `parts` many. -/
def readParts : Nat → List Char → Option (List String × List Char)
  | 0, _ => none
  | parts + 1, s =>
      match readPart (skipBlanks s) with
      | none => none
      | some (part, rest) =>
          match skipBlanks rest with
          | '.' :: rest =>
              (readParts parts rest).map fun (key, rest) => (String.ofList part :: key, rest)
          | rest => some ([String.ofList part], rest)

/-- The most parts of a dotted key. -/
def mostParts : Nat := 79

/-- A dotted key: the path to a table and the key in it. -/
def readKey (s : List Char) : Option ((List String × String) × List Char) :=
  match readParts mostParts s with
  | none => none
  | some (parts, rest) => (parts.getLast?).map fun key => ((parts.dropLast, key), rest)

end WhereClause.Toml

/-
**Reading TOML documents.**

Every line is a key with its value, a header, or holds nothing but blanks and a comment.  What a
line says is put into the table of the header before it.

Main definitions:

* `WhereClause.Toml.readValue` — a value, nested in a bounded number of arrays and tables;
* `WhereClause.Toml.Draft` — what has been read, and the table that lines add to;
* `WhereClause.Toml.readLine` — one line;
* `WhereClause.Toml.read` — the table of a document.
-/

import WhereClause.Toml.Scalar
import WhereClause.Toml.Scan

set_option autoImplicit false

namespace WhereClause.Toml

open Text

/-! ### Values -/

/-- The items of an array behind its opening bracket or a comma.  An item is at least one character
long, so the number of characters bounds the number of rounds. -/
def readItems (value : List Char → Option (Toml × List Char)) :
    Nat → List Char → Option (List Toml × List Char)
  | 0, _ => none
  | rounds + 1, s =>
      match skipLines false s with
      | [] => none
      | c :: rest =>
          if c = ']' then some ([], rest)
          else
            match value (c :: rest) with
            | none => none
            | some (item, rest) =>
                match skipLines false rest with
                | ',' :: rest =>
                    (readItems value rounds rest).map fun (items, rest) => (item :: items, rest)
                | ']' :: rest => some ([item], rest)
                | _ => none

/-- A key with its value: the path to a table, the key in it, and the value. -/
def readPair (value : List Char → Option (Toml × List Char)) (s : List Char) :
    Option ((List String × String × Toml) × List Char) :=
  match readKey s with
  | some ((path, key), '=' :: rest) =>
      (value (skipBlanks rest)).map fun (v, rest) => ((path, key, v), rest)
  | _ => none

/-- The pairs of a table on one line, behind its opening brace or a comma, put into its entries. -/
def readPairs (value : List Char → Option (Toml × List Char)) :
    Nat → Entries → List Char → Option (Entries × List Char)
  | 0, _, _ => none
  | rounds + 1, entries, s =>
      match readPair value s with
      | none => none
      | some ((path, key, v), rest) =>
          match setValue path key v entries with
          | none => none
          | some entries =>
              match skipBlanks rest with
              | ',' :: rest => readPairs value rounds entries rest
              | '\x7d' :: rest => some (entries, rest)
              | _ => none

/-- A value that may be nested in `levels` arrays and tables. -/
def readValue : Nat → List Char → Option (Toml × List Char)
  | _, [] => none
  | levels, c :: rest =>
      if c = '"' ∨ c = '\'' then
        (readString (c :: rest)).map fun (s, rest) => (.string (String.ofList s), rest)
      else if c = '[' then
        match levels with
        | 0 => none
        | levels + 1 =>
            (readItems (readValue levels) (rest.length + 1) rest).map fun (items, rest) =>
              (.array items, rest)
      else if c = '\x7b' then
        match levels with
        | 0 => none
        | levels + 1 =>
            match skipBlanks rest with
            | '\x7d' :: rest => some (.table [], rest)
            | rest =>
                (readPairs (readValue levels) (rest.length + 1) [] rest).map fun (entries, rest) =>
                  (.table (finishAll entries), rest)
      else readBare (c :: rest)

/-- The deepest nesting of a value. -/
def deepest : Nat := 79

/-! ### Lines -/

/-- What has been read of a document. -/
structure Draft where
  entries : Entries := []
  /-- The path of the table that lines add to. -/
  target : List String := []

/-- Put a pair into the table of the last header. -/
def Draft.put (d : Draft) (path : List String) (key : String) (v : Toml) : Option Draft :=
  (within false (fun _ entries => setValue path key v entries) d.target .stated d.entries).map
    fun entries => { d with entries := entries }

/-- Begin the table of a header. -/
def Draft.enter (d : Draft) (ofList : Bool) (path : List String) (key : String) : Option Draft :=
  let entries := if ofList then openItem path key d.entries else openTable path key d.entries
  entries.map fun entries => { entries := entries, target := path ++ [key] }

/-- The key of a header behind its opening bracket, and what follows its line. -/
def readHeader (ofList : Bool) (s : List Char) : Option ((List String × String) × List Char) :=
  match readKey s with
  | none => none
  | some (key, rest) =>
      let rest := match ofList, rest with
        | false, ']' :: rest => some rest
        | true, ']' :: ']' :: rest => some rest
        | _, _ => none
      (rest.bind readLineEnd).map fun rest => (key, rest)

/-- One line, which begins with a character that is no blank. -/
def readLine (d : Draft) (s : List Char) : Option (Draft × List Char) :=
  match s with
  | '#' :: _ => (readLineEnd s).map fun rest => (d, rest)
  | '\n' :: rest => some (d, rest)
  | '\r' :: _ => (readNewline s).map fun rest => (d, rest)
  | '[' :: '[' :: rest =>
      match readHeader true rest with
      | none => none
      | some ((path, key), rest) => (d.enter true path key).map fun d => (d, rest)
  | '[' :: rest =>
      match readHeader false rest with
      | none => none
      | some ((path, key), rest) => (d.enter false path key).map fun d => (d, rest)
  | _ =>
      match readPair (readValue deepest) s with
      | none => none
      | some ((path, key, v), rest) =>
          match d.put path key v, readLineEnd rest with
          | some d, some rest => some (d, rest)
          | _, _ => none

/-- All lines.  A line is at least one character long, so the number of characters bounds the number
of rounds. -/
def readAll : Nat → Draft → List Char → Option Draft
  | 0, _, _ => none
  | rounds + 1, d, s =>
      match skipBlanks s with
      | [] => some d
      | c :: rest =>
          match readLine d (c :: rest) with
          | none => none
          | some (d, rest) => readAll rounds d rest

/-- The table of a document.  A byte-order mark at its beginning does not count. -/
def read (document : String) : Option (List (String × Toml)) :=
  let s := match document.toList with
    | '\ufeff' :: rest => rest
    | s => s
  (readAll (s.length + 1) {} s).map fun d => finishAll d.entries

end WhereClause.Toml

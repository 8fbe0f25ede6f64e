/-
**TOML documents and the rules for their tables.**

The lines of a document build one table.  A table may be given by a header, by a dotted key, or only
by being on the way to another one, and where it comes from decides what may still be added to it:
a table is given by a header once, and dotted keys add only to tables that dotted keys made.

Main definitions:

* `WhereClause.Toml` — the values of a finished document;
* `WhereClause.Toml.Node`, `WhereClause.Toml.Origin` — a document while it is read;
* `WhereClause.Toml.within` — a change of the table that a path leads to;
* `WhereClause.Toml.setValue`, `WhereClause.Toml.openTable`, `WhereClause.Toml.openItem` — what a
  line with a key, a header and a header of a list do.
-/

import WhereClause.Number.Binary

set_option autoImplicit false

namespace WhereClause

/-- A value of a document. -/
inductive Toml where
  | string (s : String)
  | boolean (b : Bool)
  | integer (n : Int)
  | float (x : Binary .double)
  /-- A date, a time or both, as it is written. -/
  | moment (text : String)
  | array (items : List Toml)
  | table (entries : List (String × Toml))
deriving Repr, Inhabited

namespace Toml

/-- Where a table comes from. -/
inductive Origin where
  /-- From a header of its own. -/
  | stated
  /-- From the header of a table inside it. -/
  | implied
  /-- From a dotted key. -/
  | dotted
deriving DecidableEq, Repr

/-- An entry of a table while the document is read. -/
inductive Node where
  /-- A finished value. -/
  | value (v : Toml)
  | table (origin : Origin) (entries : List (String × Node))
  /-- A list of tables: the last one, to which lines may add, and the finished ones before it, the
  newest first. -/
  | tables (last : List (String × Node)) (finished : List Toml)
deriving Inhabited

/-- The entries of a table while the document is read. -/
abbrev Entries := List (String × Node)

mutual

/-- An entry as a finished value. -/
def finish : Node → Toml
  | .value v => v
  | .table _ entries => .table (finishAll entries)
  | .tables last finished => .array (finished.reverse ++ [.table (finishAll last)])

/-- The entries of a table as finished values. -/
def finishAll : Entries → List (String × Toml)
  | [] => []
  | (key, node) :: rest => (key, finish node) :: finishAll rest

end

/-- Change the entry of a key, or make one; `none` where that is not allowed. -/
def update (key : String) (change : Option Node → Option Node) : Entries → Option Entries
  | [] => (change none).map fun node => [(key, node)]
  | (other, node) :: rest =>
      if other = key then (change (some node)).map fun node => (key, node) :: rest
      else (update key change rest).map fun rest => (other, node) :: rest

/-- Change the table that a path leads to.  Tables that are missing on the way are made; a dotted
key may not lead through a table that has a header of its own. -/
def within (dotted : Bool) (change : Origin → Entries → Option Entries) :
    List String → Origin → Entries → Option Entries
  | [], origin, entries => change origin entries
  | key :: path, _, entries =>
      let made : Origin := if dotted then .dotted else .implied
      update key
        (fun node =>
          match node with
          | none => (within dotted change path made []).map (Node.table made)
          | some (.value _) => none
          | some (.table origin inner) =>
              if dotted && origin == .stated then none
              else (within dotted change path origin inner).map (Node.table origin)
          | some (.tables last finished) =>
              (within dotted change path .stated last).map fun last => Node.tables last finished)
        entries

/-- Set the value of a key behind a dotted path.  The path may lead only to a table that dotted keys
made, and the key must be new. -/
def setValue (path : List String) (key : String) (v : Toml) (entries : Entries) : Option Entries :=
  let put := fun (origin : Origin) (entries : Entries) =>
    if (origin == .dotted) == path.isEmpty then none
    else
      update key
        (fun node =>
          match node with
          | none => some (.value v)
          | some _ => none)
        entries
  within true put path .stated entries

/-- Give a table a header of its own. -/
def openTable (path : List String) (key : String) (entries : Entries) : Option Entries :=
  let put := fun (_ : Origin) (entries : Entries) =>
    update key
      (fun node =>
        match node with
        | none => some (.table .stated [])
        | some (.table .implied inner) => some (.table .stated inner)
        | some _ => none)
      entries
  within false put path .stated entries

/-- Begin a new table of a list of tables. -/
def openItem (path : List String) (key : String) (entries : Entries) : Option Entries :=
  let put := fun (_ : Origin) (entries : Entries) =>
    update key
      (fun node =>
        match node with
        | none => some (.tables [] [])
        | some (.tables last finished) => some (.tables [] (.table (finishAll last) :: finished))
        | some _ => none)
      entries
  within false put path .stated entries

end Toml

end WhereClause

/-
**Settings.**

A configuration document names the dialect, the placeholders, the reserved keys, the column of the
identifier, and where the columns of a table can be looked up.  What it does not name has a default,
and what it names besides does not matter.

Main definitions:

* `WhereClause.Settings` — the settings, with their defaults;
* `WhereClause.Settings.ofTable?` — the settings of a document;
* `WhereClause.Settings.read` — the settings of the text of a document;
* `WhereClause.Settings.build` — the dialect that is set.
-/

import WhereClause.Dialect.Kind
import WhereClause.Toml.Reader

set_option autoImplicit false

namespace WhereClause

/-- What can be set. -/
structure Settings where
  dialect : DialectKind := .postgres
  placeholder : PlaceholderStyle := .question
  /-- The column that the identifier of a request is compared with. -/
  idField : String := "id"
  reserved : ReservedKeys := {}
  /-- Where the columns of a table can be looked up. -/
  databaseUrl : Option String := none
  /-- The table whose columns are looked up. -/
  table : Option String := none
deriving DecidableEq, Repr, Inhabited

namespace Settings

/-! ### Values of a document -/

/-- The text of a string. -/
def text? : Toml → Option String
  | .string s => some s
  | _ => none

/-- The name of a choice: a string, or a table whose only entry is empty. -/
def choice? : Toml → Option String
  | .string s => some s
  | .table [(name, .table [])] => some name
  | .table [(name, .array [])] => some name
  | _ => none

/-- The value of a key, or a default if there is none; `none` if the value cannot be read. -/
def entry? {α : Type} (entries : List (String × Toml)) (key : String) (read : Toml → Option α)
    (absent : α) : Option α :=
  match entries.lookup key with
  | none => some absent
  | some v => read v

/-- The text at a place of a list, or a default if the list is shorter. -/
def item? (items : List Toml) (place : Nat) (absent : String) : Option String :=
  match items[place]? with
  | none => some absent
  | some v => text? v

/-- Reserved keys: a table, or a list of them in order.  A date or a time counts as a table in
which none of them is named. -/
def reserved? : Toml → Option ReservedKeys
  | .table entries => do
      let base : ReservedKeys := {}
      let orMarker ← entry? entries "or_prefix" text? base.orMarker
      let wildcard ← entry? entries "wildcard" text? base.wildcard
      let extra ← entry? entries "extra" text? base.extra
      let filter ← entry? entries "filter" text? base.filter
      pure { orMarker := orMarker, wildcard := wildcard, extra := extra, filter := filter }
  | .array items => do
      let base : ReservedKeys := {}
      let orMarker ← item? items 0 base.orMarker
      let wildcard ← item? items 1 base.wildcard
      let extra ← item? items 2 base.extra
      let filter ← item? items 3 base.filter
      pure { orMarker := orMarker, wildcard := wildcard, extra := extra, filter := filter }
  | .moment _ => some {}
  | _ => none

/-- Where columns can be looked up: a table with a location, or a list that begins with it.  A date
or a time counts as a table without one. -/
def database? : Toml → Option (Option String)
  | .table entries => entry? entries "url" (fun v => (text? v).map some) none
  | .array [] => some none
  | .array (v :: _) => (text? v).map some
  | .moment _ => some none
  | _ => none

/-! ### Documents -/

/-- The settings of a document; `none` if something that matters cannot be read. -/
def ofTable? (entries : List (String × Toml)) : Option Settings := do
  let dialect ← entry? entries "dialect" (fun v => (choice? v).bind DialectKind.ofName?) .postgres
  let placeholder ←
    entry? entries "placeholder" (fun v => (choice? v).bind PlaceholderStyle.ofName?) .question
  let idField ← entry? entries "id_field" text? "id"
  let reserved ← entry? entries "reserved" reserved? {}
  let databaseUrl ← entry? entries "database" database? none
  let table ← entry? entries "table" (fun v => (text? v).map some) none
  pure
    { dialect := dialect, placeholder := placeholder, idField := idField, reserved := reserved,
      databaseUrl := databaseUrl, table := table }

/-- The settings of the text of a document. -/
def read (document : String) : Except Failure Settings :=
  match (Toml.read document).bind ofTable? with
  | some settings => .ok settings
  | none => .error (.settings .unreadable)

/-- The settings of a file that was asked for, if it exists. -/
def load : Option String → Except Failure Settings
  | none => .error .missingFile
  | some document => read document

/-- The settings of the first file that exists; the defaults, if none does. -/
def find : List (Option String) → Except Failure Settings
  | [] => .ok {}
  | some document :: _ => read document
  | none :: rest => find rest

/-- The dialect that is set. -/
def build (s : Settings) : Except Failure Dialect := s.dialect.build s.reserved s.placeholder

end Settings

end WhereClause

/-
**Arguments of the command line.**

An argument is an option, one or several one-letter options behind one dash, the value of the option
before it, the name of a command, or the query.  Options that hold one value may come once for each
command; behind two dashes everything is a query.

Main definitions:

* `WhereClause.Flag`, `WhereClause.Level` — the options, and which of them a command knows;
* `WhereClause.Arguments` — what the arguments ask for;
* `WhereClause.Arguments.read` — the arguments in order.
-/

import WhereClause.Dialect.Kind
import WhereClause.Text.Split

set_option autoImplicit false

namespace WhereClause

open Text

/-! ### Options -/

/-- The options of the command line. -/
inductive Flag where
  | param
  | id
  | filter
  | columns
  | table
  | databaseUrl
  | format
  | dialect
  | placeholder
  | config
  | verbose
  | help
  | version
deriving DecidableEq, Repr

/-- Whether a value follows an option. -/
def Flag.takesValue : Flag → Bool
  | .verbose => false
  | .help => false
  | .version => false
  | _ => true

/-- Whether an option may come more than once. -/
def Flag.isRepeatable : Flag → Bool
  | .param => true
  | .columns => true
  | _ => false

/-- The option behind one dash with a given letter. -/
def Flag.ofLetter? : Char → Option Flag
  | 'p' => some .param
  | 'f' => some .format
  | 'd' => some .dialect
  | 'c' => some .config
  | 'v' => some .verbose
  | 'h' => some .help
  | 'V' => some .version
  | _ => none

/-- The option behind two dashes with a given name. -/
def Flag.ofName? : String → Option Flag
  | "param" => some .param
  | "id" => some .id
  | "filter" => some .filter
  | "columns" => some .columns
  | "table" => some .table
  | "database-url" => some .databaseUrl
  | "format" => some .format
  | "dialect" => some .dialect
  | "placeholder" => some .placeholder
  | "config" => some .config
  | "verbose" => some .verbose
  | "help" => some .help
  | "version" => some .version
  | _ => none

/-- Where in the arguments an option stands. -/
inductive Level where
  /-- Before any command. -/
  | main
  /-- Behind the command that explains a query. -/
  | explain
  /-- Behind the command that lists the operators. -/
  | operators
deriving DecidableEq, Repr

/-- Whether a command knows an option. -/
def Level.knows : Level → Flag → Bool
  | _, .dialect => true
  | _, .placeholder => true
  | _, .config => true
  | _, .verbose => true
  | _, .help => true
  | .main, _ => true
  | .explain, .param => true
  | _, _ => false

/-- The command of a given name. -/
def Level.ofName? : String → Option Level
  | "explain" => some .explain
  | "operators" => some .operators
  | _ => none

/-! ### Requests -/

/-- How a predicate is shown. -/
inductive OutputFormat where
  | text
  | json
deriving DecidableEq, Repr

/-- The format of a given name. -/
def OutputFormat.ofName? : String → Option OutputFormat
  | "text" => some .text
  | "json" => some .json
  | _ => none

/-- What the arguments ask for. -/
structure Arguments where
  /-- The command; the main level compiles a query. -/
  level : Level := .main
  query : Option String := none
  /-- The pairs that are given one by one. -/
  params : List String := []
  id : Option String := none
  filter : Option String := none
  columns : List String := []
  table : Option String := none
  databaseUrl : Option String := none
  format : OutputFormat := .text
  dialect : Option DialectKind := none
  placeholder : Option PlaceholderStyle := none
  config : Option String := none
  verbose : Bool := false
  /-- The options that have come for this command and may not come again. -/
  seen : List Flag := []
deriving Repr

/-- Why no request is made. -/
inductive Stop where
  /-- The arguments make no sense. -/
  | rejected
  /-- They ask for help. -/
  | help
  /-- They ask for the version. -/
  | version
deriving DecidableEq, Repr

namespace Arguments

/-! ### Reading -/

/-- Take the value of an option. -/
def setValue (a : Arguments) (flag : Flag) (value : String) : Option Arguments :=
  match flag with
  | .param => some { a with params := a.params ++ [value] }
  | .id => some { a with id := some value }
  | .filter => some { a with filter := some value }
  | .columns =>
      some { a with columns := a.columns ++ (splitOn ',' value.toList).map String.ofList }
  | .table => some { a with table := some value }
  | .databaseUrl => some { a with databaseUrl := some value }
  | .format => (OutputFormat.ofName? value).map fun format => { a with format := format }
  | .dialect => (DialectKind.read value).toOption.map fun kind => { a with dialect := some kind }
  | .placeholder =>
      (PlaceholderStyle.ofName? value).map fun style => { a with placeholder := some style }
  | .config => if value.isEmpty then none else some { a with config := some value }
  | .verbose => some { a with verbose := true }
  | .help => none
  | .version => none

/-- Take an option with its value; the value of one that has none is not looked at. -/
def take (a : Arguments) (flag : Flag) (value : String) : Except Stop Arguments :=
  match flag with
  | .help => .error .help
  | .version => .error .version
  | _ =>
      if a.seen.contains flag then .error .rejected
      else
        match a.setValue flag value with
        | none => .error .rejected
        | some a => .ok (if flag.isRepeatable then a else { a with seen := flag :: a.seen })

/-- Take a text that is no option: the query, where a query can stand and none has come. -/
def takeQuery (a : Arguments) (text : String) : Except Stop Arguments :=
  if a.level = .operators ∨ a.query.isSome then .error .rejected
  else .ok { a with query := some text }

/-- Go on behind a command, which has a query and pairs of its own. -/
def enter (a : Arguments) (level : Level) : Arguments :=
  { a with level := level, query := none, params := [], seen := [] }

/-- Take the options behind one dash, and give the one whose value is still to come.  What follows
an option that takes a value is its value, with or without an equals sign. -/
def takeLetters (a : Arguments) : List Char → Except Stop (Arguments × Option Flag)
  | [] => .ok (a, none)
  | c :: rest =>
      match Flag.ofLetter? c with
      | none => .error .rejected
      | some flag =>
          if !a.level.knows flag then .error .rejected
          else if flag.takesValue then
            match rest with
            | [] => .ok (a, some flag)
            | '=' :: value => (a.take flag (String.ofList value)).map fun a => (a, none)
            | value => (a.take flag (String.ofList value)).map fun a => (a, none)
          else
            match a.take flag "" with
            | .error stop => .error stop
            | .ok a => a.takeLetters rest

/-- Take the option behind two dashes, and give it back if its value is still to come. -/
def takeName (a : Arguments) (text : List Char) : Except Stop (Arguments × Option Flag) :=
  let (name, value) := match cutFirst? '=' text with
    | none => (text, none)
    | some (name, value) => (name, some (String.ofList value))
  match Flag.ofName? (String.ofList name), value with
  | none, _ => .error .rejected
  | some flag, none =>
      if !a.level.knows flag then .error .rejected
      else if flag.takesValue then .ok (a, some flag)
      else (a.take flag "").map fun a => (a, none)
  | some flag, some value =>
      if a.level.knows flag && flag.takesValue then (a.take flag value).map fun a => (a, none)
      else .error .rejected

/-- What comes of asking for help by a word, with what follows it: the name of one command, which may
be the same word, or nothing. -/
def helpOn : List String → Stop
  | [] => .help
  | [name] => if name = "help" ∨ (Level.ofName? name).isSome then .help else .rejected
  | _ => .rejected

/-- Take arguments in order.  `awaiting` is the option whose value is still to come, and `plain`
says whether two dashes have come. -/
def readFrom (a : Arguments) (awaiting : Option Flag) (plain : Bool) :
    List String → Except Stop Arguments
  | [] =>
      match awaiting with
      | none => .ok a
      | some _ => .error .rejected
  | arg :: rest =>
      if plain then
        match a.takeQuery arg with
        | .error stop => .error stop
        | .ok a => a.readFrom none true rest
      else
        match awaiting, arg.toList with
        | some flag, s =>
            if s.head? = some '-' ∧ s.length ≠ 1 then .error .rejected
            else
              match a.take flag arg with
              | .error stop => .error stop
              | .ok a => a.readFrom none false rest
        | none, ['-', '-'] => a.readFrom none true rest
        | none, '-' :: '-' :: text =>
            match a.takeName text with
            | .error stop => .error stop
            | .ok (a, awaiting) => a.readFrom awaiting false rest
        | none, '-' :: c :: letters =>
            match a.takeLetters (c :: letters) with
            | .error stop => .error stop
            | .ok (a, awaiting) => a.readFrom awaiting false rest
        | none, _ =>
            if a.level = .main then
              match Level.ofName? arg with
              | some level => (a.enter level).readFrom none false rest
              | none =>
                  if arg = "help" then .error (helpOn rest)
                  else
                    match a.takeQuery arg with
                    | .error stop => .error stop
                    | .ok a => a.readFrom none false rest
            else
              match a.takeQuery arg with
              | .error stop => .error stop
              | .ok a => a.readFrom none false rest

/-- What the arguments ask for. -/
def read (args : List String) : Except Stop Arguments := readFrom {} none false args

end Arguments

end WhereClause

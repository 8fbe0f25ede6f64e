/-
**Running the command line.**

What a run writes and the code it ends with follow from its arguments and a description of its
surroundings.

Main definitions:

* `WhereClause.CommandLine.Environment` — the surroundings;
* `WhereClause.CommandLine.Outcome` — what a run writes, and its code;
* `WhereClause.CommandLine.compile`, `WhereClause.CommandLine.explain` — the commands;
* `WhereClause.CommandLine.run` — a run.
-/

import WhereClause.CommandLine.Arguments
import WhereClause.CommandLine.Explain
import WhereClause.FormEncoding
import WhereClause.Settings

set_option autoImplicit false

namespace WhereClause.CommandLine

open Text

/-- The surroundings of a run. -/
structure Environment where
  /-- The contents of a file, if it exists. -/
  file : String → Option String
  /-- The file with the settings of the user. -/
  userConfig : Option String := none
  /-- Where columns are looked up, unless the arguments say so. -/
  databaseUrl : Option String := none
  /-- The columns that are known at a location; unless they are given, no location is one. -/
  columnsAt : String → ColumnSource := fun _ _ =>
    .error (.schemaLookup "database" "error with configuration: relative URL without a base")
  /-- Whether colours are written. -/
  colored : Bool := false

/-- What a run writes, and the code it ends with. -/
structure Outcome where
  code : Nat := 0
  output : String := ""
  errors : String := ""
deriving Repr

/-- Why a run fails. -/
inductive Fault where
  /-- The request fails. -/
  | request (failure : Failure)
  /-- The settings cannot be read. -/
  | configuration (failure : Failure)
  /-- An argument that should be a pair has no equals sign. -/
  | invalidParam (text : String)
deriving Repr

/-- A failure, and what lies behind it. -/
def chain (failure : Failure) : String :=
  match failure.cause? with
  | none => failure.message
  | some cause => failure.message ++ ": " ++ cause

/-- The wording of a fault. -/
def Fault.message : Fault → String
  | .request failure => chain failure
  | .configuration failure => "Failed to load configuration: " ++ chain failure
  | .invalidParam text => "Invalid --param '" ++ text ++ "': expected KEY=VALUE"

/-- The code of a fault: two, if the request itself is at fault. -/
def Fault.code : Fault → Nat
  | .request failure => if failure.isClientError then 2 else 1
  | .configuration _ => 1
  | .invalidParam _ => 1

/-- The file of settings in the working directory. -/
def localConfig : String := "crud-filter.toml"

/-- The files that settings are looked for in. -/
def configFiles (userConfig config : Option String) : List String :=
  match config with
  | some path => [path]
  | none => localConfig :: userConfig.toList

/-- The settings of a run: those of its file, with what the arguments say instead. -/
def settings (env : Environment) (a : Arguments) : Except Fault Settings :=
  let found := match a.config with
    | some path => Settings.load (env.file path)
    | none => Settings.find ((configFiles env.userConfig none).map env.file)
  match found with
  | .error failure => .error (.configuration failure)
  | .ok s =>
      .ok
        { s with
          dialect := a.dialect.getD s.dialect
          placeholder := a.placeholder.getD s.placeholder
          databaseUrl := ((a.databaseUrl.or env.databaseUrl).or s.databaseUrl)
          table := a.table.or s.table }

/-- The compiler of a run. -/
def compiler (s : Settings) : Except Fault Compiler :=
  match s.build with
  | .error failure => .error (.request failure)
  | .ok d => .ok { dialect := d, idField := s.idField }

/-- The pairs that are given one by one. -/
def readParams : List String → Except Fault (List (String × String))
  | [] => .ok []
  | text :: rest =>
      match cutFirst? '=' text.toList with
      | none => .error (.invalidParam text)
      | some (key, value) =>
          match readParams rest with
          | .error fault => .error fault
          | .ok pairs => .ok ((String.ofList key, String.ofList value) :: pairs)

/-- The pairs of a query without the question marks in front of it. -/
def queryPairs : Option String → List (String × String)
  | none => []
  | some query => FormEncoding.pairs (String.ofList (query.toList.dropWhile (· == '?')))

/-- All pairs of a run: those of the query, then those that are given one by one. -/
def pairs (a : Arguments) : Except Fault (List (String × String)) :=
  match readParams a.params with
  | .error fault => .error fault
  | .ok params => .ok (queryPairs a.query ++ params)

/-- What is written about the pairs that are compiled. -/
def inputLines (c : Compiler) (pairs : List (String × String)) : List Line :=
  [.dim "Dialect:", .plain " ", .tint .yellow c.dialect.name] ::
    pairs.map fun (key, value) =>
      [.dim "Input:", .plain " ", .tint .yellow key, .plain " = ", .tint .yellow value]

/-- What is written where the columns matter and cannot be looked up. -/
def columnsWarning : Line :=
  [.tint .yellow "⚠ Wildcard without columns. Use --columns, or --table with --database-url"]

/-- The columns of a run, and what is written about them. -/
def columns (env : Environment) (a : Arguments) (s : Settings) (needed : Bool) :
    Except Failure (List String × List Line) :=
  let table := s.table.getD ""
  if !a.columns.isEmpty || !needed then .ok (a.columns, [])
  else
    match s.databaseUrl with
    | none => .ok ([], [columnsWarning])
    | some url =>
        if table.isEmpty then .ok ([], [columnsWarning])
        else (env.columnsAt url table).map fun columns => (columns, [])

/-- A predicate in the format that is asked for. -/
def shown (colored : Bool) (format : OutputFormat) (p : Predicate) (suffix : Suffix) : String :=
  match format with
  | .json => (predicateReport p suffix).indented ++ "\n"
  | .text => Line.renderAll colored (predicateLines p suffix)

/-- The outcome of a fault behind what has been written. -/
def fail (env : Environment) (output errors : String) (fault : Fault) : Outcome :=
  { code := fault.code
    output := output
    errors := errors ++
      Line.render env.colored [.strong .red "Error:", .plain (" " ++ fault.message)] }

/-- Compile pairs with what the arguments add to them. -/
def compilePairs (env : Environment) (a : Arguments) (s : Settings) (c : Compiler)
    (pairs : List (String × String)) : Outcome :=
  let input := if a.verbose then Line.renderAll env.colored (inputLines c pairs) else ""
  match c.collect pairs a.id (a.filter.map fun text => Utf8.encode text.toList) with
  | .error failure => fail env input "" (.request failure)
  | .ok params =>
      match columns env a s (params.needsColumns c.dialect.reserved) with
      | .error failure => fail env input "" (.request failure)
      | .ok (known, warnings) =>
          let errors := Line.renderAll env.colored warnings
          let built := do
            let p ← c.assemble params (ColumnSource.fixed known) (s.table.getD "")
            let suffix ← p.suffix c.dialect
            pure (shown env.colored a.format p suffix)
          match built with
          | .error failure => fail env input errors (.request failure)
          | .ok text => { output := input ++ text, errors := errors }

/-- What a command needs: its settings, its compiler and its pairs. -/
def prepare (env : Environment) (a : Arguments) :
    Except Fault (Settings × Compiler × List (String × String)) := do
  let s ← settings env a
  let c ← compiler s
  let ps ← pairs a
  pure (s, c, ps)

/-- Compile a query. -/
def compile (env : Environment) (a : Arguments) : Outcome :=
  match prepare env a with
  | .error fault => fail env "" "" fault
  | .ok (s, c, ps) =>
      if ps.isEmpty && a.id.isNone then { output := Line.renderAll env.colored usageLines }
      else compilePairs env a s c ps

/-- Explain a query. -/
def explain (env : Environment) (a : Arguments) : Outcome :=
  match prepare env a with
  | .error fault => fail env "" "" fault
  | .ok (_, c, ps) => { output := Line.renderAll env.colored (c.explainLines ps) }

/-- Follow arguments that make sense. -/
def follow (env : Environment) (a : Arguments) : Outcome :=
  match a.level with
  | .main => compile env a
  | .explain => explain env a
  | .operators => { output := Line.renderAll env.colored operatorLines }

/-- A run with the given arguments. -/
def run (env : Environment) (args : List String) : Outcome :=
  match Arguments.read args with
  | .ok a => follow env a
  | .error .version => { output := "crud-filter 0.3.0\n" }
  | .error .help => { output := Line.renderAll env.colored usageLines }
  | .error .rejected =>
      { code := 2, errors := "error: invalid arguments\n\nFor more information, try '--help'.\n" }

end WhereClause.CommandLine

/-
**Text with colours.**

Output is built as lines of styled stretches of text; whether the colours are written is decided
when the lines are.

Main definitions:

* `WhereClause.Style` — weight and colour;
* `WhereClause.Span`, `WhereClause.Line` — stretches of text in one style, and lines of them;
* `WhereClause.Span.render`, `WhereClause.Line.renderAll` — the text with or without colours.
-/

import WhereClause.Text.Ascii
import WhereClause.Text.Split

set_option autoImplicit false

namespace WhereClause

open Text

/-- The colours in use. -/
inductive Colour where
  | red
  | green
  | yellow
  | cyan
  | white
deriving DecidableEq, Repr

/-- The number of a colour in an escape sequence. -/
def Colour.code : Colour → String
  | .red => "31"
  | .green => "32"
  | .yellow => "33"
  | .cyan => "36"
  | .white => "37"

/-- How a stretch of text is shown. -/
structure Style where
  bold : Bool := false
  dimmed : Bool := false
  colour : Option Colour := none
deriving DecidableEq, Repr

/-- The numbers of a style in an escape sequence, the weight before the colour. -/
def Style.codes (style : Style) : List String :=
  (if style.bold then ["1"] else []) ++ (if style.dimmed then ["2"] else []) ++
    (style.colour.map Colour.code).toList

/-- The escape sequence that ends a style. -/
def resetCode : String := "\x1b[0m"

/-- The escape sequence that begins a style. -/
def Style.code (style : Style) : String := "\x1b[" ++ ";".intercalate style.codes ++ "m"

/-- A stretch of text in one style. -/
structure Span where
  text : String
  style : Style := {}
deriving Repr

/-- A line of output. -/
abbrev Line := List Span

/-- Put `again` behind every place where `mark` stands in a text; `pending` characters of a place
that has begun are still to come. -/
def insertAfter (mark again : List Char) : Nat → List Char → List Char
  | _, [] => []
  | pending, c :: rest =>
      let begun :=
        if pending = 0 ∧ (dropLead? mark (c :: rest)).isSome then mark.length else pending
      c :: ((if begun = 1 then again else []) ++ insertAfter mark again (begun - 1) rest)

namespace Span

/-- The text of a stretch.  A style that ends inside the text begins again behind that place. -/
def render (colored : Bool) (span : Span) : String :=
  if colored && !span.style.codes.isEmpty then
    let inner := insertAfter resetCode.toList span.style.code.toList 0 span.text.toList
    span.style.code ++ String.ofList inner ++ resetCode
  else span.text

/-- Text in no style. -/
def plain (text : String) : Span := { text := text }

/-- Dimmed text. -/
def dim (text : String) : Span := { text := text, style := { dimmed := true } }

/-- Text in a colour. -/
def tint (colour : Colour) (text : String) : Span :=
  { text := text, style := { colour := some colour } }

/-- Bold text in a colour. -/
def strong (colour : Colour) (text : String) : Span :=
  { text := text, style := { bold := true, colour := some colour } }

/-- A stretch filled up with blanks on the right. -/
def padRight (width : Nat) (span : Span) : Span :=
  { span with
    text := span.text ++ String.ofList (List.replicate (width - span.text.length) ' ') }

/-- A stretch filled up with blanks on the left. -/
def padLeft (width : Nat) (span : Span) : Span :=
  { span with
    text := String.ofList (List.replicate (width - span.text.length) ' ') ++ span.text }

end Span

/-- The text of a line, with its end. -/
def Line.render (colored : Bool) (line : Line) : String :=
  String.join (line.map (Span.render colored)) ++ "\n"

/-- The text of lines. -/
def Line.renderAll (colored : Bool) (lines : List Line) : String :=
  String.join (lines.map (Line.render colored))

end WhereClause

/-
**Quoted names.**

A dotted name is quoted part by part, and a quote inside a part is written twice, so no part can end
early.

Main definitions:

* `WhereClause.Text.quotedPart` — one part of a name between quotes;
* `WhereClause.Text.quotedName` — a dotted name, every part between quotes.
-/

import WhereClause.Text.Split

set_option autoImplicit false

namespace WhereClause.Text

/-- A part of a name between quotes; a quote inside it is written twice. -/
def quotedPart (quote : Char) (part : List Char) : List Char :=
  quote :: (part.flatMap (fun c => if c = quote then [quote, quote] else [c]) ++ [quote])

/-- A dotted name, each part between quotes. -/
def quotedName (quote : Char) (name : String) : String :=
  String.ofList (['.'].intercalate ((splitOn '.' name.toList).map (quotedPart quote)))

end WhereClause.Text

/-
**Reserved keys.**

Four texts have a meaning of their own among the keys of a request: the mark that joins a term with
OR, the key whose condition holds of every column, the key of metadata that is no condition, and the
key of the filter document.

Main definitions:

* `WhereClause.ReservedKeys` — the four texts, with their defaults;
* `WhereClause.ReservedKeys.isExcluded` — keys that never reach a predicate as they are;
* `WhereClause.ReservedKeys.validate` — no text may be blank and no two the same;
* `WhereClause.ReservedKeys.toJson` — the four texts in a report.
-/

import WhereClause.Failure
import WhereClause.Text.Blank

set_option autoImplicit false

namespace WhereClause

open Text

/-- The texts with a meaning of their own among the keys of a request. -/
structure ReservedKeys where
  /-- Put before a key, it joins the term with OR. -/
  orMarker : String := "[|]"
  /-- The key whose condition holds of every column without a condition of its own. -/
  wildcard : String := "*"
  /-- The key of metadata that is no condition. -/
  extra : String := "+"
  /-- The key of the filter document. -/
  filter : String := "~"
deriving DecidableEq, Repr, Inhabited

namespace ReservedKeys

/-- The four texts in order. -/
def toList (r : ReservedKeys) : List String := [r.orMarker, r.wildcard, r.extra, r.filter]

/-- A key that never reaches the chain of a predicate. -/
def isExcluded (r : ReservedKeys) (key : String) : Bool := key == r.wildcard || key == r.extra

/-- The first text of a list that comes again later in it. -/
def firstRepeated? : List String → Option String
  | [] => none
  | key :: rest => if rest.contains key then some key else firstRepeated? rest

/-- Accept keys of which none is blank and no two are the same. -/
def validate (r : ReservedKeys) : Except Failure Unit :=
  if r.toList.any allBlank then .error (.settings .blankKey)
  else
    match firstRepeated? r.toList with
    | some key => .error (.settings (.repeatedKey key))
    | none => .ok ()

/-- The four texts in a report. -/
def toJson (r : ReservedKeys) : Json :=
  .object
    [("or_prefix", .string r.orMarker), ("wildcard", .string r.wildcard),
      ("extra", .string r.extra), ("filter", .string r.filter)]

end ReservedKeys

end WhereClause

/-
**The dialects that can be chosen.**

Three dialects can be chosen: PostgreSQL with either kind of placeholder, and MySQL.  They are the
values of one type here, so that a statement about all of them is a statement about its values.

Main definitions:

* `WhereClause.Flavour` — the choices;
* `WhereClause.Flavour.dialect` — the dialect of a choice, with any reserved keys;
* `WhereClause.Flavour.quoteMark`, `WhereClause.Flavour.style`, `WhereClause.Flavour.normalForm` —
  its quotes, its placeholders and its normal form.

Main results:

* `WhereClause.Flavour.exists_of_build` — every dialect that a configuration builds is one of them.
-/

import WhereClause.Dialect.Kind

set_option relaxedAutoImplicit false
set_option autoImplicit false

namespace WhereClause

open Text

/-- A dialect that can be chosen, with its placeholders. -/
inductive Flavour where
  | postgres (style : PlaceholderStyle)
  | mysql
deriving DecidableEq, Repr

namespace Flavour

/-- The dialect of a choice, with the given reserved keys. -/
def dialect : Flavour → ReservedKeys → Dialect
  | postgres style, reserved => WhereClause.postgres reserved style
  | mysql, reserved => WhereClause.mysql reserved

/-- The quote around the identifiers of a dialect. -/
def quoteMark : Flavour → Char
  | postgres _ => '"'
  | mysql => '\x60'

/-- The placeholders of a dialect. -/
def style : Flavour → PlaceholderStyle
  | postgres style => style
  | mysql => .question

/-- The normal form of a dialect. -/
def normalForm : Flavour → NormalForm
  | postgres style => style.normalForm
  | mysql => mysqlForm

@[simp] theorem reserved_dialect (f : Flavour) (r : ReservedKeys) : (f.dialect r).reserved = r := by
  cases f <;> rfl

@[simp] theorem quote_dialect (f : Flavour) (r : ReservedKeys) :
    (f.dialect r).quote = quotedName f.quoteMark := by
  cases f <;> rfl

@[simp] theorem placeholder_dialect (f : Flavour) (r : ReservedKeys) :
    (f.dialect r).placeholder = f.style.placeholder := by
  cases f <;> rfl

@[simp] theorem format_dialect (f : Flavour) (r : ReservedKeys) :
    (f.dialect r).format = f.normalForm.format := by
  cases f <;> rfl

/-- All dialects recognise the same tokens. -/
@[simp] theorem tokens_dialect (f : Flavour) (r : ReservedKeys) :
    (f.dialect r).tokens = suffixTokens := by
  cases f <;> rfl

/-- Every dialect that a configuration builds can be chosen. -/
theorem exists_of_build {kind : DialectKind} {r : ReservedKeys} {style : PlaceholderStyle}
    {d : Dialect} (h : kind.build r style = .ok d) : ∃ f : Flavour, d = f.dialect r := by
  unfold DialectKind.build at h
  split at h
  · cases h
  · cases kind with
    | postgres => exact ⟨.postgres style, (Except.ok.inj h).symm⟩
    | mysql =>
        cases style with
        | question => exact ⟨.mysql, (Except.ok.inj h).symm⟩
        | dollar => cases h

end Flavour

end WhereClause

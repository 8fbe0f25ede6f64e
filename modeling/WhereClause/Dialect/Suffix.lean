/-
**The operator tokens of the dialects.**

Both dialects recognise the same tokens, so that an operator one of them has no rendering for is
refused and not read as part of a column name.

Main definitions:

* `WhereClause.suffixTokens` — the tokens;
* `WhereClause.suffixPattern` — the tokens as the text of a pattern.

Main results:

* `WhereClause.mem_suffixTokens_iff` — the tokens are exactly those that choose an operator.
-/

import WhereClause.Dialect.Basic

set_option autoImplicit false

namespace WhereClause

/-- The operator tokens, a longer one before its own beginnings. -/
def suffixTokens : List String :=
  ["->>", "->", ">-", "<-", "<>", "!~*", "~*", "!~", "~", "!%", "%", "!+", "+", "!&&", "&&",
    "!array", "array", "!any", "any", "!some", "some", "!all", "all", "!", ">", "<", ":"]

theorem suffixTokens_perm : suffixTokens.Perm (Operator.tokens.map Prod.fst) := by decide

/-- The tokens are exactly those that choose an operator. -/
theorem mem_suffixTokens_iff (token : String) :
    token ∈ suffixTokens ↔ (Operator.ofToken? token).isSome = true :=
  suffixTokens_perm.mem_iff.trans (Operator.ofToken?_isSome_iff token).symm

/-- The operator tokens as a pattern, in which the star and the plus sign have to be escaped. -/
def suffixPattern : String := Dialect.alternation (fun c => c == '*' || c == '+') suffixTokens

end WhereClause

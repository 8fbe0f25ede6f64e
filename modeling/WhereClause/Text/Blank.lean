/-
**Blanks, trimming and words.**

A query key, a sentinel and an order expression are all read up to white space, and white space
means the Unicode property `White_Space`: twenty-five characters, listed here once.

Main definitions:

* `WhereClause.Text.isBlank` — the property, as a table of code points;
* `WhereClause.Text.trimStart`, `WhereClause.Text.trimEnd`, `WhereClause.Text.trim` — a text without
  the blanks at one end or at both;
* `WhereClause.Text.words` — the maximal stretches of a text that hold no blank.
-/

import WhereClause.Text.Split

set_option autoImplicit false

namespace WhereClause.Text

/-- The characters with the Unicode property `White_Space`. -/
def isBlank (c : Char) : Bool :=
  let n := c.toNat
  (9 ≤ n && n ≤ 13) || n == 0x20 || n == 0x85 || n == 0xA0 || n == 0x1680 ||
    (0x2000 ≤ n && n ≤ 0x200A) || n == 0x2028 || n == 0x2029 || n == 0x202F || n == 0x205F ||
    n == 0x3000

/-- A text without the blanks it starts with. -/
def trimStart (s : List Char) : List Char := s.dropWhile isBlank

/-- A text without the blanks it ends with. -/
def trimEnd (s : List Char) : List Char := (s.reverse.dropWhile isBlank).reverse

/-- A text without the blanks around it. -/
def trim (s : List Char) : List Char := trimEnd (trimStart s)

@[simp] theorem trimStart_nil : trimStart [] = [] := rfl

@[simp] theorem trimEnd_nil : trimEnd [] = [] := rfl

@[simp] theorem trim_nil : trim [] = [] := rfl

/-- A string without the blanks around it. -/
def trimmed (s : String) : String := String.ofList (trim s.toList)

/-- A string that holds nothing but blanks; the empty string is one. -/
def allBlank (s : String) : Bool := s.toList.all isBlank

/-- The maximal stretches of a text without a blank, in order. -/
def words (s : List Char) : List (List Char) :=
  (splitWhere isBlank s).filter fun word => !word.isEmpty

end WhereClause.Text

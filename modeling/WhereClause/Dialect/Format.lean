/-
**The form in which terms are rendered.**

How a value was written decides what its operator comes to: equality with a list is membership,
equality with a pair of bounds is an interval, and an operator whose value lost the shape it needs
falls back to plain equality.  A dialect may refuse operators and may add casts; below a look-up in
a document it may not use operators that need a column.

Main definitions:

* `WhereClause.Operator.settled` — what an operator comes to on a value of a given shape;
* `WhereClause.Comparison.settled` — a comparison with its operator settled;
* `WhereClause.NormalForm` — the decisions of a dialect;
* `WhereClause.NormalForm.format` — a term in the form in which it is rendered.

Main results:

* `WhereClause.Operator.settled_settled` — settling an operator twice changes nothing more.
-/

import WhereClause.Failure
import WhereClause.Term

set_option autoImplicit false

namespace WhereClause

/-- What an operator comes to on a value of a given shape. -/
def Operator.settled : Operator → Shape → Operator
  | .eq, .array => .oneOf
  | .neq, .array => .noneOf
  | .eq, .range => .between
  | .between, .array => .oneOf
  | .between, .scalar => .eq
  | .between, .null => .eq
  | .oneOf, .scalar => .eq
  | .oneOf, .null => .eq
  | .noneOf, .scalar => .neq
  | .noneOf, .null => .neq
  | op, _ => op

/-- Settling an operator twice changes nothing more. -/
@[simp] theorem Operator.settled_settled (op : Operator) (shape : Shape) :
    (op.settled shape).settled shape = op.settled shape := by
  cases op <;> cases shape <;> rfl

/-- Settling never makes an operator an overlap, nor takes one away. -/
@[simp] theorem Operator.isOverlap_settled (op : Operator) (shape : Shape) :
    (op.settled shape).isOverlap = op.isOverlap := by
  cases op <;> cases shape <;> rfl

/-- A comparison with its operator settled; an overlap with a scalar is one with the list that holds
just that scalar. -/
def Comparison.settled (c : Comparison) : Comparison :=
  let operator := c.operator.settled c.shape
  let value :=
    match c.shape with
    | .scalar => if operator.isOverlap then .array [c.value] else c.value
    | _ => c.value
  { c with operator := operator, value := value }

/-- An operator that needs a column on its own side of the comparison. -/
def Operator.needsColumn (op : Operator) : Bool := op.isQuantified || op.isOverlap

/-- What a dialect decides about the form of its terms. -/
structure NormalForm where
  /-- The name of the dialect. -/
  name : String
  /-- The operators that can be rendered. -/
  supports : Operator → Bool
  /-- A comparison in its form. -/
  settle : Comparison → Comparison
  /-- A change to the comparison directly below a look-up with the given operator. -/
  below : Operator → Comparison → Comparison

namespace NormalForm

/-- The chain below a comparison with operator `above`, outermost first. -/
def formatBelow (form : NormalForm) (above : Operator) :
    List Comparison → Except Failure (List Comparison)
  | [] => .ok []
  | c :: rest =>
      if c.operator.needsColumn then .error (.unsupported form.name c.operator .insidePath)
      else if !form.supports c.operator then .error (.unsupported form.name c.operator .anywhere)
      else
        match form.formatBelow (form.settle c).operator rest with
        | .error failure => .error failure
        | .ok rest => .ok (form.below above (form.settle c) :: rest)

/-- A term in the form in which it is rendered; the outermost operator that cannot be rendered
decides. -/
def format (form : NormalForm) (t : Term) : Except Failure Term :=
  if !form.supports t.operator then .error (.unsupported form.name t.operator .anywhere)
  else
    let c := form.settle t.toComparison
    match form.formatBelow c.operator t.path with
    | .error failure => .error failure
    | .ok path => .ok (.ofChain c path)

end NormalForm

end WhereClause

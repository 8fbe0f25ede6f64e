/-
**JSON values.**

Numbers keep the kind they are written in: integers are exact, and the two binary formats are
written each with its own shortest digits.  The members of an object are a list, in the order in
which they are written; objects that are read keep their members sorted by name, one of each name.

Main definitions:

* `WhereClause.Json` — the values;
* `WhereClause.Json.insertMember` — a member put into its place by name;
* `WhereClause.Json.member?` — the value of a member.
-/

import WhereClause.Number.Binary

set_option autoImplicit false

namespace WhereClause

/-- A JSON value. -/
inductive Json where
  | null
  | bool (b : Bool)
  | integer (n : Int)
  | single (x : Binary .single)
  | double (x : Binary .double)
  | string (s : String)
  | array (items : List Json)
  | object (members : List (String × Json))
deriving Repr, Inhabited

namespace Json

/-- Put a member into a list sorted by name; a member of the same name is replaced. -/
def insertMember (name : String) (value : Json) : List (String × Json) → List (String × Json)
  | [] => [(name, value)]
  | (other, x) :: rest =>
      if name = other then (name, value) :: rest
      else if name < other then (name, value) :: (other, x) :: rest
      else (other, x) :: insertMember name value rest

/-- The value of the member of a given name. -/
def member? (name : String) : List (String × Json) → Option Json
  | [] => none
  | (other, x) :: rest => if name = other then some x else member? name rest

@[simp] theorem member?_nil (name : String) : member? name [] = none := rfl

/-- A member that was put in is found. -/
theorem member?_insertMember_self (name : String) (value : Json) (members : List (String × Json)) :
    member? name (insertMember name value members) = some value := by
  induction members with
  | nil => simp [insertMember, member?]
  | cons m rest ih =>
      obtain ⟨other, x⟩ := m
      rw [insertMember]
      split
      · simp [member?]
      · split
        · simp [member?]
        · rename_i hne _
          simp [member?, hne, ih]

/-- Putting a member in leaves the others as they were. -/
theorem member?_insertMember_of_ne {name other : String} (h : other ≠ name) (value : Json)
    (members : List (String × Json)) :
    member? other (insertMember name value members) = member? other members := by
  induction members with
  | nil => simp [insertMember, member?, h]
  | cons m rest ih =>
      obtain ⟨k, x⟩ := m
      rw [insertMember]
      split
      · rename_i hk
        subst hk
        simp [member?, h]
      · split
        · simp [member?, h]
        · simp [member?, ih]

end Json

end WhereClause

/-
**Order expressions.**

An order expression is one or two words: a column, a column behind a minus sign, or a column and the
word for a direction.  A filter document is refused for the first of its order expressions that is
none, and for nothing else.

Main definitions:

* `WhereClause.OrderItem.IsColumn` — what may stand for a column;
* `WhereClause.OrderItem.Written` — the words that a column and its direction can be written as.

Main results:

* `WhereClause.OrderItem.read?_eq_some_iff` — what an order expression is read as;
* `WhereClause.FilterSpec.orderBy_eq_error_iff` — **the order of a filter document is refused
  exactly for the first expression in it that is no order expression**.
-/

import WhereClause.FilterSpec.Order

set_option relaxedAutoImplicit false
set_option autoImplicit false

namespace WhereClause

open Text

/-! ### One expression -/

namespace OrderItem

/-- What may stand for a column: some letters, digits, underscores and dots. -/
def IsColumn (column : List Char) : Prop := column ≠ [] ∧ ∀ c ∈ column, isColumnChar c = true

/-- The words that a column and its direction can be written as. -/
inductive Written : List (List Char) → OrderItem → Prop
  /-- A column alone is sorted upward. -/
  | bare {column : List Char} (h : IsColumn column) :
      Written [column] { column := String.ofList column, descending := false }
  /-- A column behind a minus sign is sorted downward. -/
  | minus {column : List Char} (h : IsColumn column) :
      Written ['-' :: column] { column := String.ofList column, descending := true }
  /-- A column is sorted in the direction that is named behind it. -/
  | directed {column word : List Char} {descending : Bool} (h : IsColumn column)
      (hdirection : direction? word = some descending) :
      Written [column, word] { column := String.ofList column, descending := descending }

theorem ofColumn?_eq_some_iff {column : List Char} {descending : Bool} {item : OrderItem} :
    ofColumn? column descending = some item ↔
      IsColumn column ∧ item = { column := String.ofList column, descending := descending } := by
  have hcolumn : (!column.isEmpty && column.all isColumnChar) = true ↔ IsColumn column := by
    simp [IsColumn]
  unfold ofColumn?
  by_cases h : IsColumn column
  · rw [if_pos (hcolumn.2 h)]
    simp [h, eq_comm]
  · rw [if_neg (mt hcolumn.1 h)]
    simp [h]

/-- A minus sign is cut off a word exactly if the word begins with one. -/
theorem dropLead?_minus_eq_some_iff {word column : List Char} :
    dropLead? ['-'] word = some column ↔ word = '-' :: column := by
  constructor
  · exact eq_of_dropLead?_eq_some
  · rintro rfl
    exact dropLead?_append ['-'] column

/-- No column begins with a minus sign. -/
theorem IsColumn.dropLead?_eq_none {column : List Char} (h : IsColumn column) :
    dropLead? ['-'] column = none := by
  cases hlead : dropLead? ['-'] column with
  | none => rfl
  | some rest =>
      rw [dropLead?_minus_eq_some_iff] at hlead
      have hminus : isColumnChar '-' = true := h.2 '-' (by rw [hlead]; exact List.mem_cons_self ..)
      exact absurd hminus (by decide)

/-- **An order expression is read as a column and a direction exactly if its words are one way to
write them.** -/
theorem read?_eq_some_iff {expression : String} {item : OrderItem} :
    read? expression = some item ↔ Written (words expression.toList) item := by
  unfold read?
  generalize words expression.toList = parts
  constructor
  · intro h
    split at h
    next word =>
      split at h
      next column hlead =>
        obtain ⟨hcolumn, rfl⟩ := ofColumn?_eq_some_iff.1 h
        rw [dropLead?_minus_eq_some_iff] at hlead
        subst hlead
        exact .minus hcolumn
      next =>
        obtain ⟨hcolumn, rfl⟩ := ofColumn?_eq_some_iff.1 h
        exact .bare hcolumn
    next word direction =>
      split at h
      next => cases h
      next =>
        split at h
        next => cases h
        next descending hdirection =>
          obtain ⟨hcolumn, rfl⟩ := ofColumn?_eq_some_iff.1 h
          exact .directed hcolumn hdirection
    next => cases h
  · intro h
    cases h with
    | bare hcolumn =>
        simp only [hcolumn.dropLead?_eq_none]
        exact ofColumn?_eq_some_iff.2 ⟨hcolumn, rfl⟩
    | @minus column hcolumn =>
        have hlead : dropLead? ['-'] ('-' :: column) = some column := dropLead?_append ['-'] column
        simp only [hlead]
        exact ofColumn?_eq_some_iff.2 ⟨hcolumn, rfl⟩
    | directed hcolumn hdirection =>
        simp only [hcolumn.dropLead?_eq_none, hdirection]
        exact ofColumn?_eq_some_iff.2 ⟨hcolumn, rfl⟩

/-- An expression that is a way to write some column and direction. -/
def IsOrder (expression : String) : Prop := ∃ item, Written (words expression.toList) item

theorem read?_eq_none_iff {expression : String} :
    read? expression = none ↔ ¬ IsOrder expression := by
  rw [Option.eq_none_iff_forall_ne_some, IsOrder, not_exists]
  exact forall_congr' fun item => not_congr read?_eq_some_iff

end OrderItem

/-! ### The expressions of a document -/

/-- An order expression in front of others is passed over. -/
theorem readOrders_cons_eq_error_iff {first : String} (h : OrderItem.IsOrder first)
    {rest : List String} {failure : Failure} :
    readOrders (first :: rest) = .error failure ↔ readOrders rest = .error failure := by
  obtain ⟨item, hitem⟩ := h
  rw [readOrders, OrderItem.read?_eq_some_iff.2 hitem]
  cases readOrders rest <;> simp

/-- What is no order expression is refused in front of all others. -/
theorem readOrders_cons_of_not {first : String} (h : ¬ OrderItem.IsOrder first)
    (rest : List String) : readOrders (first :: rest) = .error (.invalidOrder first) := by
  rw [readOrders, OrderItem.read?_eq_none_iff.2 h]

/-- **Some order expressions are refused exactly for the first of them that is none.** -/
theorem readOrders_eq_error_iff {expressions : List String} {failure : Failure} :
    readOrders expressions = .error failure ↔
      ∃ before expression after, expressions = before ++ expression :: after ∧
        (∀ e ∈ before, OrderItem.IsOrder e) ∧ ¬ OrderItem.IsOrder expression ∧
        failure = .invalidOrder expression := by
  constructor
  · intro h
    induction expressions with
    | nil => cases h
    | cons first rest ih =>
        by_cases hfirst : OrderItem.IsOrder first
        · rw [readOrders_cons_eq_error_iff hfirst] at h
          obtain ⟨before, expression, after, rfl, hbefore, hrefused, hfailure⟩ := ih h
          exact ⟨first :: before, expression, after, rfl,
            List.forall_mem_cons.2 ⟨hfirst, hbefore⟩, hrefused, hfailure⟩
        · rw [readOrders_cons_of_not hfirst] at h
          exact ⟨[], first, rest, rfl, by simp, hfirst, (Except.error.inj h).symm⟩
  · rintro ⟨before, expression, after, rfl, hbefore, hrefused, rfl⟩
    induction before with
    | nil => exact readOrders_cons_of_not hrefused after
    | cons first before ih =>
        obtain ⟨hfirst, hbefore⟩ := List.forall_mem_cons.1 hbefore
        exact (readOrders_cons_eq_error_iff hfirst).2 (ih hbefore)

/-- **The order of a filter document is refused exactly for the first expression in it that is no
order expression.** -/
theorem FilterSpec.orderBy_eq_error_iff {spec : FilterSpec} {d : Dialect} {failure : Failure} :
    spec.orderBy d = .error failure ↔
      ∃ before expression after, spec.orders = before ++ expression :: after ∧
        (∀ e ∈ before, OrderItem.IsOrder e) ∧ ¬ OrderItem.IsOrder expression ∧
        failure = .invalidOrder expression := by
  rw [← readOrders_eq_error_iff, orderBy]
  cases readOrders spec.orders with
  | error failure' => simp
  | ok items => cases items <;> simp

end WhereClause

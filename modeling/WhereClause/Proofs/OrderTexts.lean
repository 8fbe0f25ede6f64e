/-
**What is asked for by an order, and what is written for it.**

The column of an order expression is judged character by character, but quoted part by part between
its dots.  So besides dotted columns some others are accepted, those with a dot too many, and each
of them brings an empty identifier into the text.  Apart from that the text says what was asked for:
it is a row of columns, each with its direction, and a reader that knows nothing but how identifiers
are quoted finds in it the columns and directions of the expressions, in their order.

Main definitions:

* `WhereClause.OrderItem.Names` — an order expression with a given column in it;
* `WhereClause.OrderItem.IsDotted`, `WhereClause.OrderItem.IsGapped` — columns without and with an
  empty part;
* `WhereClause.OrderItem.asked` — the column and the direction that an order expression asks for;
* `WhereClause.OrderItem.rowSql` — the text of an order as pieces;
* `WhereClause.readOrderText` — a reader of such texts.

Main results:

* `WhereClause.OrderItem.isColumn_iff` — the columns that are accepted;
* `WhereClause.readOrders_eq_ok_iff` — what some order expressions are read as;
* `WhereClause.FilterSpec.exists_orderBy_iff` — **an order is accepted exactly if each of its
  expressions names a dotted column or one with a dot too many**, and these bring in an empty
  identifier;
* `WhereClause.readOrderText_text` — a row of columns is read as it is written;
* `WhereClause.FilterSpec.asked_of_orderBy` — **the text of an order says what was asked for**, and
  nothing else.
-/

import WhereClause.Proofs.OrderExpressions
import WhereClause.Proofs.Tokens
import WhereClause.Proofs.ValueGrammar

set_option relaxedAutoImplicit false
set_option autoImplicit false

namespace WhereClause

open Text

/-! ### Characters of joined texts -/

namespace Text

/-- Every character of a piece is one of the whole. -/
theorem mem_intercalate_of_mem {separator piece : List Char} {pieces : List (List Char)} {c : Char}
    (hpiece : piece ∈ pieces) (hc : c ∈ piece) : c ∈ separator.intercalate pieces := by
  induction pieces with
  | nil => cases hpiece
  | cons first rest ih =>
      rcases List.mem_cons.1 hpiece with rfl | hrest
      · cases rest with
        | nil => simpa [List.intercalate] using hc
        | cons next rest =>
            rw [List.intercalate_cons_cons]
            exact List.mem_append_left _ (List.mem_append_left _ hc)
      · rw [List.intercalate_cons_of_ne_nil (List.ne_nil_of_mem hrest)]
        exact List.mem_append_right _ (ih hrest)

/-- Every character of the whole is one of a piece or of what joins the pieces. -/
theorem of_mem_intercalate {separator : List Char} {pieces : List (List Char)} {c : Char}
    (h : c ∈ separator.intercalate pieces) : c ∈ separator ∨ ∃ piece ∈ pieces, c ∈ piece := by
  induction pieces with
  | nil => cases h
  | cons first rest ih =>
      cases rest with
      | nil => exact .inr ⟨first, List.mem_cons_self, by simpa [List.intercalate] using h⟩
      | cons next rest =>
          rw [List.intercalate_cons_cons, List.mem_append, List.mem_append] at h
          rcases h with (hfirst | hseparator) | hrest
          · exact .inr ⟨first, List.mem_cons_self, hfirst⟩
          · exact .inl hseparator
          · obtain hseparator | ⟨piece, hpiece, hc⟩ := ih hrest
            · exact .inl hseparator
            · exact .inr ⟨piece, List.mem_cons_of_mem first hpiece, hc⟩

/-- Every character of a piece between separators is one of the text. -/
theorem mem_of_mem_splitOn {separator c : Char} {s piece : List Char}
    (hpiece : piece ∈ splitOn separator s) (hc : c ∈ piece) : c ∈ s := by
  rw [← intercalate_splitOn separator s]
  exact mem_intercalate_of_mem hpiece hc

/-- A quoted name holds quotes, dots and the characters of the name. -/
theorem of_mem_quotedName {quote c : Char} {name : String}
    (h : c ∈ (quotedName quote name).toList) : c = quote ∨ c = '.' ∨ c ∈ name.toList := by
  rw [quotedName, String.toList_ofList] at h
  obtain hdot | ⟨quoted, hquoted, hc⟩ := of_mem_intercalate h
  · exact .inr (.inl (List.mem_singleton.1 hdot))
  obtain ⟨part, hpart, rfl⟩ := List.mem_map.1 hquoted
  rw [quotedPart, List.mem_cons, List.mem_append, List.mem_singleton, List.mem_flatMap] at hc
  rcases hc with hquote | ⟨d, hd, hc⟩ | hquote
  · exact .inl hquote
  · split at hc
    · exact .inl (by simpa using hc)
    · rw [List.mem_singleton] at hc
      subst hc
      exact .inr (.inr (mem_of_mem_splitOn hpart hd))
  · exact .inl hquote

end Text

namespace OrderItem

/-! ### Columns -/

/-- A part of a dotted column: some letters, digits and underscores. -/
def IsSegment (segment : List Char) : Prop :=
  segment ≠ [] ∧ ∀ c ∈ segment, isLetter c = true ∨ isDigit c = true ∨ c = '_'

/-- A dotted column: such parts with a single dot between any two. -/
def IsDotted (column : List Char) : Prop :=
  ∃ segments, segments ≠ [] ∧ (∀ segment ∈ segments, IsSegment segment) ∧
    ['.'].intercalate segments = column

/-- What may stand for a column although it has an empty part: a dot stands first, last or behind
another one. -/
def IsGapped (column : List Char) : Prop := IsColumn column ∧ [] ∈ splitOn '.' column

theorem isColumnChar_iff {c : Char} :
    isColumnChar c = true ↔ isLetter c = true ∨ isDigit c = true ∨ c = '_' ∨ c = '.' := by
  simp only [isColumnChar, Bool.or_eq_true, beq_iff_eq, or_assoc]

theorem isColumnChar_of_segment {c : Char}
    (h : isLetter c = true ∨ isDigit c = true ∨ c = '_') : isColumnChar c = true ∧ c ≠ '.' := by
  refine ⟨isColumnChar_iff.2 (h.imp_right (Or.imp_right .inl)), ?_⟩
  rintro rfl
  revert h
  decide

/-- The parts of a dotted column are what stands between its dots. -/
theorem IsDotted.splitOn {column : List Char} (h : IsDotted column) :
    ∀ segment ∈ Text.splitOn '.' column, IsSegment segment := by
  obtain ⟨segments, hne, hsegments, htext⟩ := h
  have hplain : ∀ segment ∈ segments, '.' ∉ segment := fun segment hsegment hdot =>
    (isColumnChar_of_segment ((hsegments segment hsegment).2 '.' hdot)).2 rfl
  rwa [splitOn_eq_iff.2 ⟨htext, hne, hplain⟩]

theorem IsDotted.isColumn {column : List Char} (h : IsDotted column) : IsColumn column := by
  obtain ⟨segments, hne, hsegments, rfl⟩ := h
  constructor
  · obtain ⟨segment, hsegment⟩ := List.exists_mem_of_ne_nil segments hne
    obtain ⟨c, hc⟩ := List.exists_mem_of_ne_nil segment (hsegments segment hsegment).1
    exact List.ne_nil_of_mem (mem_intercalate_of_mem hsegment hc)
  · intro c hc
    obtain hdot | ⟨segment, hsegment, hc⟩ := of_mem_intercalate hc
    · rw [List.mem_singleton.1 hdot]
      rfl
    · exact (isColumnChar_of_segment ((hsegments segment hsegment).2 c hc)).1

/-- **What may stand for a column is a dotted column, or has an empty part.** -/
theorem isColumn_iff {column : List Char} :
    IsColumn column ↔ IsDotted column ∨ IsGapped column := by
  constructor
  · intro h
    by_cases hgap : [] ∈ Text.splitOn '.' column
    · exact .inr ⟨h, hgap⟩
    · refine .inl ⟨Text.splitOn '.' column, splitWhere_ne_nil _ _, fun segment hsegment => ?_,
        intercalate_splitOn '.' column⟩
      refine ⟨ne_of_mem_of_not_mem hsegment hgap, fun c hc => ?_⟩
      have hdot : c ≠ '.' := ne_of_mem_of_not_mem hc (notMem_of_mem_splitOn segment hsegment)
      have hcolumn := isColumnChar_iff.1 (h.2 c (mem_of_mem_splitOn hsegment hc))
      simpa only [hdot, or_false] using hcolumn
  · rintro (hdotted | hgapped)
    · exact hdotted.isColumn
    · exact hgapped.1

/-! ### Expressions -/

/-- An order expression with a given column in it: alone, behind a minus sign, or in front of a
direction. -/
def Names (column : List Char) (expression : String) : Prop :=
  words expression.toList = [column] ∨ words expression.toList = ['-' :: column] ∨
    ∃ word, words expression.toList = [column, word] ∧
      (sameLetters word "asc".toList = true ∨ sameLetters word "desc".toList = true)

/-- The column and the direction that an order expression asks for: its first word without the minus
sign in front of it, downward if there is one or if the second word says so. -/
def asked (expression : String) : OrderItem :=
  match words expression.toList with
  | [] => { column := "", descending := false }
  | word :: others =>
      { column := String.ofList ((dropLead? ['-'] word).getD word)
        descending := (dropLead? ['-'] word).isSome ||
          others.head?.any fun other => sameLetters other "desc".toList }

theorem direction?_eq_some_iff {word : List Char} {descending : Bool} :
    direction? word = some descending ↔
      (sameLetters word "asc".toList = true ∨ sameLetters word "desc".toList = true) ∧
        descending = sameLetters word "desc".toList := by
  have hdifferent : sameLetters word "asc".toList = true →
      sameLetters word "desc".toList = false := by
    intro hasc
    rw [sameLetters, beq_iff_eq] at hasc
    rw [sameLetters, hasc]
    decide
  unfold direction?
  generalize sameLetters word "asc".toList = asc at hdifferent ⊢
  generalize sameLetters word "desc".toList = desc at hdifferent ⊢
  cases asc <;> cases desc <;> simp_all [eq_comm]

/-- The words of an order expression say what is asked for. -/
theorem Written.eq_asked {expression : String} {item : OrderItem}
    (h : Written (words expression.toList) item) : item = asked expression := by
  unfold asked
  generalize words expression.toList = parts at h
  cases h with
  | bare hcolumn => simp [hcolumn.dropLead?_eq_none]
  | @minus column hcolumn =>
      have hlead : dropLead? ['-'] ('-' :: column) = some column := dropLead?_append ['-'] column
      simp [hlead]
  | directed hcolumn hdirection =>
      obtain ⟨-, rfl⟩ := direction?_eq_some_iff.1 hdirection
      simp [hcolumn.dropLead?_eq_none]

theorem Written.isColumn {parts : List (List Char)} {item : OrderItem} (h : Written parts item) :
    IsColumn item.column.toList := by
  cases h <;> simpa

/-- **An order expression is one with a column in it.** -/
theorem isOrder_iff {expression : String} :
    IsOrder expression ↔ ∃ column, Names column expression ∧ IsColumn column := by
  unfold IsOrder Names
  generalize words expression.toList = parts
  constructor
  · rintro ⟨item, h⟩
    cases h with
    | bare hcolumn => exact ⟨_, .inl rfl, hcolumn⟩
    | minus hcolumn => exact ⟨_, .inr (.inl rfl), hcolumn⟩
    | directed hcolumn hdirection =>
        exact ⟨_, .inr (.inr ⟨_, rfl, (direction?_eq_some_iff.1 hdirection).1⟩), hcolumn⟩
  · rintro ⟨column, rfl | rfl | ⟨word, rfl, hdirection⟩, hcolumn⟩
    · exact ⟨_, .bare hcolumn⟩
    · exact ⟨_, .minus hcolumn⟩
    · exact ⟨_, .directed hcolumn (direction?_eq_some_iff.2 ⟨hdirection, rfl⟩)⟩

/-- The column of an order expression is the one that it asks for. -/
theorem Names.eq_asked {expression : String} {column : List Char} (h : Names column expression)
    (hcolumn : IsColumn column) : (asked expression).column.toList = column := by
  obtain ⟨item, hitem, hname⟩ : ∃ item, Written (words expression.toList) item ∧
      item.column.toList = column := by
    rcases h with h | h | ⟨word, h, hdirection⟩ <;> rw [h]
    · exact ⟨_, .bare hcolumn, String.toList_ofList⟩
    · exact ⟨_, .minus hcolumn, String.toList_ofList⟩
    · exact ⟨_, .directed hcolumn (direction?_eq_some_iff.2 ⟨hdirection, rfl⟩),
        String.toList_ofList⟩
  rw [← hitem.eq_asked, hname]

end OrderItem

/-! ### Orders -/

open OrderItem

/-- **Some order expressions are read as what they ask for**, if each of them is one. -/
theorem readOrders_eq_ok_iff {expressions : List String} {items : List OrderItem} :
    readOrders expressions = .ok items ↔
      (∀ e ∈ expressions, IsOrder e) ∧ items = expressions.map asked := by
  induction expressions generalizing items with
  | nil => simp [readOrders, eq_comm]
  | cons first rest ih =>
      by_cases hfirst : IsOrder first
      · obtain ⟨item, hitem⟩ := hfirst
        rw [readOrders, read?_eq_some_iff.2 hitem, List.forall_mem_cons, List.map_cons,
          ← hitem.eq_asked]
        have hmore : ∀ more : List OrderItem, readOrders rest = .ok more ↔
            (∀ e ∈ rest, IsOrder e) ∧ more = rest.map asked := fun _ => ih
        cases hrest : readOrders rest with
        | error failure =>
            simp only [hrest, reduceCtorEq, false_iff] at hmore ⊢
            rintro ⟨⟨-, horders⟩, -⟩
            exact hmore _ ⟨horders, rfl⟩
        | ok more =>
            obtain ⟨horders, rfl⟩ := (hmore more).1 hrest
            constructor
            · intro h
              cases h
              exact ⟨⟨⟨item, hitem⟩, horders⟩, rfl⟩
            · rintro ⟨-, rfl⟩
              rfl
      · rw [readOrders_cons_of_not hfirst, List.forall_mem_cons]
        simp [hfirst]

namespace FilterSpec

variable {spec : FilterSpec} {d : Dialect}

/-- The text of an order, from what its expressions ask for. -/
theorem orderBy_of_isOrder (h : ∀ e ∈ spec.orders, IsOrder e) (hne : spec.orders ≠ []) :
    spec.orderBy d =
      .ok (some ("ORDER BY " ++ ", ".intercalate ((spec.orders.map asked).map (text d)))) := by
  rw [orderBy, readOrders_eq_ok_iff.2 ⟨h, rfl⟩]
  obtain ⟨first, rest, hcons⟩ := List.exists_cons_of_ne_nil hne
  rw [hcons]
  rfl

/-- An order is accepted exactly if each of its expressions is one. -/
theorem exists_orderBy_eq_ok_iff :
    (∃ text, spec.orderBy d = .ok text) ↔ ∀ e ∈ spec.orders, IsOrder e := by
  constructor
  · rintro ⟨text, h⟩ e he
    rw [orderBy] at h
    cases hread : readOrders spec.orders with
    | error failure =>
        rw [hread] at h
        cases h
    | ok items => exact (readOrders_eq_ok_iff.1 hread).1 e he
  · intro h
    by_cases hne : spec.orders = []
    · exact ⟨none, by rw [orderBy, hne]; rfl⟩
    · exact ⟨_, orderBy_of_isOrder h hne⟩

/-- A text is written only for an order that is accepted and not empty. -/
theorem of_orderBy_eq_some {text : String} (h : spec.orderBy d = .ok (some text)) :
    (∀ e ∈ spec.orders, IsOrder e) ∧ spec.orders ≠ [] := by
  refine ⟨exists_orderBy_eq_ok_iff.1 ⟨_, h⟩, ?_⟩
  intro hnil
  rw [orderBy, hnil] at h
  cases h

end FilterSpec

/-! ### Texts -/

namespace Flavour

theorem clean_nil (f : Flavour) : f.Clean [] := nofun

theorem clean_name_cons (f : Flavour) {form : List Fragment} :
    f.Clean (.name :: form) ↔ f.Clean form := by
  simp [Clean]

theorem clean_fixed_cons (f : Flavour) {text : String} {form : List Fragment} :
    f.Clean (.fixed text :: form) ↔
      (∀ c ∈ text.toList, f.isMark c = false) ∧ f.Clean form := by
  simp [Clean]

end Flavour

namespace OrderItem

/-- The text of a direction, behind a column. -/
def directionText (descending : Bool) : String := if descending then " DESC" else " ASC"

/-- What stands in the text of an order besides its columns. -/
def keywords : List String := ["ORDER BY ", ", ", " ASC", " DESC"]

theorem directionText_mem_keywords (descending : Bool) : directionText descending ∈ keywords := by
  cases descending <;> decide

/-- The keywords and what joins the items are letters, blanks and commas. -/
theorem letter_or_of_mem_keywords {word : String} (hword : word ∈ keywords) {c : Char}
    (hc : c ∈ word.toList) : isLetter c = true ∨ c = ',' ∨ c = ' ' := by
  have hall : (keywords.all fun word => word.toList.all fun c =>
      isLetter c || c == ',' || c == ' ') = true := by decide
  simpa [or_assoc] using List.all_eq_true.1 (List.all_eq_true.1 hall word hword) c hc

/-- None of their characters has a meaning. -/
theorem isMark_of_mem_keywords (f : Flavour) {word : String} (hword : word ∈ keywords) :
    ∀ c ∈ word.toList, f.isMark c = false := by
  have hall : (keywords.all fun word => word.toList.all fun c => !f.isMark c) = true := by
    rcases f with (_ | _) | _ <;> decide
  simpa using List.all_eq_true.1 hall word hword

/-- The text of an order without its keywords, as pieces. -/
def rowSql : List OrderItem → Sql
  | [] => []
  | [item] => [.column item.column, .code (directionText item.descending)]
  | item :: items =>
      .column item.column :: .code (directionText item.descending) :: .code ", " :: rowSql items

theorem columns_rowSql (items : List OrderItem) :
    (rowSql items).columns = items.map OrderItem.column := by
  induction items with
  | nil => rfl
  | cons item items ih =>
      cases items with
      | nil => rfl
      | cons next items => exact congrArg (item.column :: ·) ih

/-- Behind every column of a row stands its direction. -/
theorem separated_rowSql (items : List OrderItem) : separated (rowSql items).fragments = true := by
  have hclose : ∀ descending, closesName [.fixed (directionText descending)] = true := by
    decide
  induction items with
  | nil => rfl
  | cons item items ih =>
      cases items with
      | nil => exact Bool.and_eq_true_iff.2 ⟨hclose item.descending, rfl⟩
      | cons next items => exact Bool.and_eq_true_iff.2 ⟨hclose item.descending, ih⟩

/-- Nothing in a row but its columns holds a quote. -/
theorem clean_rowSql (f : Flavour) (items : List OrderItem) : f.Clean (rowSql items).fragments := by
  have hdirection (item : OrderItem) :=
    isMark_of_mem_keywords f (directionText_mem_keywords item.descending)
  have hcomma : ∀ c ∈ ", ".toList, f.isMark c = false :=
    isMark_of_mem_keywords f (by simp [keywords])
  induction items with
  | nil => exact f.clean_nil
  | cons item items ih =>
      cases items with
      | nil => exact f.clean_name_cons.2 (f.clean_fixed_cons.2 ⟨hdirection item, f.clean_nil⟩)
      | cons next items =>
          exact f.clean_name_cons.2 (f.clean_fixed_cons.2 ⟨hdirection item,
            f.clean_fixed_cons.2 ⟨hcomma, ih⟩⟩)

/-- A row is written item by item, with commas between them. -/
theorem textFrom_rowSql (d : Dialect) (bound : Nat) (items : List OrderItem) :
    (rowSql items).textFrom d.quote d.placeholder bound =
      ", ".intercalate (items.map (text d)) := by
  induction items with
  | nil => rfl
  | cons item items ih =>
      cases items with
      | nil => simp [rowSql, Sql.textFrom, text, directionText]
      | cons next items =>
          rw [List.map_cons, String.intercalate_cons_of_ne_nil (by simp), ← ih]
          simp only [rowSql, Sql.textFrom, text, directionText, String.append_assoc]

end OrderItem

/-! ### Reading a text -/

/-- A dotted name as text. -/
def dottedText (parts : List (List Char)) : String := String.ofList (['.'].intercalate parts)

/-- The items of a row: names with a direction behind each, and a comma and a blank between them. -/
def readItems : List Lexeme → Option (List OrderItem)
  | [.name parts, .sign ' ', .sign 'A', .sign 'S', .sign 'C'] => some [⟨dottedText parts, false⟩]
  | [.name parts, .sign ' ', .sign 'D', .sign 'E', .sign 'S', .sign 'C'] =>
      some [⟨dottedText parts, true⟩]
  | .name parts :: .sign ' ' :: .sign 'A' :: .sign 'S' :: .sign 'C' :: .sign ',' :: .sign ' ' ::
      rest => (readItems rest).map (⟨dottedText parts, false⟩ :: ·)
  | .name parts :: .sign ' ' :: .sign 'D' :: .sign 'E' :: .sign 'S' :: .sign 'C' :: .sign ',' ::
      .sign ' ' :: rest => (readItems rest).map (⟨dottedText parts, true⟩ :: ·)
  | _ => none

/-- The columns and directions in the text of an order, whose names stand between quotes. -/
def readOrderText (quote : Char) (text : String) : Option (List OrderItem) := do
  let row ← dropLead? "ORDER BY ".toList text.toList
  let tokens ← lex quote .outside row
  readItems (joinNames tokens)

theorem dottedText_splitOn (name : String) : dottedText (splitOn '.' name.toList) = name := by
  rw [dottedText, intercalate_splitOn, String.ofList_toList]

/-- A row is read from its lexemes. -/
theorem readItems_lexemes (placeholder : Nat → String) {items : List OrderItem} (hne : items ≠ []) :
    readItems ((rowSql items).lexemes placeholder 0) = some items := by
  induction items with
  | nil => exact absurd rfl hne
  | cons item items ih =>
      obtain ⟨column, descending⟩ := item
      have hname := dottedText_splitOn column
      cases items with
      | nil =>
          cases descending <;>
            simp [rowSql, Sql.lexemes, directionText, readItems, hname]
      | cons next items =>
          have hrest := ih (by simp)
          cases descending <;>
            simp [rowSql, Sql.lexemes, directionText, readItems, hname, hrest]

/-- What a reader of identifiers finds in a row. -/
theorem lex_rowSql (f : Flavour) (r : ReservedKeys) (items : List OrderItem) :
    lex f.quoteMark .outside (", ".intercalate (items.map (text (f.dialect r)))).toList =
      some ((rowSql items).tokens f.style.placeholder 0) := by
  have hlex := f.lex_textFrom (clean_rowSql f items) (separated_rowSql items) 0
  have htext := textFrom_rowSql (f.dialect r) 0 items
  rw [Flavour.quote_dialect, Flavour.placeholder_dialect] at htext
  rwa [htext] at hlex

/-- The names in the text of an order are its columns, cut at their dots. -/
theorem exists_lex_orderText (f : Flavour) (r : ReservedKeys) (items : List OrderItem) :
    ∃ tokens,
      lex f.quoteMark .outside
        ("ORDER BY " ++ ", ".intercalate (items.map (text (f.dialect r)))).toList = some tokens ∧
      names (joinNames tokens) = items.map fun item => splitOn '.' item.column.toList := by
  have hquote : f.quoteMark ∉ "ORDER BY ".toList := by rcases f with (_ | _) | _ <;> decide
  refine ⟨_, by rw [String.toList_append, lex_signs hquote, lex_rowSql]; rfl, ?_⟩
  rw [joinNames_signs, names_signs, joinNames_tokens _ (separated_rowSql items), names_lexemes,
    columns_rowSql, List.map_map]
  rfl

/-- **A row of columns is read as it is written.** -/
theorem readOrderText_text (f : Flavour) (r : ReservedKeys) {items : List OrderItem}
    (hne : items ≠ []) :
    readOrderText f.quoteMark ("ORDER BY " ++ ", ".intercalate (items.map (text (f.dialect r)))) =
      some items := by
  rw [readOrderText, String.toList_append, dropLead?_append, Option.bind_eq_bind, Option.bind_some,
    lex_rowSql, Option.bind_eq_bind, Option.bind_some,
    joinNames_tokens f.style.placeholder (separated_rowSql items),
    readItems_lexemes f.style.placeholder hne]

/-! ### Characters of a text -/

/-- The characters that the text of an order may hold: letters, digits, four signs and the quote. -/
def InOrderText (quote c : Char) : Prop :=
  isLetter c = true ∨ isDigit c = true ∨ c ∈ ['_', '.', ',', ' ', quote]

theorem inOrderText_of_isColumnChar {quote c : Char} (h : isColumnChar c = true) :
    InOrderText quote c := by
  refine (isColumnChar_iff.1 h).imp_right (Or.imp_right fun hsign => ?_)
  rcases hsign with rfl | rfl <;> simp

theorem inOrderText_of_mem_keywords {quote c : Char} {word : String} (hword : word ∈ keywords)
    (hc : c ∈ word.toList) : InOrderText quote c := by
  rcases letter_or_of_mem_keywords hword hc with hletter | rfl | rfl
  · exact .inl hletter
  · exact .inr (.inr (by simp))
  · exact .inr (.inr (by simp))

theorem inOrderText_of_mem_text {f : Flavour} {r : ReservedKeys} {item : OrderItem} {c : Char}
    (hcolumn : IsColumn item.column.toList) (hc : c ∈ (text (f.dialect r) item).toList) :
    InOrderText f.quoteMark c := by
  rw [text, Flavour.quote_dialect, String.toList_append, List.mem_append] at hc
  rcases hc with hname | hdirection
  · rcases of_mem_quotedName hname with rfl | rfl | hc
    · exact .inr (.inr (by simp))
    · exact .inr (.inr (by simp))
    · exact inOrderText_of_isColumnChar (hcolumn.2 c hc)
  · exact inOrderText_of_mem_keywords (directionText_mem_keywords item.descending) hdirection

/-- No other character gets into the text of an order whose columns are accepted. -/
theorem inOrderText_of_mem {f : Flavour} {r : ReservedKeys} {items : List OrderItem}
    (hcolumns : ∀ item ∈ items, IsColumn item.column.toList) {c : Char}
    (hc : c ∈ ("ORDER BY " ++ ", ".intercalate (items.map (text (f.dialect r)))).toList) :
    InOrderText f.quoteMark c := by
  rw [String.toList_append, List.mem_append, String.toList_intercalate] at hc
  rcases hc with hkeywords | hrow
  · exact inOrderText_of_mem_keywords (by simp [keywords]) hkeywords
  obtain hcomma | ⟨piece, hpiece, hc⟩ := of_mem_intercalate hrow
  · exact inOrderText_of_mem_keywords (by simp [keywords]) hcomma
  rw [List.map_map] at hpiece
  obtain ⟨item, hitem, rfl⟩ := List.mem_map.1 hpiece
  exact inOrderText_of_mem_text (hcolumns item hitem) hc

/-! ### Accepted orders -/

namespace FilterSpec

/-- **An order is accepted exactly if each of its expressions names a dotted column or one with a
dot too many.**  A reader of its text finds an empty identifier exactly if some expression is of the
second kind. -/
theorem exists_orderBy_iff (f : Flavour) (r : ReservedKeys) (spec : FilterSpec) :
    ((∃ text, spec.orderBy (f.dialect r) = .ok text) ↔
      ∀ e ∈ spec.orders, ∃ column, Names column e ∧ (IsDotted column ∨ IsGapped column)) ∧
    ∀ text, spec.orderBy (f.dialect r) = .ok (some text) →
      ∃ tokens, lex f.quoteMark .outside text.toList = some tokens ∧
        ((∃ name ∈ names (joinNames tokens), [] ∈ name) ↔
          ∃ e ∈ spec.orders, ∃ column, Names column e ∧ IsGapped column) := by
  constructor
  · rw [exists_orderBy_eq_ok_iff]
    simp only [isOrder_iff, isColumn_iff]
  · intro text htext
    obtain ⟨horders, hne⟩ := of_orderBy_eq_some htext
    rw [orderBy_of_isOrder horders hne] at htext
    cases htext
    obtain ⟨tokens, hlex, hnames⟩ := exists_lex_orderText f r (spec.orders.map asked)
    refine ⟨tokens, hlex, ?_⟩
    rw [hnames]
    simp only [List.map_map, List.mem_map, Function.comp_apply, exists_exists_and_eq_and]
    refine exists_congr fun e => and_congr_right fun he => ?_
    obtain ⟨column, hnamed, hcolumn⟩ := isOrder_iff.1 (horders e he)
    have hasked := hnamed.eq_asked hcolumn
    constructor
    · intro hgap
      exact ⟨column, hnamed, hcolumn, by rwa [hasked] at hgap⟩
    · rintro ⟨column', hnamed', hgapped⟩
      rw [hnamed'.eq_asked hgapped.1]
      exact hgapped.2

/-- A column with a doubled dot is accepted, and written with an empty identifier in it. -/
theorem orderBy_of_doubled_dot :
    ({ orders := ["t..x"] } : FilterSpec).orderBy ((Flavour.postgres .question).dialect {}) =
        .ok (some "ORDER BY \"t\".\"\".\"x\" ASC") ∧
      ¬ ∃ column, Names column "t..x" ∧ IsDotted column := by
  refine ⟨rfl, ?_⟩
  rintro ⟨column, hnamed, hdotted⟩
  have hasked := hnamed.eq_asked hdotted.isColumn
  have hcolumn : column = "t..x".toList := hasked.symm.trans rfl
  subst hcolumn
  exact (hdotted.splitOn [] (by decide)).1 rfl

/-- **The text of an order says what was asked for**, item by item, and holds no character but
letters, digits, four signs and the quote; so an order with the same text asks for the same. -/
theorem asked_of_orderBy (f : Flavour) (r : ReservedKeys) {spec : FilterSpec}
    (hne : spec.orders ≠ []) {result : Option String}
    (h : spec.orderBy (f.dialect r) = .ok result) :
    ∃ written, result = some written ∧
      written =
        "ORDER BY " ++ ", ".intercalate ((spec.orders.map asked).map (text (f.dialect r))) ∧
      (∀ c ∈ written.toList, InOrderText f.quoteMark c) ∧
      readOrderText f.quoteMark written = some (spec.orders.map asked) ∧
      ∀ (r' : ReservedKeys) (spec' : FilterSpec), spec'.orderBy (f.dialect r') = .ok result →
        spec'.orders.map asked = spec.orders.map asked := by
  have horders := exists_orderBy_eq_ok_iff.1 ⟨_, h⟩
  rw [orderBy_of_isOrder horders hne] at h
  cases h
  have hread := readOrderText_text f r (List.map_eq_nil_iff.not.2 hne : spec.orders.map asked ≠ [])
  refine ⟨_, rfl, rfl, fun c => inOrderText_of_mem ?_, hread, ?_⟩
  · refine List.forall_mem_map.2 fun e he => ?_
    obtain ⟨item, hitem⟩ := horders e he
    rw [← hitem.eq_asked]
    exact hitem.isColumn
  · intro r' spec' h'
    obtain ⟨horders', hne'⟩ := of_orderBy_eq_some h'
    rw [orderBy_of_isOrder horders' hne'] at h'
    have hread' := readOrderText_text f r'
      (List.map_eq_nil_iff.not.2 hne' : spec'.orders.map asked ≠ [])
    rw [Option.some.inj (Except.ok.inj h'), hread] at hread'
    exact (Option.some.inj hread').symm

/-- A sign in front, a direction behind, and dots in every place. -/
theorem asked_of_dots_and_directions :
    ∃ spec : FilterSpec, spec.orders = ["-t.x", " name DeSC ", "..", "a\u2003asc"] ∧
      spec.orders ≠ [] ∧ ∃ written,
      spec.orderBy (Flavour.mysql.dialect {}) = .ok (some written) ∧
      readOrderText '\x60' written =
        some [⟨"t.x", true⟩, ⟨"name", true⟩, ⟨"..", false⟩, ⟨"a", false⟩] := by
  have hne : ({ orders := ["-t.x", " name DeSC ", "..", "a\u2003asc"] } : FilterSpec).orders ≠ [] :=
    List.cons_ne_nil _ _
  refine ⟨_, rfl, hne, ?_⟩
  obtain ⟨written, hresult, -, -, hread, -⟩ := asked_of_orderBy .mysql {} hne rfl
  exact ⟨written, congrArg Except.ok hresult, hread⟩

end FilterSpec

end WhereClause

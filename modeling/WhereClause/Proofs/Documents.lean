/-
**Values of a document are read as they are written.**

Arrays and objects are read by one loop each.  A loop hands every item to a step, and what the loop
gives is what the steps give, one after another; so a value is read as it is written if each of its
items is.  Where a number ends is seen from the byte behind it, and behind an item stands a comma or
the bracket that closes the array, which no number goes on with.

Main definitions:

* `WhereClause.Json.Reads` — bytes that are read as a value, whatever ends them;
* `WhereClause.Json.Steps` — a state that becomes another one, item by item;
* `WhereClause.Json.Exact` — the values of which a document loses nothing;
* `WhereClause.Json.nesting` — the number of arrays and objects inside each other.

Main results:

* `WhereClause.Json.foldItems_of_steps`, `WhereClause.Json.foldMembers_of_steps` — what the loops
  give;
* `WhereClause.Json.reads_value` — **a value is read as it is written**, if it is nested no deeper
  than the reader allows.
-/

import WhereClause.Proofs.DocumentPieces

set_option relaxedAutoImplicit false
set_option autoImplicit false

namespace WhereClause.Json

open Text Utf8

/-! ### Readers -/

/-- Bytes that begin something: not with a blank, and not with what closes an array. -/
def Starts (bytes : List UInt8) : Prop :=
  ∃ b rest, bytes = b :: rest ∧ isSpace b = false ∧ b ≠ byte ']'

theorem Starts.append {bytes : List UInt8} (h : Starts bytes) (rest : List UInt8) :
    Starts (bytes ++ rest) := by
  obtain ⟨b, bytes, rfl, hspace, hclosing⟩ := h
  exact ⟨b, bytes ++ rest, rfl, hspace, hclosing⟩

/-- Bytes that are read as a value, whatever ends them. -/
structure Reads {α : Type} (read : List UInt8 → Except Fault (α × List UInt8))
    (bytes : List UInt8) (a : α) : Prop where
  starts : Starts bytes
  read_append : ∀ rest, Follows rest → read (bytes ++ rest) = .ok (a, rest)

/-- What is made of a value is read where the value is. -/
theorem Reads.map {α β : Type} {read : List UInt8 → Except Fault (α × List UInt8)}
    {bytes : List UInt8} {a : α} (h : Reads read bytes a) (f : α → β) :
    Reads (fun bytes => do
      let (a, rest) ← read bytes
      pure (f a, rest)) bytes (f a) where
  starts := h.starts
  read_append := fun rest hrest => by
    simp only [h.read_append rest hrest, ok_bind]
    rfl

/-! ### Loops -/

/-- What stands before an item: a comma, unless it is the first one. -/
def separator (first : Bool) : List UInt8 := if first then [] else [byte ',']

/-- Items with commas between them, and what closes the list; behind an item, if `first` is
false. -/
def listed (closing : UInt8) : Bool → List (List UInt8) → List UInt8
  | _, [] => [closing]
  | first, item :: items => separator first ++ (item ++ listed closing false items)

/-- A state that becomes another one, item by item. -/
inductive Steps {σ : Type} (step : σ → List UInt8 → Except Fault (σ × List UInt8)) :
    σ → List (List UInt8) → σ → Prop
  | nil {state : σ} : Steps step state [] state
  | cons {state next last : σ} {item : List UInt8} {items : List (List UInt8)} :
      Reads (step state) item next → Steps step next items last →
      Steps step state (item :: items) last

/-- A comma ends a number, and so does what closes a list. -/
theorem follows_listed {closing : UInt8} (h : closing = byte ']' ∨ closing = byte '\x7d')
    (items : List (List UInt8)) (rest : List UInt8) :
    Follows (listed closing false items ++ rest) := by
  intro b hb
  cases items with
  | nil =>
      cases hb
      rcases h with rfl | rfl <;> decide
  | cons item items =>
      cases hb
      decide

/-- There are no more items than bytes. -/
theorem Steps.length_lt {σ : Type} {step : σ → List UInt8 → Except Fault (σ × List UInt8)}
    {state last : σ} {items : List (List UInt8)} (h : Steps step state items last)
    (closing : UInt8) (first : Bool) : items.length < (listed closing first items).length := by
  induction h generalizing first with
  | nil => simp [listed]
  | cons hitem _ ih =>
      obtain ⟨b, item, rfl, -, -⟩ := hitem.starts
      have hitems := ih false
      simp only [listed, List.length_cons, List.length_append]
      omega

section Loops

variable {σ : Type} {state next last : σ} {item tail rest : List UInt8}
  {items : List (List UInt8)} {rounds : Nat}

section Items

variable {step : σ → List UInt8 → Except Fault (σ × List UInt8)}

/-- One round of the loop over the items of an array. -/
theorem foldItems_separator (first : Bool) (hstarts : Starts item)
    (hread : step state (item ++ tail) = .ok (next, tail)) :
    foldItems step (rounds + 1) first state (separator first ++ (item ++ tail)) =
      foldItems step rounds false next tail := by
  obtain ⟨b, item, rfl, hspace, hclosing⟩ := hstarts
  rw [List.cons_append] at hread ⊢
  cases first with
  | true =>
      simp only [separator, if_true, List.nil_append, foldItems, skipSpace_of_not_isSpace hspace,
        hclosing, if_false, hread]
  | false =>
      have hcomma : isSpace (byte ',') = false := by decide
      have hne : byte ',' ≠ byte ']' := by decide
      simp only [separator, Bool.false_eq_true, if_false, List.cons_append, List.nil_append,
        foldItems, skipSpace_of_not_isSpace hcomma, hne, if_true, skipSpace_of_not_isSpace hspace,
        hclosing, hread]

/-- All the rounds of the loop: the steps, one after another. -/
theorem foldItems_listed (h : Steps step state items last) (hrounds : items.length < rounds)
    (first : Bool) (rest : List UInt8) :
    foldItems step rounds first state (listed (byte ']') first items ++ rest) =
      .ok (last, rest) := by
  induction h generalizing rounds first with
  | nil =>
      cases rounds with
      | zero => cases hrounds
      | succ rounds => rfl
  | @cons state next last item items hitem _ ih =>
      cases rounds with
      | zero => cases hrounds
      | succ rounds =>
          have hread := hitem.read_append _ (follows_listed (.inl rfl) items rest)
          rw [listed, List.append_assoc, List.append_assoc,
            foldItems_separator first hitem.starts hread]
          exact ih (Nat.lt_of_succ_lt_succ hrounds) false

/-- **The loop over the items of an array gives what its steps give.** -/
theorem foldItems_of_steps (h : Steps step state items last) (rest : List UInt8) :
    foldItems step ((listed (byte ']') true items ++ rest).length + 1) true state
      (listed (byte ']') true items ++ rest) = .ok (last, rest) := by
  have hlength := h.length_lt (byte ']') true
  refine foldItems_listed h ?_ true rest
  rw [List.length_append]
  omega

end Items

section Members

variable {κ : Type} {name : List UInt8 → Except Fault (κ × List UInt8)}
  {step : σ → κ → List UInt8 → Except Fault (σ × List UInt8)}

/-- A member as one step: its name in quotation marks, and what the step makes of the rest. -/
def memberStep (name : List UInt8 → Except Fault (κ × List UInt8))
    (step : σ → κ → List UInt8 → Except Fault (σ × List UInt8)) (state : σ) :
    List UInt8 → Except Fault (σ × List UInt8)
  | [] => .error .truncated
  | b :: rest =>
      if b = byte '"' then do
        let (k, rest) ← name rest
        step state k rest
      else .error .malformed

/-- A member that is read has a name in quotation marks. -/
theorem memberStep_eq_ok_iff {b : UInt8} {bytes : List UInt8} :
    memberStep name step state (b :: bytes) = .ok (next, rest) ↔
      b = byte '"' ∧ ∃ k bytes', name bytes = .ok (k, bytes') ∧
        step state k bytes' = .ok (next, rest) := by
  by_cases hb : b = byte '"'
  · simp [memberStep, hb, bind_eq_ok_iff]
  · simp [memberStep, hb]

/-- One round of the loop over the members of an object. -/
theorem foldMembers_separator (first : Bool) (hstarts : Starts item)
    (hread : memberStep name step state (item ++ tail) = .ok (next, tail)) :
    foldMembers name step (rounds + 1) first state (separator first ++ (item ++ tail)) =
      foldMembers name step rounds false next tail := by
  obtain ⟨b, item, rfl, hspace, -⟩ := hstarts
  rw [List.cons_append] at hread ⊢
  obtain ⟨rfl, k, bytes, hname, hstep⟩ := memberStep_eq_ok_iff.1 hread
  cases first with
  | true =>
      have hne : byte '"' ≠ byte '\x7d' := by decide
      simp only [separator, if_true, List.nil_append, foldMembers, skipSpace_of_not_isSpace hspace,
        hne, if_false, hname, hstep]
  | false =>
      have hcomma : isSpace (byte ',') = false := by decide
      have hne : byte ',' ≠ byte '\x7d' := by decide
      simp only [separator, Bool.false_eq_true, if_false, List.cons_append, List.nil_append,
        foldMembers, skipSpace_of_not_isSpace hcomma, hne, if_true,
        skipSpace_of_not_isSpace hspace, hname, hstep]

/-- All the rounds of the loop: the steps, one after another. -/
theorem foldMembers_listed (h : Steps (memberStep name step) state items last)
    (hrounds : items.length < rounds) (first : Bool) (rest : List UInt8) :
    foldMembers name step rounds first state (listed (byte '\x7d') first items ++ rest) =
      .ok (last, rest) := by
  induction h generalizing rounds first with
  | nil =>
      cases rounds with
      | zero => cases hrounds
      | succ rounds => rfl
  | @cons state next last item items hitem _ ih =>
      cases rounds with
      | zero => cases hrounds
      | succ rounds =>
          have hread := hitem.read_append _ (follows_listed (.inr rfl) items rest)
          rw [listed, List.append_assoc, List.append_assoc,
            foldMembers_separator first hitem.starts hread]
          exact ih (Nat.lt_of_succ_lt_succ hrounds) false

/-- **The loop over the members of an object gives what its steps give.** -/
theorem foldMembers_of_steps (h : Steps (memberStep name step) state items last)
    (rest : List UInt8) :
    foldMembers name step ((listed (byte '\x7d') true items ++ rest).length + 1) true state
      (listed (byte '\x7d') true items ++ rest) = .ok (last, rest) := by
  have hlength := h.length_lt (byte '\x7d') true
  refine foldMembers_listed h ?_ true rest
  rw [List.length_append]
  omega

end Members

end Loops

/-! ### Layout -/

/-- The bytes of the items behind the first one. -/
theorem encode_itemChars (items : List Json) :
    encode (itemChars items) = listed (byte ']') false (items.map fun j => encode (chars j)) := by
  induction items with
  | nil => rfl
  | cons item items ih =>
      rw [itemChars, encode_cons_of_lt (by decide), encode_append, ih]
      rfl

/-- The bytes of an array. -/
theorem encode_chars_array (items : List Json) :
    encode (chars (.array items)) =
      byte '[' :: listed (byte ']') true (items.map fun j => encode (chars j)) := by
  cases items with
  | nil => rfl
  | cons item items =>
      rw [chars, encode_cons_of_lt (by decide), encode_append, encode_itemChars]
      rfl

/-- The bytes of a member. -/
def memberBytes (m : String × Json) : List UInt8 :=
  encode (quoted m.1) ++ byte ':' :: encode (chars m.2)

/-- The bytes of the members behind the first one. -/
theorem encode_memberChars (members : List (String × Json)) :
    encode (memberChars members) = listed (byte '\x7d') false (members.map memberBytes) := by
  induction members with
  | nil => rfl
  | cons m members ih =>
      rw [memberChars, encode_cons_of_lt (by decide), encode_append,
        encode_cons_of_lt (by decide), encode_append, ih]
      simp [listed, separator, memberBytes]

/-- The bytes of an object. -/
theorem encode_chars_object (members : List (String × Json)) :
    encode (chars (.object members)) =
      byte '\x7b' :: listed (byte '\x7d') true (members.map memberBytes) := by
  cases members with
  | nil => rfl
  | cons m members =>
      rw [chars, encode_cons_of_lt (by decide), encode_append, encode_cons_of_lt (by decide),
        encode_append, encode_memberChars]
      simp [listed, separator, memberBytes]

/-! ### Values -/

/-- The values of which a document loses nothing: their numbers are whole and of 64 bits, and the
members of their objects are sorted by name, one of each name. -/
inductive Exact : Json → Prop
  | null : Exact .null
  | bool (b : Bool) : Exact (.bool b)
  | integer {n : Int} : -(Int.pow 2 63) ≤ n → n < Int.pow 2 64 → Exact (.integer n)
  | string (s : String) : Exact (.string s)
  | array {items : List Json} : (∀ j ∈ items, Exact j) → Exact (.array items)
  | object {members : List (String × Json)} : members.Pairwise (fun m m' => m.1 < m'.1) →
      (∀ m ∈ members, Exact m.2) → Exact (.object members)

mutual

/-- The number of arrays and objects inside each other. -/
def nesting : Json → Nat
  | null | bool _ | integer _ | single _ | double _ | string _ => 0
  | array items => itemsNesting items + 1
  | object members => membersNesting members + 1

/-- The nesting of the item that is nested deepest. -/
def itemsNesting : List Json → Nat
  | [] => 0
  | item :: items => max (nesting item) (itemsNesting items)

/-- The nesting of the member that is nested deepest. -/
def membersNesting : List (String × Json) → Nat
  | [] => 0
  | (_, value) :: members => max (nesting value) (membersNesting members)

end

theorem nesting_le_itemsNesting {j : Json} {items : List Json} (h : j ∈ items) :
    nesting j ≤ itemsNesting items := by
  induction items with
  | nil => cases h
  | cons item items ih =>
      rw [itemsNesting]
      rcases List.mem_cons.1 h with rfl | hmem
      · exact Nat.le_max_left _ _
      · exact Nat.le_trans (ih hmem) (Nat.le_max_right _ _)

theorem nesting_le_membersNesting {m : String × Json} {members : List (String × Json)}
    (h : m ∈ members) : nesting m.2 ≤ membersNesting members := by
  induction members with
  | nil => cases h
  | cons m' members ih =>
      rw [membersNesting]
      rcases List.mem_cons.1 h with rfl | hmem
      · exact Nat.le_max_left _ _
      · exact Nat.le_trans (ih hmem) (Nat.le_max_right _ _)

/-! ### Arrays and objects -/

/-- The step of a loop that gathers what it reads, the last item first. -/
def gather {α : Type} (read : List UInt8 → Except Fault (α × List UInt8)) (items : List α)
    (bytes : List UInt8) : Except Fault (List α × List UInt8) := do
  let (item, rest) ← read bytes
  pure (item :: items, rest)

theorem steps_gather {α : Type} {read : List UInt8 → Except Fault (α × List UInt8)}
    {write : α → List UInt8} {items : List α} (h : ∀ a ∈ items, Reads read (write a) a)
    (done : List α) : Steps (gather read) done (items.map write) (items.reverse ++ done) := by
  induction items generalizing done with
  | nil => exact .nil
  | cons a items ih =>
      obtain ⟨ha, hitems⟩ := List.forall_mem_cons.1 h
      rw [List.reverse_cons, List.append_assoc]
      exact .cons (ha.map (· :: done)) (ih hitems (a :: done))

theorem starts_quoted (s : String) : Starts (encode (quoted s)) :=
  ⟨_, _, by rw [← List.append_nil (encode _), encode_quoted], by decide, by decide⟩

/-- A member is read if its step reads what stands behind its name. -/
theorem reads_memberBytes {σ : Type}
    {step : σ → String → List UInt8 → Except Fault (σ × List UInt8)} {state next : σ}
    {m : String × Json}
    (h : ∀ rest, Follows rest →
      step state m.1 (byte ':' :: (encode (chars m.2) ++ rest)) = .ok (next, rest)) :
    Reads (memberStep readString step state) (memberBytes m) next where
  starts := (starts_quoted m.1).append _
  read_append := fun rest hrest => by
    rw [memberBytes, List.append_assoc, encode_quoted, memberStep_eq_ok_iff]
    exact ⟨rfl, m.1, _, readString_quoted m.1 _, h rest hrest⟩

theorem readColon_colon (bytes : List UInt8) : readColon (byte ':' :: bytes) = .ok bytes := rfl

/-- The step of a loop that puts members into their places. -/
def putMember (read : List UInt8 → Except Fault (Json × List UInt8))
    (members : List (String × Json)) (k : String) (bytes : List UInt8) :
    Except Fault (List (String × Json) × List UInt8) := do
  let rest ← readColon bytes
  let (value, rest) ← read rest
  pure (insertMember k value members, rest)

/-- A member whose name is behind all others is put at the end. -/
theorem insertMember_of_forall_lt {members : List (String × Json)} {k : String} (value : Json)
    (h : ∀ m ∈ members, m.1 < k) : insertMember k value members = members ++ [(k, value)] := by
  induction members with
  | nil => rfl
  | cons m members ih =>
      obtain ⟨hm, hmembers⟩ := List.forall_mem_cons.1 h
      have hne : k ≠ m.1 := by
        rintro rfl
        exact String.lt_irrefl _ hm
      rw [insertMember, if_neg hne, if_neg (String.lt_asymm hm), ih hmembers, List.cons_append]

/-- The members of an object are put into their places one by one, which is at the end. -/
theorem steps_putMember {read : List UInt8 → Except Fault (Json × List UInt8)}
    {members : List (String × Json)} (h : ∀ m ∈ members, Reads read (encode (chars m.2)) m.2)
    (done : List (String × Json)) (hsorted : (done ++ members).Pairwise fun m m' => m.1 < m'.1) :
    Steps (memberStep readString (putMember read)) done (members.map memberBytes)
      (done ++ members) := by
  induction members generalizing done with
  | nil =>
      rw [List.append_nil]
      exact .nil
  | cons m members ih =>
      obtain ⟨hm, hmembers⟩ := List.forall_mem_cons.1 h
      -- all members that are in place already stand before this one
      have hlast : ∀ m' ∈ done, m'.1 < m.1 := fun m' hm' =>
        (List.pairwise_append.1 hsorted).2.2 m' hm' m List.mem_cons_self
      rw [List.append_cons] at hsorted ⊢
      refine .cons (reads_memberBytes fun rest hrest => ?_) (ih hmembers _ hsorted)
      rw [putMember, readColon_colon, ok_bind, hm.read_append rest hrest, ok_bind]
      simp only [insertMember_of_forall_lt _ hlast]
      rfl

/-! ### Values -/

section Values

variable {levels : Nat}

/-- A digit is no byte that is none. -/
theorem ne_of_digit {b other : UInt8} (h : (digitOf? b).isSome = true)
    (hother : digitOf? other = none) : b ≠ other := by
  rintro rfl
  rw [hother] at h
  cases h

/-- And it is no blank. -/
theorem isSpace_of_digit {b : UInt8} (h : (digitOf? b).isSome = true) : isSpace b = false := by
  simp only [isSpace, Bool.or_eq_false_iff, beq_eq_false_iff_ne]
  exact ⟨⟨⟨ne_of_digit h (by decide), ne_of_digit h (by decide)⟩, ne_of_digit h (by decide)⟩,
    ne_of_digit h (by decide)⟩

/-! The first byte says what kind of value follows. -/

theorem readValue_digit {b : UInt8} (h : (digitOf? b).isSome = true) (bytes : List UInt8) :
    readValue levels (b :: bytes) = readNumberValue false (b :: bytes) := by
  have hn : b ≠ byte 'n' := ne_of_digit h (by decide)
  have ht : b ≠ byte 't' := ne_of_digit h (by decide)
  have hf : b ≠ byte 'f' := ne_of_digit h (by decide)
  have hminus : b ≠ byte '-' := ne_of_digit h (by decide)
  rw [readValue.eq_def]
  simp only [skipSpace_of_not_isSpace (isSpace_of_digit h), hn, ht, hf, hminus, h, if_false,
    if_true]

theorem readValue_minus (bytes : List UInt8) :
    readValue levels (byte '-' :: bytes) = readNumberValue true bytes := by
  rw [readValue.eq_def]
  rfl

theorem readValue_quote (bytes : List UInt8) :
    readValue levels (byte '"' :: bytes) = (do
      let (s, rest) ← readString bytes
      pure (.string s, rest)) := by
  rw [readValue.eq_def]
  rfl

theorem readValue_bracket (bytes : List UInt8) :
    readValue (levels + 1) (byte '[' :: bytes) = (do
      let (items, rest) ← foldItems (gather (readValue levels)) (bytes.length + 1) true [] bytes
      pure (.array items.reverse, rest)) := by
  rw [readValue.eq_def]
  rfl

theorem readValue_brace (bytes : List UInt8) :
    readValue (levels + 1) (byte '\x7b' :: bytes) = (do
      let (members, rest) ←
        foldMembers readString (putMember (readValue levels)) (bytes.length + 1) true [] bytes
      pure (.object members, rest)) := by
  rw [readValue.eq_def]
  rfl

/-! Each kind of value is read as it is written, arrays and objects if what is in them is. -/

theorem reads_null : Reads (readValue levels) (encode (chars .null)) .null where
  starts := ⟨_, _, rfl, by decide, by decide⟩
  read_append := fun rest _ => by
    rw [readValue.eq_def]
    rfl

theorem reads_bool (b : Bool) : Reads (readValue levels) (encode (chars (.bool b))) (.bool b) where
  starts := by cases b <;> exact ⟨_, _, rfl, by decide, by decide⟩
  read_append := fun rest _ => by
    rw [readValue.eq_def]
    cases b <;> rfl

theorem reads_string (s : String) :
    Reads (readValue levels) (encode (chars (.string s))) (.string s) where
  starts := starts_quoted s
  read_append := fun rest _ => by
    rw [chars, encode_quoted, readValue_quote, readString_quoted]
    rfl

/-- The magnitude of a negative number of 64 bits. -/
theorem lt_of_negSucc {n : Nat} (h : -(Int.pow 2 63) ≤ Int.negSucc n) : n < Nat.pow 2 63 := by
  have hint : Int.pow 2 63 = 9223372036854775808 := by decide
  have hnat : Nat.pow 2 63 = 9223372036854775808 := by decide
  omega

theorem starts_integer {n : Int} (hlower : -(Int.pow 2 63) ≤ n) (hupper : n < Int.pow 2 64) :
    Starts (encode (chars (.integer n))) := by
  rw [← List.append_nil (encode _)]
  cases n with
  | ofNat n =>
      have hn : n < Nat.pow 2 64 := Int.ofNat_lt.1 hupper
      obtain ⟨b, bytes, hbytes, hdigit, -⟩ := readNumber_natural hn follows_nil
      exact ⟨b, bytes, hbytes, isSpace_of_digit hdigit, ne_of_digit hdigit (by decide)⟩
  | negSucc n =>
      obtain ⟨bytes, hbytes, -⟩ := readNumber_negSucc (lt_of_negSucc hlower) follows_nil
      exact ⟨byte '-', bytes, hbytes, by decide, by decide⟩

theorem reads_integer {n : Int} (hlower : -(Int.pow 2 63) ≤ n) (hupper : n < Int.pow 2 64) :
    Reads (readValue levels) (encode (chars (.integer n))) (.integer n) where
  starts := starts_integer hlower hupper
  read_append := fun rest hrest => by
    cases n with
    | ofNat n =>
        have hn : n < Nat.pow 2 64 := Int.ofNat_lt.1 hupper
        obtain ⟨b, bytes, hbytes, hdigit, hread⟩ := readNumber_natural hn hrest
        rw [chars, decimalInt, hbytes, readValue_digit hdigit, readNumberValue, hread]
        rfl
    | negSucc n =>
        obtain ⟨bytes, hbytes, hread⟩ := readNumber_negSucc (lt_of_negSucc hlower) hrest
        rw [chars, hbytes, readValue_minus, readNumberValue, hread]
        rfl

theorem reads_array {items : List Json}
    (h : ∀ j ∈ items, Reads (readValue levels) (encode (chars j)) j) :
    Reads (readValue (levels + 1)) (encode (chars (.array items))) (.array items) where
  starts := ⟨_, _, encode_chars_array items, by decide, by decide⟩
  read_append := fun rest _ => by
    rw [encode_chars_array, List.cons_append, readValue_bracket,
      foldItems_of_steps (steps_gather h []) rest, List.append_nil, ok_bind]
    simp only [List.reverse_reverse]
    rfl

theorem reads_object {members : List (String × Json)}
    (h : ∀ m ∈ members, Reads (readValue levels) (encode (chars m.2)) m.2)
    (hsorted : members.Pairwise fun m m' => m.1 < m'.1) :
    Reads (readValue (levels + 1)) (encode (chars (.object members))) (.object members) where
  starts := ⟨_, _, encode_chars_object members, by decide, by decide⟩
  read_append := fun rest _ => by
    rw [encode_chars_object, List.cons_append, readValue_brace,
      foldMembers_of_steps (steps_putMember h [] hsorted) rest, List.nil_append]
    rfl

end Values

/-- **A value is read as it is written**, if it is nested no deeper than the reader allows. -/
theorem reads_value {j : Json} (h : Exact j) {levels : Nat} (hlevels : nesting j ≤ levels) :
    Reads (readValue levels) (encode (chars j)) j := by
  -- what is in an array or object has one level less to itself, and is nested one level less
  induction h generalizing levels with
  | null => exact reads_null
  | bool b => exact reads_bool b
  | integer hlower hupper => exact reads_integer hlower hupper
  | string s => exact reads_string s
  | @array items _ ih =>
      rw [nesting] at hlevels
      cases levels with
      | zero => cases hlevels
      | succ levels =>
          have hitems := Nat.le_of_succ_le_succ hlevels
          exact reads_array fun j hj =>
            ih j hj (Nat.le_trans (nesting_le_itemsNesting hj) hitems)
  | @object members hsorted _ ih =>
      rw [nesting] at hlevels
      cases levels with
      | zero => cases hlevels
      | succ levels =>
          have hmembers := Nat.le_of_succ_le_succ hlevels
          exact reads_object (fun m hm =>
            ih m hm (Nat.le_trans (nesting_le_membersNesting hm) hmembers)) hsorted

end WhereClause.Json

/-
**The trees that documents spell.**

A tree is a value with its numbers and strings as they are written, byte for byte.  What is not in
the tree is the blanks: between any two tokens of a document there may be some, so one tree has many
spellings.  The kind of a value is seen from its first byte, and every kind has a grammar of what
stands behind that byte.

Main definitions:

* `WhereClause.Json.Tree` — the trees;
* `WhereClause.Json.Listed` — items with commas between them, up to what closes the list;
* `WhereClause.Json.MemberSpelled` — a member of an object;
* `WhereClause.Json.Kind`, `WhereClause.Json.Kind.ofByte?` — the kinds of value, told by the first
  byte;
* `WhereClause.Json.Spelled` — **the spellings of a tree**.

Main results:

* `WhereClause.Json.follows_of_listed` — what goes on with a list ends a number;
* `WhereClause.Json.Spelled.leads`, `WhereClause.Json.Kind.lead_append` — the first byte of a
  spelling tells its kind.
-/

import WhereClause.Proofs.TokenReaders

set_option relaxedAutoImplicit false
set_option autoImplicit false

namespace WhereClause.Json

open Text Utf8

/-! ### Blanks, lists and members -/

section Grammar

variable {τ : Type} (Spell : τ → List UInt8 → Prop)

/-- What is spelled behind blanks. -/
inductive Padded : τ → List UInt8 → Prop
  | intro {w s : List UInt8} {x : τ} : Blank w → Spell x s → Padded x (w ++ s)

/-- Items with commas between them, and what closes the list; behind an item, if `first` is false.
Blanks may stand in front of every item, every comma and the end. -/
inductive Listed (closing : UInt8) : Bool → List τ → List UInt8 → Prop
  | nil {first : Bool} {w : List UInt8} : Blank w → Listed closing first [] (w ++ [closing])
  | cons {first : Bool} {x : τ} {xs : List τ} {w w' s rest : List UInt8} : Blank w → Blank w' →
      Spell x s → Listed closing false xs rest →
      Listed closing first (x :: xs) (w ++ (separator first ++ (w' ++ (s ++ rest))))

/-- A colon, and what is spelled behind it. -/
inductive ColonSpelled : τ → List UInt8 → Prop
  | intro {w s : List UInt8} {x : τ} : Blank w → Padded Spell x s →
      ColonSpelled x (w ++ byte ':' :: s)

/-- A member of an object: its name as it is written, a colon, and its value. -/
inductive MemberSpelled : List UInt8 × τ → List UInt8 → Prop
  | intro {name : List UInt8} {x : τ} {s : List UInt8} : Content name → ColonSpelled Spell x s →
      MemberSpelled (name, x) (byte '"' :: (name ++ byte '"' :: s))

end Grammar

/-! ### Trees -/

/-- A value with its numbers and strings as they are written. -/
inductive Tree where
  | null
  | bool (b : Bool)
  | number (negative : Bool) (digits : List UInt8)
  | string (content : List UInt8)
  | array (items : List Tree)
  | object (members : List (List UInt8 × Tree))

/-- The kinds of value. -/
inductive Kind where
  | null
  | bool (b : Bool)
  | number (negative : Bool)
  | string
  | array
  | object
deriving DecidableEq, Repr

namespace Kind

/-- The kind of the value that begins with a byte. -/
def ofByte? (b : UInt8) : Option Kind :=
  if b = byte 'n' then some .null
  else if b = byte 't' then some (.bool true)
  else if b = byte 'f' then some (.bool false)
  else if b = byte '-' then some (.number true)
  else if (digitOf? b).isSome then some (.number false)
  else if b = byte '"' then some .string
  else if b = byte '[' then some .array
  else if b = byte '\x7b' then some .object
  else none

/-- What every value of a kind begins with.  A number without a sign begins with its digits. -/
def lead : Kind → List UInt8
  | .null => [byte 'n']
  | .bool true => [byte 't']
  | .bool false => [byte 'f']
  | .number true => [byte '-']
  | .number false => []
  | .string => [byte '"']
  | .array => [byte '[']
  | .object => [byte '\x7b']

end Kind

/-- What stands behind that in the spelling of a tree. -/
inductive Behind (Spell : Tree → List UInt8 → Prop) : Kind → Tree → List UInt8 → Prop
  | null : Behind Spell .null .null (encode "ull".toList)
  | bool (b : Bool) :
      Behind Spell (.bool b) (.bool b) (encode (if b then "rue" else "alse").toList)
  | number {negative : Bool} {s : List UInt8} : Unsigned s →
      Behind Spell (.number negative) (.number negative s) s
  | string {s : List UInt8} : Content s → Behind Spell .string (.string s) (s ++ [byte '"'])
  | array {items : List Tree} {s : List UInt8} : Listed Spell (byte ']') true items s →
      Behind Spell .array (.array items) s
  | object {members : List (List UInt8 × Tree)} {s : List UInt8} :
      Listed (MemberSpelled Spell) (byte '\x7d') true members s →
      Behind Spell .object (.object members) s

/-- **The spellings of a tree.** -/
inductive Spelled : Tree → List UInt8 → Prop
  | intro {kind : Kind} {t : Tree} {s : List UInt8} : Behind Spelled kind t s →
      Spelled t (kind.lead ++ s)

/-! ### First bytes -/

section Bytes

variable {b : UInt8} {kind kind' : Kind} {Spell : Tree → List UInt8 → Prop} {t : Tree}
  {s s' : List UInt8}

theorem Kind.ofByte?_of_digit (h : (digitOf? b).isSome = true) :
    ofByte? b = some (.number false) := by
  have hn : b ≠ byte 'n' := ne_of_digit h (by decide)
  have ht : b ≠ byte 't' := ne_of_digit h (by decide)
  have hf : b ≠ byte 'f' := ne_of_digit h (by decide)
  have hminus : b ≠ byte '-' := ne_of_digit h (by decide)
  simp only [ofByte?, hn, ht, hf, hminus, h, if_false, if_true]

/-- Nothing begins with a byte that begins no value. -/
theorem Kind.ne_of_isSome {other : UInt8} (h : (ofByte? b).isSome = true)
    (hother : ofByte? other = none) : b ≠ other := by
  rintro rfl
  rw [hother] at h
  cases h

theorem Kind.isSpace_of_isSome (h : (ofByte? b).isSome = true) : isSpace b = false := by
  simp only [isSpace, Bool.or_eq_false_iff, beq_eq_false_iff_ne]
  exact ⟨⟨⟨ne_of_isSome h (by decide), ne_of_isSome h (by decide)⟩, ne_of_isSome h (by decide)⟩,
    ne_of_isSome h (by decide)⟩

/-- What a kind begins with, and what stands behind it. -/
theorem Kind.lead_append_drop (h : ofByte? b = some kind) (bytes : List UInt8) :
    kind.lead ++ (b :: bytes).drop kind.lead.length = b :: bytes := by
  unfold ofByte? at h
  -- a byte tells its kind, and the kind its byte
  iterate 8
    split at h
    next hb =>
      cases h
      first
      | rfl
      | rw [hb]; rfl
  cases h

/-- The byte that a kind begins with tells the kind. -/
theorem Kind.ofByte?_of_lead (h : kind.lead = [b]) : ofByte? b = some kind := by
  cases kind with
  | bool b =>
      cases b <;>
        · cases h
          decide
  | number negative =>
      cases negative with
      | true =>
          cases h
          decide
      | false => cases h
  | null | string | array | object =>
      cases h
      decide

theorem Kind.isSome_of_number (h : ofByte? b = some (.number false)) :
    (digitOf? b).isSome = true := by
  unfold ofByte? at h
  iterate 4
    split at h
    next => cases h
  split at h
  next hb => exact hb
  iterate 3
    split at h
    next => cases h
  cases h

/-- Every kind of value begins as its kind does. -/
theorem Behind.exists_cons (h : Behind Spell kind t s) (rest : List UInt8) :
    ∃ b bytes, kind.lead ++ (s ++ rest) = b :: bytes ∧ Kind.ofByte? b = some kind := by
  cases h with
  | bool b => cases b <;> exact ⟨_, _, rfl, by decide⟩
  | @number negative s hs =>
      cases negative with
      | true => exact ⟨_, _, rfl, by decide⟩
      | false =>
          obtain ⟨b, bytes, rfl, hb⟩ := hs.exists_cons
          exact ⟨b, bytes ++ rest, rfl, Kind.ofByte?_of_digit hb⟩
  | null | string | array | object => exact ⟨_, _, rfl, by decide⟩

/-- A tree has one kind. -/
theorem Behind.kind_eq (h : Behind Spell kind t s) (h' : Behind Spell kind' t s') :
    kind = kind' := by
  cases h <;> cases h' <;> rfl

/-- Bytes that begin like a value. -/
def Leads (s : List UInt8) : Prop := ∃ b bytes, s = b :: bytes ∧ (Kind.ofByte? b).isSome = true

theorem Leads.append (h : Leads s) (rest : List UInt8) : Leads (s ++ rest) := by
  obtain ⟨b, bytes, rfl, hb⟩ := h
  exact ⟨b, bytes ++ rest, rfl, hb⟩

theorem Leads.length_pos (h : Leads s) : 0 < s.length := by
  obtain ⟨b, bytes, rfl, -⟩ := h
  exact Nat.succ_pos _

theorem Spelled.leads (h : Spelled t s) : Leads s := by
  cases h with
  | intro hbehind =>
      obtain ⟨b, bytes, hbytes, hb⟩ := hbehind.exists_cons []
      rw [List.append_nil] at hbytes
      exact ⟨b, bytes, hbytes, by rw [hb]; rfl⟩

end Bytes

/-! ### Ends of lists -/

section Lists

variable {τ : Type} {Spell Spell' : τ → List UInt8 → Prop} {closing : UInt8} {first : Bool} {x : τ}
  {xs : List τ} {w s : List UInt8}

theorem Padded.of_spell (h : Spell x s) : Padded Spell x s :=
  .intro blank_nil h

theorem Blank.append (h : Blank w) (h' : Blank s) : Blank (w ++ s) := fun b hb =>
  (List.mem_append.1 hb).elim (h b) (h' b)

theorem MemberSpelled.leads {Spell : τ → List UInt8 → Prop} {m : List UInt8 × τ}
    (h : MemberSpelled Spell m s) : Leads s := by
  cases h with
  | intro => exact ⟨_, _, rfl, by decide⟩

/-- Blanks end a number. -/
theorem Follows.blank (h : Blank w) (hs : Follows s) : Follows (w ++ s) := by
  cases w with
  | nil => exact hs
  | cons b w =>
      intro b' hb'
      cases hb'
      have hb := h b List.mem_cons_self
      simp only [isSpace, Bool.or_eq_true, beq_iff_eq] at hb
      rcases hb with ((rfl | rfl) | rfl) | rfl <;> decide

/-- What goes on with a list ends a number. -/
theorem follows_of_listed (hclosing : closing = byte ']' ∨ closing = byte '\x7d')
    (h : Listed Spell closing false xs s) (rest : List UInt8) : Follows (s ++ rest) := by
  cases h with
  | nil hw =>
      rw [List.append_assoc]
      refine Follows.blank hw fun b hb => ?_
      cases hb
      rcases hclosing with rfl | rfl <;> decide
  | cons hw _ _ _ =>
      rw [List.append_assoc]
      refine Follows.blank hw fun b hb => ?_
      cases hb
      decide

/-- There are no more items than bytes. -/
theorem Listed.length_lt (h : Listed Spell closing first xs s)
    (hleads : ∀ x s, Spell x s → Leads s) : xs.length < s.length := by
  induction h with
  | nil => simp
  | @cons first x xs w w' s rest _ _ hx _ ih =>
      have hpos := (hleads x s hx).length_pos
      simp only [List.length_cons, List.length_append]
      omega

/-- Every item of a list is spelled in it. -/
theorem Listed.exists_of_mem (h : Listed Spell closing first xs s) :
    ∀ x ∈ xs, ∃ s, Spell x s := by
  induction h with
  | nil => exact nofun
  | cons _ _ hx _ ih => exact List.forall_mem_cons.2 ⟨⟨_, hx⟩, ih⟩

end Lists

/-! ### Smaller spellings

What is spelled inside a spelling is no longer than it is, so another grammar has to agree on
spellings of this length only. -/

section Monotonicity

variable {τ : Type} {Spell Spell' : τ → List UInt8 → Prop} {closing : UInt8} {first : Bool} {x : τ}
  {xs : List τ} {s : List UInt8} {m : List UInt8 × τ}

theorem Padded.imp (h : Padded Spell x s)
    (himp : ∀ x s', s'.length ≤ s.length → Spell x s' → Spell' x s') : Padded Spell' x s := by
  cases h with
  | intro hw hx => exact .intro hw (himp _ _ (by simp) hx)

theorem ColonSpelled.imp (h : ColonSpelled Spell x s)
    (himp : ∀ x s', s'.length ≤ s.length → Spell x s' → Spell' x s') :
    ColonSpelled Spell' x s := by
  cases h with
  | intro hw hx =>
      refine .intro hw (hx.imp fun x s' hlength => himp x s' ?_)
      simp only [List.length_append, List.length_cons]
      omega

theorem MemberSpelled.imp (h : MemberSpelled Spell m s)
    (himp : ∀ x s', s'.length ≤ s.length → Spell x s' → Spell' x s') :
    MemberSpelled Spell' m s := by
  cases h with
  | intro hname hx =>
      refine .intro hname (hx.imp fun x s' hlength => himp x s' ?_)
      simp only [List.length_append, List.length_cons]
      omega

theorem Listed.imp (h : Listed Spell closing first xs s)
    (himp : ∀ x s', s'.length ≤ s.length → Spell x s' → Spell' x s') :
    Listed Spell' closing first xs s := by
  induction h with
  | nil hw => exact .nil hw
  | @cons first x xs w w' s rest hw hw' hx _ ih =>
      simp only [List.length_append] at himp
      refine .cons hw hw' (himp x s (by omega) hx) (ih fun x s' hlength => himp x s' ?_)
      omega

theorem Behind.imp {Spell Spell' : Tree → List UInt8 → Prop} {kind : Kind} {t : Tree}
    (h : Behind Spell kind t s)
    (himp : ∀ x s', s'.length < (kind.lead ++ s).length → Spell x s' → Spell' x s') :
    Behind Spell' kind t s := by
  cases h with
  | null => exact .null
  | bool b => exact .bool b
  | number hs => exact .number hs
  | string hs => exact .string hs
  | array hlisted =>
      exact .array (hlisted.imp fun x s' hlength => himp x s' (Nat.lt_succ_of_le hlength))
  | object hlisted =>
      refine .object (hlisted.imp fun m s hlength hm => hm.imp fun x s' hlength' => ?_)
      exact himp x s' (Nat.lt_succ_of_le (Nat.le_trans hlength' hlength))

end Monotonicity

end WhereClause.Json

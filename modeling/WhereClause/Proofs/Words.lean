/-
**Words that can be told apart.**

A text that is a row of words from a fixed stock can be cut into these words in one way only, if any
two words differ at a place where both go on, or if what the longer one goes on with differs so from
everything that may stand behind the shorter one.  Both conditions are decided by comparing the
words symbol by symbol.

Main definitions:

* `WhereClause.apart` — two words that differ at a place where both go on;
* `WhereClause.told` — two words that can be told apart before any of some stops;
* `WhereClause.allTold` — a stock in which any two different words can be told apart.

Main results:

* `WhereClause.append_ne_of_apart` — whatever stands behind them, the wholes differ;
* `WhereClause.append_ne_of_told` — whatever stands behind the stops behind them, the wholes differ;
* `WhereClause.eq_of_append_eq` — **the first word of a row can be read off the whole**.
-/

import WhereClause.Text.Split

set_option relaxedAutoImplicit false
set_option autoImplicit false

namespace WhereClause

/-- Two words that differ at a place where both go on. -/
def apart : List Nat → List Nat → Bool
  | a :: v, b :: w => a != b || apart v w
  | _, _ => false

/-- Whatever stands behind them, two such words do not make the same whole. -/
theorem append_ne_of_apart {v w : List Nat} (h : apart v w = true) (r s : List Nat) :
    v ++ r ≠ w ++ s := by
  induction v generalizing w with
  | nil => cases h
  | cons a v ih =>
      cases w with
      | nil => cases h
      | cons b w =>
          intro heq
          obtain ⟨rfl, htail⟩ := List.cons.inj heq
          have hvw : apart v w = true := by simpa [apart] using h
          exact ih hvw htail

/-- Two words that can be told apart before any of some stops: they differ at a place where both go
on, or what one of them goes on with differs so from every stop. -/
def told (stops : List (List Nat)) : List Nat → List Nat → Bool
  | a :: v, b :: w => a != b || told stops v w
  | [], w => stops.all fun stop => apart stop w
  | v, [] => stops.all fun stop => apart v stop

/-- What begins with one of some stops. -/
def Stopped (stops : List (List Nat)) (r : List Nat) : Prop :=
  ∃ stop ∈ stops, ∃ rest, r = stop ++ rest

/-- **Before any of the stops, two such words do not make the same whole.** -/
theorem append_ne_of_told {stops : List (List Nat)} {v w r s : List Nat}
    (h : told stops v w = true) (hr : Stopped stops r) (hs : Stopped stops s) :
    v ++ r ≠ w ++ s := by
  induction v generalizing w with
  | nil =>
      obtain ⟨stop, hstop, rest, rfl⟩ := hr
      have hall : (stops.all fun stop => apart stop w) = true := by
        cases w <;> exact h
      simpa using append_ne_of_apart (List.all_eq_true.1 hall stop hstop) rest s
  | cons a v ih =>
      cases w with
      | nil =>
          obtain ⟨stop, hstop, rest, rfl⟩ := hs
          exact append_ne_of_apart (List.all_eq_true.1 h stop hstop) r rest
      | cons b w =>
          intro heq
          obtain ⟨rfl, htail⟩ := List.cons.inj heq
          have hvw : told stops v w = true := by simpa [told] using h
          exact ih hvw htail

/-! ### Stocks of words -/

section Stock

variable {α : Type} [DecidableEq α]

/-- The words of any two different items can be told apart. -/
def allTold (stops : List (List Nat)) (word : α → List Nat) : List α → Bool
  | [] => true
  | x :: xs =>
      (xs.all fun y => told stops (word x) (word y) || x == y) && allTold stops word xs

/-- In such a stock the words of two different items can be told apart one way or the other. -/
theorem told_or_told_of_allTold {stops : List (List Nat)} {word : α → List Nat} {items : List α}
    (h : allTold stops word items = true) {x y : α} (hx : x ∈ items) (hy : y ∈ items)
    (hne : x ≠ y) : told stops (word x) (word y) = true ∨ told stops (word y) (word x) = true := by
  induction items with
  | nil => cases hx
  | cons z items ih =>
      obtain ⟨hhead, htail⟩ := Bool.and_eq_true_iff.1 h
      have hz : ∀ u ∈ items, z ≠ u → told stops (word z) (word u) = true := by
        intro u hu hzu
        simpa [hzu] using List.all_eq_true.1 hhead u hu
      rcases List.mem_cons.1 hx with rfl | hxs
      · rcases List.mem_cons.1 hy with rfl | hys
        · exact absurd rfl hne
        · exact .inl (hz y hys hne)
      · rcases List.mem_cons.1 hy with rfl | hys
        · exact .inr (hz x hxs hne.symm)
        · exact ih htail hxs hys

/-- **The first word of a row, and what stands behind it, can be read off the whole.** -/
theorem eq_of_append_eq {stops : List (List Nat)} {word : α → List Nat} {items : List α}
    (h : allTold stops word items = true) {x y : α} (hx : x ∈ items) (hy : y ∈ items)
    {r s : List Nat} (hr : Stopped stops r) (hs : Stopped stops s)
    (heq : word x ++ r = word y ++ s) : x = y ∧ r = s := by
  by_cases hxy : x = y
  · subst hxy
    exact ⟨rfl, List.append_cancel_left heq⟩
  · rcases told_or_told_of_allTold h hx hy hxy with htold | htold
    · exact absurd heq (append_ne_of_told htold hr hs)
    · exact absurd heq.symm (append_ne_of_told htold hs hr)

end Stock

end WhereClause

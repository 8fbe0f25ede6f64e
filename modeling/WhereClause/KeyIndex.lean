/-
**Where the items of a key stand.**

An index lists, under every key, the places of its items in a list.  A new place is put behind those
that its key has already; a key that has none yet comes into the index with it.

Main definitions:

* `WhereClause.KeyIndex` — an index;
* `WhereClause.KeyIndex.push` — a place put under a key;
* `WhereClause.KeyIndex.places`, `WhereClause.KeyIndex.contains` — the places under a key, and
  whether the key is in the index;
* `WhereClause.KeyIndex.pushAll`, `WhereClause.KeyIndex.ofKeys` — some places put in, and the index
  of some keys.

Main results:

* `WhereClause.KeyIndex.places_ofKeys` — the places under a key are those where it stands.
-/

set_option autoImplicit false

namespace WhereClause

/-- Keys, each with the places of its items. -/
abbrev KeyIndex := List (String × List Nat)

namespace KeyIndex

/-- Put a place under a key, behind the others that it has. -/
def push (index : KeyIndex) (key : String) (place : Nat) : KeyIndex :=
  match index with
  | [] => [(key, [place])]
  | (other, places) :: rest =>
      if other = key then (other, places ++ [place]) :: rest
      else (other, places) :: push rest key place

/-- The places under a key; none, if the key is not in the index. -/
def places (index : KeyIndex) (key : String) : List Nat := (index.lookup key).getD []

/-- Whether a key is in the index. -/
def contains (index : KeyIndex) (key : String) : Bool := (index.lookup key).isSome

/-- Put some places in, each under its key, one after another. -/
def pushAll (index : KeyIndex) (items : List (String × Nat)) : KeyIndex :=
  items.foldl (fun index item => index.push item.1 item.2) index

/-- The index of some keys, each with the place where it stands. -/
def ofKeys (keys : List String) : KeyIndex := pushAll [] keys.zipIdx

/-! ### What a look-up finds -/

theorem places_cons_self (key : String) (listed : List Nat) (rest : KeyIndex) :
    places ((key, listed) :: rest) key = listed := by
  simp [places]

theorem places_cons_of_ne {key other : String} (h : key ≠ other) (listed : List Nat)
    (rest : KeyIndex) : places ((other, listed) :: rest) key = places rest key := by
  simp [places, List.lookup_cons, beq_eq_false_iff_ne.2 h]

section LookUp

variable (index : KeyIndex) (key other : String) (place : Nat)

/-- A look-up finds a key that a place was put under, with that place behind the others. -/
theorem lookup_push :
    (index.push key place).lookup other =
      if key = other then some (index.places key ++ [place]) else index.lookup other := by
  induction index with
  | nil =>
      by_cases h : key = other
      · simp [push, places, h]
      · simp [push, List.lookup_cons, h, beq_eq_false_iff_ne.2 (Ne.symm h)]
  | cons entry rest ih =>
      obtain ⟨first, firstPlaces⟩ := entry
      by_cases hfirst : first = key
      · subst hfirst
        by_cases h : first = other
        · simp [push, places, h]
        · simp [push, List.lookup_cons, h, beq_eq_false_iff_ne.2 (Ne.symm h)]
      · rw [push, if_neg hfirst, List.lookup_cons, List.lookup_cons, ih,
          places_cons_of_ne (Ne.symm hfirst)]
        by_cases h : key = other
        · subst h
          simp [beq_eq_false_iff_ne.2 (Ne.symm hfirst)]
        · simp [h]

theorem places_push :
    (index.push key place).places other =
      index.places other ++ if key = other then [place] else [] := by
  rw [places, lookup_push]
  by_cases h : key = other
  · simp [h, places]
  · simp [h, places]

theorem contains_push :
    (index.push key place).contains other = (key == other || index.contains other) := by
  rw [contains, lookup_push]
  by_cases h : key = other
  · simp [h]
  · simp [h, contains]

end LookUp

theorem places_pushAll (items : List (String × Nat)) (key : String) :
    ∀ index : KeyIndex, (index.pushAll items).places key =
      index.places key ++ (items.filter fun item => item.1 == key).map Prod.snd := by
  induction items with
  | nil => intro index; simp [pushAll]
  | cons item items ih =>
      intro index
      have hrest := ih (index.push item.1 item.2)
      rw [places_push] at hrest
      by_cases h : item.1 = key
      · simpa [pushAll, h] using hrest
      · simpa [pushAll, h] using hrest

theorem contains_pushAll (items : List (String × Nat)) (key : String) :
    ∀ index : KeyIndex, (index.pushAll items).contains key =
      (index.contains key || items.any fun item => item.1 == key) := by
  induction items with
  | nil => intro index; simp [pushAll]
  | cons item items ih =>
      intro index
      have hrest := ih (index.push item.1 item.2)
      rw [contains_push, Bool.or_comm (item.1 == key), Bool.or_assoc] at hrest
      exact hrest

/-! ### The index of some keys -/

@[simp] theorem ofKeys_nil : ofKeys [] = [] := rfl

/-- One more key is put in with the place behind those of the others. -/
theorem ofKeys_concat (keys : List String) (key : String) :
    ofKeys (keys ++ [key]) = (ofKeys keys).push key keys.length := by
  simp [ofKeys, pushAll, List.zipIdx_append]

/-- **The places under a key are those where it stands**, in order. -/
theorem places_ofKeys (keys : List String) (key : String) :
    (ofKeys keys).places key = (keys.zipIdx.filter fun item => item.1 == key).map Prod.snd :=
  places_pushAll keys.zipIdx key []

/-- A key is in the index of some keys exactly if it is one of them. -/
theorem contains_ofKeys (keys : List String) (key : String) :
    (ofKeys keys).contains key = keys.contains key := by
  have hkeys : (keys.zipIdx.any fun item => item.1 == key) =
      (keys.zipIdx.map Prod.fst).any fun other => other == key := by
    rw [List.any_map]
    rfl
  rw [ofKeys, contains_pushAll, hkeys, List.zipIdx_map_fst, Bool.eq_iff_iff]
  simp [contains]

end KeyIndex

end WhereClause

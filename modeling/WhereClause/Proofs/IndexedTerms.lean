/-
**The index of parameters.**

Parameters keep their terms in a list and the places of the terms in an index by key, and every step
that puts a term in changes both.  They stay in agreement: every place in the index is that of a
term, every term is listed exactly once, and the places of a key are in increasing order.  So a
look-up of a key never misses, and what it finds are the terms that were put in under this key, in
the order in which that happened.

Main definitions:

* `WhereClause.KeyIndex.Complete` — an index that lists a number of items, each of them once;
* `WhereClause.History.under` — the terms that were put in under a key.

Main results:

* `WhereClause.KeyIndex.Complete.push` — an index stays complete when the next item is put in;
* `WhereClause.KeyIndex.complete_ofKeys` — so the index of some keys is complete;
* `WhereClause.complete_index_of_replay` — **after any steps the index lists every term once, and a
  look-up finds what was put in under its key**.
-/

import Mathlib.Data.List.Induction
import Mathlib.Data.List.Nodup
import WhereClause.Proofs.Reference

set_option relaxedAutoImplicit false
set_option autoImplicit false

namespace WhereClause

/-! ### Complete indices -/

namespace KeyIndex

/-- An index of `count` items: every one of their places is listed exactly once and nothing else is,
the places of a key are in increasing order, and no key is listed twice or without a place. -/
structure Complete (index : KeyIndex) (count : Nat) : Prop where
  perm : (index.flatMap Prod.snd).Perm (List.range count)
  increasing : ∀ entry ∈ index, entry.2.Pairwise (· < ·)
  ne_nil : ∀ entry ∈ index, entry.2 ≠ []
  nodup : (index.map Prod.fst).Nodup

/-- Every place in a complete index is that of an item. -/
theorem Complete.place_lt {index : KeyIndex} {count : Nat} (h : index.Complete count) :
    ∀ entry ∈ index, ∀ place ∈ entry.2, place < count := by
  intro entry hentry place hplace
  have hmem : place ∈ index.flatMap Prod.snd := List.mem_flatMap.2 ⟨entry, hentry, hplace⟩
  exact List.mem_range.1 (h.perm.mem_iff.1 hmem)

section Push

variable (index : KeyIndex) (key : String) (place : Nat)

/-- The places that a look-up finds are listed under the key, if there are any. -/
theorem places_eq_nil_or_mem : index.places key = [] ∨ (key, index.places key) ∈ index := by
  induction index with
  | nil => exact .inl rfl
  | cons entry rest ih =>
      obtain ⟨other, places⟩ := entry
      by_cases h : key = other
      · subst h
        rw [places_cons_self]
        exact .inr (List.mem_cons_self ..)
      · rw [places_cons_of_ne h]
        exact ih.imp_right (List.mem_cons_of_mem _)

/-- Putting a place in changes nothing but what is listed under its key. -/
theorem mem_push {entry : String × List Nat} (h : entry ∈ index.push key place) :
    entry ∈ index ∨ entry = (key, index.places key ++ [place]) := by
  induction index with
  | nil => exact .inr (List.mem_singleton.1 h)
  | cons first rest ih =>
      obtain ⟨other, places⟩ := first
      by_cases hother : other = key
      · subst hother
        rw [push, if_pos rfl] at h
        rcases List.mem_cons.1 h with rfl | hrest
        · exact .inr (by rw [places_cons_self])
        · exact .inl (List.mem_cons_of_mem _ hrest)
      · rw [push, if_neg hother] at h
        rw [places_cons_of_ne (Ne.symm hother)]
        rcases List.mem_cons.1 h with rfl | hrest
        · exact .inl (List.mem_cons_self ..)
        · exact (ih hrest).imp_left (List.mem_cons_of_mem _)

/-- One more place is listed, wherever it is put in. -/
theorem flatMap_push :
    ((index.push key place).flatMap Prod.snd).Perm (index.flatMap Prod.snd ++ [place]) := by
  induction index with
  | nil => exact .refl _
  | cons first rest ih =>
      obtain ⟨other, places⟩ := first
      by_cases h : other = key
      · rw [push, if_pos h, List.flatMap_cons, List.flatMap_cons, List.append_assoc,
          List.append_assoc]
        exact List.perm_append_comm.append_left places
      · rw [push, if_neg h, List.flatMap_cons, List.flatMap_cons, List.append_assoc]
        exact ih.append_left places

/-- A key comes into the index behind the others, unless it is there already. -/
theorem keys_push :
    (index.push key place).map Prod.fst =
      if key ∈ index.map Prod.fst then index.map Prod.fst else index.map Prod.fst ++ [key] := by
  induction index with
  | nil => rfl
  | cons first rest ih =>
      obtain ⟨other, places⟩ := first
      by_cases h : other = key
      · simp [push, h]
      · rw [push, if_neg h, List.map_cons, ih]
        by_cases hrest : key ∈ rest.map Prod.fst
        · simp [hrest]
        · simp [hrest, Ne.symm h]

end Push

/-- **An index stays complete when the next item is put in**, under whatever key. -/
theorem Complete.push {index : KeyIndex} {count : Nat} (h : index.Complete count) (key : String) :
    (index.push key count).Complete (count + 1) := by
  -- the places of the key are among those before, so the new one is greater than all of them
  have hplaces : (index.places key).Pairwise (· < ·) ∧
      ∀ place ∈ index.places key, place < count := by
    rcases index.places_eq_nil_or_mem key with hnil | hmem
    · simp [hnil]
    · exact ⟨h.increasing _ hmem, h.place_lt _ hmem⟩
  refine ⟨?_, ?_, ?_, ?_⟩
  · rw [List.range_succ]
    exact (index.flatMap_push key count).trans (h.perm.append_right [count])
  · intro entry hentry
    rcases index.mem_push key count hentry with hold | rfl
    · exact h.increasing entry hold
    · refine List.pairwise_append.2 ⟨hplaces.1, List.pairwise_singleton _ _, ?_⟩
      intro place hplace last hlast
      rw [List.mem_singleton.1 hlast]
      exact hplaces.2 place hplace
  · intro entry hentry
    rcases index.mem_push key count hentry with hold | rfl
    · exact h.ne_nil entry hold
    · simp
  · rw [keys_push]
    by_cases hkey : key ∈ index.map Prod.fst
    · rw [if_pos hkey]
      exact h.nodup
    · rw [if_neg hkey]
      rw [← List.concat_eq_append]
      exact List.Nodup.concat hkey h.nodup

/-- **The index of some keys is complete.** -/
theorem complete_ofKeys (keys : List String) : (ofKeys keys).Complete keys.length := by
  induction keys using List.reverseRecOn with
  | nil => exact ⟨.refl _, by simp, by simp, .nil⟩
  | append_singleton keys key ih =>
      rw [ofKeys_concat, List.length_append]
      exact ih.push key

end KeyIndex

/-- The index of parameters lists each of their terms once. -/
theorem Params.complete_index (p : Params) : p.index.Complete p.terms.length := by
  have hlength : p.terms.length = (p.entries.map Prod.fst).length := by
    rw [terms, List.length_map, List.length_map]
  rw [p.index_eq, hlength]
  exact KeyIndex.complete_ofKeys _

/-! ### Histories -/

namespace History

/-- The terms that were put in under a key, in order. -/
def under (key : String) (edits : List Params.Edit) : List Term :=
  edits.filterMap fun
    | .set other t => if other = key then some t else none
    | _ => none

/-- They are found among everything that was put in. -/
theorem map_filter_stored (key : String) (edits : List Params.Edit) :
    ((stored edits).filter fun entry => entry.1 == key).map Prod.snd = under key edits := by
  induction edits with
  | nil => rfl
  | cons edit edits ih =>
      cases edit with
      | set other t =>
          by_cases h : other = key
          · simpa [stored, under, h] using ih
          · simpa [stored, under, h] using ih
      | setId t => exact ih
      | setFilter spec => exact ih

/-- There is something under a key exactly if a term was put in under it. -/
theorem mem_stored_keys_iff (key : String) (edits : List Params.Edit) :
    key ∈ (stored edits).map Prod.fst ↔ ∃ t, Params.Edit.set key t ∈ edits := by
  constructor
  · intro hkey
    obtain ⟨⟨other, t⟩, hstored, rfl⟩ := List.mem_map.1 hkey
    obtain ⟨edit, hedit, hentry⟩ := List.mem_filterMap.1 hstored
    cases edit with
    | set key t =>
        cases hentry
        exact ⟨_, hedit⟩
    | setId t => cases hentry
    | setFilter spec => cases hentry
  · rintro ⟨t, hedit⟩
    exact List.mem_map.2 ⟨(key, t), List.mem_filterMap.2 ⟨_, hedit, rfl⟩, rfl⟩

/-- The number of terms of a history, the identifier included. -/
theorem size_replay (edits : List Params.Edit) :
    (Params.replay edits).size = (stored edits).length + if ids edits = [] then 0 else 1 := by
  rw [Params.replay_eq, Params.size]
  congr 1
  by_cases h : ids edits = []
  · simp [h]
  · rw [if_neg h, List.getLast?_eq_some_getLast h]
    rfl

end History

/-- **After any steps the index lists every term once, and a look-up finds what was put in under its
key.**  No place in the index lies outside the list of terms, so no look-up misses; a key is found
exactly if something was put in under it; the terms are those that were put in, in order; and an
identifier or a filter document changes neither the terms nor their index. -/
theorem complete_index_of_replay (edits : List Params.Edit) :
    let p := Params.replay edits
    p.index.Complete p.terms.length ∧
      (∀ entry ∈ p.index, ∀ place ∈ entry.2, place < p.terms.length) ∧
      (∀ key, (p.index.places key).map (fun place => p.terms[place]?) = (p.get key).map some ∧
        p.get key = History.under key edits) ∧
      (∀ key, p.contains key = true ↔ ∃ t, Params.Edit.set key t ∈ edits) ∧
      p.terms = (History.stored edits).map Prod.snd ∧
      p.size = (History.stored edits).length + (if History.ids edits = [] then 0 else 1) ∧
      (∀ t, (p.setId t).terms = p.terms ∧ (p.setId t).index = p.index) ∧
      ∀ spec, (p.setFilter spec).terms = p.terms ∧ (p.setFilter spec).index = p.index := by
  intro p
  have hentries : p.entries = History.stored edits := by
    change (Params.replay edits).entries = _
    rw [Params.replay_eq]
  refine ⟨p.complete_index, p.complete_index.place_lt, fun key => ⟨?_, ?_⟩, fun key => ?_, ?_,
    History.size_replay edits, fun t => ⟨rfl, rfl⟩, fun spec => ⟨rfl, rfl⟩⟩
  · rw [p.getElem?_places, ← p.get_eq]
  · rw [p.get_eq, hentries, History.map_filter_stored]
  · rw [History.contains_replay, decide_eq_true_iff, History.mem_stored_keys_iff]
  · rw [Params.terms, hentries]

end WhereClause

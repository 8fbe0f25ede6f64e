/-
**Request parameters.**

The terms of a request in the order in which they were given, each under the key it was given with.
A key may come more than once, and every term is kept.  An index of the keys is kept with the terms,
and a key is looked up in it.

Main definitions:

* `WhereClause.Params` — the parameters;
* `WhereClause.Params.empty` — parameters with nothing in them;
* `WhereClause.Params.set` — a term put behind the others;
* `WhereClause.Params.get`, `WhereClause.Params.contains` — the terms under a key;
* `WhereClause.Params.needsColumns` — whether the columns of the table matter.

Main results:

* `WhereClause.Params.get_eq`, `WhereClause.Params.contains_eq` — what a look-up finds among the
  terms;
* `WhereClause.Params.get_set` — what a look-up finds after a term was put in.
-/

import WhereClause.FilterSpec.Basic
import WhereClause.KeyIndex
import WhereClause.ReservedKeys
import WhereClause.Term

set_option autoImplicit false

namespace WhereClause

/-- The parameters of a request. -/
structure Params where
  /-- The term for the identifier. -/
  id : Option Term := none
  /-- The terms in order, each with its key. -/
  entries : List (String × Term) := []
  filter : Option FilterSpec := none
  /-- The places of the terms under each key. -/
  index : KeyIndex := .ofKeys (entries.map Prod.fst)
  /-- The index is that of the keys of the terms. -/
  index_eq : index = .ofKeys (entries.map Prod.fst) := by rfl
deriving Repr

namespace Params

/-- Parameters with nothing in them. -/
def empty : Params := {}

instance : Inhabited Params := ⟨empty⟩

/-- Parameters are told by their terms and their filter document. -/
@[ext] theorem ext {p q : Params} (hid : p.id = q.id) (hentries : p.entries = q.entries)
    (hfilter : p.filter = q.filter) : p = q := by
  have hindex : p.index = q.index := by rw [p.index_eq, q.index_eq, hentries]
  cases p
  cases q
  simp_all

/-- Put a term under a key, behind all others, and its place into the index. -/
def set (p : Params) (key : String) (t : Term) : Params where
  id := p.id
  entries := p.entries ++ [(key, t)]
  filter := p.filter
  index := p.index.push key p.entries.length
  index_eq := by
    rw [p.index_eq, List.map_append, List.map_singleton, KeyIndex.ofKeys_concat, List.length_map]

/-- Put in the term for the identifier. -/
def setId (p : Params) (t : Term) : Params := { p with id := some t }

/-- Put in the filter document. -/
def setFilter (p : Params) (spec : FilterSpec) : Params := { p with filter := some spec }

/-- The terms in order. -/
def terms (p : Params) : List Term := p.entries.map Prod.snd

/-- The terms under a key, in order: those at its places in the index. -/
def get (p : Params) (key : String) : List Term :=
  (p.index.places key).filterMap fun place => p.terms[place]?

/-- Whether there is a term under a key. -/
def contains (p : Params) (key : String) : Bool := p.index.contains key

/-- The number of terms, the one for the identifier included. -/
def size (p : Params) : Nat := p.entries.length + p.id.toList.length

/-- Whether there is no term at all. -/
def isEmpty (p : Params) : Bool := p.id.isNone && p.entries.isEmpty

/-- The columns that the filter document names. -/
def fields (p : Params) : List String :=
  match p.filter with
  | none => []
  | some spec => spec.fields

/-- Whether the columns of the table matter: there is a term for every column, and the filter
document names none. -/
def needsColumns (p : Params) (reserved : ReservedKeys) : Bool :=
  p.contains reserved.wildcard && p.fields.isEmpty

@[simp] theorem terms_set (p : Params) (key : String) (t : Term) :
    (p.set key t).terms = p.terms ++ [t] := by
  simp [set, terms]

@[simp] theorem fields_set (p : Params) (key : String) (t : Term) :
    (p.set key t).fields = p.fields := rfl

/-- A look-up finds a term at every place of its key, and these are the terms under the key. -/
theorem getElem?_places (p : Params) (key : String) :
    (p.index.places key).map (fun place => p.terms[place]?) =
      ((p.entries.filter fun entry => entry.1 == key).map Prod.snd).map some := by
  have hitem : ∀ item ∈ p.entries.zipIdx, p.terms[item.2]? = some item.1.2 := by
    intro item hitem
    rw [List.mem_zipIdx_iff_getElem?] at hitem
    rw [terms, List.getElem?_map, hitem]
    rfl
  have hfilter : (p.entries.zipIdx.map Prod.fst).filter (fun entry => entry.1 == key) =
      (p.entries.zipIdx.filter fun item => item.1.1 == key).map Prod.fst := List.filter_map
  rw [List.zipIdx_map_fst] at hfilter
  rw [p.index_eq, KeyIndex.places_ofKeys, List.zipIdx_map, List.filter_map, List.map_map,
    List.map_map, hfilter, List.map_map, List.map_map]
  exact List.map_congr_left fun item hmem => hitem item (List.mem_filter.1 hmem).1

/-- A look-up finds the terms that were put under its key, in order. -/
theorem get_eq (p : Params) (key : String) :
    p.get key = (p.entries.filter fun entry => entry.1 == key).map Prod.snd := by
  have hsome := p.getElem?_places key
  have hget : p.get key =
      ((p.index.places key).map fun place => p.terms[place]?).filterMap fun found => found := by
    rw [get, List.filterMap_map]
    rfl
  rw [hget, hsome, List.filterMap_map]
  exact List.filterMap_some

theorem mem_terms_of_mem_get (p : Params) {key : String} {t : Term} (h : t ∈ p.get key) :
    t ∈ p.terms := by
  rw [get_eq] at h
  obtain ⟨entry, hentry, rfl⟩ := List.mem_map.1 h
  exact List.mem_map_of_mem (List.mem_filter.1 hentry).1

theorem contains_eq (p : Params) (key : String) :
    p.contains key = p.entries.any fun entry => entry.1 == key := by
  rw [contains, p.index_eq, KeyIndex.contains_ofKeys, Bool.eq_iff_iff]
  simp [List.any_eq_true]

/-- A look-up finds a term that was put under its key behind those it found before. -/
theorem get_set (p : Params) (key other : String) (t : Term) :
    (p.set key t).get other = p.get other ++ if key = other then [t] else [] := by
  rw [get_eq, get_eq]
  by_cases h : key = other <;> simp [set, h]

theorem contains_set (p : Params) (key other : String) (t : Term) :
    (p.set key t).contains other = (p.contains other || key == other) := by
  simp [contains_eq, set]

/-- A key has a term exactly if a look-up finds one. -/
theorem contains_iff_get_ne_nil (p : Params) (key : String) :
    p.contains key = true ↔ p.get key ≠ [] := by
  simp [contains_eq, get_eq, List.filter_eq_nil_iff]

end Params

end WhereClause

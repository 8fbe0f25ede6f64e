/-
**What a request comes to.**

The parameters of a request can be read off its pairs without walking through them: every pair has a
reading of its own, the filter document is that of the last pair that holds one, or else the body,
and a request fails with the first of all the failures in it, those of its pairs before that of its
identifier and that before the one of its filter document.

Main definitions:

* `WhereClause.Compiler.reading?`, `WhereClause.Compiler.readings` — what a pair puts in, and what
  all pairs of a request do;
* `WhereClause.Compiler.stored` — the terms that the pairs put in;
* `WhereClause.Compiler.idReading`, `WhereClause.Compiler.filterReading` — what the identifier and
  the filter document of a request are read as;
* `WhereClause.Compiler.failures` — everything that fails in a request, in order.

Main results:

* `WhereClause.Compiler.takePair_eq`, `WhereClause.Compiler.takePairs_eq` — what one pair puts in,
  and what some pairs do;
* `WhereClause.Compiler.collect_eq` — the parameters of a request, or its first failure;
* `WhereClause.Compiler.readings_of_collect`, `WhereClause.Compiler.mem_terms_iff_of_collect` — the
  terms of an accepted request are the readings of its pairs;
* `WhereClause.Compiler.metadata_of_collect` — that of a pair of metadata is its value as a string;
* `WhereClause.Compiler.ownKeys_of_collect` — and every one of them is under its own key;
* `WhereClause.Compiler.exists_collect_of_readings` — a request in which nothing fails is accepted;
* `WhereClause.readings_or_first_failure_of_collect` — **a request fails with the first of its
  failures, and otherwise comes to its readings, each found under its own key**.
-/

import WhereClause.Proofs.Keys
import WhereClause.Proofs.Parsed

set_option relaxedAutoImplicit false
set_option autoImplicit false

namespace WhereClause

open Text

/-- What the pair of a trimmed key is, told by the key. -/
theorem ReservedKeys.role_eq (r : ReservedKeys) (key : String) :
    r.role key =
      if key = "" then .blank
      else if key = r.filter then .filter
      else if key = r.extra then .extra
      else .term := by
  simp only [role, String.isEmpty_iff]

/-! ### Readings -/

/-- The failure of a result, if it is one. -/
def failure? {α : Type} : Except Failure α → Option Failure
  | .error failure => some failure
  | .ok _ => none

@[simp] theorem failure?_error {α : Type} (failure : Failure) :
    failure? (.error failure : Except Failure α) = some failure := rfl

@[simp] theorem failure?_ok {α : Type} (a : α) : failure? (.ok a) = none := rfl

namespace Compiler

/-- What a pair puts in: nothing, if its key is blank or that of the filter document; its value as a
string, neither cast nor formatted, if its key is that of metadata; and what the pair is parsed to
otherwise. -/
def reading? (c : Compiler) (key value : String) : Option (Except Failure Term) :=
  if trimmed key = "" then none
  else if trimmed key = c.dialect.reserved.filter then none
  else if trimmed key = c.dialect.reserved.extra then
    some (.ok { key := c.dialect.reserved.extra, operator := .eq, raw := value,
                value := .string value })
  else some (c.dialect.parse key value)

/-- What the pairs of a request put in, in order. -/
def readings (c : Compiler) (pairs : List (String × String)) : List (Except Failure Term) :=
  pairs.filterMap fun pair => c.reading? pair.1 pair.2

/-- The terms that the pairs of a request put in, in order. -/
def stored (c : Compiler) (pairs : List (String × String)) : List Term :=
  (c.readings pairs).filterMap Except.toOption

/-- The filter document that a pair holds, if its key is that of the filter document. -/
def document? (c : Compiler) (key value : String) : Option String :=
  if trimmed key = "" then none
  else if trimmed key = c.dialect.reserved.filter then some value
  else none

/-- The last filter document in the pairs of a request. -/
def document (c : Compiler) (pairs : List (String × String)) : Option String :=
  (pairs.filterMap fun pair => c.document? pair.1 pair.2).getLast?

/-- What the identifier of a request is read as. -/
def idReading (c : Compiler) (id : Option String) : Option (Except Failure Term) :=
  id.map (c.dialect.parse c.idField)

/-- What the filter document of a request is read as: the last one in its pairs, or else the
body. -/
def filterReading (c : Compiler) (pairs : List (String × String)) (body : Option (List UInt8)) :
    Option (Except Failure FilterSpec) :=
  (((c.document pairs).map fun text => Utf8.encode text.toList).or body).map fun bytes =>
    (FilterSpec.decode bytes).mapError .filterDocument

/-- Everything that fails in a request, in order: its pairs, its identifier, its filter document. -/
def failures (c : Compiler) (pairs : List (String × String)) (id : Option String)
    (body : Option (List UInt8)) : List Failure :=
  (c.readings pairs).filterMap failure? ++ (c.idReading id).toList.filterMap failure? ++
    (c.filterReading pairs body).toList.filterMap failure?

/-- The parameters that the readings of a request make up. -/
def collected (c : Compiler) (pairs : List (String × String)) (id : Option String)
    (body : Option (List UInt8)) : Params where
  id := (c.idReading id).bind Except.toOption
  entries := (c.stored pairs).map fun t => (t.key, t)
  filter := (c.filterReading pairs body).bind Except.toOption

end Compiler

/-! ### Results without a failure -/

section Results

variable {α : Type} {results : List (Except Failure α)} {result : Option (Except Failure α)}

/-- Where nothing fails, the results are the values in them. -/
theorem map_ok_of_filterMap_failure? (h : results.filterMap failure? = []) :
    (results.filterMap Except.toOption).map .ok = results := by
  induction results with
  | nil => rfl
  | cons result results ih =>
      cases result with
      | error failure => cases h
      | ok a => simpa [Except.toOption] using ih h

theorem map_ok_of_toList_filterMap_failure? (h : result.toList.filterMap failure? = []) :
    (result.bind Except.toOption).map .ok = result := by
  rcases result with _ | _ | a
  · rfl
  · cases h
  · rfl

end Results

/-! ### Terms under their own keys -/

namespace Params

/-- Put terms under their own keys, behind all others. -/
def setAll (p : Params) (terms : List Term) : Params where
  id := p.id
  entries := p.entries ++ terms.map fun t => (t.key, t)
  filter := p.filter

@[simp] theorem setAll_nil (p : Params) : p.setAll [] = p := by
  ext1 <;> simp [setAll]

@[simp] theorem setAll_cons (p : Params) (t : Term) (terms : List Term) :
    p.setAll (t :: terms) = (p.set t.key t).setAll terms := by
  ext1 <;> simp [setAll, set]

/-- Every term is under its own key. -/
def OwnKeys (p : Params) : Prop := p.entries = p.terms.map fun t => (t.key, t)

/-- A look-up of a key finds the terms with that key, in order. -/
theorem OwnKeys.get_eq {p : Params} (h : p.OwnKeys) (key : String) :
    p.get key = p.terms.filter fun t => t.key = key := by
  rw [Params.get_eq, h, List.filter_map, List.map_map]
  simp [Function.comp_def, beq_eq_decide]

/-- There is something under a key exactly if some term has that key. -/
theorem OwnKeys.contains_iff {p : Params} (h : p.OwnKeys) (key : String) :
    p.contains key = true ↔ ∃ t ∈ p.terms, t.key = key := by
  rw [contains_iff_get_ne_nil, h.get_eq, ne_eq, List.filter_eq_nil_iff]
  simp

end Params

/-! ### Walking through a request -/

namespace Compiler

variable {c : Compiler}

/-- A key that is not blank, but neither that of the filter document nor that of metadata, is
parsed. -/
theorem reading?_eq_or {key : String} (h : allBlank key = false) (value : String) :
    c.reading? key value = some (c.dialect.parse key value) ∨
      trimmed key = c.dialect.reserved.filter ∨ trimmed key = c.dialect.reserved.extra := by
  have hne : trimmed key ≠ "" := trimmed_ne_empty h
  unfold reading?
  by_cases hfilter : trimmed key = c.dialect.reserved.filter
  · exact .inr (.inl hfilter)
  · by_cases hextra : trimmed key = c.dialect.reserved.extra
    · exact .inr (.inr hextra)
    · simp [hne, hfilter, hextra]

/-- **One pair puts in its reading, or fails with it**; a filter document in it replaces the one
before. -/
theorem takePair_eq (c : Compiler) (p : Params) (document : Option String) (key value : String) :
    c.takePair p document key value =
      match c.reading? key value with
      | none => .ok (p, (c.document? key value).or document)
      | some (.error failure) => .error failure
      | some (.ok t) => .ok (p.set t.key t, (c.document? key value).or document) := by
  simp only [takePair, ReservedKeys.role_eq, reading?, document?]
  split_ifs with hblank hfilter hextra
  · rfl
  · rfl
  · simp only [hextra, Option.none_or]
    rfl
  · rw [Dialect.parse_trimmed]
    cases c.dialect.parse key value <;> rfl

/-- **Some pairs put in their readings, or fail with the first failure among them.** -/
theorem takePairs_eq (c : Compiler) (pairs : List (String × String)) :
    ∀ (p : Params) (document : Option String), c.takePairs p document pairs =
      match ((c.readings pairs).filterMap failure?).head? with
      | some failure => .error failure
      | none => .ok (p.setAll (c.stored pairs), (c.document pairs).or document) := by
  induction pairs with
  | nil => intro p document; simp [takePairs, readings, stored, Compiler.document]
  | cons pair pairs ih =>
      intro p document
      obtain ⟨key, value⟩ := pair
      have hdocument : (c.document ((key, value) :: pairs)).or document =
          (c.document pairs).or ((c.document? key value).or document) := by
        unfold Compiler.document
        rw [List.filterMap_cons]
        cases c.document? key value with
        | none => rfl
        | some text => rw [List.getLast?_cons]; cases List.getLast? _ <;> rfl
      rw [takePairs, takePair_eq, hdocument]
      simp only [readings, stored, List.filterMap_cons] at ih ⊢
      cases c.reading? key value with
      | none => exact ih _ _
      | some result =>
          cases result with
          | error failure => rfl
          | ok t =>
              simp only [Except.toOption, List.filterMap_cons, failure?_ok, Params.setAll_cons]
              exact ih _ _

/-- The identifier is put in, or fails. -/
theorem takeId_eq (c : Compiler) (p : Params) (id : Option String) :
    c.takeId p id =
      match ((c.idReading id).toList.filterMap failure?).head? with
      | some failure => .error failure
      | none => .ok { p with id := ((c.idReading id).bind Except.toOption).or p.id } := by
  unfold takeId idReading
  cases id with
  | none => rfl
  | some id =>
      dsimp only [Option.map_some]
      cases c.dialect.parse c.idField id <;> rfl

/-- The filter document is put in, or fails. -/
theorem takeFilter_eq (c : Compiler) (p : Params) (pairs : List (String × String))
    (body : Option (List UInt8)) :
    takeFilter p (filterBytes (c.document pairs) body) =
      match ((c.filterReading pairs body).toList.filterMap failure?).head? with
      | some failure => .error failure
      | none => .ok { p with
          filter := ((c.filterReading pairs body).bind Except.toOption).or p.filter } := by
  have hbytes : filterBytes (c.document pairs) body =
      ((c.document pairs).map fun text => Utf8.encode text.toList).or body := by
    unfold filterBytes
    cases c.document pairs <;> rfl
  rw [filterReading, ← hbytes]
  unfold takeFilter
  cases filterBytes (c.document pairs) body with
  | none => rfl
  | some bytes =>
      dsimp only [Option.map_some]
      cases FilterSpec.decode bytes <;> rfl

/-- **The parameters of a request are what its readings make up, or the first failure among
them.** -/
theorem collect_eq (c : Compiler) (pairs : List (String × String)) (id : Option String)
    (body : Option (List UInt8)) :
    c.collect pairs id body =
      match (c.failures pairs id body).head? with
      | some failure => .error failure
      | none => .ok (c.collected pairs id body) := by
  have hpairs := c.takePairs_eq pairs .empty none
  unfold collect failures
  rw [List.head?_append, List.head?_append, hpairs]
  cases ((c.readings pairs).filterMap failure?).head? with
  | some failure => rfl
  | none =>
      have hid := c.takeId_eq (Params.setAll .empty (c.stored pairs)) id
      simp only [Option.none_or, bind, Except.bind, Option.or_none, hid]
      cases ((c.idReading id).toList.filterMap failure?).head? with
      | some failure => rfl
      | none =>
          simp only [takeFilter_eq]
          cases ((c.filterReading pairs body).toList.filterMap failure?).head? with
          | some failure => rfl
          | none => simp [collected, Params.setAll, Params.empty]

/-- Nothing in a request fails exactly if none of its parts does. -/
theorem failures_eq_nil_iff {pairs : List (String × String)} {id : Option String}
    {body : Option (List UInt8)} :
    c.failures pairs id body = [] ↔
      (c.readings pairs).filterMap failure? = [] ∧
        (c.idReading id).toList.filterMap failure? = [] ∧
        (c.filterReading pairs body).toList.filterMap failure? = [] := by
  rw [failures, List.append_eq_nil_iff, List.append_eq_nil_iff, and_assoc]

/-! ### Accepted requests -/

section Accepted

variable {pairs : List (String × String)} {id : Option String} {body : Option (List UInt8)}
  {p : Params}

/-- A request comes to parameters exactly if nothing in it fails, and then to what its readings make
up. -/
theorem collect_eq_ok_iff :
    c.collect pairs id body = .ok p ↔
      c.failures pairs id body = [] ∧ p = c.collected pairs id body := by
  rw [collect_eq]
  cases hfailures : c.failures pairs id body with
  | nil => simp [eq_comm]
  | cons failure failures => simp

/-- The readings of the pairs of a request are its terms, in order. -/
theorem readings_of_collect (h : c.collect pairs id body = .ok p) :
    c.readings pairs = p.terms.map .ok := by
  obtain ⟨hfailures, rfl⟩ := collect_eq_ok_iff.1 h
  obtain ⟨hpairs, -, -⟩ := failures_eq_nil_iff.1 hfailures
  have hterms : (c.collected pairs id body).terms = c.stored pairs := by
    simp [Params.terms, collected, Function.comp_def]
  rw [hterms, stored, map_ok_of_filterMap_failure? hpairs]

/-- The terms of a request are those that its pairs put in. -/
theorem stored_of_collect (h : c.collect pairs id body = .ok p) : c.stored pairs = p.terms := by
  rw [stored, readings_of_collect h, List.filterMap_map]
  exact List.filterMap_some

/-- A term is stored exactly if some pair is read as it. -/
theorem mem_terms_iff_of_collect (h : c.collect pairs id body = .ok p) {t : Term} :
    t ∈ p.terms ↔ ∃ pair ∈ pairs, c.reading? pair.1 pair.2 = some (.ok t) := by
  have hmem : (.ok t : Except Failure Term) ∈ c.readings pairs ↔ t ∈ p.terms := by
    rw [readings_of_collect h, List.mem_map_of_injective fun _ _ => Except.ok.inj]
  rw [← hmem, readings, List.mem_filterMap]

/-- Whatever a pair of an accepted request is read as is stored. -/
theorem exists_mem_terms_of_reading (h : c.collect pairs id body = .ok p)
    {pair : String × String} (hpair : pair ∈ pairs) {result : Except Failure Term}
    (hreading : c.reading? pair.1 pair.2 = some result) : ∃ t ∈ p.terms, result = .ok t := by
  have hmem : result ∈ c.readings pairs := List.mem_filterMap.2 ⟨pair, hpair, hreading⟩
  rw [readings_of_collect h, List.mem_map] at hmem
  obtain ⟨t, ht, rfl⟩ := hmem
  exact ⟨t, ht, rfl⟩

/-- **A pair of metadata is stored in its place**, its value as a string. -/
theorem metadata_of_collect (h : c.collect pairs id body = .ok p)
    {before after : List (String × String)} {key value : String}
    (hpairs : pairs = before ++ (key, value) :: after) (hne : trimmed key ≠ "")
    (hfilter : trimmed key ≠ c.dialect.reserved.filter)
    (hextra : trimmed key = c.dialect.reserved.extra) :
    ∃ front back,
      p.terms = front ++ { key := trimmed key, operator := .eq, raw := value,
                           value := .string value } :: back ∧
        c.readings before = front.map .ok ∧ c.readings after = back.map .ok := by
  have hreading : c.reading? key value =
      some (.ok { key := trimmed key, operator := .eq, raw := value, value := .string value }) := by
    rw [reading?, if_neg hne, if_neg hfilter, if_pos hextra, hextra]
  have hbehind : c.readings ((key, value) :: after) =
      .ok { key := trimmed key, operator := .eq, raw := value, value := .string value } ::
        c.readings after := by
    rw [readings, List.filterMap_cons, hreading]
    rfl
  have hreadings : c.readings before ++ c.readings ((key, value) :: after) = p.terms.map .ok := by
    rw [← readings_of_collect h, hpairs, readings, readings, readings, List.filterMap_append]
  rw [hbehind] at hreadings
  obtain ⟨front, rest, hterms, hfront, hrest⟩ := List.map_eq_append_iff.1 hreadings.symm
  obtain ⟨t, back, rfl, ht, hback⟩ := List.map_eq_cons_iff.1 hrest
  rw [Except.ok.inj ht] at hterms
  exact ⟨front, back, hterms, hfront.symm, hback.symm⟩

/-- The identifier of a request is read as the one that was collected. -/
theorem idReading_of_collect (h : c.collect pairs id body = .ok p) :
    c.idReading id = p.id.map .ok := by
  obtain ⟨hfailures, rfl⟩ := collect_eq_ok_iff.1 h
  obtain ⟨-, hid, -⟩ := failures_eq_nil_iff.1 hfailures
  exact (map_ok_of_toList_filterMap_failure? hid).symm

/-- The filter document of a request is read as the one that was collected. -/
theorem filterReading_of_collect (h : c.collect pairs id body = .ok p) :
    c.filterReading pairs body = p.filter.map .ok := by
  obtain ⟨hfailures, rfl⟩ := collect_eq_ok_iff.1 h
  obtain ⟨-, -, hfilter⟩ := failures_eq_nil_iff.1 hfailures
  exact (map_ok_of_toList_filterMap_failure? hfilter).symm

/-- Every term of a request is under its own key. -/
theorem ownKeys_of_collect (h : c.collect pairs id body = .ok p) : p.OwnKeys := by
  obtain ⟨-, rfl⟩ := collect_eq_ok_iff.1 h
  simp [Params.OwnKeys, Params.terms, collected, Function.comp_def]

/-- A request without an identifier in which nothing fails comes to the terms and to the filter
document that it is read as. -/
theorem exists_collect_of_readings {terms : List Term} {spec : Option FilterSpec}
    (hreadings : c.readings pairs = terms.map .ok)
    (hspec : c.filterReading pairs body = spec.map .ok) :
    ∃ p, c.collect pairs none body = .ok p ∧ p.id = none ∧
      p.entries = terms.map (fun t => (t.key, t)) ∧ p.filter = spec := by
  have hfailures : c.failures pairs none body = [] := by
    rw [failures_eq_nil_iff, hreadings, hspec]
    refine ⟨?_, rfl, ?_⟩
    · simp [List.filterMap_map, Function.comp_def]
    · cases spec <;> rfl
  obtain ⟨p, hp⟩ : ∃ p, c.collect pairs none body = .ok p :=
    ⟨_, collect_eq_ok_iff.2 ⟨hfailures, rfl⟩⟩
  have hok : Function.Injective (Except.ok : FilterSpec → Except Failure FilterSpec) :=
    fun _ _ => Except.ok.inj
  have hterms : p.terms = terms := by
    rw [← stored_of_collect hp, stored, hreadings, List.filterMap_map]
    exact List.filterMap_some
  have hfilter : p.filter = spec :=
    Option.map_injective hok ((filterReading_of_collect hp).symm.trans hspec)
  have hid : p.id = none := Option.map_eq_none_iff.1 (idReading_of_collect hp).symm
  refine ⟨p, hp, hid, ?_, hfilter⟩
  rw [ownKeys_of_collect hp, hterms]

end Accepted

/-- The columns that a predicate is made for: those of the source, if they matter. -/
def knownColumns (c : Compiler) (p : Params) (source : ColumnSource) (table : String) :
    Except Failure (List String) :=
  if p.needsColumns c.dialect.reserved then source table else .ok []

/-- The predicate of parameters is the one for their columns; only the columns can fail. -/
theorem assemble_eq (c : Compiler) (p : Params) (source : ColumnSource) (table : String) :
    c.assemble p source table = c.knownColumns p source table >>= fun columns =>
      .ok { text := c.dialect.text (c.dialect.assemble p columns)
            values := (c.dialect.assemble p columns).values
            filter := p.filter } := by
  unfold assemble knownColumns
  cases p.needsColumns c.dialect.reserved <;> rfl

end Compiler

/-- **A request fails with the first of its failures, and otherwise comes to its readings.**  Its
terms are then the readings of its pairs, in order, and that of a pair of metadata is the value of
the pair as a string under the key of metadata; a look-up of a key finds those of them that have
this key, and there is something under a key exactly if there is such a term; its identifier and its
filter document are read as the ones it holds. -/
theorem readings_or_first_failure_of_collect (c : Compiler) (pairs : List (String × String))
    (id : Option String) (body : Option (List UInt8)) :
    (∀ failure, c.collect pairs id body = .error failure ↔
        (c.failures pairs id body).head? = some failure) ∧
      ((∃ p, c.collect pairs id body = .ok p) ↔ c.failures pairs id body = []) ∧
      ∀ p, c.collect pairs id body = .ok p →
        c.readings pairs = p.terms.map .ok ∧
          (∀ before key value after, pairs = before ++ (key, value) :: after →
            trimmed key ≠ "" → trimmed key ≠ c.dialect.reserved.filter →
            trimmed key = c.dialect.reserved.extra →
            ∃ front back,
              p.terms = front ++ { key := trimmed key, operator := .eq, raw := value,
                                   value := .string value } :: back ∧
                c.readings before = front.map .ok ∧ c.readings after = back.map .ok) ∧
          (∀ key, p.get key = p.terms.filter fun t => t.key = key) ∧
          (∀ key, p.contains key = true ↔ ∃ t ∈ p.terms, t.key = key) ∧
          c.idReading id = p.id.map .ok ∧
          c.filterReading pairs body = p.filter.map .ok := by
  refine ⟨fun failure => ?_, ?_, fun p h => ?_⟩
  · rw [Compiler.collect_eq]
    cases (c.failures pairs id body).head? <;> simp
  · simp only [Compiler.collect_eq_ok_iff, exists_and_left, exists_eq, and_true]
  · have hown := Compiler.ownKeys_of_collect h
    refine ⟨Compiler.readings_of_collect h, ?_, hown.get_eq, hown.contains_iff,
      Compiler.idReading_of_collect h, Compiler.filterReading_of_collect h⟩
    intro before key value after hpairs hne hfilter hextra
    exact Compiler.metadata_of_collect h hpairs hne hfilter hextra

end WhereClause

/-
**What a request can fail with.**

Reading a request can fail in many places: at the type declared behind a value, at any scalar of a
list or of a pair of bounds, at an operator on its own or below a look-up, and at the filter
document.  Each of these failures is the fault of the request.  The only failure that is not comes
from the column source, and it is passed on as it is, if the columns are asked for at all.

Main definitions:

* `WhereClause.Failure.OfRequest` — the failures of a request;
* `WhereClause.Faults` — a result that can fail with one of them only.

Main results:

* `WhereClause.faults_cast`, `WhereClause.NormalForm.faults_format`,
  `WhereClause.Flavour.faults_parse` — casting, formatting and parsing fail with the fault of the
  request only;
* `WhereClause.Compiler.build_eq_error_iff` — when no predicate can be made;
* `WhereClause.own_fault_or_source_of_failure` — **a request fails with a fault of its own, or else
  with that of the column source it needed; an order is refused for its first wrong expression**.
-/

import WhereClause.Proofs.Flavour
import WhereClause.Proofs.OrderExpressions
import WhereClause.Proofs.Requests
import WhereClause.Proofs.TypeHints
import WhereClause.Proofs.ValueGrammar

set_option relaxedAutoImplicit false
set_option autoImplicit false

namespace WhereClause

open Text

/-! ### Failures of a request -/

/-- The failures that reading a request can end with. -/
inductive Failure.OfRequest : Failure → Prop
  | cast (type : DataType) (token : String) (fault : CastFault) : OfRequest (.cast type token fault)
  | unknownType (name : String) : OfRequest (.unknownType name)
  | unsupported (dialect : String) (operator : Operator) (position : Position) :
      OfRequest (.unsupported dialect operator position)
  | filterDocument (fault : Json.Fault) : OfRequest (.filterDocument fault)

/-- A failure of a request is its own fault. -/
theorem Failure.OfRequest.isClientError {failure : Failure} (h : failure.OfRequest) :
    failure.isClientError = true := by
  cases h <;> rfl

/-- A result that can fail with the fault of a request only. -/
def Faults {α : Type} (result : Except Failure α) : Prop :=
  ∀ failure, result = .error failure → failure.OfRequest

section Results

variable {α β : Type}

theorem faults_ok (a : α) : Faults (.ok a : Except Failure α) := by
  intro failure h
  cases h

theorem faults_error {failure : Failure} (h : failure.OfRequest) :
    Faults (.error failure : Except Failure α) := by
  intro failure' h'
  cases h'
  exact h

/-- What is made of several steps can fail as each of them can. -/
theorem Faults.bind {result : Except Failure α} {next : α → Except Failure β}
    (h : Faults result) (hnext : ∀ a, Faults (next a)) : Faults (result >>= next) := by
  cases result with
  | error failure => exact faults_error (h failure rfl)
  | ok a => exact hnext a

end Results

/-! ### Casting -/

/-- A token can only fail at one of its parts. -/
theorem faults_cast (token : List Char) (type : Option DataType) (operator : Operator)
    (delimiters : List Char) : Faults (cast token type operator delimiters) := by
  intro failure h
  rw [cast_eq_castLiteral, castLiteral_eq_error_iff] at h
  obtain ⟨-, part, -, -, -, -, declared, fault, -, rfl⟩ := h
  exact .cast declared _ fault

/-- The type declared behind a token can only be unknown. -/
theorem faults_splitTypeHint (token : List Char) : Faults (splitTypeHint token) := by
  intro failure h
  obtain ⟨rest, word, -, rfl⟩ := splitTypeHint_eq_error_iff.1 h
  exact .unknownType _

theorem Dialect.faults_applyCast (d : Dialect) (token : String) (t : Term) :
    Faults (d.applyCast token t) := by
  unfold applyCast
  exact (faults_splitTypeHint _).bind fun hinted =>
    (faults_cast _ _ _ _).bind fun value => faults_ok _

/-! ### Formatting -/

namespace NormalForm

variable (form : NormalForm)

theorem faults_formatBelow (chain : List Comparison) :
    ∀ above : Operator, Faults (form.formatBelow above chain) := by
  induction chain with
  | nil => intro above; exact faults_ok []
  | cons c chain ih =>
      intro above
      unfold formatBelow
      split_ifs
      · exact faults_error (.unsupported ..)
      · exact faults_error (.unsupported ..)
      · have hrest := ih (form.settle c).operator
        cases hchain : form.formatBelow (form.settle c).operator chain with
        | error failure => exact faults_error (hrest failure hchain)
        | ok path => exact faults_ok _

/-- A term can only be refused for an operator in it. -/
theorem faults_format (t : Term) : Faults (form.format t) := by
  unfold format
  dsimp only
  split_ifs
  · exact faults_error (.unsupported ..)
  · have hpath := form.faults_formatBelow t.path (form.settle t.toComparison).operator
    cases hbelow : form.formatBelow (form.settle t.toComparison).operator t.path with
    | error failure => exact faults_error (hpath failure hbelow)
    | ok path => exact faults_ok _

end NormalForm

/-! ### Parsing -/

namespace Flavour

variable (f : Flavour) (r : ReservedKeys)

theorem faults_format (t : Term) : Faults ((f.dialect r).format t) := by
  rw [format_dialect]
  exact f.normalForm.faults_format t

theorem faults_parseSingle (key value : String) : Faults ((f.dialect r).parseSingle key value) := by
  unfold Dialect.parseSingle
  dsimp only
  split_ifs
  · exact f.faults_format r _
  · exact ((f.dialect r).faults_applyCast value _).bind fun t => f.faults_format r t

/-- A pair can only fail at its value, at the type behind it or at an operator. -/
theorem faults_parse (key value : String) : Faults ((f.dialect r).parse key value) := by
  unfold Dialect.parse
  dsimp only
  split
  · exact f.faults_parseSingle r key value
  · exact (f.faults_parseSingle r _ _).bind fun nested => f.faults_format r _

end Flavour

/-! ### Requests -/

namespace Compiler

section Collect

variable (f : Flavour) (r : ReservedKeys) (idField : String)

theorem faults_of_mem_readings {pairs : List (String × String)} {result : Except Failure Term}
    (h : result ∈ readings ⟨f.dialect r, idField⟩ pairs) : Faults result := by
  obtain ⟨pair, -, hreading⟩ := List.mem_filterMap.1 h
  unfold reading? at hreading
  split_ifs at hreading
  · cases hreading
    exact faults_ok _
  · cases hreading
    exact f.faults_parse r pair.1 pair.2

theorem faults_of_mem_idReading {id : Option String} {result : Except Failure Term}
    (h : result ∈ (idReading ⟨f.dialect r, idField⟩ id).toList) : Faults result := by
  obtain ⟨value, -, rfl⟩ := Option.map_eq_some_iff.1 (Option.mem_toList.1 h)
  exact f.faults_parse r idField value

end Collect

theorem faults_of_mem_filterReading (c : Compiler) {pairs : List (String × String)}
    {body : Option (List UInt8)} {result : Except Failure FilterSpec}
    (h : result ∈ (c.filterReading pairs body).toList) : Faults result := by
  obtain ⟨bytes, -, rfl⟩ := Option.map_eq_some_iff.1 (Option.mem_toList.1 h)
  cases FilterSpec.decode bytes with
  | error fault => exact faults_error (.filterDocument fault)
  | ok spec => exact faults_ok spec

/-- What fails in some results is a fault of the request if each of them can fail so only. -/
theorem ofRequest_of_mem_failures {α : Type} {results : List (Except Failure α)}
    (hresults : ∀ result ∈ results, Faults result) {failure : Failure}
    (h : failure ∈ results.filterMap failure?) : failure.OfRequest := by
  obtain ⟨result, hmem, hfailure⟩ := List.mem_filterMap.1 h
  cases result with
  | ok a => cases hfailure
  | error failure' =>
      cases hfailure
      exact hresults _ hmem failure rfl

/-- **A request can only fail with a fault of its own.** -/
theorem faults_collect (f : Flavour) (r : ReservedKeys) (idField : String)
    (pairs : List (String × String)) (id : Option String) (body : Option (List UInt8)) :
    Faults (collect ⟨f.dialect r, idField⟩ pairs id body) := by
  intro failure h
  have hfirst : failure ∈ failures ⟨f.dialect r, idField⟩ pairs id body := by
    rw [collect_eq] at h
    cases hhead : (failures ⟨f.dialect r, idField⟩ pairs id body).head? with
    | none => rw [hhead] at h; cases h
    | some first =>
        rw [hhead] at h
        cases h
        exact List.mem_of_head? hhead
  rcases List.mem_append.1 hfirst with hfirst | hfilter
  · rcases List.mem_append.1 hfirst with hpair | hid
    · exact ofRequest_of_mem_failures (fun _ => faults_of_mem_readings f r idField) hpair
    · exact ofRequest_of_mem_failures (fun _ => faults_of_mem_idReading f r idField) hid
  · exact ofRequest_of_mem_failures (fun _ => faults_of_mem_filterReading _) hfilter

/-- **No predicate can be made of a request exactly if the request fails, or if its columns are
asked for and their source fails.** -/
theorem build_eq_error_iff {c : Compiler} {pairs : List (String × String)} {id : Option String}
    {body : Option (List UInt8)} {source : ColumnSource} {table : String} {failure : Failure} :
    c.build pairs id body source table = .error failure ↔
      c.collect pairs id body = .error failure ∨
        ∃ p, c.collect pairs id body = .ok p ∧ p.needsColumns c.dialect.reserved = true ∧
          source table = .error failure := by
  unfold build
  cases c.collect pairs id body with
  | error failure' => simp [bind, Except.bind]
  | ok p =>
      rw [show (Except.ok p >>= fun params => c.assemble params source table) =
        c.assemble p source table from rfl, assemble_eq, knownColumns]
      cases hneeds : p.needsColumns c.dialect.reserved with
      | false => simp [hneeds, bind, Except.bind]
      | true => cases source table <;> simp [hneeds, bind, Except.bind]

end Compiler

/-- **A request fails with a fault of its own, or else with that of the column source it needed.**
Whatever its pairs, its identifier and the bytes of its body are, its parameters can only fail for a
value, the type of a value, an operator or the filter document.  A predicate fails with anything but
the fault of a request exactly if its columns are asked for and their source fails so.  And an order
is refused exactly for the first expression that is no order expression, which the failure holds as
it stands. -/
theorem own_fault_or_source_of_failure (f : Flavour) (r : ReservedKeys) (idField : String) :
    (∀ pairs id body failure,
        Compiler.collect ⟨f.dialect r, idField⟩ pairs id body = .error failure →
          failure.OfRequest ∧ failure.isClientError = true) ∧
      (∀ pairs id body source table failure, failure.isClientError = false →
        (Compiler.build ⟨f.dialect r, idField⟩ pairs id body source table = .error failure ↔
          ∃ p, Compiler.collect ⟨f.dialect r, idField⟩ pairs id body = .ok p ∧
            p.needsColumns r = true ∧ source table = .error failure)) ∧
      ∀ (spec : FilterSpec) failure,
        spec.orderBy (f.dialect r) = .error failure ↔
          ∃ before expression after, spec.orders = before ++ expression :: after ∧
            (∀ e ∈ before, OrderItem.IsOrder e) ∧ ¬ OrderItem.IsOrder expression ∧
            failure = .invalidOrder expression ∧ failure.isClientError = true := by
  refine ⟨fun pairs id body failure h => ?_, fun pairs id body source table failure hserver => ?_,
    fun spec failure => ?_⟩
  · have hfault := Compiler.faults_collect f r idField pairs id body failure h
    exact ⟨hfault, hfault.isClientError⟩
  · rw [Compiler.build_eq_error_iff, Flavour.reserved_dialect, or_iff_right]
    intro hcollect
    have hfault := Compiler.faults_collect f r idField pairs id body failure hcollect
    rw [hfault.isClientError] at hserver
    cases hserver
  · rw [FilterSpec.orderBy_eq_error_iff]
    constructor
    · rintro ⟨before, expression, after, horders, hbefore, hrefused, rfl⟩
      exact ⟨before, expression, after, horders, hbefore, hrefused, rfl, rfl⟩
    · rintro ⟨before, expression, after, horders, hbefore, hrefused, hfailure, -⟩
      exact ⟨before, expression, after, horders, hbefore, hrefused, hfailure⟩

end WhereClause

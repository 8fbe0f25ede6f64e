/-
**Explaining pairs and collecting them.**

The pairs of a query can be explained one by one, and they can be collected into the parameters of a
request.  Both sort them by their keys first, each in its own way: collecting passes over a pair
with a blank key, and explaining reads it as a condition on a column without a name.  That is the
only difference.  On all other pairs a fault is shown exactly where collecting fails, and the terms
shown are the stored ones, metadata aside.

Main definitions:

* `WhereClause.Compiler.shownTerms`, `WhereClause.Compiler.shownFaults` — the terms and the faults
  in the explanations of some pairs;
* `WhereClause.Compiler.conditions` — the stored terms that are no metadata, told by the pairs that
  they come from;
* `WhereClause.Compiler.Agrees` — explaining and collecting agree on a request.

Main results:

* `WhereClause.Compiler.fault?_explain`, `WhereClause.Compiler.term?_explain` — what is shown of a
  pair that is not blank is what is collected of it;
* `WhereClause.Compiler.conditions_of_collect` — the conditions of a request, pair by pair;
* `WhereClause.Compiler.collect_filter_notBlank` — blank pairs do not change what is collected;
* `WhereClause.agrees_iff_of_compiler` — **explaining and collecting agree on an accepted request
  exactly if no key in it is blank**, and they agree on every request without its blank pairs.
-/

import WhereClause.CommandLine.Run
import WhereClause.Proofs.ReservedRoles

set_option relaxedAutoImplicit false
set_option autoImplicit false

namespace WhereClause

open Text

/-! ### Lists read by two functions -/

section FilterMap

variable {α β : Type} {l : List α}

/-- What the items are read as, each beside its item, gives the readings of those items that are
kept. -/
theorem map_snd_filter_zip (read : α → Option β) (keep : α → Bool) (l : List α) :
    (((l.filter fun a => (read a).isSome).zip (l.filterMap read)).filter fun item =>
        keep item.1).map Prod.snd =
      l.filterMap fun a => if keep a then read a else none := by
  induction l with
  | nil => rfl
  | cons a l ih => cases hread : read a <;> cases hkeep : keep a <;> simp [hread, hkeep, ih]

/-- A reading that leaves items out gives no more than one that does not. -/
theorem length_filterMap_le {read read' : α → Option β}
    (hread : ∀ a ∈ l, read' a = none ∨ read a = read' a) :
    (l.filterMap read').length ≤ (l.filterMap read).length := by
  rw [List.length_filterMap_eq_countP, List.length_filterMap_eq_countP]
  refine List.countP_mono_left fun a ha hsome => ?_
  rcases hread a ha with hnone | heq
  · rw [hnone] at hsome
    cases hsome
  · rwa [heq]

/-- So the two give the same only if nothing is left out. -/
theorem eq_of_filterMap_eq {read read' : α → Option β}
    (hread : ∀ a ∈ l, read' a = none ∨ read a = read' a)
    (h : l.filterMap read = l.filterMap read') : ∀ a ∈ l, read a = read' a := by
  induction l with
  | nil => nofun
  | cons a l ih =>
      obtain ⟨ha, hrest⟩ := List.forall_mem_cons.1 hread
      have hle := length_filterMap_le hrest
      rw [List.filterMap_cons, List.filterMap_cons] at h
      cases hsome : read' a with
      | none =>
          simp only [hsome] at h
          cases hsome' : read a with
          | none =>
              simp only [hsome'] at h
              exact List.forall_mem_cons.2 ⟨hsome'.trans hsome.symm, ih hrest h⟩
          | some b =>
              -- there would be one reading more than there can be
              simp only [hsome'] at h
              have hlength := congrArg List.length h
              rw [List.length_cons] at hlength
              omega
      | some b =>
          have hhead : read a = read' a := ha.resolve_left (by simp [hsome])
          simp only [hhead, hsome] at h
          exact List.forall_mem_cons.2 ⟨hhead, ih hrest (List.cons.inj h).2⟩

/-- Items that are read as nothing can be left out before. -/
theorem filterMap_filter_of_none {read : α → Option β} {keep : α → Bool}
    (h : ∀ a ∈ l, keep a = false → read a = none) :
    (l.filter keep).filterMap read = l.filterMap read := by
  rw [List.filterMap_filter]
  refine List.filterMap_congr fun a ha => ?_
  cases hkeep : keep a with
  | false => exact (h a ha hkeep).symm
  | true => rfl

end FilterMap

/-! ### Explanations -/

namespace Explanation

/-- The term that is shown. -/
def term? : Explanation → Option Term
  | .term t => some t
  | _ => none

/-- The fault that is shown. -/
def fault? : Explanation → Option Failure
  | .fault failure => some failure
  | _ => none

end Explanation

namespace Compiler

/-- The terms in the explanations of some pairs, in order. -/
def shownTerms (c : Compiler) (pairs : List (String × String)) : List Term :=
  pairs.filterMap fun pair => (c.explain pair.1 pair.2).term?

/-- The faults in the explanations of some pairs, in order. -/
def shownFaults (c : Compiler) (pairs : List (String × String)) : List Failure :=
  pairs.filterMap fun pair => (c.explain pair.1 pair.2).fault?

/-- The pairs of a request that put in a term, in order. -/
def origins (c : Compiler) (pairs : List (String × String)) : List (String × String) :=
  pairs.filter fun pair => (c.reading? pair.1 pair.2).isSome

/-- The stored terms of a request that are no metadata: those that do not come from a pair with the
key of metadata. -/
def conditions (c : Compiler) (pairs : List (String × String)) (p : Params) : List Term :=
  (((c.origins pairs).zip p.terms).filter fun item =>
    trimmed item.1.1 != c.dialect.reserved.extra).map Prod.snd

/-- Explaining and collecting agree on a request: where a fault is shown, the request fails, and if
it does not, the terms shown are its conditions. -/
structure Agrees (c : Compiler) (pairs : List (String × String)) (id : Option String)
    (body : Option (List UInt8)) : Prop where
  fault : c.shownFaults pairs ≠ [] → ∃ failure, c.collect pairs id body = .error failure
  terms : ∀ p, c.collect pairs id body = .ok p → c.shownTerms pairs = c.conditions pairs p

variable {c : Compiler} {key value : String}

/-! ### One pair -/

/-- The condition that a pair comes to when it is collected. -/
def condition? (c : Compiler) (key value : String) : Option Term :=
  if trimmed key != c.dialect.reserved.extra then (c.reading? key value).bind Except.toOption
  else none

/-- A pair that is not blank is shown as a fault exactly if it fails. -/
theorem fault?_explain (h : allBlank key = false) :
    (c.explain key value).fault? = (c.reading? key value).bind failure? := by
  have hne := trimmed_ne_empty h
  simp only [explain, reading?, if_neg hne]
  split_ifs with hfilter hextra
  · rfl
  · rfl
  · cases c.dialect.parse key value <;> rfl

/-- A pair that is not blank is shown as the condition that it comes to. -/
theorem term?_explain (h : allBlank key = false) :
    (c.explain key value).term? = c.condition? key value := by
  have hne := trimmed_ne_empty h
  simp only [explain, condition?, reading?, if_neg hne, bne_iff_ne, ne_eq, ite_not]
  split_ifs with hfilter hextra
  · rfl
  · rfl
  · rfl
  · cases c.dialect.parse key value <;> rfl

/-- A blank pair puts in nothing. -/
theorem reading?_of_blank (h : allBlank key = true) : c.reading? key value = none := by
  rw [reading?, if_pos (trimmed_eq_empty_iff.2 h)]

theorem document?_of_blank (h : allBlank key = true) : c.document? key value = none := by
  rw [document?, if_pos (trimmed_eq_empty_iff.2 h)]

theorem condition?_of_blank (h : allBlank key = true) : c.condition? key value = none := by
  rw [condition?, reading?_of_blank h]
  exact ite_self none

/-- But it is shown as a term or as a fault, since no reserved key is blank. -/
theorem explain_of_blank (hr : c.dialect.reserved.Accepted) (h : allBlank key = true)
    (value : String) : (c.explain key value).fault? ≠ none ∨ (c.explain key value).term? ≠ none := by
  have hkey : ∀ reserved : String, allBlank reserved = false → trimmed key ≠ reserved := by
    rintro reserved hreserved rfl
    rw [trimmed_eq_empty_iff.2 h] at hreserved
    cases hreserved
  rw [explain, if_neg (hkey _ hr.filter), if_neg (hkey _ hr.extra)]
  cases c.dialect.parse key value with
  | error failure => exact .inl nofun
  | ok t => exact .inr nofun

/-! ### A request -/

section Request

variable {pairs : List (String × String)} {id : Option String} {body : Option (List UInt8)}
  {p : Params}

/-- **The conditions of a request are those of its pairs**, in order. -/
theorem conditions_of_collect (h : c.collect pairs id body = .ok p) :
    c.conditions pairs p = pairs.filterMap fun pair => c.condition? pair.1 pair.2 := by
  have hzip := map_snd_filter_zip (fun pair : String × String => c.reading? pair.1 pair.2)
    (fun pair => trimmed pair.1 != c.dialect.reserved.extra) pairs
  have hreadings : (pairs.filterMap fun pair => c.reading? pair.1 pair.2) = p.terms.map .ok :=
    readings_of_collect h
  rw [hreadings, List.zip_map_right, List.filter_map, List.map_map] at hzip
  -- what is read beside its pair is stored beside it
  have hstored : (c.conditions pairs p).map .ok = pairs.filterMap fun pair =>
      if trimmed pair.1 != c.dialect.reserved.extra then c.reading? pair.1 pair.2 else none := by
    rw [← hzip, conditions, List.map_map]
    rfl
  have hvalues := congrArg (List.filterMap Except.toOption) hstored
  rw [List.filterMap_map, List.filterMap_filterMap] at hvalues
  refine (List.filterMap_some.symm.trans hvalues).trans (List.filterMap_congr fun pair _ => ?_)
  rw [condition?]
  split <;> rfl

/-- The faults shown of pairs that are not blank are their failures. -/
theorem shownFaults_of_notBlank (h : ∀ pair ∈ pairs, allBlank pair.1 = false) :
    c.shownFaults pairs = (c.readings pairs).filterMap failure? := by
  rw [shownFaults, readings, List.filterMap_filterMap]
  exact List.filterMap_congr fun pair hpair => fault?_explain (h pair hpair)

/-- The terms shown of pairs that are not blank are their conditions. -/
theorem shownTerms_of_notBlank (h : ∀ pair ∈ pairs, allBlank pair.1 = false) :
    c.shownTerms pairs = pairs.filterMap fun pair => c.condition? pair.1 pair.2 :=
  List.filterMap_congr fun pair hpair => term?_explain (h pair hpair)

/-- **A request fails with the first fault shown of its pairs, if none of them is blank.** -/
theorem collect_of_shownFaults (h : ∀ pair ∈ pairs, allBlank pair.1 = false) {failure : Failure}
    (hfault : (c.shownFaults pairs).head? = some failure) :
    c.collect pairs id body = .error failure := by
  rw [shownFaults_of_notBlank h] at hfault
  rw [collect_eq, failures, List.append_assoc, List.head?_append, hfault]
  rfl

/-- Explaining and collecting agree on a request without blank pairs. -/
theorem agrees_of_notBlank (h : ∀ pair ∈ pairs, allBlank pair.1 = false) :
    c.Agrees pairs id body where
  fault hfaults := by
    obtain ⟨failure, rest, hcons⟩ := List.exists_cons_of_ne_nil hfaults
    exact ⟨failure, collect_of_shownFaults h (by rw [hcons]; rfl)⟩
  terms p hp := by rw [shownTerms_of_notBlank h, conditions_of_collect hp]

/-- They do not agree on an accepted request with one. -/
theorem notBlank_of_agrees (hr : c.dialect.reserved.Accepted) (hagrees : c.Agrees pairs id body)
    (h : c.collect pairs id body = .ok p) : ∀ pair ∈ pairs, allBlank pair.1 = false := by
  have hfaults : c.shownFaults pairs = [] := by
    by_contra hne
    obtain ⟨failure, hfailure⟩ := hagrees.fault hne
    rw [h] at hfailure
    cases hfailure
  have hterms := hagrees.terms p h
  rw [conditions_of_collect h, shownTerms] at hterms
  have hsame := eq_of_filterMap_eq (fun pair _ => ?_) hterms
  · intro pair hpair
    by_contra hblank
    rw [Bool.not_eq_false] at hblank
    -- a blank pair is no condition, so it would have to be shown as a fault
    rcases explain_of_blank hr hblank pair.2 with hfault | hterm
    · exact hfault (List.filterMap_eq_nil_iff.1 hfaults pair hpair)
    · rw [hsame pair hpair, condition?_of_blank hblank] at hterm
      exact hterm rfl
  · cases hblank : allBlank pair.1 with
    | true => exact .inl (condition?_of_blank hblank)
    | false => exact .inr (term?_explain hblank)

/-- **Without its blank pairs, a request comes to the same.** -/
theorem collect_filter_notBlank (c : Compiler) (pairs : List (String × String))
    (id : Option String) (body : Option (List UInt8)) :
    c.collect (pairs.filter fun pair => !allBlank pair.1) id body = c.collect pairs id body := by
  have hreadings : c.readings (pairs.filter fun pair => !allBlank pair.1) = c.readings pairs :=
    filterMap_filter_of_none fun pair _ hblank => reading?_of_blank (by simpa using hblank)
  have hdocument : c.document (pairs.filter fun pair => !allBlank pair.1) = c.document pairs :=
    congrArg List.getLast? <|
      filterMap_filter_of_none fun pair _ hblank => document?_of_blank (by simpa using hblank)
  simp only [collect_eq, failures, collected, stored, filterReading, hreadings, hdocument]

end Request

end Compiler

/-! ### Configurations -/

/-- The reserved keys of a compiler that a configuration builds are accepted. -/
theorem CommandLine.accepted_of_compiler {s : Settings} {c : Compiler}
    (h : CommandLine.compiler s = .ok c) : c.dialect.reserved.Accepted := by
  unfold CommandLine.compiler at h
  split at h
  next => cases h
  next d hbuild =>
    cases h
    obtain ⟨f, rfl⟩ := Flavour.exists_of_build hbuild
    rw [Flavour.reserved_dialect]
    refine ReservedKeys.accepted_of_validate ?_
    unfold Settings.build DialectKind.build at hbuild
    split at hbuild
    next => cases hbuild
    next hvalid => exact hvalid

/-- **Explaining and collecting agree on an accepted request exactly if no key in it is blank.**
They agree on every request without its blank pairs, which changes nothing about what is collected,
and which fails with the first fault shown of it. -/
theorem agrees_iff_of_compiler {s : Settings} {c : Compiler} (h : CommandLine.compiler s = .ok c)
    (pairs : List (String × String)) (id : Option String) (body : Option (List UInt8)) :
    let notBlank := pairs.filter fun pair => !allBlank pair.1
    (c.Agrees pairs id body ↔ (∃ failure, c.collect pairs id body = .error failure) ∨
      ∀ pair ∈ pairs, allBlank pair.1 = false) ∧
    c.Agrees notBlank id body ∧
    c.collect notBlank id body = c.collect pairs id body ∧
    ∀ failure, (c.shownFaults notBlank).head? = some failure →
      c.collect pairs id body = .error failure := by
  intro notBlank
  have hnotBlank : ∀ pair ∈ notBlank, allBlank pair.1 = false := fun pair hpair => by
    simpa using (List.mem_filter.1 hpair).2
  have hsame := c.collect_filter_notBlank pairs id body
  refine ⟨⟨fun hagrees => ?_, ?_⟩, Compiler.agrees_of_notBlank hnotBlank, hsame, ?_⟩
  · cases hcollect : c.collect pairs id body with
    | error failure => exact .inl ⟨failure, rfl⟩
    | ok p =>
        have hr := CommandLine.accepted_of_compiler h
        exact .inr (Compiler.notBlank_of_agrees hr hagrees hcollect)
  · rintro (⟨failure, hcollect⟩ | hpairs)
    · refine ⟨fun _ => ⟨failure, hcollect⟩, fun p hp => ?_⟩
      rw [hcollect] at hp
      cases hp
    · exact Compiler.agrees_of_notBlank hpairs
  · intro failure hfault
    rw [← hsame]
    exact Compiler.collect_of_shownFaults hnotBlank hfault

/-- Metadata, the filter document and blanks around keys make no difference. -/
theorem agrees_of_padded_keys : ∃ c p, CommandLine.compiler {} = .ok c ∧
    c.collect [(" + ", "m"), ("[|] a [!]", "b"), (" ~", "{}"), ("+[:]", "m"), ("*", "x")]
      (some "7") none = .ok p ∧
    c.Agrees [(" + ", "m"), ("[|] a [!]", "b"), (" ~", "{}"), ("+[:]", "m"), ("*", "x")]
      (some "7") none := by
  obtain ⟨c, p, hcompiler, hcollect⟩ : ∃ c p, CommandLine.compiler {} = .ok c ∧
      c.collect [(" + ", "m"), ("[|] a [!]", "b"), (" ~", "{}"), ("+[:]", "m"), ("*", "x")]
        (some "7") none = .ok p := ⟨_, _, rfl, rfl⟩
  exact ⟨c, p, hcompiler, hcollect,
    (agrees_iff_of_compiler hcompiler _ _ _).1.2 (.inr (by decide))⟩

/-- A blank key is shown as a term or as a fault, and nothing is collected of it. -/
theorem not_agrees_of_blank_key : ∃ c p, CommandLine.compiler {} = .ok c ∧
    c.collect [(" ", "x")] none none = .ok p ∧ p.terms = [] ∧
    (c.shownTerms [(" ", "x")]).map Term.keys = [[""]] ∧
    ¬ c.Agrees [(" ", "x")] none none ∧ ¬ c.Agrees [("", "1::nope")] none none := by
  obtain ⟨c, p, p', hcompiler, hcollect, hterms, hshown, hconditions, hcollect', hfaults⟩ :
      ∃ c p p', CommandLine.compiler {} = .ok c ∧
        c.collect [(" ", "x")] none none = .ok p ∧ p.terms = [] ∧
        (c.shownTerms [(" ", "x")]).map Term.keys = [[""]] ∧
        c.conditions [(" ", "x")] p = [] ∧
        c.collect [("", "1::nope")] none none = .ok p' ∧
        (c.shownFaults [("", "1::nope")]).length = 1 :=
    ⟨_, _, _, rfl, rfl, rfl, rfl, rfl, rfl, rfl⟩
  refine ⟨c, p, hcompiler, hcollect, hterms, hshown, fun hagrees => ?_, fun hagrees => ?_⟩
  · rw [hagrees.terms p hcollect, hconditions] at hshown
    cases hshown
  · obtain ⟨failure, hfailure⟩ := hagrees.fault fun hnil => by
      rw [hnil] at hfaults
      cases hfaults
    rw [hcollect'] at hfailure
    cases hfailure

end WhereClause

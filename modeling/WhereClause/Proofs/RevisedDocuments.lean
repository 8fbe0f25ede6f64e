/-
**Documents that say the same.**

A document can be written in many ways that mean the same.  Its members may stand in another order,
members of other names may be added to it, whatever their values are, and a member may be left out
if it only says what the default is; and all of it may be laid out anew.  None of that makes a
document unacceptable, and none of it changes what is read.

Main definitions:

* `WhereClause.FilterSpec.Member.IsOther` — members of other names;
* `WhereClause.FilterSpec.Member.IsDefault` — members that say what the default is;
* `WhereClause.FilterSpec.Revision` — members that come from others without a change of meaning.

Main results:

* `WhereClause.FilterSpec.Revision.describes` — a revision says the same;
* `WhereClause.FilterSpec.decode_of_revision` — **a revised document is read as the same**.
-/

import WhereClause.Proofs.ObjectDocuments

set_option relaxedAutoImplicit false
set_option autoImplicit false

namespace WhereClause.FilterSpec

open Json Text Utf8

namespace Member

/-- A member of another name than those of the parts. -/
def IsOther (m : Member) : Prop := ∃ k, m.name? = some k ∧ Part.ofName? k = none

/-- A member that names a part and whose value, read into the default, changes nothing. -/
def IsDefault (m : Member) : Prop :=
  ∃ part text, m.part? = some part ∧ Spelled m.2 text ∧ part.read {} text = .ok ({}, [])

end Member

/-- Members that come from others without a change of meaning. -/
inductive Revision : List Member → List Member → Prop
  /-- The members in another order. -/
  | perm {members members' : List Member} : members.Perm members' → Revision members members'
  /-- One more member, of another name. -/
  | add {m : Member} {members : List Member} : m.IsOther → Revision members (m :: members)
  /-- One member less, which said what the default is. -/
  | drop {m : Member} {members : List Member} : m.IsDefault → Revision (m :: members) members
  | trans {members members' members'' : List Member} : Revision members members' →
      Revision members' members'' → Revision members members''

section Revisions

variable {m : Member} {members members' : List Member} {spec : FilterSpec}

/-- A member that says what the default is fits only documents that agree with the default. -/
theorem Fits.same_of_isDefault {part : Part} {text : List UInt8} (h : Fits m spec)
    (hpart : m.part? = some part) (htext : Spelled m.2 text)
    (hread : part.read {} text = .ok ({}, [])) : part.Same {} spec := by
  cases h with
  | unknown hname hnone =>
      rw [Member.part?, hname, Option.bind_some, hnone] at hpart
      cases hpart
  | @part k part' value hname hsome hvalue hsame =>
      rw [Member.part?, hname, Option.bind_some, hsome] at hpart
      cases hpart
      have hsays := hvalue (.of_spell htext) follows_nil
      rw [List.append_nil, hread] at hsays
      cases hsays
      exact hsame

theorem Describes.perm (h : Describes members spec) (hperm : members.Perm members') :
    Describes members' spec := by
  have hnamed : (named members).Perm (named members') := hperm.filterMap Member.part?
  exact {
    fits := fun m hm => h.fits m (hperm.mem_iff.2 hm)
    nodup := hnamed.nodup_iff.1 h.nodup
    absent := fun part hpart => h.absent part fun hmem => hpart (hnamed.mem_iff.1 hmem) }

theorem Describes.add (h : Describes members spec) (hm : m.IsOther) :
    Describes (m :: members) spec := by
  obtain ⟨k, hname, hpart⟩ := hm
  have hnamed := named_cons_of_none hname hpart members
  exact {
    fits := List.forall_mem_cons.2 ⟨.unknown hname hpart, h.fits⟩
    nodup := by rw [hnamed]; exact h.nodup
    absent := by rw [hnamed]; exact h.absent }

theorem Describes.drop (h : Describes (m :: members) spec) (hm : m.IsDefault) :
    Describes members spec := by
  obtain ⟨part, text, hpart, htext, hread⟩ := hm
  obtain ⟨hfit, hfits⟩ := List.forall_mem_cons.1 h.fits
  have hnamed : named (m :: members) = part :: named members := List.filterMap_cons_some hpart
  have hnodup := h.nodup
  have habsent := h.absent
  rw [hnamed] at hnodup habsent
  refine ⟨hfits, (List.nodup_cons.1 hnodup).2, fun part' hnot => ?_⟩
  by_cases hpart' : part' = part
  · rw [hpart']
    exact hfit.same_of_isDefault hpart htext hread
  · exact habsent part' (List.not_mem_cons_of_ne_of_not_mem hpart' hnot)

/-- **A revision says the same.** -/
theorem Revision.describes (h : Revision members members') (hdescribes : Describes members spec) :
    Describes members' spec := by
  induction h with
  | perm hperm => exact hdescribes.perm hperm
  | add hm => exact hdescribes.add hm
  | drop hm => exact hdescribes.drop hm
  | trans _ _ ih ih' => exact ih' (ih hdescribes)

end Revisions

/-- **A revised document is read as the same.**  An object that is accepted has members; and every
text of a revision of them, in whatever layout, is accepted and gives an equal filter document. -/
theorem decode_of_revision {bytes : List UInt8} {spec : FilterSpec} (h : decode bytes = .ok spec)
    (hobject : (skipSpace bytes).head? = some (byte '\x7b')) :
    (∃ members, Document members bytes) ∧
      ∀ members members' bytes', Document members bytes → Revision members members' →
        Document members' bytes' → decode bytes' = .ok spec := by
  refine ⟨exists_document h hobject, fun members members' bytes' hdoc hrevision hdoc' => ?_⟩
  have hdescribes := (decode_eq_ok_iff_describes hdoc).1 h
  exact (decode_eq_ok_iff_describes hdoc').2 (hrevision.describes hdescribes)

/-- A limit of none is left out, a member of another name is added in front and moved behind, and
blanks are put in between. -/
theorem decode_of_revision_of_fields :
    ∃ spec members members', spec.fields = ["a"] ∧
      decode (encode "\x7b\"limit\":-1,\"fields\":[\"a\"]\x7d".toList) = .ok spec ∧
      Document members (encode "\x7b\"limit\":-1,\"fields\":[\"a\"]\x7d".toList) ∧
      Revision members members' ∧
      Document members' (encode "\x7b \"fields\" : [\"a\"], \"x\" : null\x7d".toList) ∧
      decode (encode "\x7b \"fields\" : [\"a\"], \"x\" : null\x7d".toList) = .ok spec := by
  have hspelled : ∀ {members s bytes}, Document members s → s = bytes → Document members bytes := by
    rintro members s bytes h rfl
    exact h
  have hspace : Blank [byte ' '] := List.forall_mem_singleton.2 rfl
  obtain ⟨spec, hfields, hread⟩ : ∃ spec : FilterSpec, spec.fields = ["a"] ∧
      decode (encode "\x7b\"limit\":-1,\"fields\":[\"a\"]\x7d".toList) = .ok spec := by
    have hsome : ((decode (encode "\x7b\"limit\":-1,\"fields\":[\"a\"]\x7d".toList)).toOption.map
        FilterSpec.fields) = some ["a"] := by decide +kernel
    obtain ⟨spec, hspec, hfields⟩ := Option.map_eq_some_iff.1 hsome
    exact ⟨spec, hfields, eq_ok_of_toOption hspec⟩
  -- the members, and their values
  have hnone : Spelled (.number true (encode "1".toList)) (encode "-1".toList) :=
    .intro (.number (.of_skipNumber (by decide +kernel)))
  have hcolumns : Spelled (.array [.string (encode "a".toList)]) (encode "[\"a\"]".toList) :=
    .intro (.array (.cons blank_nil blank_nil
      (.intro (.string (.of_skipString (by decide +kernel)))) (.nil blank_nil)))
  have hlimit : Content (encode "limit".toList) := .of_skipString (by decide +kernel)
  have hname : Content (encode "fields".toList) := .of_skipString (by decide +kernel)
  have hother : Content (encode "x".toList) := .of_skipString (by decide +kernel)
  have hdocument : Document [(encode "limit".toList, .number true (encode "1".toList)),
      (encode "fields".toList, .array [.string (encode "a".toList)])]
      (encode "\x7b\"limit\":-1,\"fields\":[\"a\"]\x7d".toList) := by
    refine hspelled (.intro (.intro blank_nil (.intro (.object
      (.cons blank_nil blank_nil (.intro hlimit (.intro blank_nil (.intro blank_nil hnone)))
      (.cons blank_nil blank_nil (.intro hname (.intro blank_nil (.intro blank_nil hcolumns)))
      (.nil blank_nil)))))) blank_nil) ?_
    decide +kernel
  have hdocument' : Document [(encode "fields".toList, .array [.string (encode "a".toList)]),
      (encode "x".toList, .null)]
      (encode "\x7b \"fields\" : [\"a\"], \"x\" : null\x7d".toList) := by
    refine hspelled (.intro (.intro blank_nil (.intro (.object
      (.cons blank_nil hspace (.intro hname (.intro hspace (.intro hspace hcolumns)))
      (.cons blank_nil hspace (.intro hother (.intro hspace (.intro hspace (.intro .null))))
      (.nil blank_nil)))))) blank_nil) ?_
    decide +kernel
  have hdefault : Member.IsDefault (encode "limit".toList, .number true (encode "1".toList)) := by
    have hint : readInt64 (encode "-1".toList) = .ok (-1, []) :=
      eq_ok_of_toOption (by decide +kernel)
    exact ⟨.limit, encode "-1".toList, by decide +kernel, hnone, by rw [Part.read, hint]; rfl⟩
  have hunknown : Member.IsOther (encode "x".toList, .null) :=
    ⟨"x", by decide +kernel, by decide⟩
  have hrevision : Revision [(encode "limit".toList, .number true (encode "1".toList)),
      (encode "fields".toList, .array [.string (encode "a".toList)])]
      [(encode "fields".toList, .array [.string (encode "a".toList)]),
        (encode "x".toList, .null)] :=
    .trans (.drop hdefault) (.trans (.add hunknown) (.perm (.swap _ _ _)))
  exact ⟨spec, _, _, hfields, hread, hdocument, hrevision, hdocument',
    (decode_of_revision hread (by decide)).2 _ _ _ hdocument hrevision hdocument'⟩

end WhereClause.FilterSpec

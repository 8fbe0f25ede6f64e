/-
**What the members of a filter document say.**

A document that is an object is read member by member into the default, and what comes of it can be
said without the reader: every member that names a part says what that part is, no part is named
twice, a part that is not named is that of the default, and other members say nothing.  So the
layout of a document does not matter, nor the order of its members.

Main definitions:

* `WhereClause.FilterSpec.Document` — the texts of an object with given members;
* `WhereClause.FilterSpec.Member.name?`, `WhereClause.FilterSpec.Member.part?` — the name of a
  member, and the part that it names;
* `WhereClause.FilterSpec.Part.Same` — documents that agree on a part;
* `WhereClause.FilterSpec.Describes` — **what the members say**.

Main results:

* `WhereClause.FilterSpec.exists_document` — an object that is accepted is one of its members;
* `WhereClause.FilterSpec.decode_eq_ok_iff_describes` — **a document is accepted exactly as what its
  members say**.
-/

import WhereClause.Proofs.FilterDocuments
import WhereClause.Proofs.ValueReaders

set_option relaxedAutoImplicit false
set_option autoImplicit false

namespace WhereClause.FilterSpec

open Json Text

/-! ### Parts -/

namespace Part

variable {part part' : Part} {a b c : FilterSpec}

/-- Documents that agree on a part. -/
def Same (part : Part) (a b : FilterSpec) : Prop :=
  match part with
  | fields => a.fields = b.fields
  | orders => a.orders = b.orders
  | limit => a.limit = b.limit
  | offset => a.offset = b.offset
  | vars => a.vars = b.vars

theorem Same.refl (part : Part) (a : FilterSpec) : part.Same a a := by
  cases part <;> exact rfl

theorem Same.symm (h : part.Same a b) : part.Same b a := by
  cases part <;> exact Eq.symm h

theorem Same.trans (h : part.Same a b) (h' : part.Same b c) : part.Same a c := by
  cases part <;> exact Eq.trans h h'

/-- Documents that agree on every part are equal. -/
theorem eq_of_same (h : ∀ part : Part, part.Same a b) : a = b := by
  have hfields : a.fields = b.fields := h fields
  have horders : a.orders = b.orders := h orders
  have hlimit : a.limit = b.limit := h limit
  have hoffset : a.offset = b.offset := h offset
  have hvars : a.vars = b.vars := h vars
  cases a
  cases b
  simp only at hfields horders hlimit hoffset hvars
  subst hfields horders hlimit hoffset hvars
  rfl

theorem same_copy (part : Part) (a b : FilterSpec) : part.Same (part.copy a b) a := by
  cases part <;> exact rfl

theorem same_copy_of_ne (h : part' ≠ part) (a b : FilterSpec) : part'.Same (part.copy a b) b := by
  cases part <;> cases part' <;> first | exact rfl | exact absurd rfl h

/-- What is read of a part does not depend on the document that it is read into. -/
theorem read_eq (part : Part) (into : FilterSpec) (bytes : List UInt8) :
    part.read into bytes = (do
      let (value, rest) ← part.read {} bytes
      pure (part.copy value into, rest)) := by
  cases part with
  | fields | orders =>
      simp only [read]
      cases readTexts bytes <;> rfl
  | limit | offset =>
      simp only [read]
      cases readInt64 bytes <;> rfl
  | vars =>
      simp only [read]
      cases readObject (deepest - 1) bytes <;> rfl

theorem blind_read (part : Part) (into : FilterSpec) : Blind (part.read into) (Padded Spelled) := by
  cases part with
  | fields => exact blind_readTexts.map fun value => { into with fields := value }
  | orders => exact blind_readTexts.map fun value => { into with orders := value }
  | limit => exact blind_readInt64.map fun value => { into with limit := value }
  | offset => exact blind_readInt64.map fun value => { into with offset := value }
  | vars => exact (blind_readObject _).map fun value => { into with vars := value }

/-- What a value says of a part is copied into the document. -/
theorem readsAs_read {Spell : Tree → List UInt8 → Prop} {t : Tree} {value : FilterSpec}
    (h : ReadsAs (part.read {}) Spell t value) (into : FilterSpec) :
    ReadsAs (part.read into) Spell t (part.copy value into) := by
  have hcopy := h.map fun value => part.copy value into
  intro s rest hs hrest
  rw [read_eq]
  exact hcopy hs hrest

theorem sound_read (part : Part) (into : FilterSpec) : Sound (part.read into) (Padded Spelled) := by
  cases part with
  | fields => exact sound_readTexts.map fun value => { into with fields := value }
  | orders => exact sound_readTexts.map fun value => { into with orders := value }
  | limit => exact sound_readInt64.map fun value => { into with limit := value }
  | offset => exact sound_readInt64.map fun value => { into with offset := value }
  | vars => exact (sound_readObject _).map fun value => { into with vars := value }

end Part

/-! ### Members -/

/-- A member of an object: its name as it is written, and its value. -/
abbrev Member := List UInt8 × Tree

namespace Member

/-- The name of a member. -/
def name? (m : Member) : Option String :=
  match readString (m.1 ++ [byte '"']) with
  | .ok (k, _) => some k
  | .error _ => none

/-- The part that a member names. -/
def part? (m : Member) : Option Part := m.name?.bind Part.ofName?

variable {m : Member} {k : String} {rest r : List UInt8}

theorem name?_of_readString (hm : Content m.1)
    (h : readString (m.1 ++ byte '"' :: rest) = .ok (k, r)) : m.name? = some k := by
  rw [name?, (readString_of_content hm h).2 []]

theorem readString_of_name? (hm : Content m.1) (h : m.name? = some k) (rest : List UInt8) :
    readString (m.1 ++ byte '"' :: rest) = .ok (k, rest) := by
  rw [name?] at h
  split at h
  next k' r hread =>
    cases h
    exact (readString_of_content hm hread).2 rest
  next => cases h

end Member

section Members

variable {m : Member} {k : String} {part : Part} {state next : FilterSpec × List Part}

/-- A member that names no part says nothing. -/
theorem readMember_of_none (h : Part.ofName? k = none) :
    readMember state k = (fun bytes => do
      let rest ← readColon bytes
      let (_, rest) ← passing skipValue rest
      pure (state, rest)) := by
  funext bytes
  simp only [readMember, h]
  cases readColon bytes with
  | error fault => rfl
  | ok rest =>
      simp only [ok_bind, passing]
      cases skipValue rest <;> rfl

/-- A member that names a part is read as this part. -/
theorem readMember_of_some (h : Part.ofName? k = some part) (hnew : part ∉ state.2) :
    readMember state k = (fun bytes => do
      let rest ← readColon bytes
      let (spec, rest) ← part.read state.1 rest
      pure ((spec, part :: state.2), rest)) := by
  have hcontains : state.2.contains part = false := by simpa using hnew
  funext bytes
  simp only [readMember, h, hcontains, Bool.false_eq_true, if_false]

/-- A part is not read twice. -/
theorem readMember_of_mem (h : Part.ofName? k = some part) (hold : part ∈ state.2) :
    readMember state k = fun _ => .error .unexpected := by
  have hcontains : state.2.contains part = true := by simpa using hold
  funext bytes
  simp only [readMember, h, hcontains, if_true]

theorem blind_readMember (state : FilterSpec × List Part) (k : String) :
    Blind (readMember state k) (ColonSpelled Spelled) := by
  cases hpart : Part.ofName? k with
  | none =>
      rw [readMember_of_none hpart]
      exact ((Blind.of_readsAs () readsAs_skipValue).map fun _ => state).colon
  | some part =>
      by_cases hold : part ∈ state.2
      · rw [readMember_of_mem hpart hold]
        exact blind_error .unexpected
      · rw [readMember_of_some hpart hold]
        exact ((part.blind_read state.1).map fun spec => (spec, part :: state.2)).colon

theorem sound_readMember (state : FilterSpec × List Part) (k : String) :
    Sound (readMember state k) (ColonSpelled Spelled) := by
  cases hpart : Part.ofName? k with
  | none =>
      rw [readMember_of_none hpart]
      exact (sound_skipValue.map fun _ => state).colon
  | some part =>
      by_cases hold : part ∈ state.2
      · rw [readMember_of_mem hpart hold]
        exact sound_error .unexpected
      · rw [readMember_of_some hpart hold]
        exact ((part.sound_read state.1).map fun spec => (spec, part :: state.2)).colon

/-- **What a member does**: it names no part and changes nothing, or it names a part that has not
been read yet, and says what the part is. -/
inductive Effect (m : Member) (state : FilterSpec × List Part) : FilterSpec × List Part → Prop
  | unknown {k : String} : m.name? = some k → Part.ofName? k = none → Effect m state state
  | part {k : String} {part : Part} {value : FilterSpec} : m.name? = some k →
      Part.ofName? k = some part → part ∉ state.2 →
      ReadsAs (part.read {}) (Padded Spelled) m.2 value →
      Effect m state (part.copy value state.1, part :: state.2)

/-- A member is read as what it does. -/
theorem readsAs_of_effect (h : Effect m state next) :
    ReadsAs (memberStep readString readMember state) (MemberSpelled Spelled) m next := by
  cases h with
  | unknown hname hpart =>
      refine ReadsAs.member (fun hm => Member.readString_of_name? hm hname) ?_
      rw [readMember_of_none hpart]
      exact ((readsAs_skipValue m.2).map fun _ => state).colon
  | part hname hpart hnew hvalue =>
      refine ReadsAs.member (fun hm => Member.readString_of_name? hm hname) ?_
      rw [readMember_of_some hpart hnew]
      exact ((Part.readsAs_read hvalue state.1).map fun spec => (spec, _ :: state.2)).colon

/-- And a member that is read does something. -/
theorem effect_of_readsAs {s : List UInt8} (hs : MemberSpelled Spelled m s)
    (h : ReadsAs (memberStep readString readMember state) (MemberSpelled Spelled) m next) :
    Effect m state next := by
  have hread := h hs follows_nil
  obtain @⟨name, x, _, hm, hcolon⟩ := hs
  obtain ⟨hw, hx⟩ := hcolon
  simp only [List.cons_append, List.append_assoc] at hread
  obtain ⟨-, k, after, hstring, hstep⟩ := memberStep_eq_ok_iff.1 hread
  have hname : Member.name? (name, x) = some k := Member.name?_of_readString hm hstring
  obtain ⟨rfl, -⟩ := readString_of_content hm hstring
  cases hpart : Part.ofName? k with
  | none =>
      rw [readMember_of_none hpart] at hstep
      obtain ⟨rest, -, hskip⟩ := bind_eq_ok_iff.1 hstep
      obtain ⟨⟨u, rest⟩, -, hpure⟩ := bind_eq_ok_iff.1 hskip
      cases hpure
      exact .unknown hname hpart
  | some part =>
      by_cases hold : part ∈ state.2
      · rw [readMember_of_mem hpart hold] at hstep
        cases hstep
      · rw [readMember_of_some hpart hold] at hstep
        simp only [readColon_append hw, ok_bind] at hstep
        obtain ⟨⟨spec, rest⟩, hspec, hpure⟩ := bind_eq_ok_iff.1 hstep
        cases hpure
        rw [Part.read_eq] at hspec
        obtain ⟨⟨value, rest⟩, hvalue, hpure⟩ := bind_eq_ok_iff.1 hspec
        cases hpure
        exact .part hname hpart hold (part.blind_read {} hx follows_nil hvalue).2

end Members

/-! ### What members say -/

/-- A member that says of a document what it is, or that says nothing. -/
inductive Fits (m : Member) (spec : FilterSpec) : Prop
  | unknown {k : String} : m.name? = some k → Part.ofName? k = none → Fits m spec
  | part {k : String} {part : Part} {value : FilterSpec} : m.name? = some k →
      Part.ofName? k = some part → ReadsAs (part.read {}) (Padded Spelled) m.2 value →
      part.Same value spec → Fits m spec

/-- The parts that members name. -/
def named (members : List Member) : List Part := members.filterMap Member.part?

/-- **What the members of a document say.** -/
structure Describes (members : List Member) (spec : FilterSpec) : Prop where
  /-- Every member fits the document. -/
  fits : ∀ m ∈ members, Fits m spec
  /-- No part is named twice. -/
  nodup : (named members).Nodup
  /-- A part that is not named is the default. -/
  absent : ∀ part ∉ named members, part.Same {} spec

section Runs

variable {m : Member} {members : List Member} {k : String} {part : Part} {spec : FilterSpec}
  {state last : FilterSpec × List Part}

theorem named_cons_of_none (hname : m.name? = some k) (hpart : Part.ofName? k = none)
    (members : List Member) : named (m :: members) = named members := by
  have hm : m.part? = none := by rw [Member.part?, hname, Option.bind_some, hpart]
  exact List.filterMap_cons_none hm

theorem named_cons_of_some (hname : m.name? = some k) (hpart : Part.ofName? k = some part)
    (members : List Member) : named (m :: members) = part :: named members := by
  have hm : m.part? = some part := by rw [Member.part?, hname, Option.bind_some, hpart]
  exact List.filterMap_cons_some hm

/-- Members that are read, one after another, say what comes of it. -/
theorem describes_of_runs (hspelled : ∀ m ∈ members, ∃ s, MemberSpelled Spelled m s)
    (h : Runs (memberStep readString readMember) (MemberSpelled Spelled) state members last) :
    (∀ m ∈ members, Fits m last.1) ∧ (named members).Nodup ∧
      (∀ part ∈ named members, part ∉ state.2) ∧
      ∀ part ∉ named members, part.Same state.1 last.1 := by
  induction h with
  | nil => exact ⟨nofun, .nil, nofun, fun part _ => .refl part _⟩
  | @cons state next last m members hreads _ ih =>
      obtain ⟨hm, hmembers⟩ := List.forall_mem_cons.1 hspelled
      obtain ⟨s, hs⟩ := hm
      obtain ⟨hfits, hnodup, hnew, habsent⟩ := ih hmembers
      cases effect_of_readsAs hs hreads with
      | unknown hname hpart =>
          rw [named_cons_of_none hname hpart]
          exact ⟨List.forall_mem_cons.2 ⟨.unknown hname hpart, hfits⟩, hnodup, hnew, habsent⟩
      | @part k part value hname hpart hfirst hvalue =>
          rw [named_cons_of_some hname hpart]
          -- the part is not read again, so it stays what the member says
          have hother : part ∉ named members := fun hmem => hnew part hmem List.mem_cons_self
          have hsame := (Part.same_copy part value state.1).symm.trans (habsent part hother)
          refine ⟨List.forall_mem_cons.2 ⟨.part hname hpart hvalue hsame, hfits⟩,
            List.nodup_cons.2 ⟨hother, hnodup⟩, List.forall_mem_cons.2 ⟨hfirst, ?_⟩, ?_⟩
          · exact fun part' hmem hold => hnew part' hmem (List.mem_cons_of_mem part hold)
          · intro part' hnot
            obtain ⟨hne, hmem⟩ := not_or.1 (mt List.mem_cons.2 hnot)
            exact (Part.same_copy_of_ne hne value state.1).symm.trans (habsent part' hmem)

/-- Members that fit a document are read, one after another, and make up the parts of it that they
name. -/
theorem exists_runs (state : FilterSpec × List Part) (hfits : ∀ m ∈ members, Fits m spec)
    (hnodup : (named members).Nodup) (hnew : ∀ part ∈ named members, part ∉ state.2) :
    ∃ last, Runs (memberStep readString readMember) (MemberSpelled Spelled) state members last ∧
      (∀ part ∈ named members, part.Same last.1 spec) ∧
      ∀ part ∉ named members, part.Same last.1 state.1 := by
  induction members generalizing state with
  | nil => exact ⟨state, .nil, nofun, fun part _ => .refl part _⟩
  | cons m members ih =>
      obtain ⟨hm, hmembers⟩ := List.forall_mem_cons.1 hfits
      cases hm with
      | unknown hname hpart =>
          rw [named_cons_of_none hname hpart] at hnodup hnew ⊢
          obtain ⟨last, hruns, hsays⟩ := ih state hmembers hnodup hnew
          exact ⟨last, .cons (readsAs_of_effect (.unknown hname hpart)) hruns, hsays⟩
      | @part k part value hname hpart hvalue hsame =>
          rw [named_cons_of_some hname hpart] at hnodup hnew ⊢
          obtain ⟨hfirst, hrest⟩ := List.forall_mem_cons.1 hnew
          obtain ⟨hother, hnodup⟩ := List.nodup_cons.1 hnodup
          have hlater : ∀ part' ∈ named members,
              part' ∉ (part.copy value state.1, part :: state.2).2 := by
            intro part' hmem hold
            rcases List.mem_cons.1 hold with rfl | hread
            · exact hother hmem
            · exact hrest part' hmem hread
          obtain ⟨last, hruns, hnamed, habsent⟩ := ih _ hmembers hnodup hlater
          refine ⟨last, .cons (readsAs_of_effect (.part hname hpart hfirst hvalue)) hruns, ?_, ?_⟩
          · have hcopied := (habsent part hother).trans (Part.same_copy part value state.1)
            exact List.forall_mem_cons.2 ⟨hcopied.trans hsame, hnamed⟩
          · intro part' hnot
            obtain ⟨hne, hmem⟩ := not_or.1 (mt List.mem_cons.2 hnot)
            exact (habsent part' hmem).trans (Part.same_copy_of_ne hne value state.1)

end Runs

/-! ### Documents -/

/-- The texts of an object with given members. -/
inductive Document (members : List Member) : List UInt8 → Prop
  | intro {s w : List UInt8} : Padded Spelled (.object members) s → Blank w →
      Document members (s ++ w)

section Documents

variable {members : List Member} {spec : FilterSpec} {bytes w body : List UInt8}

theorem readObjectForm_eq (body : List UInt8) : readObjectForm body = (do
    let ((spec, _), rest) ←
      loop (byte '\x7d') (memberStep readString readMember) ({}, []) body
    pure (spec, rest)) := by
  rewrite [← foldMembers_eq_loop]
  rfl

/-- A document that begins with a brace is read behind it. -/
theorem decode_brace (hw : Blank w) (body : List UInt8) :
    decode (w ++ byte '\x7b' :: body) = match readObjectForm body with
      | .error fault => .error fault
      | .ok (spec, rest) => if (skipSpace rest).isEmpty then .ok spec else .error .malformed := by
  have hspace : isSpace (byte '\x7b') = false := by decide
  have hblank : isDocumentBlank (byte '\x7b') = false := by decide
  have hread : readSpec (w ++ byte '\x7b' :: body) = readObjectForm body := by
    rw [readSpec, skipSpace_append hw, skipSpace_of_not_isSpace hspace]
    rfl
  rewrite [decode, List.all_append, List.all_cons, hblank, Bool.false_and, Bool.and_false,
    if_neg Bool.false_ne_true, hread]
  rfl

theorem isEmpty_skipSpace_iff : (skipSpace bytes).isEmpty = true ↔ Blank bytes := by
  constructor
  · intro h
    obtain ⟨s, hs, hbytes⟩ := exists_blank bytes
    rw [List.isEmpty_iff.1 h, List.append_nil] at hbytes
    rwa [hbytes]
  · intro h
    have hskip := skipSpace_append h []
    rw [List.append_nil] at hskip
    rw [hskip]
    rfl

theorem decode_brace_eq_ok_iff (hw : Blank w) :
    decode (w ++ byte '\x7b' :: body) = .ok spec ↔
      ∃ parts rest, loop (byte '\x7d') (memberStep readString readMember) ({}, []) body =
        .ok ((spec, parts), rest) ∧ Blank rest := by
  rw [decode_brace hw, readObjectForm_eq]
  cases loop (byte '\x7d') (memberStep readString readMember) ({}, []) body with
  | error fault =>
      constructor
      · intro h
        cases h
      · rintro ⟨parts, rest, h, -⟩
        cases h
  | ok last =>
      obtain ⟨⟨spec', parts⟩, rest⟩ := last
      change (if (skipSpace rest).isEmpty then Except.ok spec' else .error Fault.malformed) = _ ↔ _
      split
      next hrest =>
        constructor
        · intro h
          cases h
          exact ⟨parts, rest, rfl, isEmpty_skipSpace_iff.1 hrest⟩
        · rintro ⟨parts', rest', h, -⟩
          cases h
          rfl
      next hrest =>
        constructor
        · intro h
          cases h
        · rintro ⟨parts', rest', h, hblank⟩
          cases h
          exact absurd (isEmpty_skipSpace_iff.2 hblank) hrest

theorem Document.exists_spelled (h : Document members bytes) :
    ∀ m ∈ members, ∃ s, MemberSpelled Spelled m s := by
  obtain ⟨hpadded, hblank⟩ := h
  obtain ⟨hw, hspelled⟩ := hpadded
  obtain ⟨hbehind⟩ := hspelled
  cases hbehind with
  | object hlisted => exact hlisted.exists_of_mem

/-- A document is accepted exactly if its members are read one by one. -/
theorem decode_eq_ok_iff_runs (h : Document members bytes) :
    decode bytes = .ok spec ↔
      ∃ parts, Runs (memberStep readString readMember) (MemberSpelled Spelled) ({}, []) members
        (spec, parts) := by
  obtain ⟨hpadded, hblank⟩ := h
  obtain ⟨hw, hspelled⟩ := hpadded
  obtain ⟨hbehind⟩ := hspelled
  cases hbehind with
  | object hlisted =>
      have hleads : ∀ m s, MemberSpelled Spelled m s → Leads s := fun _ _ hm => hm.leads
      have hfollows := Follows.blank hblank follows_nil
      rw [List.append_nil] at hfollows
      rw [List.append_assoc, List.append_assoc, Kind.lead, List.singleton_append,
        decode_brace_eq_ok_iff hw]
      constructor
      · rintro ⟨parts, rest, hloop, -⟩
        have hstep : ∀ state : FilterSpec × List Part,
            Blind (memberStep readString readMember state) (MemberSpelled Spelled) := fun state =>
          Blind.member (blind_readMember state)
        exact ⟨parts, (runs_of_loop (.inr rfl) hleads hstep hlisted hloop).2⟩
      · rintro ⟨parts, hruns⟩
        exact ⟨parts, _, readsAs_loop (.inr rfl) hleads hruns hlisted hfollows, hblank⟩

/-- **A document is accepted exactly as what its members say.** -/
theorem decode_eq_ok_iff_describes (h : Document members bytes) :
    decode bytes = .ok spec ↔ Describes members spec := by
  rw [decode_eq_ok_iff_runs h]
  constructor
  · rintro ⟨parts, hruns⟩
    obtain ⟨hfits, hnodup, -, habsent⟩ := describes_of_runs h.exists_spelled hruns
    exact ⟨hfits, hnodup, habsent⟩
  · intro hdescribes
    obtain ⟨⟨spec', parts⟩, hruns, hnamed, habsent⟩ := exists_runs ({}, [])
      hdescribes.fits hdescribes.nodup nofun
    have hspec : spec' = spec := by
      refine Part.eq_of_same fun part => ?_
      by_cases hpart : part ∈ named members
      · exact hnamed part hpart
      · exact (habsent part hpart).trans (hdescribes.absent part hpart)
    rw [hspec] at hruns
    exact ⟨parts, hruns⟩

/-- **An object that is accepted is an object of some members.** -/
theorem exists_document (h : decode bytes = .ok spec)
    (hobject : (skipSpace bytes).head? = some (byte '\x7b')) :
    ∃ members, Document members bytes := by
  obtain ⟨w, hw, hbytes⟩ := exists_blank bytes
  obtain ⟨body, hbody⟩ : ∃ body, skipSpace bytes = byte '\x7b' :: body := by
    cases hskip : skipSpace bytes with
    | nil =>
        rw [hskip] at hobject
        cases hobject
    | cons b body =>
        rw [hskip] at hobject
        cases hobject
        exact ⟨body, rfl⟩
  rw [hbytes, hbody, decode_brace_eq_ok_iff hw] at h
  obtain ⟨parts, rest, hloop, hrest⟩ := h
  have hstep : ∀ state : FilterSpec × List Part,
      Sound (memberStep readString readMember state) (Padded (MemberSpelled Spelled)) :=
    fun state => (Sound.member skipString_of_readString (sound_readMember state)).padded
  obtain ⟨members, s, hlisted, rfl⟩ := sound_loop hstep hloop
  have hdocument : Document members (w ++ (Kind.object.lead ++ s) ++ rest) :=
    .intro (.intro hw (.intro (.object hlisted))) hrest
  rw [List.append_assoc, List.append_assoc] at hdocument
  exact ⟨members, by rwa [hbytes, hbody]⟩

end Documents

end WhereClause.FilterSpec

/-
**Filter documents are read as they are written.**

A document is written with all its parts, each once, and read into the default: part by part the
default becomes the document that was written.  Of the variables nothing is lost if their numbers
are whole; and the reader, which gives up at a certain depth, never gets there.

Main definitions:

* `WhereClause.FilterSpec.Part.toJson` — a part as it is written;
* `WhereClause.FilterSpec.Part.copy` — a document with one part of another one;
* `WhereClause.FilterSpec.Lossless` — the documents of which nothing is lost.

Main results:

* `WhereClause.FilterSpec.Part.reads_read` — every part is read as it is written;
* `WhereClause.FilterSpec.steps_readMember` — **parts in any order, each once, are read one by
  one**;
* `WhereClause.FilterSpec.decode_text_toJson` — **a document is read as it is written**.
-/

import WhereClause.FilterSpec.Reader
import WhereClause.Proofs.Documents

set_option relaxedAutoImplicit false
set_option autoImplicit false

namespace WhereClause

open Text Utf8

/-! ### Values of one kind -/

namespace Json

/-- A string, where only a string may stand. -/
theorem reads_text (s : String) : Reads readText (encode (quoted s)) s where
  starts := starts_quoted s
  read_append := fun rest _ => by
    have hread : readText (byte '"' :: (encode (s.toList.flatMap escape) ++ byte '"' :: rest)) =
        readString (encode (s.toList.flatMap escape) ++ byte '"' :: rest) := rfl
    rw [encode_quoted, hread, readString_quoted]

theorem readTexts_bracket (bytes : List UInt8) :
    readTexts (byte '[' :: bytes) = (do
      let (items, rest) ← foldItems (gather readText) (bytes.length + 1) true [] bytes
      pure (items.reverse, rest)) := rfl

/-- The bytes of a list of strings. -/
theorem encode_chars_texts (items : List String) :
    encode (chars (.array (items.map Json.string))) =
      byte '[' :: listed (byte ']') true (items.map fun s => encode (quoted s)) := by
  rw [encode_chars_array, List.map_map]
  rfl

/-- A list of strings. -/
theorem reads_texts (items : List String) :
    Reads readTexts (encode (chars (.array (items.map Json.string)))) items where
  starts := ⟨_, _, encode_chars_texts items, by decide, by decide⟩
  read_append := fun rest _ => by
    have hsteps := steps_gather (fun s (_ : s ∈ items) => reads_text s) []
    rw [encode_chars_texts, List.cons_append, readTexts_bracket, foldItems_of_steps hsteps rest,
      List.append_nil, ok_bind]
    simp only [List.reverse_reverse]
    rfl

/-- A whole number of 64 bits. -/
theorem reads_int64 (z : Int64) : Reads readInt64 (encode (chars (.integer z.toInt))) z where
  starts := by
    have hlarger : Int.pow 2 63 < Int.pow 2 64 := by decide
    exact starts_integer z.le_toInt (Int.lt_trans z.toInt_lt hlarger)
  read_append := fun rest hrest => by
    have hlower : -(Int.pow 2 63) ≤ z.toInt := z.le_toInt
    have hupper : z.toInt < Int.pow 2 63 := z.toInt_lt
    have hz := z.ofInt_toInt
    rw [chars]
    generalize z.toInt = n at hlower hupper hz ⊢
    cases n with
    | ofNat n =>
        have hn : n < Nat.pow 2 63 := Int.ofNat_lt.1 hupper
        have hlarger : Nat.pow 2 63 ≤ Nat.pow 2 64 := by decide
        obtain ⟨b, bytes, hbytes, hdigit, hread⟩ :=
          readNumber_natural (Nat.lt_of_lt_of_le hn hlarger) hrest
        have hminus : b ≠ byte '-' := ne_of_digit hdigit (by decide)
        rw [decimalInt, hbytes, readInt64, skipSpace_of_not_isSpace (isSpace_of_digit hdigit)]
        simp only [hminus, hdigit, if_false, if_true, hread, ok_bind]
        rw [if_pos hn, ← Int64.ofInt_eq_ofNat]
        exact congrArg (fun z => Except.ok (z, rest)) hz
    | negSucc n =>
        have hspace : isSpace (byte '-') = false := by decide
        obtain ⟨bytes, hbytes, hread⟩ := readNumber_negSucc (lt_of_negSucc hlower) hrest
        rw [hbytes, readInt64, skipSpace_of_not_isSpace hspace]
        simp only [if_true, hread, ok_bind]
        rw [← hz]
        rfl

theorem readObject_brace (levels : Nat) (bytes : List UInt8) :
    readObject (levels + 1) (byte '\x7b' :: bytes) =
      foldMembers readString (putMember (readValue levels)) (bytes.length + 1) true [] bytes := rfl

/-- The members of an object. -/
theorem reads_members {members : List (String × Json)} (h : Exact (.object members)) {levels : Nat}
    (hlevels : nesting (.object members) ≤ levels) :
    Reads (readObject levels) (encode (chars (.object members))) members where
  starts := ⟨_, _, encode_chars_object members, by decide, by decide⟩
  read_append := fun rest _ => by
    cases h with
    | object hsorted hvalues =>
        rw [nesting] at hlevels
        cases levels with
        | zero => cases hlevels
        | succ levels =>
            have hreads : ∀ m ∈ members, Reads (readValue levels) (encode (chars m.2)) m.2 :=
              fun m hm => reads_value (hvalues m hm)
                (Nat.le_trans (nesting_le_membersNesting hm) (Nat.le_of_succ_le_succ hlevels))
            rw [encode_chars_object, List.cons_append, readObject_brace,
              foldMembers_of_steps (steps_putMember hreads [] hsorted) rest, List.nil_append]

end Json

/-! ### Parts -/

namespace FilterSpec

open Json

/-- A part as it is written. -/
def Part.toJson (spec : FilterSpec) : Part → Json
  | fields => .array (spec.fields.map Json.string)
  | orders => .array (spec.orders.map Json.string)
  | limit => .integer spec.limit.toInt
  | offset => .integer spec.offset.toInt
  | vars => .object spec.vars

/-- A document with one part of another one. -/
def Part.copy (spec : FilterSpec) (part : Part) (into : FilterSpec) : FilterSpec :=
  match part with
  | fields => { into with fields := spec.fields }
  | orders => { into with orders := spec.orders }
  | limit => { into with limit := spec.limit }
  | offset => { into with offset := spec.offset }
  | vars => { into with vars := spec.vars }

/-- A document is written with all its parts, in their order. -/
theorem toJson_eq (spec : FilterSpec) :
    spec.toJson = .object (Part.all.map fun part => (part.name, part.toJson spec)) := rfl

@[simp] theorem Part.ofName?_name (part : Part) : Part.ofName? part.name = some part := by
  cases part <;> decide

theorem Part.mem_all (part : Part) : part ∈ Part.all := by cases part <;> decide

/-- What a document has to be so that nothing of it is lost. -/
structure Lossless (spec : FilterSpec) : Prop where
  vars : Json.Exact (.object spec.vars)
  nesting : spec.toJson.nesting < 128

section Parts

variable {spec : FilterSpec}

/-- The variables are one level below the document. -/
theorem Lossless.nesting_vars (h : spec.Lossless) :
    Json.nesting (.object spec.vars) ≤ deepest - 1 := by
  have hmem : (Part.vars.name, Part.vars.toJson spec) ∈
      Part.all.map fun part => (part.name, part.toJson spec) :=
    List.mem_map.2 ⟨.vars, Part.mem_all .vars, rfl⟩
  have hvars : Json.nesting (.object spec.vars) ≤ _ := nesting_le_membersNesting hmem
  have hdocument := h.nesting
  rw [toJson_eq, Json.nesting] at hdocument
  have hdeepest : deepest - 1 = 126 := rfl
  omega

/-- **Every part is read as it is written.** -/
theorem Part.reads_read (h : spec.Lossless) (part : Part) (into : FilterSpec) :
    Reads (part.read into) (encode (chars (part.toJson spec))) (part.copy spec into) := by
  cases part with
  | fields => exact (reads_texts spec.fields).map fun value => { into with fields := value }
  | orders => exact (reads_texts spec.orders).map fun value => { into with orders := value }
  | limit => exact (reads_int64 spec.limit).map fun value => { into with limit := value }
  | offset => exact (reads_int64 spec.offset).map fun value => { into with offset := value }
  | vars =>
      exact (reads_members h.vars h.nesting_vars).map fun value => { into with vars := value }

/-- A part that has not been read yet is read as a member. -/
theorem reads_readMember (h : spec.Lossless) {part : Part} {state : FilterSpec × List Part}
    (hnew : part ∉ state.2) :
    Reads (memberStep readString readMember state) (memberBytes (part.name, part.toJson spec))
      (part.copy spec state.1, part :: state.2) := by
  have hcontains : state.2.contains part = false := by simpa using hnew
  refine reads_memberBytes fun rest hrest => ?_
  simp only [readMember, Part.ofName?_name, hcontains, Bool.false_eq_true, if_false,
    readColon_colon, ok_bind, (part.reads_read h state.1).read_append rest hrest]
  rfl

/-- **Parts in any order, each once, are read one by one.** -/
theorem steps_readMember (h : spec.Lossless) {parts : List Part} (hnodup : parts.Nodup)
    {state : FilterSpec × List Part} (hnew : ∀ part ∈ parts, part ∉ state.2) :
    Steps (memberStep readString readMember) state
      (parts.map fun part => memberBytes (part.name, part.toJson spec))
      (parts.foldl (fun s part => (part.copy spec s.1, part :: s.2)) state) := by
  induction parts generalizing state with
  | nil => exact .nil
  | cons part parts ih =>
      obtain ⟨hpart, hparts⟩ := List.forall_mem_cons.1 hnew
      obtain ⟨hother, hrest⟩ := List.nodup_cons.1 hnodup
      refine .cons (reads_readMember h hpart) (ih hrest fun part' hmem hread => ?_)
      rcases List.mem_cons.1 hread with rfl | hold
      · exact hother hmem
      · exact hparts part' hmem hold

end Parts

/-! ### Documents -/

/-- The parts of one document, copied into another one, make up the document. -/
theorem foldl_copy_all (spec into : FilterSpec) (read : List Part) :
    Part.all.foldl (fun s part => (part.copy spec s.1, part :: s.2)) (into, read) =
      (spec, Part.all.reverse ++ read) := rfl

/-- The object form is read behind its opening brace. -/
theorem readObjectForm_of_lossless {spec : FilterSpec} (h : spec.Lossless) (rest : List UInt8) :
    readObjectForm (listed (byte '\x7d') true
      (Part.all.map fun part => memberBytes (part.name, part.toJson spec)) ++ rest) =
      .ok (spec, rest) := by
  have hnodup : Part.all.Nodup := by decide
  have hnew : ∀ part ∈ Part.all, part ∉ (({}, []) : FilterSpec × List Part).2 := by simp
  have hsteps := steps_readMember h hnodup hnew
  rw [foldl_copy_all] at hsteps
  rw [readObjectForm, foldMembers_of_steps hsteps rest]
  rfl

/-- **A document is read as it is written.** -/
theorem decode_text_toJson {spec : FilterSpec} (h : spec.Lossless) :
    decode (encode spec.toJson.text.toList) = .ok spec := by
  have hform := readObjectForm_of_lossless h []
  have hbytes : encode spec.toJson.text.toList = byte '\x7b' :: listed (byte '\x7d') true
      (Part.all.map fun part => memberBytes (part.name, part.toJson spec)) := by
    rw [text, String.toList_ofList, toJson_eq, encode_chars_object, List.map_map]
    rfl
  rw [List.append_nil] at hform
  generalize listed (byte '\x7d') true _ = bytes at hform hbytes
  have hread : readSpec (byte '\x7b' :: bytes) = .ok (spec, []) := hform
  have hblank : isDocumentBlank (byte '\x7b') = false := by decide
  rw [hbytes, decode, List.all_cons, hblank, Bool.false_and, if_neg Bool.false_ne_true, hread]
  rfl

/-- The least and the greatest numbers, characters that are escaped and characters that are not. -/
theorem decode_text_toJson_extremes :
    ∃ spec : FilterSpec, spec.fields = ["\"\\\x01é😀"] ∧ spec.limit = Int64.minValue ∧
      spec.offset = Int64.maxValue ∧ spec.vars =
        [("", .integer 18446744073709551615), ("a", .array [.integer (-9223372036854775808)])] ∧
      spec.Lossless ∧ decode (encode spec.toJson.text.toList) = .ok spec := by
  have hmost : Exact (.integer 18446744073709551615) := .integer (by decide) (by decide)
  have hleast : Exact (.array [.integer (-9223372036854775808)]) := by
    refine .array (List.forall_mem_singleton.2 ?_)
    exact .integer (by decide) (by decide)
  have hlossless : FilterSpec.Lossless
      { fields := ["\"\\\x01é😀"], limit := Int64.minValue, offset := Int64.maxValue
        vars := [("", .integer 18446744073709551615),
          ("a", .array [.integer (-9223372036854775808)])] } :=
    { vars := .object (by decide) (by simp [hmost, hleast])
      nesting := by decide }
  exact ⟨_, rfl, rfl, rfl, rfl, hlossless, decode_text_toJson hlossless⟩

end FilterSpec

end WhereClause

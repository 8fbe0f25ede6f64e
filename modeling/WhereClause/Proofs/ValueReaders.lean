/-
**Values are read whatever their layout.**

A value that is passed over may be any tree, nested as deep as it likes, and all of its spelling is
passed over and nothing else.  A value that is kept is refused for many reasons, but never for its
layout: every reader of values reads trees only, and reads all spellings of a tree alike.

Main results:

* `WhereClause.Json.readsAs_skipValue`, `WhereClause.Json.sound_skipValue` — **exactly the spellings
  of trees are passed over**;
* `WhereClause.Json.blind_readValue`, `WhereClause.Json.sound_readValue` — **what is read is a tree,
  in whatever layout**;
* `WhereClause.Json.blind_readTexts`, `WhereClause.Json.blind_readInt64`,
  `WhereClause.Json.blind_readObject` — the same of the values of one kind.
-/

import WhereClause.Proofs.BlindReaders

set_option relaxedAutoImplicit false
set_option autoImplicit false

namespace WhereClause.Json

open Text Utf8

/-! ### Tokens -/

section Tokens

variable {negative : Bool} {word : String} {x : Json}

theorem blind_readNumber : Blind (readNumber negative) (Behind Spelled (.number negative)) := by
  intro t s rest n r hs hrest hread
  cases hs with
  | number hs =>
      obtain ⟨rfl, hother⟩ := (settled_readNumber hs).eq_of_ok hrest hread
      refine ⟨rfl, ?_⟩
      intro s' rest' hs' hrest'
      cases hs' with
      | number => exact hother rest' hrest'

theorem sound_readNumber : Sound (readNumber negative) (Behind Spelled (.number negative)) := by
  intro bytes n r hread
  obtain ⟨s, hs, hbytes⟩ := exists_unsigned (skipNumber_of_readNumber hread)
  exact ⟨_, s, .number hs, hbytes⟩

theorem blind_readString : Blind readString (Behind Spelled .string) := by
  intro t s rest k r hs _ hread
  cases hs with
  | string hs =>
      rw [List.append_assoc] at hread
      obtain ⟨rfl, hother⟩ := readString_of_content hs hread
      refine ⟨rfl, ?_⟩
      intro s' rest' hs' _
      cases hs' with
      | string =>
          rw [List.append_assoc]
          exact hother rest'

theorem sound_readString : Sound readString (Behind Spelled .string) := by
  intro bytes k r hread
  obtain ⟨s, hs, rfl⟩ := exists_content (skipString_of_readString hread)
  exact ⟨_, _, .string hs, by simp⟩

/-- Of a kind with one spelling one word is read. -/
theorem blind_readWordValue {kind : Kind}
    (hspell : ∀ {t s}, Behind Spelled kind t s → s = encode word.toList) :
    Blind (readWordValue word x) (Behind Spelled kind) := by
  refine Blind.of_readsAs x fun t s rest hs _ => ?_
  rw [hspell hs, readWordValue, readWord_append, ok_bind]
  rfl

theorem sound_readWordValue {kind : Kind} {t : Tree}
    (hspell : Behind Spelled kind t (encode word.toList)) :
    Sound (readWordValue word x) (Behind Spelled kind) := by
  intro bytes y r hread
  obtain ⟨rest, hword, hpure⟩ := bind_eq_ok_iff.1 hread
  cases hpure
  exact ⟨t, _, hspell, eq_of_readWord hword⟩

end Tokens

/-! ### Lists behind their first byte -/

section Lists

variable {α : Type} {read : List UInt8 → Except Fault (α × List UInt8)}
  {Spell : Tree → List UInt8 → Prop} {a : α}

theorem ReadsAs.array {items : List Tree}
    (h : ReadsAs read (Listed Spell (byte ']') true) items a) :
    ReadsAs read (Behind Spell .array) (.array items) a := by
  intro s rest hs hrest
  cases hs with
  | array hlisted => exact h hlisted hrest

theorem ReadsAs.object {members : List (List UInt8 × Tree)}
    (h : ReadsAs read (Listed (MemberSpelled Spell) (byte '\x7d') true) members a) :
    ReadsAs read (Behind Spell .object) (.object members) a := by
  intro s rest hs hrest
  cases hs with
  | object hlisted => exact h hlisted hrest

theorem Blind.array (h : Blind read (Listed Spell (byte ']') true)) :
    Blind read (Behind Spell .array) := by
  intro t s rest a r hs hrest hread
  cases hs with
  | array hlisted =>
      obtain ⟨rfl, hreads⟩ := h hlisted hrest hread
      exact ⟨rfl, hreads.array⟩

theorem Blind.object (h : Blind read (Listed (MemberSpelled Spell) (byte '\x7d') true)) :
    Blind read (Behind Spell .object) := by
  intro t s rest a r hs hrest hread
  cases hs with
  | object hlisted =>
      obtain ⟨rfl, hreads⟩ := h hlisted hrest hread
      exact ⟨rfl, hreads.object⟩

theorem Sound.array (h : Sound read (Listed Spell (byte ']') true)) :
    Sound read (Behind Spell .array) := by
  intro bytes a r hread
  obtain ⟨items, s, hs, hbytes⟩ := h hread
  exact ⟨_, s, .array hs, hbytes⟩

theorem Sound.object (h : Sound read (Listed (MemberSpelled Spell) (byte '\x7d') true)) :
    Sound read (Behind Spell .object) := by
  intro bytes a r hread
  obtain ⟨members, s, hs, hbytes⟩ := h hread
  exact ⟨_, s, .object hs, hbytes⟩

end Lists

/-! ### Values that are passed over -/

/-- What is passed over, as a reader of nothing. -/
def passing (skip : List UInt8 → Except Fault (List UInt8)) (bytes : List UInt8) :
    Except Fault (Unit × List UInt8) := do
  let rest ← skip bytes
  pure ((), rest)

/-- How each kind of value is passed over, if `skip` passes over what is in it. -/
def skipArm (skip : List UInt8 → Except Fault (List UInt8)) :
    Kind → List UInt8 → Except Fault (Unit × List UInt8)
  | .null => passing (readWord (encode "ull".toList))
  | .bool b => passing (readWord (encode (if b then "rue" else "alse").toList))
  | .number _ => passing skipNumber
  | .string => passing skipString
  | .array => loop (byte ']') (fun _ => passing skip) ()
  | .object =>
      loop (byte '\x7d') (memberStep (passing skipString) fun _ _ bytes => do
        let rest ← readColon bytes
        passing skip rest) ()

theorem passing_eq_ok_iff {skip : List UInt8 → Except Fault (List UInt8)} {bytes r : List UInt8}
    {u : Unit} : passing skip bytes = .ok (u, r) ↔ skip bytes = .ok r := by
  cases h : skip bytes <;> simp [passing, h, bind, Except.bind, pure, Except.pure]

/-- A reader of nothing passes over what it has read. -/
theorem passing_bind (r : Except Fault (Unit × List UInt8)) : (do
    let rest ← (do
      let ((), rest) ← r
      pure rest)
    pure ((), rest)) = r := by
  cases r <;> rfl

/-- A value is passed over by the first byte. -/
theorem passing_skipNested (levels : Nat) :
    passing (skipNested (levels + 1)) = dispatch (skipArm (skipNested levels)) := by
  funext bytes
  rw [passing, skipNested, dispatch]
  cases skipSpace bytes with
  | nil => rfl
  | cons b rest =>
      simp only [Kind.ofByte?]
      iterate 6
        split
        next => rfl
      split
      next =>
        simp only [foldItems_eq_loop]
        exact passing_bind _
      split
      next =>
        simp only [foldMembers_eq_loop]
        exact passing_bind _
      next => rfl

section Skipping

variable {skip : List UInt8 → Except Fault (List UInt8)} {Spell : Tree → List UInt8 → Prop}

theorem readsAs_skipArm (hleads : ∀ t s, Spell t s → Leads s)
    (hskip : ∀ t, ReadsAs (passing skip) (Padded Spell) t ()) (kind : Kind) (t : Tree) :
    ReadsAs (skipArm skip kind) (Behind Spell kind) t () := by
  intro s rest hs hrest
  cases hs with
  | null => exact passing_eq_ok_iff.2 (readWord_append _ rest)
  | bool b => exact passing_eq_ok_iff.2 (readWord_append _ rest)
  | number hs => exact passing_eq_ok_iff.2 (skipNumber_append hs hrest)
  | string hs =>
      rw [List.append_assoc]
      exact passing_eq_ok_iff.2 (skipString_append hs rest)
  | @array items _ hlisted =>
      have hruns : Runs (fun _ : Unit => passing skip) Spell () items () := by
        clear hlisted
        induction items with
        | nil => exact .nil
        | cons x items ih => exact .cons (hskip x).of_padded ih
      exact readsAs_loop (.inl rfl) hleads hruns hlisted hrest
  | @object members _ hlisted =>
      have hruns : Runs (memberStep (passing skipString) fun (_ _ : Unit) bytes => do
          let rest ← readColon bytes
          passing skip rest) (MemberSpelled Spell) () members () := by
        clear hlisted
        induction members with
        | nil => exact .nil
        | cons m members ih =>
            have hname : Content m.1 → ∀ rest,
                passing skipString (m.1 ++ byte '"' :: rest) = .ok ((), rest) := fun hm rest =>
              passing_eq_ok_iff.2 (skipString_append hm rest)
            exact .cons (ReadsAs.member hname (hskip m.2).colon) ih
      exact readsAs_loop (.inr rfl) (fun _ _ hm => hm.leads) hruns hlisted hrest

theorem sound_skipArm (hskip : Sound (passing skip) (Padded Spelled)) (kind : Kind) :
    Sound (skipArm skip kind) (Behind Spelled kind) := by
  cases kind with
  | null =>
      intro bytes u r hread
      exact ⟨_, _, .null, eq_of_readWord (passing_eq_ok_iff.1 hread)⟩
  | bool b =>
      intro bytes u r hread
      exact ⟨_, _, .bool b, eq_of_readWord (passing_eq_ok_iff.1 hread)⟩
  | number negative =>
      intro bytes u r hread
      obtain ⟨s, hs, hbytes⟩ := exists_unsigned (passing_eq_ok_iff.1 hread)
      exact ⟨_, s, .number hs, hbytes⟩
  | string =>
      intro bytes u r hread
      obtain ⟨s, hs, rfl⟩ := exists_content (passing_eq_ok_iff.1 hread)
      exact ⟨_, _, .string hs, by simp⟩
  | array => exact (sound_loop fun _ => hskip).array
  | object =>
      refine (sound_loop fun _ => (Sound.member ?_ fun _ => hskip.colon).padded).object
      exact fun hname => passing_eq_ok_iff.1 hname

end Skipping

/-- A value is passed over if it is no longer than the levels that are left: every array and every
object inside it is shorter. -/
theorem readsAs_skipNested (levels : Nat) (t : Tree) :
    ReadsAs (passing (skipNested (levels + 1)))
      (Padded fun t s => Spelled t s ∧ s.length ≤ levels) t () := by
  induction levels generalizing t with
  | zero =>
      intro s rest hs _
      obtain ⟨-, hspelled, hlength⟩ := hs
      have hpos := hspelled.leads.length_pos
      omega
  | succ levels ih =>
      intro s rest hs hrest
      obtain ⟨hw, hspelled, hlength⟩ := hs
      obtain ⟨hbehind⟩ := hspelled
      have hsmaller := hbehind.imp fun t s' hlt (hs' : Spelled t s') =>
        (⟨hs', by omega⟩ : Spelled t s' ∧ s'.length ≤ levels)
      rw [List.append_assoc, List.append_assoc, passing_skipNested, dispatch_append hw hbehind]
      exact readsAs_skipArm (fun _ _ h => h.1.leads) ih _ t hsmaller hrest

theorem sound_skipNested (levels : Nat) :
    Sound (passing (skipNested levels)) (Padded Spelled) := by
  induction levels with
  | zero => exact sound_error .malformed
  | succ levels ih =>
      rw [passing_skipNested]
      exact sound_dispatch (sound_skipArm ih)

/-- **Every spelling of every tree is passed over**, and nothing behind it. -/
theorem readsAs_skipValue (t : Tree) : ReadsAs (passing skipValue) (Padded Spelled) t () := by
  intro s rest hs hrest
  have hpadded : Padded (fun t s' => Spelled t s' ∧ s'.length ≤ (s ++ rest).length) t s := by
    refine hs.imp fun t s' hlength hs' => ⟨hs', ?_⟩
    rw [List.length_append]
    omega
  have hlevels : passing (skipNested ((s ++ rest).length + 1)) (s ++ rest) = .ok ((), rest) :=
    readsAs_skipNested _ t hpadded hrest
  exact hlevels

/-- **Nothing else is passed over.** -/
theorem sound_skipValue : Sound (passing skipValue) (Padded Spelled) := by
  intro bytes u r hread
  have hlevels : passing (skipNested (bytes.length + 1)) bytes = .ok (u, r) := hread
  exact sound_skipNested _ hlevels

/-! ### Values that are kept -/

section Values

variable {read : List UInt8 → Except Fault (Json × List UInt8)}

/-- The items of an array, gathered. -/
theorem blind_gather {α : Type} {read : List UInt8 → Except Fault (α × List UInt8)}
    (h : Blind read (Padded Spelled)) (items : List α) :
    Blind (loop (byte ']') (gather read) items) (Listed Spelled (byte ']') true) :=
  blind_loop (.inl rfl) (fun _ _ hs => hs.leads) fun items => h.of_padded.map (· :: items)

theorem sound_gather {α : Type} {read : List UInt8 → Except Fault (α × List UInt8)}
    (h : Sound read (Padded Spelled)) (items : List α) :
    Sound (loop (byte ']') (gather read) items) (Listed Spelled (byte ']') true) :=
  sound_loop fun items => h.map (· :: items)

/-- The members of an object, put into their places. -/
theorem blind_putMember (h : Blind read (Padded Spelled)) (members : List (String × Json)) :
    Blind (loop (byte '\x7d') (memberStep readString (putMember read)) members)
      (Listed (MemberSpelled Spelled) (byte '\x7d') true) :=
  blind_loop (.inr rfl) (fun _ _ hm => hm.leads) fun members =>
    Blind.member fun k => (h.map fun value => insertMember k value members).colon

theorem sound_putMember (h : Sound read (Padded Spelled)) (members : List (String × Json)) :
    Sound (loop (byte '\x7d') (memberStep readString (putMember read)) members)
      (Listed (MemberSpelled Spelled) (byte '\x7d') true) :=
  sound_loop fun members => (Sound.member skipString_of_readString fun k =>
    (h.map fun value => insertMember k value members).colon).padded

/-- How each kind of value is read, if `nested?` reads what is in it; without it, no array and no
object is read. -/
def valueArm (nested? : Option (List UInt8 → Except Fault (Json × List UInt8))) :
    Kind → List UInt8 → Except Fault (Json × List UInt8)
  | .null, bytes => readWordValue "ull" .null bytes
  | .bool b, bytes => readWordValue (if b then "rue" else "alse") (.bool b) bytes
  | .number negative, bytes => readNumberValue negative bytes
  | .string, bytes => do
      let (s, rest) ← readString bytes
      pure (.string s, rest)
  | .array, bytes =>
      match nested? with
      | none => .error .malformed
      | some read => do
          let (items, rest) ← loop (byte ']') (gather read) [] bytes
          pure (.array items.reverse, rest)
  | .object, bytes =>
      match nested? with
      | none => .error .malformed
      | some read => do
          let (members, rest) ← loop (byte '\x7d') (memberStep readString (putMember read)) [] bytes
          pure (.object members, rest)

theorem blind_valueArm {nested? : Option (List UInt8 → Except Fault (Json × List UInt8))}
    (h : ∀ read ∈ nested?, Blind read (Padded Spelled)) (kind : Kind) :
    Blind (valueArm nested? kind) (Behind Spelled kind) := by
  cases kind with
  | null =>
      refine blind_readWordValue fun hs => ?_
      cases hs
      rfl
  | bool b =>
      refine blind_readWordValue fun hs => ?_
      cases hs
      rfl
  | number negative => exact blind_readNumber.map Numeral.toJson
  | string => exact blind_readString.map Json.string
  | array =>
      cases nested? with
      | none => exact blind_error .malformed
      | some read =>
          exact ((blind_gather (h read rfl) []).map fun items => Json.array items.reverse).array
  | object =>
      cases nested? with
      | none => exact blind_error .malformed
      | some read => exact ((blind_putMember (h read rfl) []).map Json.object).object

theorem sound_valueArm {nested? : Option (List UInt8 → Except Fault (Json × List UInt8))}
    (h : ∀ read ∈ nested?, Sound read (Padded Spelled)) (kind : Kind) :
    Sound (valueArm nested? kind) (Behind Spelled kind) := by
  cases kind with
  | null => exact sound_readWordValue .null
  | bool b => exact sound_readWordValue (.bool b)
  | number negative => exact sound_readNumber.map Numeral.toJson
  | string => exact sound_readString.map Json.string
  | array =>
      cases nested? with
      | none => exact sound_error .malformed
      | some read =>
          exact ((sound_gather (h read rfl) []).map fun items => Json.array items.reverse).array
  | object =>
      cases nested? with
      | none => exact sound_error .malformed
      | some read => exact ((sound_putMember (h read rfl) []).map Json.object).object

/-- How the values inside a value are read. -/
def nested? : Nat → Option (List UInt8 → Except Fault (Json × List UInt8))
  | 0 => none
  | levels + 1 => some (readValue levels)

/-- A value is read by its first byte. -/
theorem readValue_eq_dispatch (levels : Nat) :
    readValue levels = dispatch (valueArm (nested? levels)) := by
  funext bytes
  rw [readValue.eq_def, dispatch]
  dsimp only
  cases skipSpace bytes with
  | nil => rfl
  | cons b rest =>
      simp only [Kind.ofByte?]
      iterate 6
        split
        next => rfl
      split
      next =>
        cases levels with
        | zero => rfl
        | succ levels =>
            simp only [foldItems_eq_loop]
            rfl
      split
      next =>
        cases levels with
        | zero => rfl
        | succ levels =>
            simp only [foldMembers_eq_loop]
            rfl
      next => rfl

/-- **What is read of a value does not depend on its layout.** -/
theorem blind_readValue (levels : Nat) : Blind (readValue levels) (Padded Spelled) := by
  induction levels with
  | zero =>
      rw [readValue_eq_dispatch]
      exact blind_dispatch (blind_valueArm nofun)
  | succ levels ih =>
      rw [readValue_eq_dispatch]
      refine blind_dispatch (blind_valueArm fun read hread => ?_)
      cases hread
      exact ih

/-- **Nothing but values is read.** -/
theorem sound_readValue (levels : Nat) : Sound (readValue levels) (Padded Spelled) := by
  induction levels with
  | zero =>
      rw [readValue_eq_dispatch]
      exact sound_dispatch (sound_valueArm nofun)
  | succ levels ih =>
      rw [readValue_eq_dispatch]
      refine sound_dispatch (sound_valueArm fun read hread => ?_)
      cases hread
      exact ih

end Values

/-! ### Values of one kind -/

section OneKind

variable {α : Type} {read inner : List UInt8 → Except Fault (α × List UInt8)}
  {c : UInt8}

theorem blind_of_kind (kind : Kind) (hlead : kind.lead = [c])
    (h : Blind inner (Behind Spelled kind))
    (hread : ∀ bytes, read bytes = match skipSpace bytes with
      | [] => .error .truncated
      | b :: rest => if b = c then inner rest else .error (mismatch b rest)) :
    Blind read (Padded Spelled) := by
  refine (blind_dispatch fun kind' => ?_).congr (eq_ok_iff_dispatch hlead hread)
  by_cases hkind : kind' = kind
  · rw [onlyArm, if_pos hkind, hkind]
    exact h
  · rw [onlyArm, if_neg hkind]
    exact blind_error .unexpected

theorem sound_of_kind (kind : Kind) (hlead : kind.lead = [c])
    (h : Sound inner (Behind Spelled kind))
    (hread : ∀ bytes, read bytes = match skipSpace bytes with
      | [] => .error .truncated
      | b :: rest => if b = c then inner rest else .error (mismatch b rest)) :
    Sound read (Padded Spelled) := by
  refine (sound_dispatch fun kind' => ?_).congr (eq_ok_iff_dispatch hlead hread)
  by_cases hkind : kind' = kind
  · rw [onlyArm, if_pos hkind, hkind]
    exact h
  · rw [onlyArm, if_neg hkind]
    exact sound_error .unexpected

end OneKind

theorem blind_readText : Blind readText (Padded Spelled) :=
  blind_of_kind .string rfl blind_readString fun _ => rfl

theorem sound_readText : Sound readText (Padded Spelled) :=
  sound_of_kind .string rfl sound_readString fun _ => rfl

theorem blind_readTexts : Blind readTexts (Padded Spelled) := by
  refine blind_of_kind .array rfl ((blind_gather blind_readText []).map List.reverse).array ?_
  intro bytes
  simp only [← foldItems_eq_loop]
  rfl

theorem sound_readTexts : Sound readTexts (Padded Spelled) := by
  refine sound_of_kind .array rfl ((sound_gather sound_readText []).map List.reverse).array ?_
  intro bytes
  simp only [← foldItems_eq_loop]
  rfl

theorem blind_readObject (levels : Nat) : Blind (readObject levels) (Padded Spelled) := by
  cases levels with
  | zero =>
      exact blind_of_kind .object rfl (blind_error .malformed) fun _ => rfl
  | succ levels =>
      refine blind_of_kind .object rfl (blind_putMember (blind_readValue levels) []).object ?_
      intro bytes
      simp only [← foldMembers_eq_loop]
      rfl

theorem sound_readObject (levels : Nat) : Sound (readObject levels) (Padded Spelled) := by
  cases levels with
  | zero =>
      exact sound_of_kind .object rfl (sound_error .malformed) fun _ => rfl
  | succ levels =>
      refine sound_of_kind .object rfl (sound_putMember (sound_readValue levels) []).object ?_
      intro bytes
      simp only [← foldMembers_eq_loop]
      rfl

/-- A number that is read, as a whole number of 64 bits. -/
def acceptInt64 : Numeral × List UInt8 → Except Fault (Int64 × List UInt8) := fun (n, rest) =>
  match n with
  | .natural n => if n < Nat.pow 2 63 then .ok (Int64.ofNat n, rest) else .error .unexpected
  | .negative n => .ok (Int64.ofInt (-(n : Int)), rest)
  | .real _ => .error .unexpected

theorem indifferent_acceptInt64 : Indifferent acceptInt64 := by
  intro n
  cases n with
  | natural n =>
      by_cases hn : n < Nat.pow 2 63
      · exact ⟨.ok (Int64.ofNat n), fun rest => by rw [acceptInt64, if_pos hn]; rfl⟩
      · exact ⟨.error .unexpected, fun rest => by rw [acceptInt64, if_neg hn]; rfl⟩
  | negative n => exact ⟨.ok (Int64.ofInt (-(n : Int))), fun rest => rfl⟩
  | real x => exact ⟨.error .unexpected, fun rest => rfl⟩

/-- How each kind of value is read as a whole number of 64 bits. -/
def int64Arm : Kind → List UInt8 → Except Fault (Int64 × List UInt8)
  | .number negative, bytes => readNumber negative bytes >>= acceptInt64
  | _, _ => .error .unexpected

theorem readInt64_eq_ok_iff (bytes : List UInt8) (x : Int64 × List UInt8) :
    readInt64 bytes = .ok x ↔ dispatch int64Arm bytes = .ok x := by
  have haccept : readInt64 bytes = match skipSpace bytes with
      | [] => .error .truncated
      | b :: rest =>
          if b = byte '-' then readNumber true rest >>= acceptInt64
          else if (digitOf? b).isSome then readNumber false (b :: rest) >>= acceptInt64
          else .error (mismatch b rest) := rfl
  rw [haccept, dispatch]
  cases skipSpace bytes with
  | nil => exact Iff.rfl
  | cons b rest =>
      by_cases hminus : b = byte '-'
      · subst hminus
        have hkind : Kind.ofByte? (byte '-') = some (.number true) := by decide
        simp only [if_true, hkind]
        exact Iff.rfl
      by_cases hdigit : (digitOf? b).isSome = true
      · simp only [hminus, hdigit, if_false, if_true, Kind.ofByte?_of_digit hdigit]
        exact Iff.rfl
      simp only [hminus, hdigit, if_false]
      constructor
      · intro h
        cases h
      · -- a number begins with its sign or with a digit
        intro h
        split at h
        next => cases h
        next kind hkind =>
          cases kind with
          | number negative =>
              cases negative with
              | true =>
                  have hlead := Kind.lead_append_drop hkind rest
                  exact absurd (List.cons.inj hlead).1.symm hminus
              | false => exact absurd (Kind.isSome_of_number hkind) hdigit
          | null | bool | string | array | object => cases h

theorem blind_readInt64 : Blind readInt64 (Padded Spelled) := by
  refine (blind_dispatch fun kind => ?_).congr readInt64_eq_ok_iff
  cases kind with
  | number negative => exact blind_readNumber.check indifferent_acceptInt64
  | null | bool | string | array | object => exact blind_error .unexpected

theorem sound_readInt64 : Sound readInt64 (Padded Spelled) := by
  refine (sound_dispatch fun kind => ?_).congr readInt64_eq_ok_iff
  cases kind with
  | number negative => exact sound_readNumber.check indifferent_acceptInt64
  | null | bool | string | array | object => exact sound_error .unexpected

end WhereClause.Json

/-
**The grammar of keys.**

A key is a column, with or without an operator token in brackets behind it and the mark for OR
before it.  What follows is this grammar, written down without any search in a text, and that it is
the one that keys are read by: every key is written in exactly one way.  The tokens are given to the
databases' clients as a pattern, in which many of them begin or end with another one; since none has
a bracket in it, the order in which they are tried does not matter.

Main definitions:

* `WhereClause.withToken` — a text with an operator token in brackets behind it;
* `WhereClause.Key.Marked`, `WhereClause.Key.Suffixed`, `WhereClause.Key.Written` — the grammar;
* `WhereClause.Dialect.alternatives` — the texts between which the pattern of a dialect chooses;
* `WhereClause.firstMatch?` — a search for the leftmost token at the end of a text, in which the
  alternatives are tried in order.

Main results:

* `WhereClause.withToken_inj` — a text ends in one token at most;
* `WhereClause.Key.read_eq_iff` — keys are read by the grammar;
* `WhereClause.firstMatch?_of_perm` — the order of the alternatives does not matter;
* `WhereClause.Key.read_withToken`, `WhereClause.Key.read_marked_withToken` — what is put together
  from a column, a token and the mark is taken apart again;
* `WhereClause.written_of_read` — **the grammar of keys**, with all of this.
-/

import WhereClause.Proofs.FormattedTerms
import WhereClause.Proofs.ReservedRoles

set_option relaxedAutoImplicit false
set_option autoImplicit false

namespace WhereClause

open Text

/-! ### Tokens at the end of a text -/

/-- A text with a token in brackets behind it. -/
def withToken (before : List Char) (token : String) : List Char :=
  before ++ '[' :: (token.toList ++ [']'])

/-- A text ends in a token exactly if it is some text with the token behind it. -/
theorem suffix_iff_exists_withToken {token : String} {s : List Char} :
    '[' :: (token.toList ++ [']']) <:+ s ↔ ∃ before, s = withToken before token :=
  exists_congr fun _ => eq_comm

section Cut

variable {tokens : List String}

/-- **A token behind a text is the one that is cut off**, if no token has a bracket in it. -/
theorem cutSuffix?_withToken (htokens : ∀ token ∈ tokens, '[' ∉ token.toList) {token : String}
    (htoken : token ∈ tokens) (before : List Char) :
    cutSuffix? tokens (withToken before token) = some (before, token) := by
  induction before with
  | nil =>
      rw [withToken, List.nil_append, cutSuffix?, enclosed?_append]
      simp [String.ofList_toList, htoken]
  | cons c before ih =>
      rw [withToken, List.cons_append, ← withToken, cutSuffix?, ih]
      dsimp only
      split
      next => rfl
      next inner hinner =>
        -- what stands between the first bracket and the last one has the bracket of the token in it
        have hbracket : '[' ∈ inner := by
          have hwhole := List.tail_eq_of_cons_eq (eq_of_enclosed?_eq_some hinner)
          rw [withToken, ← List.cons_append, ← List.append_assoc] at hwhole
          rw [← List.append_cancel_right hwhole]
          simp
        have hno : tokens.contains (String.ofList inner) = false := by
          rw [Bool.eq_false_iff, ne_eq, List.contains_iff_mem]
          intro hmem
          refine htokens _ hmem ?_
          rwa [String.toList_ofList]
        rw [hno]
        rfl

/-- Where a token is cut off depends on which tokens there are, and not on their order. -/
theorem cutSuffix?_of_perm {tokens' : List String} (h : tokens.Perm tokens') (s : List Char) :
    cutSuffix? tokens s = cutSuffix? tokens' s := by
  induction s with
  | nil => rfl
  | cons c rest ih =>
      have hcontains : ∀ token, tokens.contains token = tokens'.contains token := by
        intro token
        rw [Bool.eq_iff_iff, List.contains_iff_mem, List.contains_iff_mem, h.mem_iff]
      simp only [cutSuffix?, ih, hcontains]

end Cut

/-- No operator token has a bracket in it. -/
theorem bracket_notMem_suffixTokens : ∀ token ∈ suffixTokens, '[' ∉ token.toList := by decide

/-- **A text ends in one operator token at most**, and what stands before it is told by the text. -/
theorem withToken_inj {before before' : List Char} {token token' : String}
    (htoken : (Operator.ofToken? token).isSome = true)
    (htoken' : (Operator.ofToken? token').isSome = true)
    (h : withToken before token = withToken before' token') : before = before' ∧ token = token' := by
  have hcut := cutSuffix?_withToken bracket_notMem_suffixTokens
    ((mem_suffixTokens_iff token).2 htoken) before
  rw [h, cutSuffix?_withToken bracket_notMem_suffixTokens
    ((mem_suffixTokens_iff token').2 htoken')] at hcut
  exact Prod.mk.inj (Option.some.inj hcut.symm)

/-! ### Patterns -/

/-- The texts between the bars of a pattern, in which a backslash stands before a character that is
meant as it is. -/
def readAlternatives : List Char → List (List Char)
  | [] => [[]]
  | '|' :: rest => [] :: readAlternatives rest
  | '\\' :: c :: rest => (readAlternatives rest).modifyHead (c :: ·)
  | c :: rest => (readAlternatives rest).modifyHead (c :: ·)

/-- The texts between which the pattern of a dialect chooses, in order. -/
def Dialect.alternatives (d : Dialect) : List String :=
  (readAlternatives d.pattern.toList).map String.ofList

theorem readAlternatives_suffixPattern :
    (readAlternatives suffixPattern.toList).map String.ofList = suffixTokens := by decide +kernel

/-- The pattern of every dialect chooses between the tokens that it recognises. -/
theorem Flavour.alternatives_dialect (f : Flavour) (r : ReservedKeys) :
    (f.dialect r).alternatives = suffixTokens := by
  have hpattern : (f.dialect r).pattern = suffixPattern := by cases f <;> rfl
  rw [Dialect.alternatives, hpattern, readAlternatives_suffixPattern]

/-- The leftmost match of a bracketed alternative that reaches to the end of a text: what stands
before it, and the first alternative that matches there. -/
def firstMatch? (alternatives : List String) : List Char → Option (List Char × String)
  | [] => none
  | c :: rest =>
      let here := if c = '[' then alternatives.find? fun token => rest = token.toList ++ [']']
        else none
      match here with
      | some token => some ([], token)
      | none => (firstMatch? alternatives rest).map fun (before, token) => (c :: before, token)

/-- An alternative is found behind a bracket exactly if it stands between this bracket and the last
one. -/
theorem find?_alternative_eq (alternatives : List String) (c : Char) (rest : List Char) :
    (if c = '[' then alternatives.find? fun token => rest = token.toList ++ [']'] else none) =
      (enclosed? '[' ']' (c :: rest)).bind fun inner =>
        if alternatives.contains (String.ofList inner) then some (String.ofList inner)
        else none := by
  cases henclosed : enclosed? '[' ']' (c :: rest) with
  | none =>
      -- with an alternative between them, the brackets would enclose something
      rw [Option.bind_none, ite_eq_right_iff]
      rintro rfl
      rw [List.find?_eq_none]
      intro token _ htoken
      rw [decide_eq_true_eq] at htoken
      rw [htoken, enclosed?_append] at henclosed
      cases henclosed
  | some inner =>
      obtain ⟨rfl, rfl⟩ := List.cons.inj (eq_of_enclosed?_eq_some henclosed)
      have hsame : ∀ token : String,
          inner ++ [']'] = token.toList ++ [']'] ↔ token = String.ofList inner := by
        intro token
        rw [List.append_left_inj, ← String.toList_inj, String.toList_ofList, eq_comm]
      simp only [hsame, if_true, Option.bind_some, List.contains_iff_mem]
      by_cases hmem : String.ofList inner ∈ alternatives
      · have hsome : (alternatives.find? fun token => token = String.ofList inner).isSome = true :=
          List.find?_isSome.2 ⟨_, hmem, decide_eq_true rfl⟩
        obtain ⟨token, htoken⟩ := Option.isSome_iff_exists.1 hsome
        have heq := List.find?_some htoken
        rw [decide_eq_true_eq] at heq
        rw [if_pos hmem, htoken, heq]
      · rw [if_neg hmem, List.find?_eq_none]
        intro token htoken heq
        rw [decide_eq_true_eq] at heq
        exact hmem (heq ▸ htoken)

/-- **The search for alternatives in order cuts off what is cut off.** -/
theorem firstMatch?_eq_cutSuffix? (alternatives : List String) (s : List Char) :
    firstMatch? alternatives s = cutSuffix? alternatives s := by
  induction s with
  | nil => rfl
  | cons c rest ih =>
      rw [firstMatch?, cutSuffix?, find?_alternative_eq, ih]
      dsimp only
      cases enclosed? '[' ']' (c :: rest) with
      | none => rfl
      | some inner =>
          rw [Option.bind_some]
          dsimp only
          cases alternatives.contains (String.ofList inner) <;> rfl

/-- **The order of the alternatives does not matter.** -/
theorem firstMatch?_of_perm {f : Flavour} {r : ReservedKeys} {alternatives : List String}
    (h : alternatives.Perm (f.dialect r).alternatives) (s : List Char) :
    firstMatch? alternatives s = cutSuffix? (f.dialect r).tokens s := by
  rw [firstMatch?_eq_cutSuffix?, Flavour.tokens_dialect, ← f.alternatives_dialect r,
    cutSuffix?_of_perm h]

/-! ### The grammar -/

namespace Key

/-- A trimmed key with the mark for OR before it, the blanks behind which do not count, or without
it. -/
inductive Marked (marker : List Char) : List Char → Bool → List Char → Prop
  | marked (rest : List Char) : Marked marker (marker ++ rest) true (trimStart rest)
  | unmarked {s : List Char} (h : ¬ marker <+: s) : Marked marker s false s

/-- A column with an operator token behind it, the blanks before which do not count, or without
one. -/
inductive Suffixed : List Char → List Char → Operator → Prop
  | token (before : List Char) {token : String} {op : Operator}
      (h : Operator.ofToken? token = some op) :
      Suffixed (withToken before token) (trimEnd before) op
  | bare {s : List Char}
      (h : ∀ before token, (Operator.ofToken? token).isSome = true → s ≠ withToken before token) :
      Suffixed s s .eq

/-- A key with the given parts. -/
def Written (marker key : List Char) (k : Key) : Prop :=
  ∃ rest, Marked marker (trim key) k.isOr rest ∧ Suffixed rest k.column k.operator

/-- Every text is marked or not. -/
theorem exists_marked (marker s : List Char) : ∃ isOr rest, Marked marker s isOr rest := by
  by_cases h : marker <+: s
  · obtain ⟨rest, rfl⟩ := h
    exact ⟨true, _, .marked rest⟩
  · exact ⟨false, s, .unmarked h⟩

variable {d : Dialect}

/-- What is marked is read without its mark. -/
theorem read_of_marked {key rest : List Char} {isOr : Bool}
    (h : Marked d.reserved.orMarker.toList (trim key) isOr rest) :
    read d key =
      { column := (readOperator d.tokens rest).1
        operator := (readOperator d.tokens rest).2
        isOr := isOr } := by
  unfold read
  generalize trim key = s at h
  cases h with
  | marked rest => simp only [dropLead?_append]
  | unmarked h => simp only [dropLead?_eq_none_iff.2 h]

/-- What has a token behind it is read without the token. -/
theorem readOperator_of_suffixed {s column : List Char} {op : Operator}
    (h : Suffixed s column op) : readOperator suffixTokens s = (column, op) := by
  unfold readOperator
  cases h with
  | token before htoken =>
      have hmem := (mem_suffixTokens_iff _).2 (Option.isSome_iff_exists.2 ⟨op, htoken⟩)
      rw [cutSuffix?_withToken bracket_notMem_suffixTokens hmem]
      simp only [htoken]
  | bare hbare =>
      have hnone : cutSuffix? suffixTokens s = none := by
        refine cutSuffix?_eq_none_iff.2 fun token htoken hsuffix => ?_
        obtain ⟨before, heq⟩ := suffix_iff_exists_withToken.1 hsuffix
        exact hbare before token ((mem_suffixTokens_iff token).1 htoken) heq
      rw [hnone]

/-- And everything that is read has a token behind it, or none. -/
theorem suffixed_readOperator (s : List Char) :
    Suffixed s (readOperator suffixTokens s).1 (readOperator suffixTokens s).2 := by
  unfold readOperator
  cases hcut : cutSuffix? suffixTokens s with
  | none =>
      refine .bare fun before token htoken heq => ?_
      exact cutSuffix?_eq_none_iff.1 hcut token ((mem_suffixTokens_iff token).2 htoken)
        (suffix_iff_exists_withToken.2 ⟨before, heq⟩)
  | some cut =>
      obtain ⟨before, token⟩ := cut
      obtain ⟨rfl, hmem⟩ := eq_append_of_cutSuffix? hcut
      obtain ⟨op, hop⟩ := Option.isSome_iff_exists.1 ((mem_suffixTokens_iff token).1 hmem)
      simp only [hop]
      exact .token before hop

variable {f : Flavour} {r : ReservedKeys}

/-- **Keys are read by the grammar**, and every key is written in one way only. -/
theorem read_eq_iff {key : List Char} {k : Key} :
    read (f.dialect r) key = k ↔ Written r.orMarker.toList key k := by
  have hreserved := Flavour.reserved_dialect f r
  constructor
  · rintro rfl
    obtain ⟨isOr, rest, hmarked⟩ := exists_marked r.orMarker.toList (trim key)
    rw [read_of_marked (by rwa [hreserved]), Flavour.tokens_dialect]
    exact ⟨rest, hmarked, suffixed_readOperator rest⟩
  · rintro ⟨rest, hmarked, hsuffixed⟩
    rw [read_of_marked (by rwa [hreserved]), Flavour.tokens_dialect,
      readOperator_of_suffixed hsuffixed]

/-! ### Keys put together -/

section PutTogether

variable {column : List Char} {token : String} {op : Operator}

/-- A column without blanks around it has none around it with a token behind it. -/
theorem trim_withToken (hcolumn : trim column = column) (token : String) :
    trim (withToken column token) = withToken column token := by
  have hstart : trimStart (withToken column token) = withToken column token := by
    unfold withToken
    by_cases hnil : column = []
    · rw [hnil]
      rfl
    · rw [trimStart_append_eq_self_iff hnil, ← hcolumn, trimStart_trim]
  have hsplit : withToken column token = (column ++ '[' :: token.toList) ++ [']'] := by
    simp [withToken]
  rw [trim, hstart, hsplit]
  exact trimEnd_append_of_eq_self (List.cons_ne_nil _ _) rfl _

/-- **A column with a token behind it is read as this column and the operator of the token.** -/
theorem read_withToken (hcolumn : trim column = column) (htoken : Operator.ofToken? token = some op)
    (hmark : ¬ r.orMarker.toList <+: withToken column token) :
    read (f.dialect r) (withToken column token) =
      { column := column, operator := op, isOr := false } := by
  have hend : trimEnd column = column := by rw [← hcolumn, trim, trimEnd_trimEnd]
  refine read_eq_iff.2 ⟨withToken column token, ?_, ?_⟩
  · rw [trim_withToken hcolumn]
    exact .unmarked hmark
  · have hsuffixed := Suffixed.token column htoken
    rwa [hend] at hsuffixed

/-- **With the mark before it, only the joint changes.** -/
theorem read_marked_withToken (hmarker : r.orMarker.toList ≠ [])
    (hstart : trimStart r.orMarker.toList = r.orMarker.toList) (hcolumn : trim column = column)
    (htoken : Operator.ofToken? token = some op)
    (hmark : ¬ r.orMarker.toList <+: withToken column token) :
    read (f.dialect r) (r.orMarker.toList ++ withToken column token) =
      { column := column, operator := op, isOr := true } := by
  have hkey : withToken column token ≠ [] := by simp [withToken]
  rw [read_append_of_unmarked (by rw [Flavour.reserved_dialect]) hmarker hstart hkey
    (trim_withToken hcolumn token) hmark, read_withToken hcolumn htoken hmark]

end PutTogether

end Key

/-! ### Keys and terms -/

/-- An operator is settled alike on a value and on the value that it is settled with. -/
theorem Comparison.settled_shape_settled (c : Comparison) :
    c.operator.settled c.settled.shape = c.operator.settled c.shape := by
  rw [shape_settled]
  split
  next h => rw [Operator.settled_of_isOverlap h.2, Operator.settled_of_isOverlap h.2]
  next => rfl

/-- A formatted term has the operator that was chosen, settled on its value. -/
theorem Flavour.operator_of_format {f : Flavour} {t u : Term} (h : f.normalForm.format t = .ok u) :
    u.operator = t.operator.settled u.shape := by
  obtain ⟨-, path, -, rfl⟩ := NormalForm.format_eq_ok_iff.1 h
  have hshape : (Term.ofChain (f.normalForm.settle t.toComparison) path).shape =
      t.toComparison.settled.shape := congrArg Value.shape (f.value_settle t.toComparison)
  rw [hshape, Comparison.settled_shape_settled]
  exact f.operator_settle t.toComparison

/-- A parsed term has the operator of its key, settled on its value. -/
theorem Flavour.operator_of_parse {f : Flavour} {r : ReservedKeys} {key value : String} {t : Term}
    (h : (f.dialect r).parse key value = .ok t) :
    t.operator = (Key.read (f.dialect r) key.toList).operator.settled t.shape := by
  rcases Dialect.exists_of_parse h with hsingle | ⟨-, _, _, nested, -, hformat⟩
  · obtain ⟨type, v, hformat⟩ := Dialect.exists_of_parseSingle hsingle
    rw [format_dialect] at hformat
    exact operator_of_format hformat
  · rw [format_dialect] at hformat
    exact operator_of_format hformat

/-- **The grammar of keys.**  A key is read as its parts exactly if it is written from them, and the
term of a pair has the column and the joint of its key, and the operator of its key up to the shape
of its value.  A text ends in one operator token at most; the pattern of a dialect chooses between
just these tokens, and finds the same one in whatever order it tries them.  So what is put together
from a column and a token, with or without the mark for OR, is taken apart again. -/
theorem written_of_read (f : Flavour) (r : ReservedKeys) :
    let d := f.dialect r
    let marker := r.orMarker.toList
    (∀ key k, Key.read d key = k ↔ Key.Written marker key k) ∧
    (∀ key value t, d.parse key value = .ok t →
      t.key = String.ofList (Key.read d key.toList).column ∧
        t.isOr = (Key.read d key.toList).isOr ∧
        t.operator = (Key.read d key.toList).operator.settled t.shape) ∧
    (∀ before before' token token', (Operator.ofToken? token).isSome = true →
      (Operator.ofToken? token').isSome = true →
      withToken before token = withToken before' token' → before = before' ∧ token = token') ∧
    d.alternatives.Perm (Operator.tokens.map Prod.fst) ∧
    (∀ alternatives, alternatives.Perm d.alternatives →
      ∀ s, firstMatch? alternatives s = cutSuffix? d.tokens s) ∧
    (marker ≠ [] → trimStart marker = marker → ∀ column token op, trim column = column →
      Operator.ofToken? token = some op → ¬ marker <+: withToken column token →
      Key.read d (withToken column token) =
          { column := column, operator := op, isOr := false } ∧
        Key.read d (marker ++ withToken column token) =
          { column := column, operator := op, isOr := true }) := by
  intro d marker
  refine ⟨fun key k => Key.read_eq_iff, fun key value t h => ?_,
    fun before before' token token' => withToken_inj, ?_, fun _ => firstMatch?_of_perm,
    fun hmarker hstart column token op hcolumn htoken hmark => ?_⟩
  · exact ⟨Term.key_eq_of_keys (keys_of_parse h), f.isOr_of_parse h, Flavour.operator_of_parse h⟩
  · have halternatives : d.alternatives = suffixTokens := f.alternatives_dialect r
    rw [halternatives]
    exact suffixTokens_perm
  · exact ⟨Key.read_withToken hcolumn htoken hmark,
      Key.read_marked_withToken hmarker hstart hcolumn htoken hmark⟩

/-- Of several tokens only the last one is cut off, and of two marks only the first. -/
theorem read_of_hostile_column :
    let r : ReservedKeys := { orMarker := "[!]" }
    let d := (Flavour.postgres .dollar).dialect r
    Key.read d "a[!] [->]![!~*]".toList =
        { column := "a[!] [->]!".toList, operator := .notIregex, isOr := false } ∧
      Key.read d "[!]a[!] [->]![!~*]".toList =
        { column := "a[!] [->]!".toList, operator := .notIregex, isOr := true } := by
  intro r d
  have hplain : "a[!] [->]![!~*]".toList = withToken "a[!] [->]!".toList "!~*" := by decide
  have hmarked : "[!]a[!] [->]![!~*]".toList =
      r.orMarker.toList ++ withToken "a[!] [->]!".toList "!~*" := by decide
  obtain ⟨-, -, -, -, -, hread⟩ := written_of_read (.postgres .dollar) r
  rw [hplain, hmarked]
  exact hread (by decide) (by decide) "a[!] [->]!".toList "!~*" .notIregex (by decide) (by decide)
    (by decide)

end WhereClause

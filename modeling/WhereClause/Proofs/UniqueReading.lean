/-
**A predicate can be read in one way only.**

The text of a predicate determines the terms that it was written from, as far as a text can show
them: their keys, their outlines, which of them are copies for every column, and how the others are
joined.  The names are read off first; what is left is a row of words, which is cut from the left.

Main definitions:

* `WhereClause.shape` — what is left of a text without the contents of its names and the numbers of
  its placeholders;
* `WhereClause.Flavour.rowWord`, `WhereClause.Flavour.chainWord`, `WhereClause.Flavour.layoutWord` —
  the words of rows, of chains and of predicates;
* `WhereClause.Term.reading` — what a reader learns of a term.

Main results:

* `WhereClause.shape_lexemes` — the shape of a predicate is the word of its form;
* `WhereClause.Flavour.eq_of_rowWord_eq` — a row can be read off its word;
* `WhereClause.Flavour.eq_of_layoutWord_eq` — and so can a layout;
* `WhereClause.eq_readings_of_text_eq` — **requests with the same text have terms that read the
  same**.
-/

import WhereClause.Proofs.Containment
import WhereClause.Proofs.OutlineWords

set_option relaxedAutoImplicit false
set_option autoImplicit false

namespace WhereClause

open Text

/-! ### Shapes -/

/-- The code of a lexeme; the digits of placeholders have none. -/
def Lexeme.code? : Lexeme → Option Nat
  | .name _ => some Flavour.nameCode
  | .sign c => if c.isDigit then none else some (Flavour.charCode c)

/-- What is left of a text without the contents of its names and the numbers of its
placeholders. -/
def shape (lexemes : List Lexeme) : List Nat := lexemes.filterMap Lexeme.code?

theorem shape_append (lexemes lexemes' : List Lexeme) :
    shape (lexemes ++ lexemes') = shape lexemes ++ shape lexemes' :=
  List.filterMap_append

/-- Characters other than digits keep their codes. -/
theorem shape_signs {s : List Char} (h : ∀ c ∈ s, c.isDigit = false) :
    shape (s.map .sign) = s.map Flavour.charCode := by
  induction s with
  | nil => rfl
  | cons c s ih =>
      have hs := ih fun d hd => h d (List.mem_cons_of_mem c hd)
      simpa [shape, Lexeme.code?, h c (by simp)] using hs

/-- Digits have no codes. -/
theorem shape_digits {s : List Char} (h : ∀ c ∈ s, c.isDigit = true) :
    shape (s.map .sign) = [] := by
  induction s with
  | nil => rfl
  | cons c s ih =>
      have hs := ih fun d hd => h d (List.mem_cons_of_mem c hd)
      simpa [shape, Lexeme.code?, h c (by simp)] using hs

/-- **The shape of a predicate is the word of its form.** -/
theorem shape_lexemes {f : Flavour} {p : Sql} (h : f.Clean p.fragments) (bound : Nat) :
    shape (p.lexemes f.style.placeholder bound) = f.word p.fragments := by
  induction p generalizing bound with
  | nil => rfl
  | cons piece rest ih =>
      cases piece with
      | code text =>
          have hdigit : ∀ c ∈ text.toList, c.isDigit = false := h.isDigit (by simp)
          rw [Sql.lexemes, shape_append, shape_signs hdigit, ih h.of_cons]
          rfl
      | column name =>
          have hrest := ih h.of_cons bound
          change Flavour.nameCode :: shape (Sql.lexemes f.style.placeholder bound rest) = _
          rw [hrest]
          rfl
      | bind value =>
          obtain ⟨digits, hplace, hdigits⟩ := f.exists_digits_of_placeholder (bound + 1)
          have hmark : shape [.sign f.style.mark] = [Flavour.charCode f.style.mark] := by
            simp [shape, Lexeme.code?, f.isDigit_mark]
          rw [Sql.lexemes, shape_append, hplace, List.map_cons, ← List.singleton_append,
            shape_append, shape_digits hdigits, hmark, ih h.of_cons]
          rfl

/-! ### Rows of words -/

namespace Flavour

variable {f : Flavour}

/-- The word of some items, each behind its joint, with a closing behind them. -/
def rowWord (f : Flavour) (closing : List Nat) : List (Outline × Bool) → List Nat
  | [] => closing
  | item :: rest =>
      f.word [.fixed (joint item)] ++ (f.word (f.form item.1) ++ f.rowWord closing rest)

/-- The word of a chain, with the end behind it. -/
def chainWord (f : Flavour) : List (Outline × Bool) → List Nat
  | [] => [endCode]
  | item :: rest => f.word (f.form item.1) ++ f.rowWord [endCode] rest

/-- The word of what stands behind a group. -/
def behindGroup (f : Flavour) : List (Outline × Bool) → List Nat
  | [] => f.word [.fixed ")"] ++ [endCode]
  | item :: rest => f.word [.fixed ")", .fixed " AND "] ++ f.chainWord (item :: rest)

/-- The items of a group as a row, all of which are joined with OR. -/
def alternatives (group : List (Outline × Bool)) : List (Outline × Bool) :=
  group.map fun item => (item.1, true)

/-- The word of a layout, with the end behind it. -/
def layoutWord (f : Flavour) (group chain : List (Outline × Bool)) : List Nat :=
  match group with
  | [] => f.chainWord chain
  | item :: rest =>
      f.word (.fixed "(" :: f.form item.1) ++ f.rowWord (f.behindGroup chain) (alternatives rest)

/-- The form of some items, each behind its joint. -/
def rowForm (f : Flavour) (items : List (Outline × Bool)) : List Fragment :=
  items.flatMap fun item => .fixed (joint item) :: f.form item.1

/-- A row of forms has the word of a row. -/
theorem word_rowForm_append (items : List (Outline × Bool)) (closing : List Nat) :
    f.word (f.rowForm items) ++ closing = f.rowWord closing items := by
  induction items with
  | nil => rfl
  | cons item items ih =>
      have hcons : f.rowForm (item :: items) =
          [.fixed (joint item)] ++ (f.form item.1 ++ f.rowForm items) := by
        simp [rowForm]
      rw [hcons, word_append, word_append, List.append_assoc, List.append_assoc, ih, rowWord]

/-- A row is a form behind its lead, and a row of forms. -/
theorem flatMap_row (lead : List String) (item : Outline × Bool) (rest : List (Outline × Bool)) :
    (row joint lead (item :: rest)).flatMap (fun item => item.1.map .fixed ++ f.form item.2.1) =
      lead.map .fixed ++ f.form item.1 ++ f.rowForm rest := by
  simp [row, rowForm, List.flatMap_map]

/-- So is a group, whose items are joined as alternatives. -/
theorem flatMap_row_group (item : Outline × Bool) (rest : List (Outline × Bool)) :
    (row (fun _ => " OR ") ["("] (item :: rest)).flatMap
        (fun item => item.1.map .fixed ++ f.form item.2.1) =
      .fixed "(" :: f.form item.1 ++ f.rowForm (alternatives rest) := by
  simp [row, rowForm, alternatives, joint, List.flatMap_map]

/-- **A layout has the word of a layout.** -/
theorem word_layout_append (group chain : List (Outline × Bool)) :
    f.word (f.layout group chain) ++ [endCode] = f.layoutWord group chain := by
  cases group with
  | nil =>
      cases chain with
      | nil => rfl
      | cons item chain =>
          rw [layout, weave, flatMap_row, layoutWord, chainWord, ← word_rowForm_append]
          simp [ending]
  | cons item group =>
      cases chain with
      | nil =>
          have hlayout : f.layout (item :: group) [] =
              .fixed "(" :: f.form item.1 ++ f.rowForm (alternatives group) ++ [.fixed ")"] := by
            simp only [layout, weave]
            rw [List.flatMap_append, flatMap_row_group]
            simp [ending, row]
          rw [hlayout, layoutWord, behindGroup, ← word_rowForm_append]
          simp only [word_append, List.append_assoc]
      | cons item' chain =>
          have hlayout : f.layout (item :: group) (item' :: chain) =
              .fixed "(" :: f.form item.1 ++ f.rowForm (alternatives group) ++
                ([.fixed ")", .fixed " AND "] ++ (f.form item'.1 ++ f.rowForm chain)) := by
            simp only [layout, weave]
            rw [List.flatMap_append, flatMap_row_group, flatMap_row]
            simp [ending]
          rw [hlayout, layoutWord, behindGroup, chainWord, ← word_rowForm_append,
            ← word_rowForm_append]
          simp only [word_append, List.append_assoc]

/-! ### Reading rows -/

theorem word_joint_mem (item : Outline × Bool) : f.word [.fixed (joint item)] ∈ f.joints := by
  unfold joints joint
  cases item.2 <;> simp

/-- A joint is no closing, whatever stands behind them. -/
theorem joint_append_ne_closing (item : Outline × Bool) (r : List Nat) {closing : List Nat}
    (h : Stopped f.closers closing) : f.word [.fixed (joint item)] ++ r ≠ closing := by
  have hall : (f.joints.all fun joint => f.closers.all fun closer => apart joint closer) =
      true := by
    rcases f with (_ | _) | _ <;> decide +kernel
  obtain ⟨closer, hcloser, rest, rfl⟩ := h
  have hapart := List.all_eq_true.1 (List.all_eq_true.1 hall _ (word_joint_mem item)) _ hcloser
  exact append_ne_of_apart hapart r rest

/-- The joint of an item can be read off the whole. -/
theorem eq_of_joint_append_eq {item item' : Outline × Bool} {r s : List Nat}
    (h : f.word [.fixed (joint item)] ++ r = f.word [.fixed (joint item')] ++ s) :
    item.2 = item'.2 ∧ r = s := by
  have hapart : apart (f.word [.fixed " AND "]) (f.word [.fixed " OR "]) = true := by
    rcases f with (_ | _) | _ <;> decide +kernel
  unfold joint at h
  cases hitem : item.2 <;> cases hitem' : item'.2 <;> rw [hitem, hitem'] at h
  · exact ⟨rfl, List.append_cancel_left h⟩
  · exact absurd h (append_ne_of_apart hapart r s)
  · exact absurd h.symm (append_ne_of_apart hapart s r)
  · exact ⟨rfl, List.append_cancel_left h⟩

/-- What begins with a joint or a closing may stand behind a term. -/
theorem stopped_rowWord {closing : List Nat} (h : Stopped f.closers closing)
    (items : List (Outline × Bool)) : Stopped f.stops (f.rowWord closing items) := by
  cases items with
  | nil =>
      obtain ⟨closer, hcloser, rest, rfl⟩ := h
      exact ⟨closer, List.mem_append_right _ hcloser, rest, rfl⟩
  | cons item items =>
      exact ⟨f.word [.fixed (joint item)], List.mem_append_left _ (word_joint_mem item), _, rfl⟩

/-- **A row and its closing can be read off the word of the whole.** -/
theorem eq_of_rowWord_eq {items items' : List (Outline × Bool)} {closing closing' : List Nat}
    (hitems : ∀ item ∈ items, item.1 ∈ f.outlines) (hitems' : ∀ item ∈ items', item.1 ∈ f.outlines)
    (hclosing : Stopped f.closers closing) (hclosing' : Stopped f.closers closing')
    (h : f.rowWord closing items = f.rowWord closing' items') :
    items = items' ∧ closing = closing' := by
  -- on both rows at once: where one ends, a joint of the other would be a closing
  induction items generalizing items' with
  | nil =>
      cases items' with
      | nil => exact ⟨rfl, h⟩
      | cons item' items' => exact absurd h.symm (joint_append_ne_closing item' _ hclosing)
  | cons item items ih =>
      cases items' with
      | nil => exact absurd h (joint_append_ne_closing item _ hclosing')
      | cons item' items' =>
          obtain ⟨hjoint, hrest⟩ := eq_of_joint_append_eq h
          obtain ⟨houtline, htail⟩ := eq_of_word_append_eq (hitems item (by simp))
            (hitems' item' (by simp)) (stopped_rowWord hclosing items)
            (stopped_rowWord hclosing' items') hrest
          obtain ⟨rfl, hclose⟩ := ih (fun x hx => hitems x (List.mem_cons_of_mem _ hx))
            (fun x hx => hitems' x (List.mem_cons_of_mem _ hx)) htail
          exact ⟨by rw [Prod.ext houtline hjoint], hclose⟩

/-- The end of a predicate closes a row. -/
theorem stopped_end : Stopped f.closers [endCode] :=
  ⟨[endCode], by simp [closers], [], rfl⟩

/-- What stands behind a group closes it. -/
theorem stopped_behindGroup (chain : List (Outline × Bool)) :
    Stopped f.closers (f.behindGroup chain) := by
  cases chain with
  | nil => exact ⟨_, by simp [closers, behindGroup], [], (List.append_nil _).symm⟩
  | cons item chain => exact ⟨_, by simp [closers], _, rfl⟩

/-- **The outlines of a chain, and the joints of all its items but the first, can be read off its
word.** -/
theorem eq_of_chainWord_eq {chain chain' : List (Outline × Bool)}
    (hchain : ∀ item ∈ chain, item.1 ∈ f.outlines)
    (hchain' : ∀ item ∈ chain', item.1 ∈ f.outlines) (h : f.chainWord chain = f.chainWord chain') :
    chain.map Prod.fst = chain'.map Prod.fst ∧
      chain.tail.map Prod.snd = chain'.tail.map Prod.snd := by
  cases chain with
  | nil =>
      cases chain' with
      | nil => exact ⟨rfl, rfl⟩
      | cons item' chain' => exact absurd h.symm (word_ne_of_nil (hchain' item' (by simp)) _)
  | cons item chain =>
      cases chain' with
      | nil => exact absurd h (word_ne_of_nil (hchain item (by simp)) _)
      | cons item' chain' =>
          obtain ⟨houtline, hrest⟩ := eq_of_word_append_eq (hchain item (by simp))
            (hchain' item' (by simp)) (stopped_rowWord stopped_end chain)
            (stopped_rowWord stopped_end chain') h
          obtain ⟨rfl, -⟩ := eq_of_rowWord_eq (fun x hx => hchain x (List.mem_cons_of_mem _ hx))
            (fun x hx => hchain' x (List.mem_cons_of_mem _ hx)) stopped_end stopped_end hrest
          exact ⟨by simp [houtline], rfl⟩

/-- What stands behind a group tells whether there is a chain, and which one. -/
theorem eq_of_behindGroup_eq {chain chain' : List (Outline × Bool)}
    (h : f.behindGroup chain = f.behindGroup chain') : f.chainWord chain = f.chainWord chain' := by
  have hapart : apart (f.word [.fixed ")"] ++ [endCode])
      (f.word [.fixed ")", .fixed " AND "]) = true := by
    rcases f with (_ | _) | _ <;> decide +kernel
  have hnil : f.behindGroup [] = f.word [.fixed ")"] ++ [endCode] ++ [] :=
    (List.append_nil _).symm
  cases chain with
  | nil =>
      cases chain' with
      | nil => rfl
      | cons item' chain' =>
          rw [hnil] at h
          exact absurd h (append_ne_of_apart hapart _ _)
  | cons item chain =>
      cases chain' with
      | nil =>
          rw [hnil] at h
          exact absurd h.symm (append_ne_of_apart hapart _ _)
      | cons item' chain' => exact List.append_cancel_left h

/-- A predicate that begins with a group is not one without. -/
theorem chainWord_ne_of_group {item : Outline × Bool} {group chain chain' : List (Outline × Bool)}
    (hgroup : ∀ x ∈ item :: group, x.1 ∈ f.outlines) (hchain' : ∀ x ∈ chain', x.1 ∈ f.outlines) :
    f.layoutWord (item :: group) chain ≠ f.chainWord chain' := by
  -- a term that begins with a parenthesis itself is the case that needs care
  have hopening : apart (f.word [.fixed "("]) [endCode] = true := by
    rcases f with (_ | _) | _ <;> decide +kernel
  have hitem := hgroup item (by simp)
  have hrest : Stopped f.stops (f.rowWord (f.behindGroup chain) (alternatives group)) :=
    stopped_rowWord (stopped_behindGroup chain) _
  cases chain' with
  | nil =>
      have hne := append_ne_of_apart hopening
        (f.word (f.form item.1) ++ f.rowWord (f.behindGroup chain) (alternatives group)) []
      simpa [layoutWord, chainWord, word] using hne
  | cons item' chain' =>
      exact word_ne_of_opened hitem (hchain' item' (by simp)) hrest
        (stopped_rowWord stopped_end chain')

/-- As alternatives, items have the outlines that they have. -/
theorem mem_outlines_of_alternatives {group : List (Outline × Bool)}
    (h : ∀ item ∈ group, item.1 ∈ f.outlines) :
    ∀ item ∈ alternatives group, item.1 ∈ f.outlines := by
  intro item hitem
  obtain ⟨x, hx, rfl⟩ := List.mem_map.1 hitem
  exact h x hx

/-- **A layout can be read off its word**: the outlines of its group and of its chain, and the
joints of all items of the chain but the first. -/
theorem eq_of_layoutWord_eq {group group' chain chain' : List (Outline × Bool)}
    (hgroup : ∀ item ∈ group, item.1 ∈ f.outlines) (hgroup' : ∀ item ∈ group', item.1 ∈ f.outlines)
    (hchain : ∀ item ∈ chain, item.1 ∈ f.outlines) (hchain' : ∀ item ∈ chain', item.1 ∈ f.outlines)
    (h : f.layoutWord group chain = f.layoutWord group' chain') :
    group.map Prod.fst = group'.map Prod.fst ∧ chain.map Prod.fst = chain'.map Prod.fst ∧
      chain.tail.map Prod.snd = chain'.tail.map Prod.snd := by
  cases group with
  | nil =>
      cases group' with
      | nil => exact ⟨rfl, eq_of_chainWord_eq hchain hchain' h⟩
      | cons item' group' => exact absurd h.symm (chainWord_ne_of_group hgroup' hchain)
  | cons item group =>
      cases group' with
      | nil => exact absurd h (chainWord_ne_of_group hgroup hchain')
      | cons item' group' =>
          have hopen : f.word (f.form item.1) ++
              f.rowWord (f.behindGroup chain) (alternatives group) =
                f.word (f.form item'.1) ++
                  f.rowWord (f.behindGroup chain') (alternatives group') := by
            refine List.append_cancel_left
              (?_ : f.word [.fixed "("] ++ _ = f.word [.fixed "("] ++ _)
            simpa [layoutWord, word] using h
          obtain ⟨houtline, hrest⟩ := eq_of_word_append_eq (hgroup item (by simp))
            (hgroup' item' (by simp)) (stopped_rowWord (stopped_behindGroup chain) _)
            (stopped_rowWord (stopped_behindGroup chain') _) hopen
          obtain ⟨hrows, hbehind⟩ := eq_of_rowWord_eq
            (mem_outlines_of_alternatives fun x hx => hgroup x (List.mem_cons_of_mem _ hx))
            (mem_outlines_of_alternatives fun x hx => hgroup' x (List.mem_cons_of_mem _ hx))
            (stopped_behindGroup chain) (stopped_behindGroup chain') hrest
          refine ⟨?_, eq_of_chainWord_eq hchain hchain' (eq_of_behindGroup_eq hbehind)⟩
          have hfst : (alternatives group).map Prod.fst = (alternatives group').map Prod.fst := by
            rw [hrows]
          simpa [alternatives, houtline, Function.comp_def] using hfst

end Flavour

/-! ### Reading predicates -/

/-- What a reader learns of a term: its key and its outline. -/
def Term.reading (t : Term) : String × Outline := (t.key, t.outline)

/-- A key can be put together from its parts. -/
theorem eq_of_splitOn_eq {key key' : String}
    (h : splitOn '.' key.toList = splitOn '.' key'.toList) : key = key' := by
  rw [← String.toList_inj, ← intercalate_splitOn '.' key.toList, h, intercalate_splitOn]

/-- Terms with the same keys and the same outlines read the same. -/
theorem map_reading_eq {terms terms' : List Term}
    (hkeys : (terms.map fun t => t.key) = terms'.map fun t => t.key)
    (houtlines : terms.map Term.outline = terms'.map Term.outline) :
    terms.map Term.reading = terms'.map Term.reading := by
  have hzip : ∀ terms : List Term,
      terms.map Term.reading = (terms.map fun t => t.key).zip (terms.map Term.outline) := by
    intro terms
    rw [List.zip_map']
    rfl
  rw [hzip, hzip, hkeys, houtlines]

section Reading

variable {f : Flavour} {r : ReservedKeys} {p p' : Params} {columns columns' : List String}

/-- Predicates with the same text have the same pieces, as far as a reader can see. -/
theorem lexemes_eq_of_text_eq (h : p.Forall (Term.WellFormed f))
    (h' : p'.Forall (Term.WellFormed f))
    (htext : (f.dialect r).text ((f.dialect r).assemble p columns) =
      (f.dialect r).text ((f.dialect r).assemble p' columns')) :
    ((f.dialect r).assemble p columns).lexemes f.style.placeholder 0 =
      ((f.dialect r).assemble p' columns').lexemes f.style.placeholder 0 := by
  have hlex := Flavour.lex_assemble (r := r) h columns
  rw [htext, Flavour.lex_assemble h' columns'] at hlex
  rw [← joinNames_tokens _ (Flavour.separated_assemble h columns), ← Option.some.inj hlex,
    joinNames_tokens _ (Flavour.separated_assemble h' columns')]

/-- Predicates with the same text have terms with the same keys. -/
theorem keys_eq_of_text_eq (h : p.Forall (Term.WellFormed f)) (h' : p'.Forall (Term.WellFormed f))
    (htext : (f.dialect r).text ((f.dialect r).assemble p columns) =
      (f.dialect r).text ((f.dialect r).assemble p' columns')) :
    ((f.dialect r).renderedTerms p columns).map (fun t => t.key) =
      ((f.dialect r).renderedTerms p' columns').map fun t => t.key := by
  have hnames := congrArg names (lexemes_eq_of_text_eq h h' htext)
  rw [names_lexemes, names_lexemes, (Flavour.consists_assemble h columns).columns,
    (Flavour.consists_assemble h' columns').columns] at hnames
  exact (List.map_inj_right fun _ _ => eq_of_splitOn_eq).1 hnames

/-- Predicates with the same text have layouts with the same word. -/
theorem word_layoutOf_eq_of_text_eq (h : p.Forall (Term.WellFormed f))
    (h' : p'.Forall (Term.WellFormed f))
    (htext : (f.dialect r).text ((f.dialect r).assemble p columns) =
      (f.dialect r).text ((f.dialect r).assemble p' columns')) :
    f.word (f.layoutOf r p columns) = f.word (f.layoutOf r p' columns') := by
  have hshape := congrArg shape (lexemes_eq_of_text_eq h h' htext)
  rwa [shape_lexemes (Flavour.clean_assemble h columns),
    shape_lexemes (Flavour.clean_assemble h' columns'),
    (Flavour.consists_assemble h columns).fragments,
    (Flavour.consists_assemble h' columns').fragments] at hshape

/-- The outlines in a layout of well-formed terms are those of the dialect. -/
theorem mem_outlines_of_frames (h : p.Forall (Term.WellFormed f)) (columns : List String) :
    (∀ item ∈ ((f.dialect r).groupTerms p columns).map Term.frame, item.1 ∈ f.outlines) ∧
      ∀ item ∈ ((f.dialect r).chainTerms p).map Term.frame, item.1 ∈ f.outlines := by
  have hwf := Flavour.wellFormed_of_mem_renderedTerms (r := r) h columns
  refine ⟨fun item hitem => ?_, fun item hitem => ?_⟩
  · obtain ⟨t, ht, rfl⟩ := List.mem_map.1 hitem
    exact (hwf t (List.mem_append_left _ ht)).mem_outlines
  · obtain ⟨t, ht, rfl⟩ := List.mem_map.1 hitem
    exact (hwf t (List.mem_append_right _ ht)).mem_outlines

end Reading

/-- **Requests with the same text have terms that read the same.**  Whatever the pairs, identifiers,
filter documents and columns of two requests are, if their predicates have the same text then their
groups have the same targets in the same order, and their chains have the same number of terms;
terms in the same place agree on their keys and outlines, the terms of the chains but the first also
on how they are joined. -/
theorem eq_readings_of_text_eq {f : Flavour} {r : ReservedKeys} {idField idField' : String}
    {pairs pairs' : List (String × String)} {id id' : Option String}
    {body body' : Option (List UInt8)} {p p' : Params} {columns columns' : List String}
    (h : Compiler.collect ⟨f.dialect r, idField⟩ pairs id body = .ok p)
    (h' : Compiler.collect ⟨f.dialect r, idField'⟩ pairs' id' body' = .ok p')
    (htext : (f.dialect r).text ((f.dialect r).assemble p columns) =
      (f.dialect r).text ((f.dialect r).assemble p' columns')) :
    ((f.dialect r).groupTerms p columns).map Term.reading =
        ((f.dialect r).groupTerms p' columns').map Term.reading ∧
      ((f.dialect r).chainTerms p).map Term.reading =
        ((f.dialect r).chainTerms p').map Term.reading ∧
      ((f.dialect r).chainTerms p).tail.map (fun t => t.isOr) =
        ((f.dialect r).chainTerms p').tail.map fun t => t.isOr := by
  have hwf := wellFormed_of_collect h
  have hwf' := wellFormed_of_collect h'
  have hword := congrArg (· ++ [Flavour.endCode]) (word_layoutOf_eq_of_text_eq hwf hwf' htext)
  simp only [Flavour.layoutOf, Flavour.word_layout_append] at hword
  obtain ⟨hgroupMem, hchainMem⟩ := mem_outlines_of_frames (r := r) hwf columns
  obtain ⟨hgroupMem', hchainMem'⟩ := mem_outlines_of_frames (r := r) hwf' columns'
  obtain ⟨hgroup, hchain, hjoints⟩ :=
    Flavour.eq_of_layoutWord_eq hgroupMem hgroupMem' hchainMem hchainMem' hword
  rw [List.map_map, List.map_map] at hgroup hchain
  rw [← List.map_tail, ← List.map_tail, List.map_map, List.map_map] at hjoints
  -- the keys are cut where the outlines of the group end
  have hlength : ((f.dialect r).groupTerms p columns).length =
      ((f.dialect r).groupTerms p' columns').length := by
    simpa using congrArg List.length hgroup
  have hkeys := keys_eq_of_text_eq hwf hwf' htext
  rw [Dialect.renderedTerms, Dialect.renderedTerms, List.map_append, List.map_append] at hkeys
  obtain ⟨hgroupKeys, hchainKeys⟩ := List.append_inj hkeys (by simpa using hlength)
  exact ⟨map_reading_eq hgroupKeys hgroup, map_reading_eq hchainKeys hchain, hjoints⟩

/-- Two requests that differ only in their values have the same text, and terms that read the
same. -/
theorem eq_readings_of_other_values :
    ∃ p p',
      Compiler.collect ⟨(Flavour.postgres .dollar).dialect {}, "id"⟩
        [("*[%]", "x"), ("doc[->]", "kind[!]=null"), ("[|]b[>]", "5::int")] (some "7") none =
          .ok p ∧
      Compiler.collect ⟨(Flavour.postgres .dollar).dialect {}, "id"⟩
        [("*[%]", "y"), ("doc[->]", "type[!]=null"), ("[|]b[>]", "6::int")] (some "8") none =
          .ok p' ∧
      ((Flavour.postgres .dollar).dialect {}).text
          (((Flavour.postgres .dollar).dialect {}).assemble p ["c"]) =
        ((Flavour.postgres .dollar).dialect {}).text
          (((Flavour.postgres .dollar).dialect {}).assemble p' ["c"]) ∧
      (((Flavour.postgres .dollar).dialect {}).chainTerms p).map Term.reading =
        (((Flavour.postgres .dollar).dialect {}).chainTerms p').map Term.reading := by
  obtain ⟨p, p', hp, hp', htext⟩ : ∃ p p',
      Compiler.collect ⟨(Flavour.postgres .dollar).dialect {}, "id"⟩
        [("*[%]", "x"), ("doc[->]", "kind[!]=null"), ("[|]b[>]", "5::int")] (some "7") none =
          .ok p ∧
      Compiler.collect ⟨(Flavour.postgres .dollar).dialect {}, "id"⟩
        [("*[%]", "y"), ("doc[->]", "type[!]=null"), ("[|]b[>]", "6::int")] (some "8") none =
          .ok p' ∧
      ((Flavour.postgres .dollar).dialect {}).text
          (((Flavour.postgres .dollar).dialect {}).assemble p ["c"]) =
        ((Flavour.postgres .dollar).dialect {}).text
          (((Flavour.postgres .dollar).dialect {}).assemble p' ["c"]) :=
    ⟨_, _, rfl, rfl, by decide +kernel⟩
  exact ⟨p, p', hp, hp', htext, (eq_readings_of_text_eq hp hp' htext).2.1⟩

end WhereClause

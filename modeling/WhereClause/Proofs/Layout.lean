/-
**The layout of a predicate.**

A predicate is a row of rendered terms with fixed texts before, between and behind them: first the
copies of the term for every column, in parentheses and joined with OR, then the chain of the other
terms, each behind the word that joins it.  Which fixed text stands where depends on the number of
terms in each part and on the words that join them, and on nothing else.

Main definitions:

* `WhereClause.Dialect.groupTerms`, `WhereClause.Dialect.renderedTerms` — the copies of the term for
  every column, and all terms that are rendered, in the order of the text;
* `WhereClause.weave`, `WhereClause.ending` — the items of a row with the fixed texts before them,
  and the fixed texts behind the last one;
* `WhereClause.rowTexts` — the few fixed texts of a row;
* `WhereClause.Flavour.layout`, `WhereClause.Flavour.layoutOf` — the form of a predicate, given the
  outlines and joints of its terms, and that of the predicate of some parameters.

Main results:

* `WhereClause.Dialect.assemble_eq_weave` — **a predicate is its terms, rendered and woven**;
* `WhereClause.Dialect.exists_assemble_eq_append` — and every term is written in its place;
* `WhereClause.Flavour.layout_induction` — what holds of all parts of a layout holds of it;
* `WhereClause.Flavour.consists_assemble` — **a predicate consists of its layout, of the keys of its
  terms and of the values that they bind**;
* `WhereClause.Flavour.text_assemble_eq_fill` — and its text is the layout, filled with these keys.
-/

import WhereClause.Proofs.Outline

set_option relaxedAutoImplicit false
set_option autoImplicit false

namespace WhereClause

/-! ### The terms of a predicate -/

namespace Dialect

/-- The copies of the last term for every column, one for each target. -/
def groupTerms (d : Dialect) (p : Params) (columns : List String) : List Term :=
  match (p.get d.reserved.wildcard).getLast? with
  | none => []
  | some wildcard => (d.targets p columns).map wildcard.rebind

/-- The terms of a predicate in the order of its text. -/
def renderedTerms (d : Dialect) (p : Params) (columns : List String) : List Term :=
  d.groupTerms p columns ++ d.chainTerms p

theorem group_eq_map (d : Dialect) (p : Params) (columns : List String) :
    d.group p columns = (d.groupTerms p columns).map d.render := by
  unfold group groupTerms
  cases (p.get d.reserved.wildcard).getLast? with
  | none => rfl
  | some wildcard => simp [Function.comp_def]

/-- The copies of the term for every column, if there is one. -/
theorem groupTerms_eq_flatMap (d : Dialect) (p : Params) (columns : List String) :
    d.groupTerms p columns = (p.get d.reserved.wildcard).getLast?.toList.flatMap fun wildcard =>
      (d.targets p columns).map wildcard.rebind := by
  unfold groupTerms
  cases (p.get d.reserved.wildcard).getLast? <;> simp

/-- Whatever holds of all terms and of their copies on other columns holds of all terms of a
predicate. -/
theorem forall_mem_renderedTerms {P : Term → Prop} (d : Dialect) {p : Params} (h : p.Forall P)
    (hcopy : ∀ t key, P t → P (t.rebind key)) (columns : List String) :
    ∀ t ∈ d.renderedTerms p columns, P t := by
  intro t ht
  rcases List.mem_append.1 ht with ht | ht
  · unfold groupTerms at ht
    split at ht
    next => cases ht
    next wildcard hlast =>
      obtain ⟨column, -, rfl⟩ := List.mem_map.1 ht
      exact hcopy _ _ (h.2 wildcard (p.mem_terms_of_mem_get (List.mem_of_getLast? hlast)))
  · rcases List.mem_append.1 ht with ht | ht
    · exact h.1 t (Option.mem_toList.1 ht)
    · exact h.2 t (List.mem_filter.1 ht).1

end Dialect

/-! ### Weaving -/

section Weave

variable {α β : Type}

/-- The items of a row, the first one behind `lead` and every other one behind its joint. -/
def row (joint : α → String) (lead : List String) : List α → List (List String × α)
  | [] => []
  | x :: xs => (lead, x) :: xs.map fun y => ([joint y], y)

/-- The items of a group and of a chain, each with the fixed texts before it. -/
def weave (joint : α → String) (group chain : List α) : List (List String × α) :=
  match group with
  | [] => row joint [] chain
  | _ => row (fun _ => " OR ") ["("] group ++ row joint [")", " AND "] chain

/-- The fixed texts behind the last item of a group and a chain. -/
def ending (group chain : List α) : List String :=
  match group, chain with
  | _ :: _, [] => [")"]
  | _, _ => []

@[simp] theorem map_snd_row (joint : α → String) (lead : List String) (xs : List α) :
    (row joint lead xs).map Prod.snd = xs := by
  cases xs <;> simp [row, Function.comp_def]

/-- Weaving keeps the items and their order. -/
@[simp] theorem map_snd_weave (joint : α → String) (group chain : List α) :
    (weave joint group chain).map Prod.snd = group ++ chain := by
  unfold weave
  split <;> simp

theorem row_map (φ : β → α) (joint : α → String) (lead : List String) (xs : List β) :
    row joint lead (xs.map φ) = (row (joint ∘ φ) lead xs).map (Prod.map id φ) := by
  cases xs <;> simp [row, Function.comp_def]

/-- Weaving sees nothing of the items but their joints. -/
theorem weave_map (φ : β → α) (joint : α → String) (group chain : List β) :
    weave joint (group.map φ) (chain.map φ) =
      (weave (joint ∘ φ) group chain).map (Prod.map id φ) := by
  cases group with
  | nil => simp [weave, row_map]
  | cons x xs => cases chain <;> simp [weave, row, Function.comp_def]

theorem ending_map (φ : β → α) (group chain : List β) :
    ending (group.map φ) (chain.map φ) = ending group chain := by
  cases group <;> cases chain <;> rfl

/-- The fixed texts of a row. -/
def rowTexts : List String := ["(", ")", " AND ", " OR "]

/-- Between the items of a group and a chain stand few fixed texts. -/
theorem mem_rowTexts_of_weave {joint : α → String} (hjoint : ∀ x, joint x ∈ rowTexts)
    {group chain : List α} {item : List String × α} (h : item ∈ weave joint group chain) :
    ∀ text ∈ item.1, text ∈ rowTexts := by
  have hrow : ∀ {joint : α → String} {lead : List String} {xs : List α},
      (∀ x, joint x ∈ rowTexts) → (∀ text ∈ lead, text ∈ rowTexts) →
        item ∈ row joint lead xs → ∀ text ∈ item.1, text ∈ rowTexts := by
    intro joint lead xs hjoint hlead hitem
    cases xs with
    | nil => cases hitem
    | cons x xs =>
        rcases List.mem_cons.1 hitem with rfl | hitem
        · exact hlead
        · obtain ⟨y, -, rfl⟩ := List.mem_map.1 hitem
          simpa using hjoint y
  unfold weave at h
  split at h
  · exact hrow hjoint (by simp) h
  · rcases List.mem_append.1 h with h | h
    · exact hrow (by simp [rowTexts]) (by simp [rowTexts]) h
    · exact hrow hjoint (by simp [rowTexts]) h

theorem mem_rowTexts_of_ending {group chain : List α} :
    ∀ text ∈ ending group chain, text ∈ rowTexts := by
  unfold ending
  split <;> simp [rowTexts]

end Weave

/-! ### Predicates as woven terms -/

namespace Dialect

/-- A predicate whose parts are joined by fixed code. -/
theorem joined_cons (separator : String) (p : Sql) (ps : List Sql) :
    Sql.joined separator (p :: ps) = p ++ ps.flatMap fun q => .code separator :: q := by
  induction ps generalizing p with
  | nil => simp
  | cons q ps ih => simp [Sql.joined, ih]

/-- **A predicate is its terms, rendered and woven.** -/
theorem assemble_eq_weave (d : Dialect) (p : Params) (columns : List String) :
    d.assemble p columns =
      (weave joint (d.groupTerms p columns) (d.chainTerms p)).flatMap
          (fun item => item.1.map .code ++ d.render item.2) ++
        (ending (d.groupTerms p columns) (d.chainTerms p)).map .code := by
  rw [assemble, group_eq_map]
  generalize d.groupTerms p columns = group
  generalize d.chainTerms p = chain
  cases group <;> cases chain <;>
    simp [weave, ending, row, Sql.parenthesized, joined_cons, chain, List.flatMap_map]

/-- Fixed code binds no value. -/
theorem values_map_code (texts : List String) : Sql.values (texts.map .code) = [] := by
  induction texts with
  | nil => rfl
  | cons text texts ih => exact ih

/-- The values of some rendered terms are bound in their order. -/
theorem values_flatMap_render (d : Dialect) (items : List (List String × Term)) :
    Sql.values (items.flatMap fun item => item.1.map .code ++ d.render item.2) =
      (items.map Prod.snd).flatMap fun t => Sql.values (d.render t) := by
  induction items with
  | nil => rfl
  | cons item items ih =>
      simp only [List.flatMap_cons, List.map_cons, Sql.values_append, values_map_code, ih,
        List.nil_append]

/-- **Every term of a predicate is written in its place**, behind the values of the terms before
it. -/
theorem exists_assemble_eq_append (d : Dialect) {p : Params} {columns : List String}
    {before after : List Term} {t : Term} (h : d.renderedTerms p columns = before ++ t :: after) :
    ∃ lead rest : Sql, d.assemble p columns = lead ++ (d.render t ++ rest) ∧
      lead.values = before.flatMap fun u => Sql.values (d.render u) := by
  have hitems := map_snd_weave joint (d.groupTerms p columns) (d.chainTerms p)
  rw [← renderedTerms, h] at hitems
  obtain ⟨items, items', hweave, rfl, hrest⟩ := List.map_eq_append_iff.1 hitems
  obtain ⟨item, items'', rfl, rfl, rfl⟩ := List.map_eq_cons_iff.1 hrest
  refine ⟨(items.flatMap fun item => item.1.map .code ++ d.render item.2) ++ item.1.map .code,
    (items''.flatMap fun item => item.1.map .code ++ d.render item.2) ++
      (ending (d.groupTerms p columns) (d.chainTerms p)).map .code, ?_, ?_⟩
  · rw [assemble_eq_weave, hweave]
    simp
  · rw [Sql.values_append, values_map_code, List.append_nil, values_flatMap_render]

end Dialect

/-! ### Layouts -/

/-- What a predicate shows of a term: its outline, and whether it asks for OR. -/
def Term.frame (t : Term) : Outline × Bool := (t.outline, t.isOr)

namespace Flavour

/-- The word that joins an outline to the ones before it. -/
def joint (item : Outline × Bool) : String := if item.2 then " OR " else " AND "

/-- The form of a predicate, given the outlines of its terms and whether each asks for OR. -/
def layout (f : Flavour) (group chain : List (Outline × Bool)) : List Fragment :=
  (weave joint group chain).flatMap
      (fun item => item.1.map .fixed ++ f.form item.2.1) ++
    (ending group chain).map .fixed

/-- The form of the predicate of some parameters. -/
def layoutOf (f : Flavour) (r : ReservedKeys) (p : Params) (columns : List String) :
    List Fragment :=
  f.layout (((f.dialect r).groupTerms p columns).map Term.frame)
    (((f.dialect r).chainTerms p).map Term.frame)

/-- What holds of the forms of all terms and of the fixed texts between them, and is kept by
concatenation, holds of a layout. -/
theorem layout_induction {P : List Fragment → Prop} (hnil : P [])
    (happend : ∀ form form', P form → P form' → P (form ++ form')) {f : Flavour}
    {group chain : List (Outline × Bool)} (hform : ∀ item ∈ group ++ chain, P (f.form item.1))
    (hfixed : ∀ text ∈ rowTexts, P [.fixed text]) : P (f.layout group chain) := by
  have htexts : ∀ texts : List String, (∀ text ∈ texts, text ∈ rowTexts) →
      P (texts.map .fixed) := by
    intro texts h
    induction texts with
    | nil => exact hnil
    | cons text texts ih =>
        exact happend [.fixed text] _ (hfixed text (h text (by simp)))
          (ih fun x hx => h x (List.mem_cons_of_mem _ hx))
  have hitems : ∀ items : List (List String × Outline × Bool),
      (∀ item ∈ items, (∀ text ∈ item.1, text ∈ rowTexts) ∧ P (f.form item.2.1)) →
        P (items.flatMap fun item => item.1.map .fixed ++ f.form item.2.1) := by
    intro items h
    induction items with
    | nil => exact hnil
    | cons item items ih =>
        obtain ⟨hlead, hitem⟩ := h item (by simp)
        rw [List.flatMap_cons]
        exact happend _ _ (happend _ _ (htexts _ hlead) hitem)
          (ih fun x hx => h x (List.mem_cons_of_mem _ hx))
  refine happend _ _ (hitems _ fun item hitem => ⟨mem_rowTexts_of_weave ?_ hitem, ?_⟩)
    (htexts _ mem_rowTexts_of_ending)
  · intro x
    unfold joint
    cases x.2 <;> simp [rowTexts]
  · refine hform item.2 ?_
    rw [← map_snd_weave joint group chain]
    exact List.mem_map_of_mem hitem

/-- Items that consist of something make a row that consists of it, with the fixed texts. -/
theorem consists_flatMap_render {f : Flavour} {r : ReservedKeys} (items : List (List String × Term))
    (h : ∀ item ∈ items, item.2.WellFormed f) :
    Sql.Consists (items.flatMap fun item => item.1.map .code ++ (f.dialect r).render item.2)
      (items.flatMap fun item => item.1.map .fixed ++ f.form item.2.outline)
      (items.map fun item => item.2.key) (items.flatMap fun item => item.2.binds) := by
  induction items with
  | nil => exact ⟨rfl, rfl, rfl⟩
  | cons item items ih =>
      have hitem := (Sql.consists_code item.1).append (consists_render (r := r) (h item (by simp)))
      have hitems := ih fun x hx => h x (List.mem_cons_of_mem _ hx)
      simpa using hitem.append hitems

/-- Well-formed parameters have well-formed terms in their predicate. -/
theorem wellFormed_of_mem_renderedTerms {f : Flavour} {r : ReservedKeys} {p : Params}
    (h : p.Forall (Term.WellFormed f)) (columns : List String) :
    ∀ t ∈ (f.dialect r).renderedTerms p columns, t.WellFormed f :=
  (f.dialect r).forall_mem_renderedTerms h (fun _ key ht => ht.rebind key) columns

/-- **A predicate consists of its layout, of the keys of its terms and of the values that they
bind.** -/
theorem consists_assemble {f : Flavour} {r : ReservedKeys} {p : Params}
    (h : p.Forall (Term.WellFormed f)) (columns : List String) :
    ((f.dialect r).assemble p columns).Consists
      (f.layoutOf r p columns) (((f.dialect r).renderedTerms p columns).map fun t => t.key)
      (((f.dialect r).renderedTerms p columns).flatMap Term.binds) := by
  have hwf := wellFormed_of_mem_renderedTerms (r := r) h columns
  obtain ⟨items, hitems⟩ : ∃ items, items = weave Dialect.joint
      ((f.dialect r).groupTerms p columns) ((f.dialect r).chainTerms p) := ⟨_, rfl⟩
  have hterms : (f.dialect r).renderedTerms p columns = items.map Prod.snd := by
    rw [hitems, map_snd_weave, Dialect.renderedTerms]
  -- weaving sees nothing of the terms but their joints, which their frames show as well
  have hlayout : weave joint (((f.dialect r).groupTerms p columns).map Term.frame)
      (((f.dialect r).chainTerms p).map Term.frame) = items.map (Prod.map id Term.frame) := by
    rw [hitems, weave_map]
    rfl
  rw [Dialect.assemble_eq_weave, layoutOf, layout, hlayout, ending_map, hterms, ← hitems]
  have hrow := consists_flatMap_render (r := r) items fun item hitem =>
    hwf _ (hterms ▸ List.mem_map_of_mem hitem)
  have hend := Sql.consists_code
    (ending ((f.dialect r).groupTerms p columns) ((f.dialect r).chainTerms p))
  simpa [List.flatMap_map, Function.comp_def, Term.frame] using hrow.append hend

/-- **The text of a predicate is its layout, filled with the quoted keys of its terms.** -/
theorem text_assemble_eq_fill {f : Flavour} {r : ReservedKeys} {p : Params}
    (h : p.Forall (Term.WellFormed f)) (columns : List String) :
    (f.dialect r).text ((f.dialect r).assemble p columns) =
      Sql.fill f.style.placeholder
        (((f.dialect r).renderedTerms p columns).map fun t => Text.quotedName f.quoteMark t.key) 0
        (f.layoutOf r p columns) := by
  have hconsists := consists_assemble (r := r) h columns
  rw [Dialect.text, Sql.textFrom_eq_fill, hconsists.columns, hconsists.fragments, List.map_map,
    quote_dialect, placeholder_dialect]
  rfl

end Flavour

end WhereClause

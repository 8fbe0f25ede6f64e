/-
**Readers that are blind to blanks.**

What a reader makes of a value must not depend on the blanks inside the value.  A reader is blind if
what it reads of one spelling is what it reads of every spelling, each to its end; it is sound if it
reads nothing but spellings.  Both pass from the readers of the parts to the reader of the whole: to
what is made of a value, to what stands behind a colon, to the loops over items and members, and to
a reader that picks one of several by the first byte.

Main definitions:

* `WhereClause.Json.ReadsAs` — every spelling of something is read as the same;
* `WhereClause.Json.Blind`, `WhereClause.Json.Sound` — the two laws of a reader;
* `WhereClause.Json.Indifferent` — what does not depend on what stands behind a value;
* `WhereClause.Json.loop` — the loop over the items of a list;
* `WhereClause.Json.Runs` — a state that becomes another one, item by item;
* `WhereClause.Json.dispatch` — a reader that picks another one by the first byte.

Main results:

* `WhereClause.Json.foldItems_eq_loop`, `WhereClause.Json.foldMembers_eq_loop` — the two loops of
  the reader are instances of one;
* `WhereClause.Json.readsAs_loop`, `WhereClause.Json.runs_of_loop` — **a loop reads a list exactly
  if its steps read the items**, one after another;
* `WhereClause.Json.sound_loop` — what a loop reads is a list;
* `WhereClause.Json.blind_dispatch`, `WhereClause.Json.sound_dispatch` — a reader that picks others
  keeps to their laws.
-/

import WhereClause.Proofs.DocumentTrees

set_option relaxedAutoImplicit false
set_option autoImplicit false

namespace WhereClause.Json

open Text Utf8

section Readers

variable {α β τ : Type} {read : List UInt8 → Except Fault (α × List UInt8)}
  {Spell : τ → List UInt8 → Prop} {x : τ} {a : α}

/-- Every spelling of something is read as the same. -/
def ReadsAs (read : List UInt8 → Except Fault (α × List UInt8)) (Spell : τ → List UInt8 → Prop)
    (x : τ) (a : α) : Prop :=
  ∀ ⦃s rest : List UInt8⦄, Spell x s → Follows rest → read (s ++ rest) = .ok (a, rest)

/-- A reader that reads of every spelling of something what it reads of one of them. -/
def Blind (read : List UInt8 → Except Fault (α × List UInt8)) (Spell : τ → List UInt8 → Prop) :
    Prop :=
  ∀ ⦃x : τ⦄ ⦃s rest : List UInt8⦄ ⦃a : α⦄ ⦃r : List UInt8⦄, Spell x s → Follows rest →
    read (s ++ rest) = .ok (a, r) → r = rest ∧ ReadsAs read Spell x a

/-- A reader that reads nothing but spellings. -/
def Sound (read : List UInt8 → Except Fault (α × List UInt8)) (Spell : τ → List UInt8 → Prop) :
    Prop :=
  ∀ ⦃bytes : List UInt8⦄ ⦃a : α⦄ ⦃r : List UInt8⦄, read bytes = .ok (a, r) →
    ∃ x s, Spell x s ∧ bytes = s ++ r

/-! ### What is made of a value -/

theorem ReadsAs.map (h : ReadsAs read Spell x a) (f : α → β) :
    ReadsAs (fun bytes => do
      let (a, rest) ← read bytes
      pure (f a, rest)) Spell x (f a) := by
  intro s rest hs hrest
  simp only [h hs hrest, ok_bind]
  rfl

/-- What is made of a value, or why it is refused, does not depend on what stands behind it. -/
def Indifferent (next : α × List UInt8 → Except Fault (β × List UInt8)) : Prop :=
  ∀ a, ∃ result : Except Fault β, ∀ rest, next (a, rest) = result.map fun b => (b, rest)

section Checks

variable {next : α × List UInt8 → Except Fault (β × List UInt8)}

theorem Blind.check (h : Blind read Spell) (hnext : Indifferent next) :
    Blind (fun bytes => read bytes >>= next) Spell := by
  intro x s rest b r hs hrest hbind
  obtain ⟨⟨a, r'⟩, hread, hb⟩ := bind_eq_ok_iff.1 hbind
  obtain ⟨rfl, hreads⟩ := h hs hrest hread
  obtain ⟨result, hresult⟩ := hnext a
  rw [hresult] at hb
  obtain ⟨b', rfl, hb'⟩ := map_eq_ok_iff.1 hb
  cases hb'
  refine ⟨rfl, ?_⟩
  intro s' rest' hs' hrest'
  simp only [hreads hs' hrest', ok_bind]
  exact hresult rest'

theorem Sound.check (h : Sound read Spell) (hnext : Indifferent next) :
    Sound (fun bytes => read bytes >>= next) Spell := by
  intro bytes b r hbind
  obtain ⟨⟨a, rest⟩, hread, hb⟩ := bind_eq_ok_iff.1 hbind
  obtain ⟨result, hresult⟩ := hnext a
  rw [hresult] at hb
  obtain ⟨b', -, hb'⟩ := map_eq_ok_iff.1 hb
  cases hb'
  exact h hread

end Checks

theorem Blind.map (h : Blind read Spell) (f : α → β) :
    Blind (fun bytes => do
      let (a, rest) ← read bytes
      pure (f a, rest)) Spell :=
  h.check fun a => ⟨.ok (f a), fun _ => rfl⟩

theorem Sound.map (h : Sound read Spell) (f : α → β) :
    Sound (fun bytes => do
      let (a, rest) ← read bytes
      pure (f a, rest)) Spell :=
  h.check fun a => ⟨.ok (f a), fun _ => rfl⟩

/-- What always reads the same is blind. -/
theorem Blind.of_readsAs (a : α) (h : ∀ x, ReadsAs read Spell x a) : Blind read Spell := by
  intro x s rest a' r hs hrest hread
  rw [h x hs hrest] at hread
  cases hread
  exact ⟨rfl, h x⟩

theorem blind_error (fault : Fault) :
    Blind (fun _ => (.error fault : Except Fault (α × List UInt8))) Spell := by
  intro x s rest a r _ _ hread
  cases hread

theorem sound_error (fault : Fault) :
    Sound (fun _ => (.error fault : Except Fault (α × List UInt8))) Spell := by
  intro bytes a r hread
  cases hread

theorem Blind.congr {read' : List UInt8 → Except Fault (α × List UInt8)} (h : Blind read' Spell)
    (hread : ∀ bytes x, read bytes = .ok x ↔ read' bytes = .ok x) : Blind read Spell := by
  intro x s rest a r hs hrest hok
  obtain ⟨rfl, hreads⟩ := h hs hrest ((hread _ _).1 hok)
  exact ⟨rfl, fun _ _ hs' hrest' => (hread _ _).2 (hreads hs' hrest')⟩

theorem Sound.congr {read' : List UInt8 → Except Fault (α × List UInt8)} (h : Sound read' Spell)
    (hread : ∀ bytes x, read bytes = .ok x ↔ read' bytes = .ok x) : Sound read Spell :=
  fun _ _ _ hok => h ((hread _ _).1 hok)

/-! ### Spellings behind blanks and colons -/

theorem ReadsAs.of_padded (h : ReadsAs read (Padded Spell) x a) : ReadsAs read Spell x a :=
  fun _ _ hs hrest => h (.of_spell hs) hrest

theorem Blind.of_padded (h : Blind read (Padded Spell)) : Blind read Spell := by
  intro x s rest a r hs hrest hread
  obtain ⟨rfl, hreads⟩ := h (.of_spell hs) hrest hread
  exact ⟨rfl, hreads.of_padded⟩

theorem readColon_append {w : List UInt8} (hw : Blank w) (rest : List UInt8) :
    readColon (w ++ byte ':' :: rest) = .ok rest := by
  have hcolon : isSpace (byte ':') = false := by decide
  rw [readColon, skipSpace_append hw, skipSpace_of_not_isSpace hcolon]
  rfl

theorem exists_readColon {bytes rest : List UInt8} (h : readColon bytes = .ok rest) :
    ∃ w, Blank w ∧ bytes = w ++ byte ':' :: rest := by
  obtain ⟨w, hw, hbytes⟩ := exists_blank bytes
  rw [readColon] at h
  split at h
  next => cases h
  next b rest' hskip =>
    split at h
    next hb =>
      cases h
      rw [hskip, hb] at hbytes
      exact ⟨w, hw, hbytes⟩
    next => cases h

theorem ReadsAs.colon (h : ReadsAs read (Padded Spell) x a) :
    ReadsAs (fun bytes => do
      let rest ← readColon bytes
      read rest) (ColonSpelled Spell) x a := by
  intro s rest hs hrest
  cases hs with
  | intro hw hx =>
      simp only [List.append_assoc, List.cons_append, readColon_append hw, ok_bind]
      exact h hx hrest

theorem Blind.colon (h : Blind read (Padded Spell)) :
    Blind (fun bytes => do
      let rest ← readColon bytes
      read rest) (ColonSpelled Spell) := by
  intro x s rest a r hs hrest hread
  cases hs with
  | intro hw hx =>
      simp only [List.append_assoc, List.cons_append, readColon_append hw, ok_bind] at hread
      obtain ⟨rfl, hreads⟩ := h hx hrest hread
      exact ⟨rfl, hreads.colon⟩

theorem Sound.colon (h : Sound read (Padded Spell)) :
    Sound (fun bytes => do
      let rest ← readColon bytes
      read rest) (ColonSpelled Spell) := by
  intro bytes a r hbind
  obtain ⟨rest, hcolon, hread⟩ := bind_eq_ok_iff.1 hbind
  obtain ⟨w, hw, rfl⟩ := exists_readColon hcolon
  obtain ⟨x, s, hs, rfl⟩ := h hread
  exact ⟨x, _, .intro hw hs, by simp⟩

end Readers

/-! ### Loops -/

section Loops

variable {σ κ τ : Type} {closing : UInt8} {step : σ → List UInt8 → Except Fault (σ × List UInt8)}
  {Spell : τ → List UInt8 → Prop} {state next last : σ} {xs : List τ} {s rest r : List UInt8}
  {first : Bool} {rounds : Nat}

/-- The items of a list behind its opening byte, or behind an item if `first` is false, each given
to `step` with what has been gathered so far. -/
def foldListed (closing : UInt8) (step : σ → List UInt8 → Except Fault (σ × List UInt8)) :
    Nat → Bool → σ → List UInt8 → Except Fault (σ × List UInt8)
  | 0, _, _, _ => .error .truncated
  | rounds + 1, first, state, bytes =>
      let item := fun (bytes : List UInt8) => do
        let (next, rest) ← step state bytes
        foldListed closing step rounds false next rest
      match skipSpace bytes with
      | [] => .error .truncated
      | b :: rest =>
          if b = closing then .ok (state, rest)
          else if first then item (b :: rest)
          else if b = byte ',' then
            match skipSpace rest with
            | [] => .error .truncated
            | c :: rest' => if c = closing then .error .malformed else item (c :: rest')
          else .error .malformed

/-- The loop over a whole list. -/
def loop (closing : UInt8) (step : σ → List UInt8 → Except Fault (σ × List UInt8)) (state : σ)
    (bytes : List UInt8) : Except Fault (σ × List UInt8) :=
  foldListed closing step (bytes.length + 1) true state bytes

/-- What comes behind an item, step by step. -/
theorem bind_step_eq {f g : σ → List UInt8 → Except Fault (σ × List UInt8)}
    (h : ∀ state bytes, f state bytes = g state bytes) (outcome : Except Fault (σ × List UInt8)) :
    (do
      let (next, rest) ← outcome
      f next rest) = match outcome with
        | .error fault => .error fault
        | .ok (next, rest) => g next rest := by
  cases outcome with
  | error fault => rfl
  | ok next => exact h next.1 next.2

theorem foldListed_eq_foldItems (rounds : Nat) (first : Bool) (state : σ) (bytes : List UInt8) :
    foldListed (byte ']') step rounds first state bytes =
      foldItems step rounds first state bytes := by
  induction rounds generalizing first state bytes with
  | zero => rfl
  | succ rounds ih =>
      rw [foldListed]
      simp only [bind_step_eq (ih false)]
      rfl

/-- What comes behind a member, step by step. -/
theorem bind_memberStep_eq {name : List UInt8 → Except Fault (κ × List UInt8)}
    {step : σ → κ → List UInt8 → Except Fault (σ × List UInt8)}
    {f g : σ → List UInt8 → Except Fault (σ × List UInt8)}
    (h : ∀ state bytes, f state bytes = g state bytes) (b : UInt8) (rest : List UInt8) :
    (do
      let (next, rest) ← memberStep name step state (b :: rest)
      f next rest) =
      if b = byte '"' then
        match name rest with
        | .error fault => .error fault
        | .ok (k, rest) =>
            match step state k rest with
            | .error fault => .error fault
            | .ok (next, rest) => g next rest
      else .error .malformed := by
  by_cases hb : b = byte '"'
  · simp only [memberStep, hb, if_true]
    cases name rest with
    | error fault => rfl
    | ok named => exact bind_step_eq h (step state named.1 named.2)
  · simp only [memberStep, hb, if_false]
    rfl

theorem foldListed_eq_foldMembers {name : List UInt8 → Except Fault (κ × List UInt8)}
    {step : σ → κ → List UInt8 → Except Fault (σ × List UInt8)} (rounds : Nat) (first : Bool)
    (state : σ) (bytes : List UInt8) :
    foldListed (byte '\x7d') (memberStep name step) rounds first state bytes =
      foldMembers name step rounds first state bytes := by
  induction rounds generalizing first state bytes with
  | zero => rfl
  | succ rounds ih =>
      -- what closes the object is no quotation mark, so no test is needed for it
      have hclosing : ∀ (c : UInt8) (r : Except Fault (σ × List UInt8)),
          (if c = byte '\x7d' then .error .malformed
            else if c = byte '"' then r else .error .malformed) =
            if c = byte '"' then r else .error .malformed := by
        intro c r
        by_cases hc : c = byte '\x7d'
        · have hquote : c ≠ byte '"' := by
            rw [hc]
            decide
          rw [if_pos hc, if_neg hquote]
        · rw [if_neg hc]
      rw [foldListed]
      simp only [bind_memberStep_eq (ih false), hclosing]
      rfl

/-- The items of an array are read by the loop over a list. -/
theorem foldItems_eq_loop (state : σ) (bytes : List UInt8) :
    foldItems step (bytes.length + 1) true state bytes = loop (byte ']') step state bytes :=
  (foldListed_eq_foldItems _ _ _ _).symm

/-- So are the members of an object. -/
theorem foldMembers_eq_loop {name : List UInt8 → Except Fault (κ × List UInt8)}
    {step : σ → κ → List UInt8 → Except Fault (σ × List UInt8)} (state : σ) (bytes : List UInt8) :
    foldMembers name step (bytes.length + 1) true state bytes =
      loop (byte '\x7d') (memberStep name step) state bytes :=
  (foldListed_eq_foldMembers _ _ _ _).symm

/-- A state that becomes another one, item by item. -/
inductive Runs (step : σ → List UInt8 → Except Fault (σ × List UInt8))
    (Spell : τ → List UInt8 → Prop) : σ → List τ → σ → Prop
  | nil {state : σ} : Runs step Spell state [] state
  | cons {state next last : σ} {x : τ} {xs : List τ} : ReadsAs (step state) Spell x next →
      Runs step Spell next xs last → Runs step Spell state (x :: xs) last

section Closing

variable (hclosing : closing = byte ']' ∨ closing = byte '\x7d')

include hclosing

theorem foldListed_nil {w : List UInt8} (hw : Blank w) :
    foldListed closing step (rounds + 1) first state (w ++ closing :: rest) =
      .ok (state, rest) := by
  have hspace : isSpace closing = false := by
    rcases hclosing with rfl | rfl <;> decide
  rw [foldListed, skipSpace_append hw, skipSpace_of_not_isSpace hspace]
  simp only [if_true]

/-- One round of the loop: the step, and the rounds behind it. -/
theorem foldListed_cons {w w' : List UInt8} (hw : Blank w) (hw' : Blank w') (hs : Leads s) :
    foldListed closing step (rounds + 1) first state (w ++ (separator first ++ (w' ++ s))) = (do
      let (next, rest) ← step state s
      foldListed closing step rounds false next rest) := by
  obtain ⟨b, s, rfl, hb⟩ := hs
  have hspace := Kind.isSpace_of_isSome hb
  have hclose : b ≠ closing := by
    rcases hclosing with rfl | rfl <;> exact Kind.ne_of_isSome hb (by decide)
  cases first with
  | true =>
      rw [foldListed, skipSpace_append hw]
      simp only [separator, if_true, List.nil_append, skipSpace_append hw',
        skipSpace_of_not_isSpace hspace, hclose, if_false]
  | false =>
      have hcomma : isSpace (byte ',') = false := by decide
      have hne : byte ',' ≠ closing := by
        rcases hclosing with rfl | rfl <;> decide
      rw [foldListed, skipSpace_append hw]
      simp only [separator, Bool.false_eq_true, if_false, List.cons_append, List.nil_append,
        skipSpace_of_not_isSpace hcomma, hne, if_true, skipSpace_append hw',
        skipSpace_of_not_isSpace hspace, hclose]

omit hclosing in
/-- A round of the loop is the end of the list or a step. -/
theorem exists_of_foldListed {bytes : List UInt8}
    (h : foldListed closing step (rounds + 1) first state bytes = .ok (last, r)) :
    (∃ w, Blank w ∧ bytes = w ++ closing :: r ∧ last = state) ∨
      ∃ w w' s next rest, Blank w ∧ Blank w' ∧ bytes = w ++ (separator first ++ (w' ++ s)) ∧
        step state s = .ok (next, rest) ∧
        foldListed closing step rounds false next rest = .ok (last, r) := by
  obtain ⟨w, hw, hbytes⟩ := exists_blank bytes
  rw [foldListed] at h
  split at h
  next => cases h
  next b rest hskip =>
    rw [hskip] at hbytes
    split at h
    next hb =>
      cases h
      exact .inl ⟨w, hw, by rw [hbytes, hb], rfl⟩
    next =>
      split at h
      next hfirst =>
        obtain ⟨⟨next, rest'⟩, hstep, hfold⟩ := bind_eq_ok_iff.1 h
        refine .inr ⟨w, [], b :: rest, next, rest', hw, blank_nil, ?_, hstep, hfold⟩
        rw [hbytes, hfirst]
        rfl
      next hfirst =>
        split at h
        next hb =>
          obtain ⟨w', hw', hrest⟩ := exists_blank rest
          split at h
          next => cases h
          next c rest' hskip' =>
            rw [hskip'] at hrest
            split at h
            next => cases h
            next =>
              obtain ⟨⟨next, rest''⟩, hstep, hfold⟩ := bind_eq_ok_iff.1 h
              refine .inr ⟨w, w', c :: rest', next, rest'', hw, hw', ?_, hstep, hfold⟩
              rw [hbytes, hb, hrest, separator, if_neg hfirst]
              rfl
        next => cases h

/-- All the rounds of the loop: the steps, one after another. -/
theorem foldListed_of_runs (hleads : ∀ x s, Spell x s → Leads s)
    (hruns : Runs step Spell state xs last) (hlisted : Listed Spell closing first xs s)
    (hrounds : xs.length < rounds) :
    foldListed closing step rounds first state (s ++ rest) = .ok (last, rest) := by
  induction hruns generalizing rounds first s with
  | nil =>
      cases rounds with
      | zero => cases hrounds
      | succ rounds =>
          cases hlisted with
          | nil hw =>
              rw [List.append_assoc]
              exact foldListed_nil hclosing hw
  | cons hreads _ ih =>
      cases rounds with
      | zero => cases hrounds
      | succ rounds =>
          cases hlisted with
          | cons hw hw' hx hxs =>
              have hread := hreads hx (follows_of_listed hclosing hxs rest)
              simp only [List.append_assoc]
              rw [foldListed_cons hclosing hw hw' ((hleads _ _ hx).append _), hread, ok_bind]
              exact ih hxs (Nat.lt_of_succ_lt_succ hrounds)

/-- What the loop reads of a list is what its steps read of every spelling of the items. -/
theorem runs_of_foldListed (hleads : ∀ x s, Spell x s → Leads s)
    (hstep : ∀ state, Blind (step state) Spell) (hlisted : Listed Spell closing first xs s)
    (h : foldListed closing step rounds first state (s ++ rest) = .ok (last, r)) :
    r = rest ∧ Runs step Spell state xs last := by
  induction hlisted generalizing rounds state with
  | nil hw =>
      cases rounds with
      | zero => cases h
      | succ rounds =>
          rw [List.append_assoc, List.singleton_append, foldListed_nil hclosing hw] at h
          cases h
          exact ⟨rfl, .nil⟩
  | cons hw hw' hx hxs ih =>
      cases rounds with
      | zero => cases h
      | succ rounds =>
          simp only [List.append_assoc] at h
          rw [foldListed_cons hclosing hw hw' ((hleads _ _ hx).append _)] at h
          obtain ⟨⟨next, rest'⟩, hread, hfold⟩ := bind_eq_ok_iff.1 h
          obtain ⟨rfl, hreads⟩ := hstep state hx (follows_of_listed hclosing hxs rest) hread
          obtain ⟨rfl, hruns⟩ := ih hfold
          exact ⟨rfl, .cons hreads hruns⟩

omit hclosing in
/-- What the loop reads is a list of what its steps read. -/
theorem exists_listed (hstep : ∀ state, Sound (step state) (Padded Spell)) {bytes : List UInt8}
    (h : foldListed closing step rounds first state bytes = .ok (last, r)) :
    ∃ xs s, Listed Spell closing first xs s ∧ bytes = s ++ r := by
  induction rounds generalizing first state bytes with
  | zero => cases h
  | succ rounds ih =>
      rcases exists_of_foldListed h with ⟨w, hw, rfl, -⟩ | ⟨w, w', s, next, rest, hw, hw', rfl,
        hread, hfold⟩
      · exact ⟨[], _, .nil hw, by simp⟩
      · obtain ⟨x, s, hs, rfl⟩ := hstep state hread
        obtain ⟨xs, s', hxs, rfl⟩ := ih hfold
        cases hs with
        | intro hw'' hx =>
            -- the blanks before the item are those of the loop and those of the step
            exact ⟨x :: xs, _, .cons hw (hw'.append hw'') hx hxs, by simp⟩

/-! A whole list. -/

/-- **A loop reads a list** if its steps read the items, one after another. -/
theorem readsAs_loop (hleads : ∀ x s, Spell x s → Leads s) (hruns : Runs step Spell state xs last) :
    ReadsAs (loop closing step state) (Listed Spell closing true) xs last := by
  intro s rest hlisted _
  have hlength := hlisted.length_lt hleads
  refine foldListed_of_runs hclosing hleads hruns hlisted ?_
  rw [List.length_append]
  omega

/-- **And only then**, if its steps are blind. -/
theorem runs_of_loop (hleads : ∀ x s, Spell x s → Leads s)
    (hstep : ∀ state, Blind (step state) Spell) (hlisted : Listed Spell closing true xs s)
    (h : loop closing step state (s ++ rest) = .ok (last, r)) :
    r = rest ∧ Runs step Spell state xs last :=
  runs_of_foldListed hclosing hleads hstep hlisted h

theorem blind_loop (hleads : ∀ x s, Spell x s → Leads s)
    (hstep : ∀ state, Blind (step state) Spell) :
    Blind (loop closing step state) (Listed Spell closing true) := by
  intro xs s rest last r hlisted _ h
  obtain ⟨rfl, hruns⟩ := runs_of_loop hclosing hleads hstep hlisted h
  exact ⟨rfl, readsAs_loop hclosing hleads hruns⟩

omit hclosing in
theorem sound_loop (hstep : ∀ state, Sound (step state) (Padded Spell)) :
    Sound (loop closing step state) (Listed Spell closing true) := fun _ _ _ h =>
  exists_listed hstep h

end Closing

end Loops

/-! ### Members -/

section Members

variable {σ κ τ : Type} {name : List UInt8 → Except Fault (κ × List UInt8)}
  {step : σ → κ → List UInt8 → Except Fault (σ × List UInt8)} {Spell : τ → List UInt8 → Prop}
  {state next : σ} {k : κ} {n : List UInt8} {x : τ}

theorem ReadsAs.member (hname : Content n → ∀ rest, name (n ++ byte '"' :: rest) = .ok (k, rest))
    (h : ReadsAs (step state k) (ColonSpelled Spell) x next) :
    ReadsAs (memberStep name step state) (MemberSpelled Spell) (n, x) next := by
  intro s rest hs hrest
  cases hs with
  | intro hn hx =>
      simp only [List.cons_append, List.append_assoc]
      exact memberStep_eq_ok_iff.2 ⟨rfl, k, _, hname hn _, h hx hrest⟩

/-- A member is read blindly if its value is. -/
theorem Blind.member {step : σ → String → List UInt8 → Except Fault (σ × List UInt8)}
    (h : ∀ k, Blind (step state k) (ColonSpelled Spell)) :
    Blind (memberStep readString step state) (MemberSpelled Spell) := by
  intro m s rest next r hs hrest hread
  cases hs with
  | intro hn hx =>
      simp only [List.cons_append, List.append_assoc] at hread
      obtain ⟨-, k, after, hname, hstep⟩ := memberStep_eq_ok_iff.1 hread
      obtain ⟨rfl, hother⟩ := readString_of_content hn hname
      obtain ⟨rfl, hreads⟩ := h k hx hrest hstep
      exact ⟨rfl, hreads.member fun _ => hother⟩

theorem Sound.member
    (hname : ∀ {bytes k r}, name bytes = .ok (k, r) → skipString bytes = .ok r)
    (h : ∀ k, Sound (step state k) (ColonSpelled Spell)) :
    Sound (memberStep name step state) (MemberSpelled Spell) := by
  intro bytes next r hread
  cases bytes with
  | nil => cases hread
  | cons b bytes =>
      obtain ⟨rfl, k, after, hk, hstep⟩ := memberStep_eq_ok_iff.1 hread
      obtain ⟨n, hn, rfl⟩ := exists_content (hname hk)
      obtain ⟨x, s, hs, rfl⟩ := h k hstep
      exact ⟨(n, x), _, .intro hn hs, by simp⟩

theorem Sound.padded {α : Type} {read : List UInt8 → Except Fault (α × List UInt8)}
    (h : Sound read Spell) : Sound read (Padded Spell) := by
  intro bytes a r hread
  obtain ⟨x, s, hs, rfl⟩ := h hread
  exact ⟨x, s, .of_spell hs, rfl⟩

end Members

/-! ### First bytes -/

section Dispatch

variable {α : Type} {arm : Kind → List UInt8 → Except Fault (α × List UInt8)} {kind : Kind}
  {t : Tree} {w s rest : List UInt8} {Spell : Tree → List UInt8 → Prop} {a : α}

/-- A reader that picks another one by the first byte that is no blank. -/
def dispatch (arm : Kind → List UInt8 → Except Fault (α × List UInt8)) (bytes : List UInt8) :
    Except Fault (α × List UInt8) :=
  match skipSpace bytes with
  | [] => .error .truncated
  | b :: rest =>
      match Kind.ofByte? b with
      | none => .error .malformed
      | some kind => arm kind ((b :: rest).drop kind.lead.length)

theorem dispatch_append (hw : Blank w) (h : Behind Spell kind t s) (rest : List UInt8) :
    dispatch arm (w ++ (kind.lead ++ (s ++ rest))) = arm kind (s ++ rest) := by
  obtain ⟨b, bytes, hbytes, hb⟩ := h.exists_cons rest
  have hsome : (Kind.ofByte? b).isSome = true := by
    rw [hb]
    rfl
  have hspace := Kind.isSpace_of_isSome hsome
  have hdrop : (b :: bytes).drop kind.lead.length = s ++ rest := by
    rw [← hbytes, List.drop_left]
  rw [dispatch, skipSpace_append hw, hbytes, skipSpace_of_not_isSpace hspace]
  simp only [hb, hdrop]

theorem exists_of_dispatch {bytes r : List UInt8} (h : dispatch arm bytes = .ok (a, r)) :
    ∃ w kind body, Blank w ∧ bytes = w ++ (kind.lead ++ body) ∧ arm kind body = .ok (a, r) := by
  obtain ⟨w, hw, hbytes⟩ := exists_blank bytes
  rw [dispatch] at h
  split at h
  next => cases h
  next b rest hskip =>
    split at h
    next => cases h
    next kind hkind =>
      exact ⟨w, kind, _, hw, by rw [Kind.lead_append_drop hkind, ← hskip, ← hbytes], h⟩

/-- **A reader that picks blind readers is blind.** -/
theorem blind_dispatch (h : ∀ kind, Blind (arm kind) (Behind Spelled kind)) :
    Blind (dispatch arm) (Padded Spelled) := by
  intro t s rest a r hs hrest hread
  obtain ⟨hw, hspelled⟩ := hs
  obtain ⟨hbehind⟩ := hspelled
  rw [List.append_assoc, List.append_assoc, dispatch_append hw hbehind] at hread
  obtain ⟨rfl, hreads⟩ := h _ hbehind hrest hread
  refine ⟨rfl, ?_⟩
  intro s' rest' hs' hrest'
  obtain ⟨hw', hspelled'⟩ := hs'
  obtain ⟨hbehind'⟩ := hspelled'
  -- the tree has one kind, so the same reader is picked
  cases hbehind.kind_eq hbehind'
  rw [List.append_assoc, List.append_assoc, dispatch_append hw' hbehind', hreads hbehind' hrest']

/-- **A reader that picks sound readers is sound.** -/
theorem sound_dispatch (h : ∀ kind, Sound (arm kind) (Behind Spelled kind)) :
    Sound (dispatch arm) (Padded Spelled) := by
  intro bytes a r hread
  obtain ⟨w, kind, body, hw, rfl, harm⟩ := exists_of_dispatch hread
  obtain ⟨t, s, hs, rfl⟩ := h kind harm
  exact ⟨t, _, .intro hw (.intro hs), by simp⟩

/-- A reader of values of one kind only. -/
def onlyArm (kind : Kind) (read : List UInt8 → Except Fault (α × List UInt8)) (kind' : Kind) :
    List UInt8 → Except Fault (α × List UInt8) :=
  if kind' = kind then read else fun _ => .error .unexpected

/-- A reader of values of one kind reads what one does that picks its reader by the first byte; only
what it says of other values is its own. -/
theorem eq_ok_iff_dispatch {c : UInt8} (hlead : kind.lead = [c])
    {read inner : List UInt8 → Except Fault (α × List UInt8)}
    (hread : ∀ bytes, read bytes = match skipSpace bytes with
      | [] => .error .truncated
      | b :: rest => if b = c then inner rest else .error (mismatch b rest))
    (bytes : List UInt8) (x : α × List UInt8) :
    read bytes = .ok x ↔ dispatch (onlyArm kind inner) bytes = .ok x := by
  rw [hread, dispatch]
  cases skipSpace bytes with
  | nil => exact Iff.rfl
  | cons b rest =>
      by_cases hb : b = c
      · simp only [hb, if_true, Kind.ofByte?_of_lead hlead, hlead, onlyArm]
        exact Iff.rfl
      · simp only [hb, if_false]
        constructor
        · intro h
          cases h
        · intro h
          split at h
          next => cases h
          next kind' hkind' =>
            by_cases hkind : kind' = kind
            · have hbytes := Kind.lead_append_drop hkind' rest
              rw [hkind, hlead] at hbytes
              exact absurd (List.cons.inj hbytes).1.symm hb
            · rw [onlyArm, if_neg hkind] at h
              cases h

end Dispatch

end WhereClause.Json

import Mathlib
import ExprCheck.Proofs.Openers
import ExprCheck.Proofs.Redeclarations

/-!
# Scope numbers follow the text

The walk numbers scopes as it enters them. This module shows what the numbers and the names of the
scopes are in terms of the text alone: the function literals and loops that are not in the value of
a refused declaration get the numbers 0, 1, 2 and so on, each sort on its own, and in the scope of
each there are the names that its text binds directly.

The invariant is `Populates`. It says how the counters and the symbol table change while some
openers are entered and left again. Taking up one part after the other composes it, and
`populates_run` shows it for every part, by induction along the parts. The same induction, in
`openerOf_iff`, finds the point of the walk at which the scope of an opener is entered.
-/

namespace ExprCheck

/-! ## Numbering -/

/-- The item with a number, where the items of a list are numbered from `n` on. -/
def itemFrom {α : Type} (n : Nat) (items : List α) (k : Nat) : Option α :=
  if n ≤ k then items[k - n]? else none

@[simp] theorem itemFrom_nil {α : Type} (n k : Nat) : itemFrom n ([] : List α) k = none := by
  simp [itemFrom]

theorem itemFrom_append {α : Type} {n : Nat} {xs ys : List α} {k : Nat} {a : α} :
    itemFrom n (xs ++ ys) k = some a ↔
      itemFrom n xs k = some a ∨ itemFrom (n + xs.length) ys k = some a := by
  unfold itemFrom
  by_cases hn : n ≤ k
  · by_cases hlt : k - n < xs.length
    · have hle : ¬ n + xs.length ≤ k := by omega
      rw [if_pos hn, if_pos hn, if_neg hle, List.getElem?_append_left hlt]
      simp
    · have hle : n + xs.length ≤ k := by omega
      have hnone : xs[k - n]? = none := List.getElem?_eq_none (by omega)
      rw [if_pos hn, if_pos hn, if_pos hle, List.getElem?_append_right (by omega), hnone,
        Nat.sub_sub]
      simp
  · have hle : ¬ n + xs.length ≤ k := by omega
    rw [if_neg hn, if_neg hn, if_neg hle]
    simp

theorem itemFrom_singleton {α : Type} {n k : Nat} {a b : α} :
    itemFrom n [a] k = some b ↔ k = n ∧ b = a := by
  unfold itemFrom
  by_cases hn : n ≤ k
  · rw [if_pos hn, List.getElem?_singleton]
    by_cases hk : k - n = 0
    · have heq : k = n := by omega
      rw [if_pos hk]
      simp [heq, eq_comm]
    · have hne : ¬ k = n := by omega
      rw [if_neg hk]
      simp [hne]
  · have hne : ¬ k = n := by omega
    rw [if_neg hn]
    simp [hne]

/-- The opener of a scope, where the given openers are numbered: functions from `f` on, and loops
from `l` on. -/
def openerOf (f l : Nat) (os : List Part) : Scope → Option Part
  | .main => none
  | .function k => itemFrom f (os.filter Part.isFunction) k
  | .loop k => itemFrom l (os.filter Part.isLoop) k

@[simp] theorem openerOf_nil (f l : Nat) (scope : Scope) : openerOf f l [] scope = none := by
  cases scope <;> simp [openerOf]

theorem openerOf_append {f l : Nat} {os os' : List Part} {scope : Scope} {o : Part} :
    openerOf f l (os ++ os') scope = some o ↔ openerOf f l os scope = some o ∨
      openerOf (f + (os.filter Part.isFunction).length) (l + (os.filter Part.isLoop).length) os'
        scope = some o := by
  cases scope with
  | main => simp [openerOf]
  | function k =>
    rw [openerOf, List.filter_append]
    exact itemFrom_append
  | loop k =>
    rw [openerOf, List.filter_append]
    exact itemFrom_append

/-- Openers that are still to come get new scopes. -/
theorem openerOf_of_allocated {s : ScopeStack} {scope : Scope} (h : s.Allocated scope)
    (os : List Part) : openerOf s.nextFunction s.nextLoop os scope = none := by
  cases scope with
  | main => rfl
  | function k => exact if_neg (Nat.not_le.mpr h)
  | loop k => exact if_neg (Nat.not_le.mpr h)

namespace Checker

/-! ## What openers leave behind -/

/-- The scopes and the names are the same. -/
structure SameNames (c d : Checker) : Prop where
  scopes : d.scopes = c.scopes
  symbols : d.symbols = c.symbols

/-- Between the two states the given openers were entered one after the other, and the given names
were bound in the innermost scope. -/
structure Populates (os : List Part) (names : List String) (c d : Checker) : Prop where
  nextFunction :
    d.scopes.nextFunction = c.scopes.nextFunction + (os.filter Part.isFunction).length
  nextLoop : d.scopes.nextLoop = c.scopes.nextLoop + (os.filter Part.isLoop).length
  symbols : ∀ slot, d.symbols.contains slot = true ↔ c.symbols.contains slot = true ∨
    (slot.scope = c.scopes.current ∧ slot.name ∈ names) ∨
    ∃ o, openerOf c.scopes.nextFunction c.scopes.nextLoop os slot.scope = some o ∧
      slot.name ∈ o.binds

theorem SameNames.populates {c d : Checker} (h : SameNames c d) : Populates [] [] c d where
  nextFunction := by simp [h.scopes]
  nextLoop := by simp [h.scopes]
  symbols := by simp [h.symbols]

theorem Populates.congr {os : List Part} {names : List String} {c d e : Checker}
    (h : Populates os names c d) (hsame : SameNames d e) : Populates os names c e where
  nextFunction := by rw [hsame.scopes, h.nextFunction]
  nextLoop := by rw [hsame.scopes, h.nextLoop]
  symbols := by
    rw [hsame.symbols]
    exact h.symbols

theorem Populates.trans {os os' : List Part} {names names' : List String} {c d e : Checker}
    (h : Populates os names c d) (hcurrent : d.scopes.current = c.scopes.current)
    (h' : Populates os' names' d e) : Populates (os ++ os') (names ++ names') c e where
  nextFunction := by
    rw [h'.nextFunction, h.nextFunction, List.filter_append, List.length_append, Nat.add_assoc]
  nextLoop := by
    rw [h'.nextLoop, h.nextLoop, List.filter_append, List.length_append, Nat.add_assoc]
  symbols := by
    intro slot
    rw [h'.symbols, h.symbols, hcurrent, h.nextFunction, h.nextLoop]
    simp only [openerOf_append, List.mem_append]
    constructor
    · rintro ((hc | ⟨hs, hx⟩ | ⟨o, ho, hx⟩) | ⟨hs, hx⟩ | ⟨o, ho, hx⟩)
      · exact Or.inl hc
      · exact Or.inr (Or.inl ⟨hs, Or.inl hx⟩)
      · exact Or.inr (Or.inr ⟨o, Or.inl ho, hx⟩)
      · exact Or.inr (Or.inl ⟨hs, Or.inr hx⟩)
      · exact Or.inr (Or.inr ⟨o, Or.inr ho, hx⟩)
    · rintro (hc | ⟨hs, hx | hx⟩ | ⟨o, ho | ho, hx⟩)
      · exact Or.inl (Or.inl hc)
      · exact Or.inl (Or.inr (Or.inl ⟨hs, hx⟩))
      · exact Or.inr (Or.inl ⟨hs, hx⟩)
      · exact Or.inl (Or.inr (Or.inr ⟨o, ho, hx⟩))
      · exact Or.inr (Or.inr ⟨o, ho, hx⟩)

/-- The names of the innermost scope are known afterwards as well. -/
theorem Populates.knows {os : List Part} {names bound : List String} {c d : Checker}
    (h : Populates os names c d) (hc : c.Valid) (hkept : Kept c d) (hknows : Knows c bound) :
    Knows d (bound ++ names) := by
  intro x
  rw [hkept.slot, h.symbols, hknows x, List.mem_append]
  have hnone := openerOf_of_allocated hc.current_allocated os
  simp [slot, hnone]

/-! ## Steps that bind names or none -/

theorem sameNames_settle (span : Span) (v : Verdict) (c : Checker) :
    SameNames c (after (settle span v) c) := by
  cases v <;> exact ⟨rfl, rfl⟩

theorem sameNames_compareTypes (span : Span) (fault : Ty → Ty → TypeFault) (a b : Option Ty)
    (c : Checker) : SameNames c (after (compareTypes span fault a b) c) := by
  cases a with
  | none => exact ⟨rfl, rfl⟩
  | some a =>
    cases b with
    | none => exact ⟨rfl, rfl⟩
    | some b =>
      simp only [compareTypes]
      split <;> exact ⟨rfl, rfl⟩

theorem sameNames_inferVar (span : Span) (x : String) (c : Checker) :
    SameNames c (after (inferVar span x) c) := by
  unfold inferVar
  rw [after_get]
  split <;> exact ⟨rfl, rfl⟩

theorem sameNames_recordTuple (fields : List (String × Option Ty)) (c : Checker) :
    SameNames c (after (recordTuple fields) c) := by
  unfold recordTuple
  split
  · exact ⟨rfl, rfl⟩
  · rw [after_get]
    split <;> exact ⟨rfl, rfl⟩

theorem sameNames_strayReturn (span : Span) (c : Checker) :
    SameNames c
      (after (do if (← get).depth = 0 then report span .strayReturn : CheckM Unit) c) := by
  rw [after_get]
  split <;> exact ⟨rfl, rfl⟩

theorem sameNames_judge (e : Expr) (types : List (Option Ty)) (c : Checker) :
    SameNames c (after (judge e types) c) := by
  unfold judge
  split
  all_goals first
    | exact sameNames_settle _ _ _
    | exact sameNames_recordTuple _ _
    | exact ⟨rfl, rfl⟩

theorem eq_slot_iff {c : Checker} {slot : Slot} {x : String} :
    slot = c.slot x ↔ slot.scope = c.scopes.current ∧ slot.name = x := by
  obtain ⟨scope, name⟩ := slot
  simp [Checker.slot]

theorem contains_define (span : Span) (x : String) (symbol : Symbol) (c : Checker) (slot : Slot) :
    (after (define span x symbol) c).symbols.contains slot = true ↔
      c.symbols.contains slot = true ∨ slot = c.slot x := by
  cases h : c.symbols.contains (c.slot x) with
  | true =>
    rw [after_define_taken c span symbol h, after_report]
    constructor
    · exact Or.inl
    · rintro (hslot | rfl)
      · exact hslot
      · exact h
  | false =>
    obtain ⟨t, ht, hget⟩ := after_define_free c span symbol h
    rw [ht, SymbolTable.contains, hget]
    by_cases hslot : slot = c.slot x
    · simp [hslot]
    · simp [hslot, SymbolTable.contains]

theorem populates_define (span : Span) (x : String) (symbol : Symbol) (c : Checker) :
    Populates [] [x] c (after (define span x symbol) c) := by
  have hscopes : (after (define span x symbol) c).scopes = c.scopes := by
    cases h : c.symbols.contains (c.slot x) with
    | true => rw [after_define_taken c span symbol h, after_report]
    | false =>
      obtain ⟨t, ht, -⟩ := after_define_free c span symbol h
      rw [ht]
  refine ⟨by simp [hscopes], by simp [hscopes], fun slot => ?_⟩
  rw [contains_define, eq_slot_iff]
  simp

theorem populates_defineParams (params : List Param) (c : Checker) :
    Populates [] (params.map Param.name) c (after (defineParams params) c) := by
  induction params generalizing c with
  | nil => exact SameNames.populates ⟨rfl, rfl⟩
  | cons p rest ih =>
    have hp := populates_define p.span p.name ⟨.parameter, .of (some (paramType p))⟩ c
    exact hp.trans (local_define c _ _ _).toKept.current (ih _)

theorem populates_defineLoopVariable (span : Span) (name : Option String) (type : Option Ty)
    (c : Checker) : Populates [] name.toList c (after (defineLoopVariable span name type) c) := by
  cases name with
  | none => exact SameNames.populates ⟨rfl, rfl⟩
  | some x => exact populates_define span x _ c

/-! ## Parts that are taken up one after the other -/

/-- The state after some parts. -/
def afterParts : Checker → List Part → Checker
  | c, [] => c
  | c, part :: rest => afterParts (after part.run c) rest

theorem afterParts_append (c : Checker) (ps qs : List Part) :
    afterParts c (ps ++ qs) = afterParts (afterParts c ps) qs := by
  induction ps generalizing c with
  | nil => rfl
  | cons p ps ih => exact ih _

theorem local_run {c : Checker} (hc : c.Valid) (part : Part) : Local c (after part.run c) :=
  Part.run_along regimen_discipline part c hc

theorem local_afterParts {c : Checker} (hc : c.Valid) (parts : List Part) :
    Local c (afterParts c parts) := by
  induction parts generalizing c with
  | nil => exact (Confined.refl c).toLocal
  | cons part rest ih =>
    have hpart := local_run hc part
    exact hpart.trans (ih (hpart.valid hc))

theorem after_inferAll (es : List Expr) (c : Checker) :
    after (inferAll es) c = afterParts c (es.map .expr) := by
  induction es generalizing c with
  | nil => rfl
  | cons e es ih =>
    rw [inferAll, after_bind, after_bind, after_pure, ih]
    rfl

theorem after_checkStmts (ss : List Stmt) (c : Checker) :
    after (checkStmts ss) c = afterParts c (ss.map .stmt) := by
  induction ss generalizing c with
  | nil => rfl
  | cons s ss ih =>
    rw [checkStmts, after_bind, ih]
    rfl

theorem after_inferBlock (type : Option Ty) (ss : List Stmt) (c : Checker) :
    after (inferBlock type ss) c = afterParts c (ss.flatMap Stmt.inBlock) := by
  induction ss generalizing type c with
  | nil => rfl
  | cons s ss ih =>
    rw [List.flatMap_cons, afterParts_append]
    cases s <;> simp only [inferBlock, after_bind, ih] <;> rfl

theorem after_inferBody (b : Body) (c : Checker) :
    after (inferBody b) c = afterParts c b.parts := by
  cases b with
  | expr s e =>
    rw [inferBody]
    rfl
  | block s ss =>
    rw [inferBody]
    exact after_inferBlock _ ss c

/-- After its parts, an expression that is no function literal binds nothing. -/
theorem sameNames_infer {e : Expr} (he : (Part.expr e).isFunction = false) (c : Checker) :
    SameNames (afterParts c (Part.expr e).parts) (after (infer e) c) := by
  cases hcompound : e.isCompound with
  | true =>
    rw [infer_eq_judge hcompound, after_bind, after_inferAll, Part.parts_expr he]
    exact sameNames_judge e _ _
  | false =>
    cases e with
    | literal s v =>
      rw [infer]
      exact ⟨rfl, rfl⟩
    | var s x =>
      rw [infer]
      exact sameNames_inferVar s x c
    | function s params result b => simp [Part.isFunction] at he
    | _ => simp [Expr.isCompound] at hcompound

theorem sameNames_checkStmt {s : Stmt} (hs : (Part.stmt s).isLoop = false) (c : Checker) :
    SameNames (afterParts c s.parts) (after (checkStmt s) c) := by
  cases s with
  | loop s h b => simp [Part.isLoop] at hs
  | assign s t v =>
    rw [checkStmt]
    exact sameNames_compareTypes _ _ _ _ _
  | call s f es =>
    simp only [checkStmt, after_bind, after_inferAll]
    exact sameNames_settle _ _ _
  | ifThen s a t =>
    simp only [checkStmt, after_bind, after_checkStmts]
    exact ⟨rfl, rfl⟩
  | ifElse s a t e =>
    simp only [checkStmt, after_bind, after_checkStmts, Stmt.parts, List.map_append, afterParts,
      afterParts_append]
    exact ⟨rfl, rfl⟩
  | returnNothing s =>
    rw [checkStmt]
    exact sameNames_strayReturn s c
  | returnValue s e =>
    rw [checkStmt]
    exact sameNames_strayReturn s _
  | declaration s d =>
    rw [checkStmt]
    exact ⟨rfl, rfl⟩
  | breakLoop s =>
    rw [checkStmt]
    exact ⟨rfl, rfl⟩
  | print s es =>
    simp only [checkStmt, after_bind, after_inferAll]
    exact ⟨rfl, rfl⟩

theorem sameNames_checkHeader (h : Header) (c : Checker) :
    SameNames (afterParts c h.parts) (after (checkHeader h) c) := by
  cases h with
  | items s x e =>
    rw [checkHeader]
    exact ⟨rfl, rfl⟩
  | range s x a b =>
    rw [checkHeader]
    exact sameNames_compareTypes _ _ _ _ _
  | condition s e =>
    rw [checkHeader]
    exact ⟨rfl, rfl⟩

theorem sameNames_inferDeclared (d : Declaration) (c : Checker) :
    SameNames (after (infer d.value) { c with owner := some d.name })
      (after (inferDeclared d) c) := by
  rw [inferDeclared, after_get]
  simp only [after_bind, after_setOwner, after_pure]
  have hcompare := sameNames_compareTypes d.span .declaredType
    (answer (infer d.value) { c with owner := some d.name }) (d.typeExpr.map Ty.ofTypeExpr)
    { after (infer d.value) { c with owner := some d.name } with owner := c.owner }
  exact ⟨hcompare.scopes, hcompare.symbols⟩

/-- The state in which the scope of a function literal or a loop is left again. -/
theorem after_run_opens {part : Part} (h : part.opens = true) (c : Checker) :
    SameNames { afterParts (part.enter c) part.parts with
        scopes := (afterParts (part.enter c) part.parts).scopes.pop } (after part.run c) := by
  obtain ⟨s, params, result, b, rfl⟩ | ⟨s, hd, b, rfl⟩ := Part.exists_of_opens h
  · simp only [Part.run, infer, after_bind, after_modify, after_leaveScope, after_inferBody,
      after_pure]
    exact ⟨(sameNames_settle _ _ _).scopes, (sameNames_settle _ _ _).symbols⟩
  · simp only [Part.run, checkStmt, after_bind, after_checkStmts, after_leaveScope]
    exact ⟨rfl, rfl⟩

/-- The state in which a part that opens no scope is done. -/
theorem populates_end {part : Part} (h : part.opens = false) {c : Checker}
    (hskip : part.isSkipped c = false) :
    Populates [] part.adds (afterParts (part.enter c) part.parts) (after part.run c) := by
  obtain ⟨hfunction, hloop⟩ := Bool.or_eq_false_iff.mp h
  cases part with
  | expr e =>
    have henter : (Part.expr e).enter c = c := by
      cases e <;> simp [Part.isFunction] at hfunction <;> rfl
    rw [henter]
    exact (sameNames_infer hfunction c).populates
  | stmt s =>
    have henter : (Part.stmt s).enter c = c := by
      cases s <;> simp [Part.isLoop] at hloop <;> rfl
    rw [henter]
    exact (sameNames_checkStmt hloop c).populates
  | clause s x e => exact populates_defineLoopVariable s x _ _
  | header hd => exact (sameNames_checkHeader hd c).populates
  | declaration d =>
    have hdefine := populates_define d.span d.name ⟨.declared, .of (answer (inferDeclared d) c)⟩
      (after (inferDeclared d) c)
    have hsame := sameNames_inferDeclared d c
    show Populates [] [d.name] _ (after (checkDeclaration d) c)
    rw [after_checkDeclaration_unbound d c hskip]
    exact hsame.populates.trans (by rw [hsame.scopes]) hdefine

/-! ## Entering a scope -/

/-- Where the part is about to be taken up, it opens the given scope, with nothing in it but the
names bound before its own parts. -/
structure Opening (part : Part) (scope : Scope) (c : Checker) : Prop where
  active : (part.enter c).scopes.active = scope :: c.scopes.active
  new : ¬ c.scopes.Allocated scope
  nextFunction : (part.enter c).scopes.nextFunction =
    c.scopes.nextFunction + ([part].filter Part.isFunction).length
  nextLoop : (part.enter c).scopes.nextLoop =
    c.scopes.nextLoop + ([part].filter Part.isLoop).length
  openerOf_self : ∀ scope' o,
    openerOf c.scopes.nextFunction c.scopes.nextLoop [part] scope' = some o ↔
      scope' = scope ∧ o = part
  symbols : ∀ bound slot, (part.enter c).symbols.contains slot = true ↔
    c.symbols.contains slot = true ∨ (slot.scope = scope ∧ slot.name ∈ part.boundInside bound)
  valid : (part.enter c).Valid

theorem opening_function (s : Span) (params : List Param) (result : Option TypeExpr) (b : Body)
    {c : Checker} (hc : c.Valid) :
    Opening (.expr (.function s params result b)) (.function c.scopes.nextFunction) c := by
  have hin := ScopeStack.enters_pushFunction c.scopes
  have hlocal := local_defineParams params (after enterFunction c)
  have hpopulates := populates_defineParams params (after enterFunction c)
  refine ⟨hlocal.active, hin.new, hpopulates.nextFunction, hpopulates.nextLoop, ?_, ?_, ?_⟩
  · intro scope' o
    cases scope' with
    | main => simp [openerOf]
    | function k =>
      show itemFrom _ [_] k = some o ↔ _
      rw [itemFrom_singleton, Scope.function.injEq]
    | loop k =>
      show itemFrom _ [] k = some o ↔ _
      simp
  · intro bound slot
    have hsymbols := hpopulates.symbols slot
    simpa [ScopeStack.current, ScopeStack.pushFunction, Part.enter, Part.boundInside] using hsymbols
  · exact (hlocal.valid (hc.enter hin)).congr rfl rfl

theorem opening_loop (s : Span) (h : Header) (b : List Stmt) {c : Checker} (hc : c.Valid) :
    Opening (.stmt (.loop s h b)) (.loop c.scopes.nextLoop) c := by
  have hin := ScopeStack.enters_pushLoop c.scopes
  refine ⟨rfl, hin.new, rfl, rfl, ?_, ?_, hc.enter hin⟩
  · intro scope' o
    cases scope' with
    | main => simp [openerOf]
    | function k =>
      show itemFrom _ [] k = some o ↔ _
      simp
    | loop k =>
      show itemFrom _ [_] k = some o ↔ _
      rw [itemFrom_singleton, Scope.loop.injEq]
  · intro bound slot
    simp [Part.enter, Part.boundInside]

theorem exists_opening {part : Part} (h : part.opens = true) {c : Checker} (hc : c.Valid) :
    ∃ scope, Opening part scope c := by
  obtain ⟨s, params, result, b, rfl⟩ | ⟨s, hd, b, rfl⟩ := Part.exists_of_opens h
  · exact ⟨_, opening_function s params result b hc⟩
  · exact ⟨_, opening_loop s hd b hc⟩

theorem Opening.current {part : Part} {scope : Scope} {c : Checker} (h : Opening part scope c) :
    (part.enter c).scopes.current = scope := by
  rw [ScopeStack.current, h.active]
  rfl

/-- The new scope holds the names bound before the parts of the opener, and no others. -/
theorem Opening.knows {part : Part} {scope : Scope} {c : Checker} (h : Opening part scope c)
    (hc : c.Valid) (bound : List String) : Knows (part.enter c) (part.boundInside bound) := by
  intro x
  rw [Checker.slot, h.current, h.symbols bound]
  have hfree : ¬ c.symbols.contains ⟨scope, x⟩ = true := fun hslot => h.new (hc.slots _ hslot)
  simp [hfree]

/-- The scope of an opener is filled while its parts are taken up, and is left behind filled. -/
theorem Opening.populates {part : Part} {scope : Scope} {c d : Checker} {os : List Part}
    (h : Opening part scope c) (hopens : part.opens = true)
    (hparts : Populates os (part.parts.flatMap Part.declared) (part.enter c) d) :
    Populates ([part] ++ os) [] c { d with scopes := d.scopes.pop } where
  nextFunction := by
    rw [ScopeStack.pop_nextFunction, hparts.nextFunction, h.nextFunction, List.filter_append,
      List.length_append, Nat.add_assoc]
  nextLoop := by
    rw [ScopeStack.pop_nextLoop, hparts.nextLoop, h.nextLoop, List.filter_append,
      List.length_append, Nat.add_assoc]
  symbols := by
    intro slot
    have hbinds := Part.binds_eq hopens []
    rw [hparts.symbols, h.symbols [], h.current, h.nextFunction, h.nextLoop]
    simp only [openerOf_append, h.openerOf_self]
    constructor
    · rintro ((hc | ⟨hs, hx⟩) | ⟨hs, hx⟩ | ⟨o, ho, hx⟩)
      · exact Or.inl hc
      · refine Or.inr (Or.inr ⟨part, Or.inl ⟨hs, rfl⟩, ?_⟩)
        rw [hbinds]
        exact List.mem_append_left _ hx
      · refine Or.inr (Or.inr ⟨part, Or.inl ⟨hs, rfl⟩, ?_⟩)
        rw [hbinds]
        exact List.mem_append_right _ hx
      · exact Or.inr (Or.inr ⟨o, Or.inr ho, hx⟩)
    · rintro (hc | ⟨-, hx⟩ | ⟨o, ⟨hs, rfl⟩ | ho, hx⟩)
      · exact Or.inl (Or.inl hc)
      · cases hx
      · rw [hbinds] at hx
        rcases List.mem_append.mp hx with hx | hx
        · exact Or.inl (Or.inr ⟨hs, hx⟩)
        · exact Or.inr (Or.inl ⟨hs, hx⟩)
      · exact Or.inr (Or.inr ⟨o, ho, hx⟩)

/-! ## The walk -/

theorem enter_of_not_opens {part : Part} (h : part.opens = false) (c : Checker) :
    SameNames c (part.enter c) := by
  obtain ⟨hfunction, hloop⟩ := Bool.or_eq_false_iff.mp h
  cases part with
  | expr e => cases e <;> simp [Part.isFunction] at hfunction <;> exact ⟨rfl, rfl⟩
  | stmt s => cases s <;> simp [Part.isLoop] at hloop <;> exact ⟨rfl, rfl⟩
  | clause _ _ _ | header _ | declaration _ => exact ⟨rfl, rfl⟩

theorem isSkipped_eq_isRefused {c : Checker} {bound : List String} (h : Knows c bound)
    (part : Part) : part.isSkipped c = part.isRefused bound := by
  cases part with
  | declaration d =>
    rw [Part.isSkipped, Part.isRefused, Bool.eq_iff_iff, h d.name]
    simp
  | expr _ | stmt _ | clause _ _ _ | header _ => rfl

theorem populates_refused {c : Checker} {part : Part} (h : part.isSkipped c = true) :
    Populates [] part.declared c (after part.run c) := by
  cases part with
  | declaration d =>
    -- binding a name that is bound already comes to the same
    have hdefine := populates_define d.span d.name ⟨.declared, .of none⟩ c
    rw [after_define_taken c d.span _ h, ← after_checkDeclaration_bound d c h] at hdefine
    exact hdefine
  | expr _ | stmt _ | clause _ _ _ | header _ => cases h

theorem populates_afterParts {parts : List Part}
    (h : ∀ part ∈ parts, ∀ bound c, c.Valid → Knows c bound →
      Populates (part.openers bound) part.declared c (after part.run c))
    {bound : List String} {c : Checker} (hc : c.Valid) (hknows : Knows c bound) :
    Populates (partsOpeners bound parts) (parts.flatMap Part.declared) c (afterParts c parts) := by
  induction parts generalizing bound c with
  | nil => exact SameNames.populates ⟨rfl, rfl⟩
  | cons part rest ih =>
    have hpart := h part List.mem_cons_self bound c hc hknows
    have hlocal := local_run hc part
    have hrest := ih (fun q hq => h q (List.mem_cons_of_mem _ hq)) (hlocal.valid hc)
      (hpart.knows hc hlocal.toKept hknows)
    exact hpart.trans hlocal.toKept.current hrest

/-- The inner state of a part: valid, and with known names. -/
theorem knows_enter (part : Part) {bound : List String} {c : Checker} (hc : c.Valid)
    (hknows : Knows c bound) :
    (part.enter c).Valid ∧ Knows (part.enter c) (part.boundInside bound) := by
  cases hopens : part.opens with
  | true =>
    obtain ⟨scope, hopening⟩ := exists_opening hopens hc
    exact ⟨hopening.valid, hopening.knows hc bound⟩
  | false =>
    have hsame := enter_of_not_opens hopens c
    refine ⟨hc.congr hsame.scopes hsame.symbols, ?_⟩
    intro x
    rw [Part.boundInside_of_not_opens hopens, Checker.slot, hsame.scopes, hsame.symbols]
    exact hknows x

/-- What a part does to the scope numbers and to the names, wherever the walk takes it up. -/
theorem populates_run (part : Part) (bound : List String) (c : Checker) (hc : c.Valid)
    (hknows : Knows c bound) :
    Populates (part.openers bound) part.declared c (after part.run c) := by
  -- the parts of a part are taken up in the state that it enters, where other names may be known
  induction part using Part.parts_induction generalizing bound c with
  | h part ih =>
    have hskip := isSkipped_eq_isRefused hknows part
    cases hrefused : part.isRefused bound with
    | true =>
      rw [Part.openers_of_isRefused hrefused]
      exact populates_refused (hskip.trans hrefused)
    | false =>
      obtain ⟨hvalid, hinside⟩ := knows_enter part hc hknows
      have hparts := populates_afterParts ih hvalid hinside
      rw [Part.openers_eq hrefused, Part.self]
      cases hopens : part.opens with
      | true =>
        obtain ⟨scope, hopening⟩ := exists_opening hopens hc
        rw [Part.declared_of_opens hopens, if_pos rfl]
        exact (hopening.populates hopens hparts).congr (after_run_opens hopens c)
      | false =>
        have hsame := enter_of_not_opens hopens c
        have hend := populates_end hopens (hskip.trans hrefused)
        have hcurrent := (local_afterParts hvalid part.parts).toKept.current
        have hall := hsame.populates.trans (by rw [hsame.scopes]) (hparts.trans hcurrent hend)
        rw [Part.declared_eq hopens]
        simpa using hall

theorem after_checkDeclarations (ds : List Declaration) (c : Checker) :
    after (checkDeclarations ds) c = afterParts c (ds.map .declaration) := by
  induction ds generalizing c with
  | nil => rfl
  | cons d rest ih => exact ih _

end Checker

/-! ## The points at which scopes are opened -/

namespace Point

/-- The walk comes from the first point to the second on its way through the parts of the first. -/
def LeadsTo : Point → Point → Prop := Relation.ReflTransGen fun q r => r ∈ q.inner

/-- At the point, the walk opens the scope and goes on inside it. -/
def Opens (q : Point) (scope : Scope) : Prop :=
  (q.part.enter q.state).scopes.active = scope :: q.state.scopes.active

/-- From the point on, the walk comes to the opener and opens the scope for it. -/
def Finds (q : Point) (scope : Scope) (opener : Part) : Prop :=
  ∃ r, q.LeadsTo r ∧ r.part = opener ∧ r.Opens scope

theorem finds_iff {q : Point} {scope : Scope} {opener : Part} :
    q.Finds scope opener ↔
      (q.part = opener ∧ q.Opens scope) ∨ ∃ r ∈ q.inner, r.Finds scope opener := by
  constructor
  · rintro ⟨r, hleads, hpart, hopens⟩
    rcases Relation.ReflTransGen.cases_head hleads with rfl | ⟨next, hnext, hleads⟩
    · exact Or.inl ⟨hpart, hopens⟩
    · exact Or.inr ⟨next, hnext, r, hleads, hpart, hopens⟩
  · rintro (⟨hpart, hopens⟩ | ⟨next, hnext, r, hleads, hpart, hopens⟩)
    · exact ⟨q, .refl, hpart, hopens⟩
    · exact ⟨r, .head hnext hleads, hpart, hopens⟩

end Point

open Checker

/-- Openers found one part after the other. -/
theorem openerOf_iff_pointsOf {parts : List Part} {scope : Scope} {opener : Part}
    (h : ∀ part ∈ parts, ∀ bound c enclosing, c.Valid → Knows c bound →
      (openerOf c.scopes.nextFunction c.scopes.nextLoop (part.openers bound) scope = some opener ↔
        (⟨enclosing, part, c⟩ : Point).Finds scope opener))
    {bound : List String} {c : Checker} (enclosing : List String) (hc : c.Valid)
    (hknows : Knows c bound) :
    openerOf c.scopes.nextFunction c.scopes.nextLoop (partsOpeners bound parts) scope =
        some opener ↔ ∃ q ∈ pointsOf enclosing c parts, q.Finds scope opener := by
  induction parts generalizing bound c with
  | nil => simp [partsOpeners, pointsOf]
  | cons part rest ih =>
    have hpart := populates_run part bound c hc hknows
    have hlocal := local_run hc part
    rw [partsOpeners, openerOf_append, ← hpart.nextFunction, ← hpart.nextLoop,
      h part List.mem_cons_self bound c enclosing hc hknows,
      ih (fun q hq => h q (List.mem_cons_of_mem _ hq)) (hlocal.valid hc)
        (hpart.knows hc hlocal.toKept hknows)]
    simp [pointsOf]

/-- The opener of a scope, found in the text, is the part for which the walk opens the scope. -/
theorem openerOf_iff (part : Part) (scope : Scope) (opener : Part) (bound : List String)
    (c : Checker) (enclosing : List String) (hc : c.Valid) (hknows : Knows c bound) :
    openerOf c.scopes.nextFunction c.scopes.nextLoop (part.openers bound) scope = some opener ↔
      (⟨enclosing, part, c⟩ : Point).Finds scope opener := by
  induction part using Part.parts_induction generalizing bound c enclosing with
  | h part ih =>
    have hskip := isSkipped_eq_isRefused hknows part
    obtain ⟨hvalid, hinside⟩ := knows_enter part hc hknows
    have hparts := openerOf_iff_pointsOf ih (part.declares ++ enclosing) hvalid hinside
    rw [Point.finds_iff]
    simp only [mem_inner_iff, hskip]
    cases hopens : part.opens with
    | true =>
      obtain ⟨scope', hopening⟩ := exists_opening hopens hc
      have hrefused := Part.isRefused_of_opens hopens bound
      have hself : (⟨enclosing, part, c⟩ : Point).Opens scope ↔ scope = scope' := by
        rw [Point.Opens, hopening.active]
        simp [eq_comm]
      rw [Part.openers_eq hrefused, Part.self, if_pos hopens, openerOf_append,
        hopening.openerOf_self, ← hopening.nextFunction, ← hopening.nextLoop, hparts, hself]
      simp [hrefused, and_comm, eq_comm]
    | false =>
      have hsame := enter_of_not_opens hopens c
      have hself : ¬ (⟨enclosing, part, c⟩ : Point).Opens scope := by
        rw [Point.Opens, hsame.scopes]
        exact (List.cons_ne_self _ _).symm
      cases hrefused : part.isRefused bound with
      | true =>
        rw [Part.openers_of_isRefused hrefused]
        simp [hself]
      | false =>
        rw [hsame.scopes] at hparts
        rw [Part.openers_eq hrefused, Part.self, if_neg (by simp [hopens]), List.nil_append, hparts]
        simp [hself]

theorem Program.reaches_iff {p : Program} {q : Point} :
    p.Reaches q ↔ ∃ r ∈ pointsOf [] .initial (p.declarations.map .declaration), r.LeadsTo q := by
  constructor
  · intro h
    induction h with
    | start hq => exact ⟨_, hq, .refl⟩
    | inner _ hr ih =>
      obtain ⟨first, hfirst, hleads⟩ := ih
      exact ⟨first, hfirst, hleads.tail hr⟩
  · rintro ⟨first, hfirst, hleads⟩
    induction hleads with
    | refl => exact .start hfirst
    | tail _ hr ih => exact .inner ih hr

/-! ## Whole programs -/

namespace Program

/-- The opener of a scope: the function literal or the loop with the number of the scope, counted
from 0 in the order of the text. -/
def opener? (p : Program) : Scope → Option Part
  | .main => none
  | .function k => (p.openers.filter Part.isFunction)[k]?
  | .loop k => (p.openers.filter Part.isLoop)[k]?

/-- The names of a scope. -/
def namesIn (p : Program) : Scope → List String
  | .main => p.declarations.map Declaration.name
  | scope => ((p.opener? scope).map Part.binds).getD []

theorem mem_namesIn {p : Program} {scope : Scope} {x : String} :
    x ∈ p.namesIn scope ↔ (scope = .main ∧ x ∈ p.declarations.map Declaration.name) ∨
      ∃ opener, p.opener? scope = some opener ∧ x ∈ opener.binds := by
  cases scope with
  | main => simp [namesIn, opener?]
  | function k => cases hopener : p.opener? (.function k) <;> simp [namesIn, hopener]
  | loop k => cases hopener : p.opener? (.loop k) <;> simp [namesIn, hopener]

theorem openerOf_openers (p : Program) (scope : Scope) :
    openerOf 0 0 p.openers scope = p.opener? scope := by
  cases scope <;> simp [openerOf, itemFrom, opener?]

/-- What checking a program as a whole does to the scope numbers and to the names. -/
theorem populates_check (p : Program) :
    Populates p.openers (p.declarations.map Declaration.name) initial (initial.check p) := by
  have hparts : Populates p.openers ((p.declarations.map Part.declaration).flatMap Part.declared)
      initial (afterParts initial (p.declarations.map .declaration)) :=
    populates_afterParts (fun part _ => populates_run part) valid_initial knows_initial
  have hnames : (p.declarations.map Part.declaration).flatMap Part.declared =
      p.declarations.map Declaration.name := by
    rw [List.flatMap_map, List.map_eq_flatMap]
    rfl
  rw [hnames, ← after_checkDeclarations, ← check_eq_after] at hparts
  exact hparts

/-- The opener of a scope is the part for which the walk opens the scope. -/
theorem opener?_eq_some_iff {p : Program} {scope : Scope} {opener : Part} :
    p.opener? scope = some opener ↔ ∃ q, p.Reaches q ∧ q.part = opener ∧ q.Opens scope := by
  have hfinds : openerOf 0 0 p.openers scope = some opener ↔
      ∃ q ∈ pointsOf [] initial (p.declarations.map .declaration), q.Finds scope opener :=
    openerOf_iff_pointsOf (fun part _ => openerOf_iff part scope opener) [] valid_initial
      knows_initial
  rw [← openerOf_openers, hfinds]
  simp only [reaches_iff]
  constructor
  · rintro ⟨first, hfirst, q, hleads, hpart, hopens⟩
    exact ⟨q, ⟨first, hfirst, hleads⟩, hpart, hopens⟩
  · rintro ⟨q, ⟨first, hfirst, hleads⟩, hpart, hopens⟩
    exact ⟨first, hfirst, q, hleads, hpart, hopens⟩

/-- Scope numbers follow the text. The function literals and loops of a program that are not in the
value of a refused declaration begin one behind the other. The scope `function<k>` is the one that
the walk opens for the `k`-th of these function literals, and `loop<k>` is the one it opens for the
`k`-th of these loops. In the end there are no other scopes than these and the main one, and each
holds the parameters of its function or the variable of its loop, and the names declared directly in
its body. -/
theorem check_scopes {text : List Char} {p : Program} (h : Program.ofText text = .ok p) :
    p.openers.Pairwise (fun a b => a.span.start < b.span.start) ∧
    (∀ scope opener, p.opener? scope = some opener ↔
      ∃ q, p.Reaches q ∧ q.part = opener ∧ q.Opens scope) ∧
    (initial.check p).scopes = ⟨[.main], (p.openers.filter Part.isFunction).length,
      (p.openers.filter Part.isLoop).length⟩ ∧
    ∀ scope x, (initial.check p).symbols.contains ⟨scope, x⟩ = true ↔ x ∈ p.namesIn scope := by
  have hpopulates := p.populates_check
  refine ⟨openers_ascending h, fun _ _ => opener?_eq_some_iff, ?_, ?_⟩
  · have hactive : (initial.check p).scopes.active = [.main] := (local_check valid_initial p).active
    have hfunctions := hpopulates.nextFunction
    have hloops := hpopulates.nextLoop
    simp only [initial, ScopeStack.initial, Nat.zero_add] at hfunctions hloops
    rw [← hactive, ← hfunctions, ← hloops]
    rfl
  · intro scope x
    have hfree : initial.symbols.contains ⟨scope, x⟩ = false := rfl
    have hopener : openerOf initial.scopes.nextFunction initial.scopes.nextLoop p.openers scope =
        p.opener? scope := p.openerOf_openers scope
    rw [hpopulates.symbols, hfree, hopener, mem_namesIn]
    simp [initial, ScopeStack.initial, ScopeStack.current]

/-- A loop with a function in its header, a function in a branch of a choice, and two declarations
that are refused: one has the name of a parameter, the other is a second one at the top level. -/
def scopesText : List Char :=
  ("f is func(a) do for i in func(b) => b loop x is i end; a is func() => 1; " ++
    "if a then y is func() => 2 end end; f is func() => 3").toList

theorem check_scopes_scopesText :
    ∃ p, Program.ofText scopesText = .ok p ∧
      (p.openers.filter Part.isFunction).map (fun o => o.span.start) = [5, 25, 88] ∧
      (p.openers.filter Part.isLoop).map (fun o => o.span.start) = [16] ∧
      (initial.check p).scopes = ⟨[.main], 3, 1⟩ ∧
      (∃ q, p.Reaches q ∧ q.part.span.start = 25 ∧ q.Opens (.function 1)) ∧
      (∀ x, (initial.check p).symbols.contains ⟨.function 0, x⟩ = true ↔ x ∈ ["a", "a", "y"]) ∧
      ∀ x, (initial.check p).symbols.contains ⟨.loop 0, x⟩ = true ↔ x ∈ ["i", "x"] := by
  have hfacts : (Program.ofText scopesText).toOption.map (fun p =>
      (((p.openers.filter Part.isFunction).map (fun o => o.span.start),
        (p.openers.filter Part.isLoop).map (fun o => o.span.start)),
        (p.namesIn (.function 0), p.namesIn (.loop 0)))) =
      some (([5, 25, 88], [16]), (["a", "a", "y"], ["i", "x"])) := by decide +kernel
  cases hp : Program.ofText scopesText with
  | error e => simp [hp, Except.toOption] at hfacts
  | ok p =>
    rw [hp] at hfacts
    have hfacts := Option.some.inj hfacts
    simp only [Prod.mk.injEq] at hfacts
    obtain ⟨⟨hfunctions, hloops⟩, hfunction, hloop⟩ := hfacts
    obtain ⟨-, hopeners, hscopes, hnames⟩ := check_scopes hp
    have hcounts : (p.openers.filter Part.isFunction).length = 3 ∧
        (p.openers.filter Part.isLoop).length = 1 :=
      ⟨by simpa using congrArg List.length hfunctions, by simpa using congrArg List.length hloops⟩
    have hopener : (p.opener? (.function 1)).map (fun o => o.span.start) = some 25 := by
      rw [opener?, ← List.getElem?_map, hfunctions]
      rfl
    obtain ⟨o, ho, hstart⟩ := Option.map_eq_some_iff.mp hopener
    obtain ⟨q, hq, hpart, hopens⟩ := (hopeners _ _).mp ho
    exact ⟨p, rfl, hfunctions, hloops, by rw [hscopes, hcounts.1, hcounts.2],
      ⟨q, hq, by rw [hpart, hstart], hopens⟩, fun x => by rw [hnames, hfunction],
      fun x => by rw [hnames, hloop]⟩

end Program

end ExprCheck
